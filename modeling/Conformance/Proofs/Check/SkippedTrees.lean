import Conformance.Proofs.Check.ExposedReading
import Conformance.Proofs.FileSystem.Overwrite

namespace Conformance

open Path FileSystem

def Hidden (top place : List String) : Prop :=
  ∃ names, place = top ++ names ∧ ∃ dir ∈ names.dropLast, dir ∈ alwaysSkipped

def FileSystem.KeepsOut (files : FileSystem) (root : Path) (top : List String) : Prop :=
  ∀ p, Exposed root p → ∀ place, files.resolve? p = some place → ¬ Hidden top place

theorem FileSystem.raw_ne_empty_of_resolve? {files : FileSystem} {p : Path} {place : List String}
    (resolved : files.resolve? p = some place) : p.raw ≠ "" := by
  rintro empty
  simp [resolve?, reach, reachAlong, empty] at resolved

theorem FileSystem.keepsOut_of_linkFree {files : FileSystem} {root : Path} {top : List String}
    (free : files.root.linkFree = true) (placed : files.resolve? root = some top) : files.KeepsOut root top := by
  rintro p ⟨names, rfl, proper, entered⟩ place resolved ⟨names', rfl, dir, member, skipped⟩
  have spelled := spelledPlace_of_resolve? free resolved
  rw [spelledPlace_below (raw_ne_empty_of_resolve? placed) proper, spelledPlace_of_resolve? free placed] at spelled
  obtain rfl := List.append_cancel_left spelled
  exact entered dir member skipped

namespace Check

/-- Other bytes in hidden files change no result, if no link leads there, no changed file is a Swift
file that a check of the application reads, and none is a module that the manifest names for a route. -/
theorem run_of_hidden {files other : FileSystem} {root : Path} {top : List String} (wellFormed : files.root.WellFormed)
    (placed : files.resolve? root = some top) (keeps : files.KeepsOut root top) {changed : List String → Prop}
    (hidden : ∀ place, changed place → Hidden top place) (alike : files.AlikeOutside changed other) {check : Check}
    (registered : check ∈ registry)
    (swift : check = appLayers ∨ check = networkAccess → ∀ p, App.IsSwift root p →
      ∀ place, files.resolve? p = some place → ¬ changed place)
    (modules : check = endpoints → ∀ entries, (Endpoint.Manifest.read files (.ofRoot root)).run = .ok (.ok entries) →
      ∀ e ∈ entries, e.handler ≠ "" → e.route ≠ "" →
        ∀ place, files.resolve? (Endpoints.handlerPath root e) = some place → ¬ changed place) :
    run ⟨files, .ofRoot root⟩ check = run ⟨other, .ofRoot root⟩ check := by
  have nonempty := raw_ne_empty_of_resolve? placed
  have below : AlikeBelow root files other :=
    ⟨alike.shape, fun p exposed => alike.read_eq fun place leads own => keeps p exposed place leads (hidden place own)⟩
  have found := find_of_alikeBelow nonempty wellFormed below registered
    (fun own p isSwift => alike.read_eq (swift own p isSwift))
    (fun own entries read e member handled routed => alike.read_eq (modules own entries read e member handled routed))
  unfold run
  rw [found]

/-- A repository with a Swift file and a source of the functions that lie in skipped directories. -/
def builtFiles : FileSystem :=
  ⟨.dir [("repo", .dir
    [("ios", .dir [("BradOS", .dir [("BradOS", .dir [("build", .dir [("X.swift", .file "".toUTF8)])])])]),
      ("packages", .dir [("functions", .dir [("src", .dir
        [("build", .dir [("x.ts", .file "".toUTF8)]), ("index.ts", .file "console.log(1)".toUTF8)])])])])], []⟩

theorem built_wellFormed : builtFiles.root.WellFormed := by
  decide

theorem built_source_hidden : ∀ place, place = ["repo", "packages", "functions", "src", "build", "x.ts"] →
    Hidden ["repo"] place := by
  rintro _ rfl
  exact ⟨["packages", "functions", "src", "build", "x.ts"], rfl, "build", by decide, by decide⟩

theorem built_source_unseen : (run ⟨builtFiles, .ofRoot "/repo"⟩ consoleUse).passed = false ∧
    run ⟨builtFiles, .ofRoot "/repo"⟩ consoleUse = run ⟨builtFiles.overwrite
      ["repo", "packages", "functions", "src", "build", "x.ts"] "console.log(2)".toUTF8, .ofRoot "/repo"⟩ consoleUse := by
  have placed : builtFiles.resolve? "/repo" = some ["repo"] := by decide +kernel
  have app : consoleUse ≠ appLayers := fun same => absurd (congrArg Check.id same) (by decide)
  have network : consoleUse ≠ networkAccess := fun same => absurd (congrArg Check.id same) (by decide)
  have manifest : consoleUse ≠ endpoints := fun same => absurd (congrArg Check.id same) (by decide)
  exact ⟨by decide +kernel, run_of_hidden built_wellFormed placed (keepsOut_of_linkFree (by decide +kernel) placed)
    built_source_hidden (alikeOutside_overwrite _ _ _) (by simp [registry])
    (fun own => absurd own (not_or.mpr ⟨app, network⟩)) (fun own => absurd own manifest)⟩

theorem built_session_seen : networkAccess ∈ registry ∧
    Hidden ["repo"] ["repo", "ios", "BradOS", "BradOS", "build", "X.swift"] ∧
    run ⟨builtFiles, .ofRoot "/repo"⟩ networkAccess ≠ run ⟨builtFiles.overwrite
      ["repo", "ios", "BradOS", "BradOS", "build", "X.swift"] "URLSession".toUTF8, .ofRoot "/repo"⟩ networkAccess := by
  refine ⟨by simp [registry], ⟨["ios", "BradOS", "BradOS", "build", "X.swift"], rfl, "build", by decide, by decide⟩, ?_⟩
  intro same
  have passed := congrArg CheckResult.passed same
  revert passed
  decide +kernel

end Check

end Conformance
