import Conformance.Proofs.Check.ImportReading
import Conformance.Proofs.Source.ImportStatement

namespace Conformance.Check.Layering

open Path FileSystem Source

def foundAt (repo : Repository) (source : Path) : List Violation :=
  match Layer.ofPath? repo.layout.functions source with
  | none => []
  | some layer => repo.inspectFile (inspect repo.layout.functions source layer) source

theorem find_eq_flatMap (repo : Repository) :
    find repo = (repo.files.sourceFiles (skipping ["__tests__", "test-utils"]) repo.layout.functions).flatMap
      (foundAt repo) := rfl

/-- At `place`, from the root of the file system on, there is a repository where the layer has a source
below the directories `dirs` that consists of one statement. -/
structure OneImport (fs : FileSystem) (root : Path) (place : List String) (layer : Layer) (dirs : List String)
    (file : String) (name spec ending : List Char) : Prop where
  plain : root.components = .root :: place.map .name
  tree : ∃ entries, fs.node? (Layout.ofRoot root).functions = some (.dir entries) ∧ (Node.dir entries).WellFormed ∧
    (Node.dir entries).at? (layer.dir :: dirs ++ [file]) =
      some (.file (String.ofList (Import.statement name spec ending)).toUTF8)
  entered : ∀ dir ∈ dirs, dir ∉ skipping ["__tests__", "test-utils"]
  source : isSourceName file = true
  room : fits ((Layout.ofRoot root).functions.below (layer.dir :: dirs ++ [file])) = true
  word : ∀ c ∈ name, Text.isWord c = true
  free : ∀ c ∈ spec, Pattern.isMark c = false
  blank : ∀ c ∈ ending, Text.isBlank c = true

def InLayer (place : List String) (layer : Layer) (dest : List String) : Prop :=
  ∃ next rest, dest = place ++ functionsPlace ++ layer.dir :: next :: rest

namespace OneImport

variable {fs : FileSystem} {root : Path} {place : List String} {layer : Layer} {dirs : List String} {file : String}
  {name spec ending : List Char}

theorem raw_ne_empty (h : OneImport fs root place layer dirs file name spec ending) : root.raw ≠ "" := by
  intro empty
  have none := (components_eq_nil_iff root).mpr empty
  rw [h.plain] at none
  cases none

theorem functions (h : OneImport fs root place layer dirs file name spec ending) :
    (Layout.ofRoot root).functions = root.below functionsPlace :=
  functions_ofRoot h.raw_ne_empty

theorem nonempty (h : OneImport fs root place layer dirs file name spec ending) :
    (root.below functionsPlace).raw ≠ "" :=
  raw_below_ne_empty h.raw_ne_empty isName_functionsPlace

theorem components_functions (h : OneImport fs root place layer dirs file name spec ending) :
    (root.below functionsPlace).components = [.root] ++ (place ++ functionsPlace).map .name := by
  rw [components_below h.raw_ne_empty isName_functionsPlace, h.plain, List.map_append]
  rfl

theorem proper (h : OneImport fs root place layer dirs file name spec ending) :
    ∀ n ∈ layer.dir :: dirs ++ [file], IsName n := by
  obtain ⟨entries, _, wellFormed, there⟩ := h.tree
  exact wellFormed.isName there

/-- The walk meets the source once. -/
theorem exists_split (h : OneImport fs root place layer dirs file name spec ending) :
    ∃ before after, fs.sourceFiles (skipping ["__tests__", "test-utils"]) (root.below functionsPlace) =
        before ++ (root.below functionsPlace).below (layer.dir :: dirs ++ [file]) :: after ∧
      (root.below functionsPlace).below (layer.dir :: dirs ++ [file]) ∉ before ++ after := by
  obtain ⟨entries, leads, wellFormed, there⟩ := h.tree
  rw [h.functions] at leads
  have walked : fs.sourceFiles (skipping ["__tests__", "test-utils"]) (root.below functionsPlace) =
      (filesIn rules isSourceName entries).map fun p => (root.below functionsPlace).below p.names :=
    collectFiles_eq rules isSourceName leads
  have nodup := nodup_collectFiles rules isSourceName leads wellFormed h.nonempty
  have entered : ∀ dir ∈ layer.dir :: dirs, rules.enters dir = true := by
    have top : rules.enters layer.dir = true := by cases layer <;> decide
    intro dir member
    rcases List.mem_cons.mp member with rfl | inner
    · exact top
    · have kept := h.entered dir inner
      simpa [WalkRules.enters, rules] using kept
  have met : ⟨layer.dir :: dirs, file, false⟩ ∈ filesIn rules isSourceName entries := by
    have inside := (mem_placesIn_file wellFormed).mpr ⟨⟨_, there⟩, entered, Or.inr rfl⟩
    simpa [filesIn, h.source] using inside
  have listed := List.mem_map_of_mem (f := fun p : Place => (root.below functionsPlace).below p.names) met
  rw [← walked] at listed
  obtain ⟨before, after, cut⟩ := List.append_of_mem listed
  refine ⟨before, after, cut, ?_⟩
  have distinct : (before ++ (root.below functionsPlace).below (layer.dir :: dirs ++ [file]) :: after).Nodup :=
    cut ▸ nodup
  exact (List.nodup_middle.mp distinct |> List.nodup_cons.mp).1

theorem ofPath?_source (h : OneImport fs root place layer dirs file name spec ending) :
    Layer.ofPath? (root.below functionsPlace) ((root.below functionsPlace).below (layer.dir :: dirs ++ [file])) =
      some layer := by
  have own : ((root.below functionsPlace).below (layer.dir :: dirs ++ [file])).components =
      [.root] ++ (place ++ functionsPlace ++ (layer.dir :: dirs ++ [file])).map .name := by
    rw [components_below h.nonempty h.proper, h.components_functions, List.append_assoc]
    exact congrArg (Component.root :: ·) List.map_append.symm
  rw [Layer.ofPath?_of_names h.components_functions own, Layer.ofPlace?_eq_some_iff]
  cases dirs with
  | nil => exact ⟨file, [], rfl⟩
  | cons dir dirs => exact ⟨dir, dirs ++ [file], rfl⟩

theorem read_source (h : OneImport fs root place layer dirs file name spec ending) :
    fs.read ((root.below functionsPlace).below (layer.dir :: dirs ++ [file])) =
      .ok (Import.statement name spec ending) := by
  obtain ⟨entries, leads, _, there⟩ := h.tree
  have room := h.room
  rw [h.functions] at leads room
  rw [read_of_node? (node?_below leads there (by simp) h.proper room), textOf_toUTF8, String.toList_ofList]

theorem relative_source (h : OneImport fs root place layer dirs file name spec ending) :
    Repository.relative ⟨fs, .ofRoot root⟩ ((root.below functionsPlace).below (layer.dir :: dirs ++ [file])) =
      "/".intercalate (functionsPlace ++ (layer.dir :: dirs ++ [file])) := by
  have proper : ∀ n ∈ functionsPlace ++ (layer.dir :: dirs ++ [file]), IsName n := by
    intro n member
    rcases List.mem_append.mp member with outer | inner
    · exact isName_functionsPlace n outer
    · exact h.proper n inner
  rw [← below_append]
  exact relativeTo_below h.raw_ne_empty proper

theorem foundAt_source (h : OneImport fs root place layer dirs file name spec ending) :
    foundAt ⟨fs, .ofRoot root⟩ ((root.below functionsPlace).below (layer.dir :: dirs ++ [file])) =
      (if spec = [] then [] else [(⟨String.ofList spec, 1⟩ : Import)]).filterMap fun i =>
        verdict layer ("/".intercalate (functionsPlace ++ (layer.dir :: dirs ++ [file]))) i
          (targetOf? (root.below functionsPlace) ((root.below functionsPlace).below (layer.dir :: dirs ++ [file])) i) := by
  have imports := Import.ofText_statement h.word h.free h.blank
  unfold foundAt
  simp only [h.functions, h.ofPath?_source, Repository.inspectFile, h.read_source, h.relative_source, inspect, imports]
  rfl

theorem target_source (h : OneImport fs root place layer dirs file name spec ending)
    (relative : Text.startsWith spec "." = true) {dest : List String}
    (resolves : Resolves (place ++ functionsPlace ++ layer.dir :: dirs) (segments ⟨String.ofList spec⟩) dest) (line : Nat) :
    targetOf? (root.below functionsPlace) ((root.below functionsPlace).below (layer.dir :: dirs ++ [file]))
      ⟨String.ofList spec, line⟩ = Layer.ofPlace? (place ++ functionsPlace) dest := by
  have own : Import.isRelative ⟨String.ofList spec, line⟩ = true := by
    simpa [Import.isRelative] using relative
  rw [targetOf?_of_plain (Or.inr rfl) h.components_functions h.nonempty h.proper own]
  exact congrArg _ resolves.landing_eq

theorem foundAt_eq_nil (h : OneImport fs root place layer dirs file name spec ending)
    (nowhere : targetOf? (root.below functionsPlace) ((root.below functionsPlace).below (layer.dir :: dirs ++ [file]))
      ⟨String.ofList spec, 1⟩ = none) :
    foundAt ⟨fs, .ofRoot root⟩ ((root.below functionsPlace).below (layer.dir :: dirs ++ [file])) = [] := by
  rw [h.foundAt_source]
  by_cases present : spec = []
  · rw [if_pos present, List.filterMap_nil]
  · rw [if_neg present, List.filterMap_cons, nowhere, verdict, List.filterMap_nil]

end OneImport

theorem targetOf?_of_not_relative {spec : List Char} (absolute : Text.startsWith spec "." = false) (functions source : Path)
    (line : Nat) : targetOf? functions source ⟨String.ofList spec, line⟩ = none := by
  simp [targetOf?, Import.isRelative, absolute]

/-- A source of one import gives one violation, on its line 1, if the import leads lexically into a layer
that may not be used, and none if it leads into one that may; an import that leads into no layer, or is
not relative, gives none. All other violations come from the other sources. -/
theorem find_of_oneImport {fs : FileSystem} {root : Path} {place : List String} {layer : Layer} {dirs : List String}
    {file : String} {name spec ending : List Char} (h : OneImport fs root place layer dirs file name spec ending) :
    ∃ (before after : List Path) (own : List Violation),
      fs.sourceFiles (skipping ["__tests__", "test-utils"]) (Layout.ofRoot root).functions =
        before ++ (Layout.ofRoot root).functions.below (layer.dir :: dirs ++ [file]) :: after ∧
      (Layout.ofRoot root).functions.below (layer.dir :: dirs ++ [file]) ∉ before ++ after ∧
      Check.layering.find ⟨fs, .ofRoot root⟩ =
        .ok (before.flatMap (foundAt ⟨fs, .ofRoot root⟩) ++ own ++ after.flatMap (foundAt ⟨fs, .ofRoot root⟩)) ∧
      (∀ dest target, Text.startsWith spec "." = true →
        Resolves (place ++ functionsPlace ++ layer.dir :: dirs) (segments ⟨String.ofList spec⟩) dest →
        InLayer place target dest → own = if layer.allows target then [] else
          [violation ("/".intercalate (functionsPlace ++ (layer.dir :: dirs ++ [file]))) layer target
            ⟨String.ofList spec, 1⟩]) ∧
      (∀ dest, Resolves (place ++ functionsPlace ++ layer.dir :: dirs) (segments ⟨String.ofList spec⟩) dest →
        (∀ target, ¬ InLayer place target dest) → own = []) ∧
      (Text.startsWith spec "." = false → own = []) := by
  obtain ⟨before, after, cut, others⟩ := h.exists_split
  rw [h.functions]
  refine ⟨before, after, foundAt ⟨fs, .ofRoot root⟩ ((root.below functionsPlace).below (layer.dir :: dirs ++ [file])),
    cut, others, ?_, ?_, ?_, ?_⟩
  · change Except.ok (find _) = _
    rw [find_eq_flatMap]
    simp only [h.functions, cut, List.flatMap_append, List.flatMap_cons, List.append_assoc]
  · intro dest target relative resolves inside
    have present : spec ≠ [] := by
      rintro rfl
      cases relative
    obtain ⟨next, rest, lies⟩ := inside
    have leads : Layer.ofPlace? (place ++ functionsPlace) dest = some target :=
      Layer.ofPlace?_eq_some_iff.mpr ⟨next, rest, lies⟩
    rw [h.foundAt_source, if_neg present, List.filterMap_cons, h.target_source relative resolves, leads, verdict]
    by_cases allowed : layer.allows target = true <;> simp [allowed]
  · intro dest resolves outer
    apply h.foundAt_eq_nil
    by_cases relative : Text.startsWith spec "." = true
    · rw [h.target_source relative resolves, Option.eq_none_iff_forall_ne_some]
      intro target leads
      exact outer target (Layer.ofPlace?_eq_some_iff.mp leads)
    · exact targetOf?_of_not_relative (by simpa using relative) _ _ 1
  · intro absolute
    exact h.foundAt_eq_nil (targetOf?_of_not_relative absolute _ _ 1)

def detourFunctions : List (String × Node) :=
  [("services", .dir [("deep", .dir [("a.ts", .file "import { x } from './/../../types/.././handlers/b.js';".toUTF8)])])]

def detourFiles : FileSystem :=
  ⟨.dir [("repo", .dir [("packages", .dir [("functions", .dir [("src", .dir detourFunctions)])])])], []⟩

theorem detour_oneImport : OneImport detourFiles "/repo" ["repo"] .services ["deep"] "a.ts" ['x']
    ".//../../types/.././handlers/b.js".toList [] where
  plain := by decide
  tree := ⟨detourFunctions, by rfl, by decide, by rfl⟩
  entered := by decide
  source := by decide
  room := by decide
  word := by decide
  free := by decide
  blank := by simp

theorem detour_found : ∃ before after, Check.layering.find ⟨detourFiles, .ofRoot "/repo"⟩ =
    .ok (before ++ [violation "packages/functions/src/services/deep/a.ts" .services .handlers
      ⟨".//../../types/.././handlers/b.js", 1⟩] ++ after) := by
  obtain ⟨before, after, own, _, _, found, exactly, _⟩ := find_of_oneImport detour_oneImport
  have resolves : Resolves ["repo", "packages", "functions", "src", "services", "deep"]
      (segments ⟨".//../../types/.././handlers/b.js"⟩)
      ["repo", "packages", "functions", "src", "handlers", "b.js"] :=
    .stay (Or.inr rfl) (.stay (Or.inl rfl) (.up (.up (.down (by decide) (.up (.stay (Or.inr rfl)
      (.down (by decide) (.down (by decide) (.done _)))))))))
  have one := exactly _ .handlers (by decide) resolves ⟨"b.js", [], rfl⟩
  rw [one] at found
  exact ⟨_, _, found⟩

end Conformance.Check.Layering
