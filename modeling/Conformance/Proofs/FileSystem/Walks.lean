import Conformance.Proofs.FileSystem.Visits
import Conformance.Proofs.Text.ByteOrder

namespace Conformance

def Component.Precedes : Component → Component → Prop
  | .name a, .name b => Text.bytes a < Text.bytes b
  | a, b => a.rank < b.rank

namespace Path

/-- The path stands before another one in the order of their components, the first that differs deciding. -/
def Precedes (p q : Path) : Prop :=
  List.Lex Component.Precedes p.components q.components

theorem not_precedes_self (p : Path) : ¬ Precedes p p := by
  refine List.lex_irrefl (fun c smaller => ?_) p.components
  cases c with
  | name text => exact List.lt_irrefl (Text.bytes text) smaller
  | root | here | up => exact Nat.lt_irrefl _ smaller

theorem precedes_below {base : Path} {names names' : List String} (nonempty : base.raw ≠ "")
    (proper : ∀ n ∈ names, IsName n) (proper' : ∀ n ∈ names', IsName n) (before : List.Lex (· < ·) names names') :
    Precedes (base.below names) (base.below names') := by
  have own : List.Lex Component.Precedes (names.map .name) (names'.map .name) := by
    clear proper proper'
    induction before with
    | nil => exact .nil
    | rel smaller => exact .rel (Text.bytes_lt_iff.mpr smaller)
    | cons _ ih => exact .cons ih
  rw [Precedes, components_below nonempty proper, components_below nonempty proper']
  induction base.components with
  | nil => exact own
  | cons c components ih => exact .cons ih

end Path

def WalkRules.Admits (rules : WalkRules) (name : String) : Prop :=
  name ∉ rules.skipped ∧ (rules.skipsHidden = true → name.toList.head? ≠ some '.')

theorem WalkRules.enters_iff {rules : WalkRules} {name : String} : rules.enters name = true ↔ rules.Admits name := by
  have hidden : Text.startsWith name.toList "." = true ↔ name.toList.head? = some '.' := by
    cases name.toList with
    | nil => simp [Text.startsWith]
    | cons c rest => simpa [Text.startsWith] using eq_comm
  rw [enters, Admits, ne_eq, ← hidden]
  cases rules.skipsHidden <;> simp

namespace FileSystem

open Path

variable {fs : FileSystem} {start : Path} {entries : List (String × Node)} {rules : WalkRules}

theorem collectDirs_eq (rules : WalkRules) (leads : fs.node? start = some (.dir entries)) :
    fs.collectDirs rules start = ((placesIn rules entries).filter Place.isDir).map fun p => start.below p.names := by
  simp only [collectDirs, visitBelow, leads, visitEntries_eq, List.filter_map, List.map_map]
  rfl

theorem isName_of_mem_placesIn (wellFormed : (Node.dir entries).WellFormed) {p : Place} (met : p ∈ placesIn rules entries) :
    ∀ n ∈ p.names, IsName n := by
  obtain ⟨above, name, isDir⟩ := p
  cases isDir with
  | false =>
    obtain ⟨⟨_, found⟩, _⟩ := (mem_placesIn_file wellFormed).mp met
    exact wellFormed.isName found
  | true =>
    obtain ⟨⟨_, found⟩, _⟩ := (mem_placesIn_dir wellFormed).mp met
    exact wellFormed.isName found

theorem pairwise_paths (nonempty : start.raw ≠ "") (wellFormed : (Node.dir entries).WellFormed) (keeps : Place → Bool) :
    (((placesIn rules entries).filter keeps).map fun p => start.below p.names).Pairwise Precedes := by
  rw [List.pairwise_map]
  refine ((pairwise_placesIn rules wellFormed).filter keeps).imp_of_mem ?_
  intro p q inP inQ before
  exact precedes_below nonempty (isName_of_mem_placesIn wellFormed (List.mem_of_mem_filter inP))
    (isName_of_mem_placesIn wellFormed (List.mem_of_mem_filter inQ)) before

theorem nodup_of_precedes {paths : List Path} (ordered : paths.Pairwise Precedes) : paths.Nodup := by
  refine ordered.imp ?_
  rintro p _ before rfl
  exact not_precedes_self p before

/-- A walk from a directory collects exactly the files below it with an accepted name that stand in admitted
directories, and exactly the directories below it that are admitted and stand in admitted ones; without going
deeper, only those in the start itself. No rule concerns the start or the names of files, and no link is
followed or collected: the names lead through directories only. All come in the order of their paths, each
once. -/
theorem walk_exact (leads : fs.node? start = some (.dir entries)) (wellFormed : (Node.dir entries).WellFormed)
    (rules : WalkRules) (accepts : String → Bool) :
    (∀ p, p ∈ fs.collectFiles rules accepts start ↔ ∃ above name, p = start.below (above ++ [name]) ∧
      (∃ content, (Node.dir entries).at? (above ++ [name]) = some (.file content)) ∧ accepts name = true ∧
      (∀ dir ∈ above, rules.Admits dir) ∧ (above = [] ∨ rules.recursive = true)) ∧
    (fs.collectFiles rules accepts start).Pairwise Precedes ∧ (fs.collectFiles rules accepts start).Nodup ∧
    (∀ p, p ∈ fs.collectDirs rules start ↔ ∃ above name, p = start.below (above ++ [name]) ∧
      (∃ inner, (Node.dir entries).at? (above ++ [name]) = some (.dir inner)) ∧
      (∀ dir ∈ above ++ [name], rules.Admits dir) ∧ (above = [] ∨ rules.recursive = true)) ∧
    (fs.collectDirs rules start).Pairwise Precedes ∧ (fs.collectDirs rules start).Nodup := by
  obtain ⟨_, nonempty, _⟩ := reach_of_node? leads
  have files : (fs.collectFiles rules accepts start).Pairwise Precedes := by
    rw [collectFiles_eq rules accepts leads]
    exact pairwise_paths nonempty wellFormed _
  have dirs : (fs.collectDirs rules start).Pairwise Precedes := by
    rw [collectDirs_eq rules leads]
    exact pairwise_paths nonempty wellFormed _
  refine ⟨fun p => ?_, files, nodup_of_precedes files, fun p => ?_, dirs, nodup_of_precedes dirs⟩
  · rw [collectFiles_eq rules accepts leads]
    simp only [filesIn, List.mem_map, List.mem_filter, Bool.and_eq_true, Bool.not_eq_true', ← WalkRules.enters_iff]
    constructor
    · rintro ⟨⟨above, name, isDir⟩, ⟨met, isFile, accepted⟩, rfl⟩
      obtain rfl : isDir = false := isFile
      obtain ⟨found, entered, deep⟩ := (mem_placesIn_file wellFormed).mp met
      exact ⟨above, name, rfl, found, accepted, entered, deep⟩
    · rintro ⟨above, name, rfl, found, accepted, entered, deep⟩
      exact ⟨⟨above, name, false⟩, ⟨(mem_placesIn_file wellFormed).mpr ⟨found, entered, deep⟩, rfl, accepted⟩, rfl⟩
  · rw [collectDirs_eq rules leads]
    simp only [List.mem_map, List.mem_filter, ← WalkRules.enters_iff]
    constructor
    · rintro ⟨⟨above, name, isDir⟩, ⟨met, own⟩, rfl⟩
      obtain rfl : isDir = true := own
      obtain ⟨found, entered, deep⟩ := (mem_placesIn_dir wellFormed).mp met
      exact ⟨above, name, rfl, found, entered, deep⟩
    · rintro ⟨above, name, rfl, found, entered, deep⟩
      exact ⟨⟨above, name, true⟩, ⟨(mem_placesIn_dir wellFormed).mpr ⟨found, entered, deep⟩, rfl⟩, rfl⟩

/-- A directory with a hidden directory, a skipped one, a link, and a name that starts another. -/
def mixedEntries : List (String × Node) :=
  [(".hidden", .dir [("x.ts", .file "".toUTF8)]), ("a", .dir [("b", .dir []), ("z.ts", .file "".toUTF8)]),
    ("a.ts", .file "".toUTF8), ("dist", .dir [("p.ts", .file "".toUTF8)]), ("src", .link "a")]

theorem mixedEntries_wellFormed : (Node.dir mixedEntries).WellFormed := by
  decide

theorem mixedEntries_walk :
    let fs : FileSystem := ⟨.dir [("repo", .dir mixedEntries)], []⟩
    let rules : WalkRules := { skipped := ["dist"], skipsHidden := true }
    fs.node? "/repo" = some (.dir mixedEntries) ∧ (Node.dir mixedEntries).WellFormed ∧
      fs.collectFiles rules (fun _ => true) "/repo" = ["/repo/a/z.ts", "/repo/a.ts"] ∧
      fs.collectDirs rules "/repo" = ["/repo/a", "/repo/a/b"] ∧
      Precedes "/repo/a/z.ts" "/repo/a.ts" ∧ (fs.collectDirs rules "/repo").Pairwise Precedes := by
  intro fs rules
  have leads : fs.node? "/repo" = some (.dir mixedEntries) := by rfl
  have files : fs.collectFiles rules (fun _ => true) "/repo" = ["/repo/a/z.ts", "/repo/a.ts"] := by decide +kernel
  obtain ⟨_, ordered, _, _, dirs, _⟩ := walk_exact leads mixedEntries_wellFormed rules fun _ => true
  rw [files] at ordered
  exact ⟨leads, mixedEntries_wellFormed, files, by decide +kernel, by simpa using ordered, dirs⟩

end FileSystem

end Conformance
