import Conformance.Proofs.Layout.Spelling

namespace Conformance

open Path

theorem Text.afterLead?_append {α : Type} [DecidableEq α] (lead rest : List α) :
    afterLead? lead (lead ++ rest) = some rest :=
  afterLead?_eq_some_iff.mpr rfl

theorem Path.fileName?_below {base : Path} {names : List String} {name : String} (nonempty : base.raw ≠ "")
    (proper : ∀ n ∈ names ++ [name], IsName n) : (base.below (names ++ [name])).fileName? = some name := by
  unfold fileName?
  rw [components_below nonempty proper]
  simp

theorem Path.relativeTo_below {base : Path} {names : List String} (nonempty : base.raw ≠ "")
    (proper : ∀ n ∈ names, IsName n) : (base.below names).relativeTo base = "/".intercalate names := by
  have text : (names.map Component.name).map Component.text = names := by
    rw [List.map_map]
    exact List.map_id' names
  rw [relativeTo, components_below nonempty proper, Text.afterLead?_append, Option.getD_some, written, text]

namespace FileSystem

theorem Spells.isSound {fs : FileSystem} {root : Path} {t : Trail} (h : fs.Spells root t) :
    t.IsSound ∧ t.root = fs.root :=
  isSound_of_advance (Trail.isSound_root fs.root) h.direct

theorem Spells.wellFormed_nodeAlong {fs : FileSystem} {root : Path} {t : Trail} (h : fs.Spells root t)
    (wellFormed : fs.root.WellFormed) {names : List String} {node : Node} (found : nodeAlong t names = some node) :
    node.WellFormed := by
  unfold nodeAlong at found
  split at found
  · rename_i last way
    obtain ⟨sound, same⟩ := isSound_of_follow h.isSound.1 way
    rw [h.isSound.2] at same
    cases found
    exact wellFormed.at? (same ▸ sound.at?_place)
  · cases found

theorem nodeAlong_append {t : Trail} {names more : List String} {start node : Node}
    (found : nodeAlong t names = some start) (below : start.at? more = some node)
    (solid : ∀ target, node ≠ .link target) (proper : ∀ name ∈ more, IsName name) :
    nodeAlong t (names ++ more) = some node := by
  unfold nodeAlong at found
  split at found
  · rename_i middle way
    cases found
    obtain ⟨last, arrived, same⟩ := advance_names (t := middle) proper below solid
    unfold nodeAlong
    rw [follow_append way arrived]
    exact congrArg some same
  · cases found

def filesAlong (t : Trail) (rules : WalkRules) (accepts : String → Bool) (names : List String) : List Place :=
  match nodeAlong t names with
  | some (.dir entries) => filesIn rules accepts entries
  | _ => []

def findings (inspect : String → List Char → List Violation) (name : String) (node : Node) : List Violation :=
  match textOf node with
  | .ok text => inspect name text
  | .error cause => [Repository.unreadable name cause]

section Spelled

variable {fs : FileSystem} {root : Path} {t : Trail} (h : fs.Spells root t) (roomy : Roomy root t)

include h roomy

/-- A walk below the root collects the same places for every spelling of the root, as long as it does
not collect its start. -/
theorem Spells.collectFiles (above : List String) {name : String} (proper : ∀ n ∈ above ++ [name], IsName n)
    (rules : WalkRules) {accepts : String → Bool} (start : accepts name = false) :
    fs.collectFiles rules accepts (root.below (above ++ [name])) =
      (filesAlong t rules accepts (above ++ [name])).map fun p => root.below (above ++ [name] ++ p.names) := by
  have leads := h.node?_below roomy proper
  have own : fileName? (root.below (above ++ [name])) = some name := fileName?_below h.raw_ne_empty proper
  have unaccepted : ∀ v ∈ fs.visitStart (root.below (above ++ [name])), accepts v.name = false := by
    intro v member
    unfold visitStart at member
    split at member
    · rw [List.mem_singleton] at member
      subst member
      simpa [own] using start
    · cases member
  have atStart : (fs.visitStart (root.below (above ++ [name]))).filter (fun v => !v.isDir && accepts v.name) = [] := by
    rw [List.filter_eq_nil_iff]
    intro v member
    simp [unaccepted v member]
  unfold filesAlong
  cases there : nodeAlong t (above ++ [name]) with
  | none =>
    rw [there] at leads
    simp [FileSystem.collectFiles, atStart, visitBelow, leads]
  | some node =>
    rw [there] at leads
    cases node with
    | dir entries =>
      rw [collectFiles_eq rules accepts leads]
      simp [Path.below]
    | file content => simp [FileSystem.collectFiles, atStart, visitBelow, leads]
    | link target => simp [FileSystem.collectFiles, atStart, visitBelow, leads]

theorem Spells.inspectFile {names : List String} (proper : ∀ n ∈ names, IsName n) {node : Node}
    (there : nodeAlong t names = some node) (inspect : String → List Char → List Violation) :
    Repository.inspectFile ⟨fs, .ofRoot root⟩ inspect (root.below names) =
      findings inspect ("/".intercalate names) node := by
  have leads := h.node?_below roomy proper
  rw [there] at leads
  have shown : Repository.relative ⟨fs, .ofRoot root⟩ (root.below names) = "/".intercalate names :=
    relativeTo_below h.raw_ne_empty proper
  have reads : fs.read (root.below names) = textOf node := read_of_node? leads
  unfold Repository.inspectFile findings
  cases text : textOf node <;> simp only [reads, shown, text]

end Spelled

theorem Spells.file_of_mem_filesAlong {fs : FileSystem} {root : Path} {t : Trail} (h : fs.Spells root t)
    (wellFormed : fs.root.WellFormed) {rules : WalkRules} {accepts : String → Bool} {names : List String}
    {p : Place} (member : p ∈ filesAlong t rules accepts names) :
    (∀ n ∈ p.names, IsName n) ∧ ∃ content, nodeAlong t (names ++ p.names) = some (.file content) := by
  unfold filesAlong at member
  split at member
  · rename_i entries there
    have inner := h.wellFormed_nodeAlong wellFormed there
    obtain ⟨above, name, isDir⟩ := p
    obtain ⟨met, isFile, _⟩ : ⟨above, name, isDir⟩ ∈ placesIn rules entries ∧ isDir = false ∧ accepts name = true := by
      simpa [filesIn] using member
    subst isFile
    obtain ⟨⟨content, found⟩, _⟩ := (mem_placesIn_file inner).mp met
    have proper := inner.isName found
    exact ⟨proper, content, nodeAlong_append there found (by simp) proper⟩
  · cases member

end FileSystem

mutual

def Node.weight : Node → Nat
  | .file _ | .link _ => 0
  | .dir entries => weightIn entries

def Node.weightIn : List (String × Node) → Nat
  | [] => 0
  | (name, node) :: rest => name.utf8ByteSize + 1 + node.weight + weightIn rest

end

mutual

def Node.linkFree : Node → Bool
  | .file _ => true
  | .link _ => false
  | .dir entries => linkFreeIn entries

def Node.linkFreeIn : List (String × Node) → Bool
  | [] => true
  | (_, node) :: rest => node.linkFree && linkFreeIn rest

end

/-- An entry of a directory takes part of the weight, and has no link if the directory has none. -/
theorem Node.weight_of_lookup {entries : List (String × Node)} {name : String} {node : Node}
    (listed : entries.lookup name = some node) : name.utf8ByteSize + 1 + node.weight ≤ (Node.dir entries).weight ∧
      ((Node.dir entries).linkFree = true → node.linkFree = true) := by
  simp only [weight, linkFree]
  induction entries with
  | nil => simp at listed
  | cons e rest ih =>
    obtain ⟨other, first⟩ := e
    rw [List.lookup_cons] at listed
    simp only [weightIn, linkFreeIn, Bool.and_eq_true]
    by_cases same : name = other
    · subst same
      simp only [beq_self_eq_true] at listed
      cases listed
      exact ⟨by omega, fun free => free.1⟩
    · have apart : (name == other) = false := by simpa using same
      rw [apart] at listed
      obtain ⟨size, free⟩ := ih listed
      exact ⟨by omega, fun both => free both.2⟩

theorem Path.utf8ByteSize_join_le (base : Path) (name : String) :
    (base / ⟨name⟩).raw.utf8ByteSize ≤ base.raw.utf8ByteSize + (name.utf8ByteSize + 1) := by
  rw [div_eq_join, join]
  split
  · dsimp only
    omega
  · split
    · dsimp only
      rw [String.utf8ByteSize_append]
      omega
    · dsimp only
      rw [String.utf8ByteSize_append, String.utf8ByteSize_append]
      have slash : "/".utf8ByteSize = 1 := by decide
      omega

namespace FileSystem

/-- A way on from a tree without links is no longer than the weight of the tree. -/
theorem utf8ByteSize_below_of_nodeAlong {t : Trail} {names : List String} (base : Path)
    (proper : ∀ name ∈ names, IsName name) (free : t.node.linkFree = true)
    (found : (nodeAlong t names).isSome = true) :
    (base.below names).raw.utf8ByteSize ≤ base.raw.utf8ByteSize + t.node.weight := by
  induction names generalizing t base with
  | nil =>
    change base.raw.utf8ByteSize ≤ _
    omega
  | cons name names ih =>
    obtain ⟨visible, notHere, notUp, _⟩ := proper name (by simp)
    unfold nodeAlong follow advance at found
    cases own : t.node with
    | file _ | link _ => simp [own] at found
    | dir entries =>
      simp only [own, visible, notHere, notUp, decide_false, Bool.or_self, Bool.false_eq_true, if_false] at found
      cases listed : entries.lookup name with
      | none => cases names <;> simp [listed] at found
      | some node =>
        obtain ⟨size, inner⟩ := Node.weight_of_lookup listed
        have inside : (t.enter name node).node.linkFree = true := inner (own ▸ free)
        have onward : (nodeAlong (t.enter name node) names).isSome = true := by
          unfold nodeAlong follow
          cases node with
          | link target => simp [Trail.enter, Trail.node, Node.linkFree] at inside
          | file _ | dir _ => simpa [listed] using found
        have rest := ih (base / ⟨name⟩) (fun n member => proper n (by simp [member])) inside onward
        have step := utf8ByteSize_join_le base name
        change ((base / ⟨name⟩).below names).raw.utf8ByteSize ≤ _
        change _ ≤ _ + node.weight at rest
        omega

theorem roomy_of_weight {root : Path} {t : Trail} (free : t.node.linkFree = true)
    (room : root.raw.utf8ByteSize + t.node.weight < pathLimit) : Roomy root t := by
  intro names proper found
  have size := utf8ByteSize_below_of_nodeAlong root proper free found
  simp only [fits, decide_eq_true_eq]
  omega

end FileSystem

end Conformance
