import Conformance.Proofs.FileSystem.Walks

namespace Conformance

inductive Node.DirsOnly : Node → Prop
  | dir {entries : List (String × Node)} (inner : ∀ e ∈ entries, e.2.DirsOnly) : DirsOnly (.dir entries)

namespace Node.DirsOnly

theorem exists_entries {node : Node} (h : node.DirsOnly) : ∃ entries, node = .dir entries := by
  cases h with
  | dir _ => exact ⟨_, rfl⟩

theorem child {node child : Node} {name : String} (h : node.DirsOnly) (entered : node.child? name = some child) :
    child.DirsOnly := by
  cases h with
  | dir inner =>
    obtain ⟨front, back, whole, _⟩ := List.lookup_eq_some_iff.mp entered
    exact inner (name, child) (by simp [whole])

theorem at? {start node : Node} {names : List String} (h : start.DirsOnly) (found : start.at? names = some node) :
    node.DirsOnly :=
  at?_kept child h found

end Node.DirsOnly

namespace FileSystem

open Path

/-- Among directories, names that lead to a node lead to the one that the tree has there. -/
theorem at?_of_follow {links : Nat} {t last : Trail} {names : List String} (only : t.node.DirsOnly)
    (proper : ∀ n ∈ names, IsName n) (found : follow links t names = .found last) : t.node.at? names = some last.node := by
  induction names generalizing t with
  | nil =>
    simp only [follow, advance, Reached.found.injEq] at found
    rw [found, Node.at?]
  | cons name names ih =>
    obtain ⟨visible, notHere, notUp, _⟩ := proper name (by simp)
    obtain ⟨entries, own⟩ := only.exists_entries
    cases listed : entries.lookup name with
    | none =>
      cases names <;> simp [follow, advance, own, visible, notHere, notUp, listed] at found
    | some node =>
      have entered : t.node.child? name = some node := by simpa [own, Node.child?] using listed
      have inner := only.child entered
      obtain ⟨below, rfl⟩ := inner.exists_entries
      have step : advance t (name :: names) = advance (t.enter name (.dir below)) names := by
        simp [advance, own, visible, notHere, notUp, listed]
      have onward : follow links (t.enter name (.dir below)) names = .found last := by
        rw [follow] at found ⊢
        rwa [← step]
      rw [Node.at?, entered, Option.bind_some]
      exact ih (t := t.enter name (.dir below)) inner (fun n member => proper n (by simp [member])) onward

def Fileless (fs : FileSystem) (p : Path) : Prop :=
  ∀ node, fs.node? p = some node → node.DirsOnly ∧ node.WellFormed

variable {fs : FileSystem} {p : Path}

theorem fileless_below {tree : Node} {names : List String} (leads : fs.node? p = some tree)
    (wellFormed : tree.WellFormed) (only : tree.DirsOnly) (proper : ∀ n ∈ names, IsName n) :
    fs.Fileless (p.below names) := by
  intro node found
  have held : tree.at? names = some node := by
    by_cases none : names = []
    · subst none
      rw [Node.at?, ← leads, ← found]
      rfl
    · obtain ⟨left, t, rfl, way⟩ := exists_follow_below leads none proper
      obtain ⟨last, _, _, rfl, reached⟩ := reach_of_node? found
      exact at?_of_follow only proper (way.symm.trans reached)
  exact ⟨only.at? held, wellFormed.at? held⟩

namespace Fileless

variable (h : fs.Fileless p)

include h

theorem isFile_eq_false : fs.isFile p = false := by
  cases leads : fs.node? p with
  | none => simp [isFile, leads]
  | some node =>
    obtain ⟨_, rfl⟩ := (h node leads).1.exists_entries
    simp [isFile, leads, Node.isFile]

theorem exists_read_eq_error : ∃ cause, fs.read p = .error cause := by
  unfold read
  cases leads : fs.node? p with
  | none => exact ⟨_, rfl⟩
  | some node =>
    obtain ⟨_, rfl⟩ := (h node leads).1.exists_entries
    exact ⟨_, rfl⟩

theorem collectFiles_eq_nil (rules : WalkRules) (accepts : String → Bool) : fs.collectFiles rules accepts p = [] := by
  cases leads : fs.node? p with
  | none => simp [collectFiles, visitStart, visitBelow, h.isFile_eq_false, leads]
  | some node =>
    obtain ⟨only, wellFormed⟩ := h node leads
    obtain ⟨_, rfl⟩ := only.exists_entries
    refine List.eq_nil_iff_forall_not_mem.mpr fun q member => ?_
    obtain ⟨_, _, _, ⟨_, held⟩, _⟩ := ((walk_exact leads wellFormed rules accepts).1 q).mp member
    obtain ⟨_, isDir⟩ := (only.at? held).exists_entries
    cases isDir

end Fileless

end FileSystem

end Conformance
