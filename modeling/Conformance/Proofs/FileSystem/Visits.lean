import Conformance.FileSystem.Walk
import Conformance.Proofs.FileSystem.Reach
import Mathlib.Data.List.Nodup

namespace Conformance

/-- A tree as file systems keep it: the entries of every directory are in the order of their names,
which are proper names. -/
inductive Node.WellFormed : Node → Prop
  | file (content : ByteArray) : WellFormed (.file content)
  | link (target : String) : WellFormed (.link target)
  | dir {entries : List (String × Node)} (ordered : Node.Ordered entries)
      (named : ∀ e ∈ entries, Path.IsName e.1) (inner : ∀ e ∈ entries, e.2.WellFormed) : WellFormed (.dir entries)

namespace Node

instance (entries : List (String × Node)) : Decidable (Ordered entries) :=
  inferInstanceAs (Decidable (List.Pairwise _ _))

mutual

def isWellFormed : Node → Bool
  | .file _ => true
  | .link _ => true
  | .dir entries => decide (Ordered entries) && areWellFormed entries

def areWellFormed : List (String × Node) → Bool
  | [] => true
  | (name, node) :: rest => decide (Path.IsName name) && node.isWellFormed && areWellFormed rest

end

mutual

theorem isWellFormed_iff (node : Node) : node.isWellFormed = true ↔ node.WellFormed := by
  match node with
  | .file content => exact ⟨fun _ => .file content, fun _ => by rw [isWellFormed]⟩
  | .link target => exact ⟨fun _ => .link target, fun _ => by rw [isWellFormed]⟩
  | .dir entries =>
    rw [isWellFormed, Bool.and_eq_true, decide_eq_true_eq, areWellFormed_iff entries]
    constructor
    · rintro ⟨ordered, named, inner⟩
      exact .dir ordered named inner
    · rintro (_ | _ | ⟨ordered, named, inner⟩)
      exact ⟨ordered, named, inner⟩

theorem areWellFormed_iff (entries : List (String × Node)) :
    areWellFormed entries = true ↔ (∀ e ∈ entries, Path.IsName e.1) ∧ ∀ e ∈ entries, e.2.WellFormed := by
  match entries with
  | [] => simp [areWellFormed]
  | (name, node) :: rest =>
    rw [areWellFormed, Bool.and_eq_true, Bool.and_eq_true, decide_eq_true_eq, isWellFormed_iff node,
      areWellFormed_iff rest, List.forall_mem_cons, List.forall_mem_cons]
    exact and_and_and_comm

end

instance (node : Node) : Decidable node.WellFormed :=
  decidable_of_iff _ (isWellFormed_iff node)

theorem lookup_eq_some_iff {entries : List (String × Node)} (ordered : Ordered entries) {name : String} {node : Node} :
    entries.lookup name = some node ↔ (name, node) ∈ entries := by
  induction entries with
  | nil => simp
  | cons e rest ih =>
    obtain ⟨other, first⟩ := e
    simp only [Ordered, List.map_cons, List.pairwise_cons, List.mem_map, Prod.exists] at ordered
    by_cases same : name = other
    · subst same
      have apart : (name, node) ∉ rest := by
        intro member
        exact String.lt_irrefl name (ordered.1 name ⟨name, node, member, rfl⟩)
      simp only [List.lookup_cons, beq_self_eq_true, List.mem_cons, Prod.mk.injEq, true_and, apart, or_false,
        Option.some.injEq]
      exact eq_comm
    · have apart : (name == other) = false := by simpa using same
      simp only [List.lookup_cons, apart, List.mem_cons, Prod.mk.injEq, same, false_and, false_or]
      exact ih ordered.2

theorem WellFormed.ordered {entries : List (String × Node)} (h : (Node.dir entries).WellFormed) : Ordered entries := by
  cases h with
  | dir ordered _ _ => exact ordered

theorem WellFormed.child {entries : List (String × Node)} {name : String} {node : Node}
    (h : (Node.dir entries).WellFormed) (listed : entries.lookup name = some node) :
    Path.IsName name ∧ node.WellFormed := by
  cases h with
  | dir ordered named inner =>
    have member := (lookup_eq_some_iff ordered).mp listed
    exact ⟨named _ member, inner _ member⟩

theorem WellFormed.at? {start node : Node} {names : List String} (h : start.WellFormed)
    (found : start.at? names = some node) : node.WellFormed := by
  refine at?_kept (fun {node child name} h entered => ?_) h found
  cases node with
  | file _ | link _ => cases entered
  | dir entries => exact (h.child entered).2

/-- Names that lead to a node of a well-formed tree are proper names. -/
theorem WellFormed.isName {start node : Node} {names : List String} (h : start.WellFormed)
    (found : start.at? names = some node) : ∀ name ∈ names, Path.IsName name := by
  induction names generalizing start with
  | nil => simp
  | cons name names ih =>
    obtain ⟨child, entered, below⟩ : ∃ child, start.child? name = some child ∧ child.at? names = some node := by
      simpa [Node.at?, Option.bind_eq_some_iff] using found
    cases start with
    | file _ | link _ => simp [Node.child?] at entered
    | dir entries =>
      obtain ⟨isName, inner⟩ := h.child entered
      intro n member
      rcases List.mem_cons.mp member with rfl | member
      · exact isName
      · exact ih inner below n member

end Node

/-- A place that a walk meets: the directories on the way from the start, the name in the last of
them, and whether it is itself a directory. -/
structure Place where
  above : List String
  name : String
  isDir : Bool

namespace Place

def names (p : Place) : List String :=
  p.above ++ [p.name]

def under (dir : String) (p : Place) : Place :=
  { p with above := dir :: p.above }

def visit (base : Path) (p : Place) : Visit :=
  ⟨base.below p.names, p.name, p.isDir⟩

end Place

namespace FileSystem

open Path

mutual

def placesAt (rules : WalkRules) (name : String) : Node → List Place
  | .file _ => [⟨[], name, false⟩]
  | .link _ => []
  | .dir entries =>
    if rules.enters name then
      ⟨[], name, true⟩ :: if rules.recursive then (placesIn rules entries).map (Place.under name) else []
    else []

def placesIn (rules : WalkRules) : List (String × Node) → List Place
  | [] => []
  | (name, node) :: rest => placesAt rules name node ++ placesIn rules rest

end

mutual

theorem visitEntry_eq (rules : WalkRules) (base : Path) (name : String) (node : Node) :
    visitEntry rules base name node = (placesAt rules name node).map (Place.visit base) := by
  match node with
  | .file _ => rfl
  | .link _ => rfl
  | .dir entries =>
    have inner := visitEntries_eq rules (base / ⟨name⟩) entries
    unfold visitEntry placesAt
    split
    · split
      · rw [inner, List.map_cons, List.map_map]
        rfl
      · rfl
    · rfl

theorem visitEntries_eq (rules : WalkRules) (base : Path) (entries : List (String × Node)) :
    visitEntries rules base entries = (placesIn rules entries).map (Place.visit base) := by
  match entries with
  | [] => rfl
  | (name, node) :: rest =>
    have first := visitEntry_eq rules base name node
    have others := visitEntries_eq rules base rest
    simp [visitEntries, placesIn, first, others]

end

theorem placesIn_eq_flatMap (rules : WalkRules) (entries : List (String × Node)) :
    placesIn rules entries = entries.flatMap fun e => placesAt rules e.1 e.2 := by
  induction entries with
  | nil => rfl
  | cons e rest ih => simp [placesIn, ih]

def filesIn (rules : WalkRules) (accepts : String → Bool) (entries : List (String × Node)) : List Place :=
  (placesIn rules entries).filter fun p => !p.isDir && accepts p.name

theorem collectFiles_eq {fs : FileSystem} {start : Path} {entries : List (String × Node)} (rules : WalkRules)
    (accepts : String → Bool) (leads : fs.node? start = some (.dir entries)) :
    fs.collectFiles rules accepts start = (filesIn rules accepts entries).map fun p => start.below p.names := by
  have noFile : fs.isFile start = false := by simp [isFile, leads, Node.isFile]
  simp only [collectFiles, visitStart, noFile, Bool.false_and, Bool.false_eq_true, if_false, List.nil_append,
    visitBelow, leads, visitEntries_eq, List.filter_map, List.map_map, filesIn]
  rfl

theorem mem_placesAt_dir {rules : WalkRules} {name : String} {entries : List (String × Node)} {p : Place} :
    p ∈ placesAt rules name (.dir entries) ↔ rules.enters name = true ∧
      (p = ⟨[], name, true⟩ ∨ rules.recursive = true ∧ ∃ q ∈ placesIn rules entries, q.under name = p) := by
  unfold placesAt
  by_cases entered : rules.enters name = true
  · by_cases deep : rules.recursive = true <;> simp [entered, deep]
  · simp [entered]

theorem mem_placesIn {rules : WalkRules} {entries : List (String × Node)} {p : Place} :
    p ∈ placesIn rules entries ↔ ∃ name node, (name, node) ∈ entries ∧ p ∈ placesAt rules name node := by
  simp [placesIn_eq_flatMap]

theorem mem_placesAt_of_top {rules : WalkRules} {entry name : String} {node : Node} {isDir : Bool} :
    ⟨[], name, isDir⟩ ∈ placesAt rules entry node ↔ entry = name ∧
      (isDir = false ∧ (∃ content, node = .file content) ∨
        isDir = true ∧ rules.enters name = true ∧ ∃ inner, node = .dir inner) := by
  cases node with
  | file content =>
    simp only [placesAt, List.mem_singleton, Place.mk.injEq, true_and, Node.file.injEq, exists_eq', and_true, reduceCtorEq,
      exists_false, and_false, or_false]
    exact and_congr_left fun _ => eq_comm
  | link target => simp [placesAt]
  | dir entries =>
    simp only [mem_placesAt_dir, Place.under, Place.mk.injEq, true_and, reduceCtorEq, false_and, exists_false,
      and_false, or_false, false_or, Node.dir.injEq, exists_eq', and_true]
    constructor
    · rintro ⟨entered, rfl, rfl⟩
      exact ⟨rfl, rfl, entered⟩
    · rintro ⟨rfl, rfl, entered⟩
      exact ⟨entered, rfl, rfl⟩

theorem mem_placesAt_of_below {rules : WalkRules} {entry dir name : String} {above : List String} {node : Node}
    {isDir : Bool} :
    ⟨dir :: above, name, isDir⟩ ∈ placesAt rules entry node ↔ entry = dir ∧ rules.enters dir = true ∧
      rules.recursive = true ∧ ∃ inner, node = .dir inner ∧ ⟨above, name, isDir⟩ ∈ placesIn rules inner := by
  cases node with
  | file content => simp [placesAt]
  | link target => simp [placesAt]
  | dir entries =>
    rw [mem_placesAt_dir]
    constructor
    · rintro ⟨entered, top | ⟨deep, q, inside, same⟩⟩
      · cases top
      · cases same
        exact ⟨rfl, entered, deep, entries, rfl, inside⟩
    · rintro ⟨rfl, entered, deep, inner, same, inside⟩
      cases same
      exact ⟨entered, Or.inr ⟨deep, _, inside, rfl⟩⟩

/-- A walk meets what it meets in a directory exactly if every directory on the way there is entered; a walk
that does not go deeper meets only what is in the start itself. -/
theorem mem_placesIn_iff {rules : WalkRules} {entries : List (String × Node)}
    (wellFormed : (Node.dir entries).WellFormed) {above : List String} {name : String} {isDir : Bool} :
    ⟨above, name, isDir⟩ ∈ placesIn rules entries ↔
      (∃ inner, (Node.dir entries).at? above = some (.dir inner) ∧ ⟨[], name, isDir⟩ ∈ placesIn rules inner) ∧
        (∀ dir ∈ above, rules.enters dir = true) ∧ (above = [] ∨ rules.recursive = true) := by
  induction above generalizing entries with
  | nil => simp [Node.at?]
  | cons dir above ih =>
    have ordered := wellFormed.ordered
    rw [mem_placesIn]
    simp only [mem_placesAt_of_below, Node.at?, Node.child?, Option.bind_eq_some_iff]
    constructor
    · rintro ⟨_, _, member, rfl, entered, deep, inner, rfl, inside⟩
      have listed := (Node.lookup_eq_some_iff ordered).mpr member
      obtain ⟨⟨last, found, met⟩, more, _⟩ := (ih (wellFormed.child listed).2).mp inside
      refine ⟨⟨last, ⟨_, listed, found⟩, met⟩, ?_, Or.inr deep⟩
      intro d inside
      rcases List.mem_cons.mp inside with rfl | inside
      · exact entered
      · exact more d inside
    · rintro ⟨⟨last, ⟨child, listed, found⟩, met⟩, entered, deep⟩
      have deep : rules.recursive = true := by simpa using deep
      cases child with
      | file _ | link _ => cases above <;> simp [Node.at?, Node.child?] at found
      | dir inner =>
        have inside := (ih (wellFormed.child listed).2).mpr
          ⟨⟨last, found, met⟩, fun d member => entered d (by simp [member]), Or.inr deep⟩
        exact ⟨dir, _, (Node.lookup_eq_some_iff ordered).mp listed, rfl, entered dir (by simp), deep, inner, rfl, inside⟩

theorem lookup_of_at?_concat {start : Node} {above : List String} {name : String} {node : Node} :
    start.at? (above ++ [name]) = some node ↔
      ∃ inner, start.at? above = some (.dir inner) ∧ inner.lookup name = some node := by
  rw [Node.at?_concat, Option.bind_eq_some_iff]
  constructor
  · rintro ⟨last, found, entered⟩
    cases last with
    | file _ | link _ => cases entered
    | dir inner => exact ⟨inner, found, entered⟩
  · rintro ⟨inner, found, listed⟩
    exact ⟨.dir inner, found, listed⟩

/-- A walk meets a file exactly if the tree has one there and every directory on the way is entered. -/
theorem mem_placesIn_file {rules : WalkRules} {entries : List (String × Node)}
    (wellFormed : (Node.dir entries).WellFormed) {above : List String} {name : String} :
    ⟨above, name, false⟩ ∈ placesIn rules entries ↔
      (∃ content, (Node.dir entries).at? (above ++ [name]) = some (.file content)) ∧
        (∀ dir ∈ above, rules.enters dir = true) ∧ (above = [] ∨ rules.recursive = true) := by
  rw [mem_placesIn_iff wellFormed, and_congr_left_iff]
  intro _
  simp only [lookup_of_at?_concat]
  constructor
  · rintro ⟨inner, found, met⟩
    obtain ⟨entry, node, member, rfl, ⟨_, content, rfl⟩ | ⟨other, _⟩⟩ := by
      simpa only [mem_placesIn, mem_placesAt_of_top] using met
    · exact ⟨content, inner, found, (Node.lookup_eq_some_iff (wellFormed.at? found).ordered).mpr member⟩
    · cases other
  · rintro ⟨content, inner, found, listed⟩
    have member := (Node.lookup_eq_some_iff (wellFormed.at? found).ordered).mp listed
    exact ⟨inner, found, mem_placesIn.mpr ⟨name, _, member, mem_placesAt_of_top.mpr ⟨rfl, Or.inl ⟨rfl, content, rfl⟩⟩⟩⟩

/-- A walk meets a directory exactly if the tree has one there, and it and every directory on the way are
entered. -/
theorem mem_placesIn_dir {rules : WalkRules} {entries : List (String × Node)}
    (wellFormed : (Node.dir entries).WellFormed) {above : List String} {name : String} :
    ⟨above, name, true⟩ ∈ placesIn rules entries ↔
      (∃ inner, (Node.dir entries).at? (above ++ [name]) = some (.dir inner)) ∧
        (∀ dir ∈ above ++ [name], rules.enters dir = true) ∧ (above = [] ∨ rules.recursive = true) := by
  simp only [mem_placesIn_iff wellFormed, lookup_of_at?_concat, List.forall_mem_append, List.forall_mem_singleton]
  constructor
  · rintro ⟨⟨inner, found, met⟩, entered, deep⟩
    obtain ⟨entry, node, member, rfl, ⟨other, _⟩ | ⟨_, own, last, rfl⟩⟩ := by
      simpa only [mem_placesIn, mem_placesAt_of_top] using met
    · cases other
    · have listed := (Node.lookup_eq_some_iff (wellFormed.at? found).ordered).mpr member
      exact ⟨⟨last, inner, found, listed⟩, ⟨entered, own⟩, deep⟩
  · rintro ⟨⟨last, inner, found, listed⟩, ⟨entered, own⟩, deep⟩
    have member := (Node.lookup_eq_some_iff (wellFormed.at? found).ordered).mp listed
    refine ⟨⟨inner, found, mem_placesIn.mpr ⟨name, _, member, ?_⟩⟩, entered, deep⟩
    exact mem_placesAt_of_top.mpr ⟨rfl, Or.inr ⟨rfl, own, last, rfl⟩⟩

theorem head_names_of_mem_placesAt {rules : WalkRules} {entry : String} {node : Node} {p : Place}
    (member : p ∈ placesAt rules entry node) : p.names.head? = some entry := by
  cases node with
  | file content =>
    simp only [placesAt, List.mem_singleton] at member
    simp [member, Place.names]
  | link target => simp [placesAt] at member
  | dir entries =>
    rcases mem_placesAt_dir.mp member with ⟨_, rfl | ⟨_, q, _, rfl⟩⟩ <;> simp [Place.names, Place.under]

/-- One place stands before another one: their names differ first in a smaller one, or those of the first lead
to the second. -/
def Before (p q : Place) : Prop :=
  List.Lex (· < ·) p.names q.names

theorem pairwise_placesIn_of_placesAt {rules : WalkRules} {entries : List (String × Node)}
    (ordered : Node.Ordered entries) (inner : ∀ e ∈ entries, (placesAt rules e.1 e.2).Pairwise Before) :
    (placesIn rules entries).Pairwise Before := by
  rw [placesIn_eq_flatMap, List.pairwise_flatMap]
  refine ⟨inner, (List.pairwise_map.mp ordered).imp ?_⟩
  intro a b smaller p ha q hb
  obtain ⟨more, namesP⟩ := List.head?_eq_some_iff.mp (head_names_of_mem_placesAt ha)
  obtain ⟨more', namesQ⟩ := List.head?_eq_some_iff.mp (head_names_of_mem_placesAt hb)
  rw [Before, namesP, namesQ]
  exact .rel smaller

/-- A directory stands before what is in it, and what is in it keeps its order. -/
theorem pairwise_placesAt (rules : WalkRules) {node : Node} (wellFormed : node.WellFormed) (entry : String) :
    (placesAt rules entry node).Pairwise Before := by
  induction wellFormed generalizing entry with
  | file _ | link _ => simp [placesAt]
  | @dir entries ordered _ _ ih =>
    unfold placesAt
    split
    · split
      · refine List.pairwise_cons.mpr ⟨?_, ?_⟩
        · intro q member
          obtain ⟨p, _, rfl⟩ := List.mem_map.mp member
          cases names : p.names with
          | nil => simp [Place.names] at names
          | cons name more =>
            have lower : (p.under entry).names = entry :: name :: more := congrArg (entry :: ·) names
            rw [Before, lower]
            exact .cons .nil
        · rw [List.pairwise_map]
          exact (pairwise_placesIn_of_placesAt ordered fun e member => ih e member e.1).imp .cons
      · simp
    · simp

theorem pairwise_placesIn (rules : WalkRules) {entries : List (String × Node)}
    (wellFormed : (Node.dir entries).WellFormed) : (placesIn rules entries).Pairwise Before := by
  cases wellFormed with
  | dir ordered _ inner =>
    exact pairwise_placesIn_of_placesAt ordered fun e member => pairwise_placesAt rules (inner e member) e.1

theorem not_before_self (p : Place) : ¬ Before p p :=
  List.lex_irrefl String.lt_irrefl p.names

theorem nodup_placesIn (rules : WalkRules) {entries : List (String × Node)}
    (wellFormed : (Node.dir entries).WellFormed) : (placesIn rules entries).Nodup := by
  refine (pairwise_placesIn rules wellFormed).imp ?_
  rintro p _ before rfl
  exact not_before_self p before

theorem nodup_collectFiles {fs : FileSystem} {start : Path} {entries : List (String × Node)} (rules : WalkRules)
    (accepts : String → Bool) (leads : fs.node? start = some (.dir entries)) (wellFormed : (Node.dir entries).WellFormed)
    (nonempty : start.raw ≠ "") : (fs.collectFiles rules accepts start).Nodup := by
  rw [collectFiles_eq rules accepts leads]
  have kept : ∀ p ∈ filesIn rules accepts entries, p.isDir = false ∧ ∀ n ∈ p.names, IsName n := by
    intro p member
    obtain ⟨above, name, isDir⟩ := p
    obtain ⟨met, isFile, _⟩ : ⟨above, name, isDir⟩ ∈ placesIn rules entries ∧ isDir = false ∧ accepts name = true := by
      simpa [filesIn] using member
    subst isFile
    obtain ⟨⟨content, found⟩, _⟩ := (mem_placesIn_file wellFormed).mp met
    exact ⟨rfl, wellFormed.isName found⟩
  refine List.Nodup.map_on ?_ ((nodup_placesIn rules wellFormed).filter _)
  intro p inside q inside' same
  obtain ⟨fileP, properP⟩ := kept p inside
  obtain ⟨fileQ, properQ⟩ := kept q inside'
  have components := congrArg Path.components same
  rw [components_below nonempty properP, components_below nonempty properQ, List.append_cancel_left_eq] at components
  have names : p.names = q.names := List.map_injective_iff.mpr (fun _ _ => Component.name.inj) components
  obtain ⟨above, name⟩ := List.append_inj' names rfl
  cases p
  cases q
  simp_all

end FileSystem

end Conformance
