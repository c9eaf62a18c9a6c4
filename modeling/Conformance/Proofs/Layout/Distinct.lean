import Conformance.Proofs.Layout.Inspection

namespace Conformance

open Path

/-- Behind names written below a root, a path is shown by all names from the root on, also if the root is empty. -/
theorem Path.relativeTo_join_below (root : Path) {place names : List String} (some : place ≠ [])
    (proper : ∀ n ∈ place, IsName n) (named : ∀ n ∈ names, IsName n) :
    ((root / ⟨"/".intercalate place⟩).below names).relativeTo root = "/".intercalate (place ++ names) := by
  have all : ∀ n ∈ place ++ names, IsName n := fun n member => (List.mem_append.mp member).elim (proper n) (named n)
  by_cases nonempty : root.raw = ""
  · obtain ⟨name, rest, rfl⟩ := List.exists_cons_of_ne_nil some
    have empty : root = ⟨""⟩ := by
      cases root
      simp_all
    have whole : ((⟨""⟩ : Path) / ⟨"/".intercalate (name :: rest)⟩).below names =
        ⟨"/".intercalate (name :: rest ++ names)⟩ := by
      rw [join_of_raw_eq rfl, ← below_name proper, ← below_append]
      exact below_name all
    have text : ((name :: rest ++ names).map Component.name).map Component.text = name :: rest ++ names := by
      rw [List.map_map]
      exact List.map_id' _
    have nothing : components ⟨""⟩ = [] := (components_eq_nil_iff _).mpr rfl
    rw [empty, whole, relativeTo, components_intercalate (by simp) all, nothing, Text.afterLead?, Option.getD_some, written,
      text]
  · rw [join_intercalate nonempty some proper, ← below_append, relativeTo_below nonempty all]

namespace Trail

def LinkFree (t : Trail) : Prop :=
  t.root.linkFree = true ∧ ∀ e ∈ t.passed, e.2.linkFree = true

theorem LinkFree.node {t : Trail} (free : t.LinkFree) : t.node.linkFree = true := by
  obtain ⟨root, passed⟩ := t
  cases passed with
  | nil => exact free.1
  | cons e rest => exact free.2 e (by simp)

end Trail

namespace FileSystem

def spelledPlace (fs : FileSystem) (p : Path) : List String :=
  landing [] ((fs.origin p ++ p.segments).filterMap Component.ofSegment?)

theorem advance_ne_redirected {t next : Trail} {segments more : List String} (free : t.LinkFree) :
    advance t segments ≠ .redirected next more := by
  induction segments generalizing t with
  | nil => simp [advance]
  | cons segment rest ih =>
    unfold advance
    split
    · rename_i entries own
      split
      · exact ih free
      · split
        · exact ih ⟨free.1, fun e member => free.2 e (List.mem_of_mem_tail member)⟩
        · have inner : ∀ node, entries.lookup segment = some node → node.linkFree = true := by
            intro node listed
            exact (Node.weight_of_lookup listed).2 (own ▸ free.node)
          split
          · split <;> simp
          · rename_i target listed
            exact absurd (inner _ listed) (by simp [Node.linkFree])
          · rename_i node _ listed
            refine ih ⟨free.1, fun e member => ?_⟩
            rcases List.mem_cons.mp member with rfl | member
            · exact inner _ listed
            · exact free.2 e member
    · simp

theorem spelledPlace_of_resolve? {fs : FileSystem} (free : fs.root.linkFree = true) {p : Path} {place : List String}
    (resolved : fs.resolve? p = some place) : fs.spelledPlace p = place := by
  have start : Trail.LinkFree ⟨fs.root, []⟩ := ⟨free, by simp⟩
  unfold resolve? reach reachAlong at resolved
  split at resolved
  · rename_i t found
    cases resolved
    split at found
    · unfold follow at found
      cases step : advance ⟨fs.root, []⟩ (fs.origin p ++ p.segments) with
      | arrived reached =>
        rw [step] at found
        cases found
        exact landing_of_advance step
      | vacant _ _ | missing => simp [step] at found
      | redirected next more => exact absurd step (advance_ne_redirected start)
    · cases found
  · cases resolved

theorem spelledPlace_below {fs : FileSystem} {base : Path} {names : List String} (nonempty : base.raw ≠ "")
    (proper : ∀ n ∈ names, IsName n) : fs.spelledPlace (base.below names) = fs.spelledPlace base ++ names := by
  by_cases none : names = []
  · simp [none, below]
  · obtain ⟨front, joined, own⟩ := segments_below nonempty none proper
    have same : base.segments.filterMap Component.ofSegment? = front.filterMap Component.ofSegment? := by
      rcases own with own | own
      · rw [own]
      · simp [own, Component.ofSegment?]
    simp only [spelledPlace, origin_below nonempty proper, joined, List.filterMap_append, same,
      filterMap_ofSegment?_of_isName proper, landing_append, landing_names]

/-- Names written behind a path are spelled behind its place, also if the path is empty. -/
theorem spelledPlace_join (fs : FileSystem) (base : Path) {names : List String} (some : names ≠ [])
    (proper : ∀ n ∈ names, IsName n) :
    fs.spelledPlace (base / ⟨"/".intercalate names⟩) = fs.spelledPlace base ++ names := by
  by_cases nonempty : base.raw = ""
  · obtain ⟨name, rest, rfl⟩ := List.exists_cons_of_ne_nil some
    have relative := isAbsolute_intercalate proper
    have cut : segments ⟨"/".intercalate (name :: rest)⟩ = name :: rest :=
      segments_intercalate some fun n member => (proper n member).2.2.2
    have empty : base = ⟨""⟩ := by
      cases base
      simp_all
    have start : segments ⟨""⟩ = [""] := by decide
    have nowhere : isAbsolute ⟨""⟩ = false := by decide
    simp [empty, div_eq_join, join, spelledPlace, origin, relative, cut, start, nowhere,
      filterMap_ofSegment?_of_isName proper, Component.ofSegment?, placeAfter]
  · rw [join_intercalate nonempty some proper, spelledPlace_below nonempty proper]

inductive Walked (rules : WalkRules) (accepts : String → Bool) (start : Path) : List String → Prop
  | here (accepted : accepts (start.fileName?.getD start.raw) = true) : Walked rules accepts start []
  | below {above : List String} {name : String} (entered : ∀ dir ∈ above, rules.enters dir = true)
      (deep : above = [] ∨ rules.recursive = true) (accepted : accepts name = true) :
      Walked rules accepts start (above ++ [name])

theorem wellFormed_of_node? {fs : FileSystem} (wellFormed : fs.root.WellFormed) {p : Path} {node : Node}
    (leads : fs.node? p = some node) : node.WellFormed := by
  have place := node?_eq_at?_resolve? fs p
  rw [leads] at place
  obtain ⟨names, _, held⟩ := Option.bind_eq_some_iff.mp place.symm
  exact wellFormed.at? held

/-- A walk collects files by the names that lead there from its start, each once. -/
theorem exists_names_collectFiles {fs : FileSystem} (wellFormed : fs.root.WellFormed) (rules : WalkRules)
    (accepts : String → Bool) (start : Path) : ∃ list : List (List String),
      fs.collectFiles rules accepts start = list.map start.below ∧ list.Nodup ∧
        ∀ names ∈ list, start.raw ≠ "" ∧ (∀ n ∈ names, IsName n) ∧ Walked rules accepts start names := by
  cases leads : fs.node? start with
  | none => exact ⟨[], by simp [collectFiles, visitStart, visitBelow, isFile, leads], by simp, by simp⟩
  | some node =>
    obtain ⟨_, nonempty, _⟩ := reach_of_node? leads
    cases node with
    | link target =>
      exact ⟨[], by simp [collectFiles, visitStart, visitBelow, isFile, leads, Node.isFile], by simp, by simp⟩
    | file content =>
      by_cases taken : fs.isLink start = false ∧ accepts (start.fileName?.getD start.raw) = true
      · refine ⟨[[]], ?_, by simp, ?_⟩
        · simp [collectFiles, visitStart, visitBelow, isFile, leads, Node.isFile, taken.1, taken.2, Path.below]
        · simp only [List.mem_singleton, forall_eq]
          exact ⟨nonempty, by simp, .here taken.2⟩
      · refine ⟨[], ?_, by simp, by simp⟩
        simp only [collectFiles, visitStart, visitBelow, leads, List.append_nil, List.map_nil]
        split
        · simp_all
        · simp
    | dir entries =>
      have inner := wellFormed_of_node? wellFormed leads
      have met : ∀ p ∈ filesIn rules accepts entries, p.isDir = false ∧ (∀ n ∈ p.names, IsName n) ∧
          Walked rules accepts start p.names := by
        rintro ⟨above, name, isDir⟩ member
        obtain ⟨met, isFile, accepted⟩ : ⟨above, name, isDir⟩ ∈ placesIn rules entries ∧ isDir = false ∧
            accepts name = true := by simpa [filesIn] using member
        subst isFile
        obtain ⟨⟨content, found⟩, entered, deep⟩ := (mem_placesIn_file inner).mp met
        exact ⟨rfl, inner.isName found, .below entered deep accepted⟩
      refine ⟨(filesIn rules accepts entries).map Place.names, ?_, ?_, ?_⟩
      · rw [collectFiles_eq rules accepts leads, List.map_map]
        rfl
      · refine List.Nodup.map_on ?_ ((nodup_placesIn rules inner).filter _)
        rintro ⟨above, name, isDir⟩ inside ⟨above', name', isDir'⟩ inside' same
        obtain ⟨rfl, _⟩ := met _ inside
        obtain ⟨rfl, _⟩ := met _ inside'
        obtain ⟨rfl, last⟩ := List.append_inj' same rfl
        simp_all
      · intro names member
        obtain ⟨p, inside, rfl⟩ := List.mem_map.mp member
        exact ⟨nonempty, (met p inside).2⟩

def SpellApart (fs : FileSystem) (paths : List Path) : Prop :=
  (paths.map fs.spelledPlace).Nodup

theorem SpellApart.filter {fs : FileSystem} {paths : List Path} (apart : fs.SpellApart paths) (keeps : Path → Bool) :
    fs.SpellApart (paths.filter keeps) :=
  apart.sublist (List.filter_sublist.map _)

section Collected

variable {fs : FileSystem} (wellFormed : fs.root.WellFormed) (rules : WalkRules) (accepts : String → Bool) (start : Path)

include wellFormed

theorem spellApart_collectFiles : fs.SpellApart (fs.collectFiles rules accepts start) := by
  obtain ⟨list, same, nodup, each⟩ := exists_names_collectFiles wellFormed rules accepts start
  unfold SpellApart
  rw [same, List.map_map]
  refine List.Nodup.map_on ?_ nodup
  intro names inside names' inside' equal
  obtain ⟨nonempty, proper, _⟩ := each names inside
  obtain ⟨_, proper', _⟩ := each names' inside'
  simpa [spelledPlace_below nonempty proper, spelledPlace_below nonempty proper'] using equal

theorem prefix_of_mem_collectFiles : ∀ p ∈ fs.collectFiles rules accepts start,
    fs.spelledPlace start <+: fs.spelledPlace p := by
  obtain ⟨list, same, _, each⟩ := exists_names_collectFiles wellFormed rules accepts start
  intro p member
  rw [same] at member
  obtain ⟨names, inside, rfl⟩ := List.mem_map.mp member
  obtain ⟨nonempty, proper, _⟩ := each names inside
  rw [spelledPlace_below nonempty proper]
  exact List.prefix_append _ _

end Collected

/-- Files that a walk below a root collects are shown by different names. -/
theorem relativeTo_inj_of_mem_collectFiles {fs : FileSystem} (wellFormed : fs.root.WellFormed) (rules : WalkRules)
    (accepts : String → Bool) (root : Path) {place : List String} (some : place ≠ []) (proper : ∀ n ∈ place, IsName n)
    {p q : Path} (collected : p ∈ fs.collectFiles rules accepts (root / ⟨"/".intercalate place⟩))
    (collected' : q ∈ fs.collectFiles rules accepts (root / ⟨"/".intercalate place⟩))
    (same : p.relativeTo root = q.relativeTo root) : p = q := by
  obtain ⟨list, found, _, each⟩ := exists_names_collectFiles wellFormed rules accepts (root / ⟨"/".intercalate place⟩)
  rw [found] at collected collected'
  obtain ⟨names, inside, rfl⟩ := List.mem_map.mp collected
  obtain ⟨names', inside', rfl⟩ := List.mem_map.mp collected'
  obtain ⟨_, named, _⟩ := each names inside
  obtain ⟨_, named', _⟩ := each names' inside'
  have shown : ∀ more : List String, (∀ n ∈ more, IsName n) →
      segments ⟨"/".intercalate (place ++ more)⟩ = place ++ more := fun more named =>
    segments_intercalate (by simp [some]) fun n member => ((List.mem_append.mp member).elim (proper n) (named n)).2.2.2
  rw [relativeTo_join_below root some proper named, relativeTo_join_below root some proper named'] at same
  have alike : place ++ names = place ++ names' := by
    rw [← shown names named, ← shown names' named', same]
  rw [List.append_cancel_left alike]

def Apart (place other : List String) : Prop :=
  ¬ place <+: other ∧ ¬ other <+: place

instance (place other : List String) : Decidable (Apart place other) :=
  inferInstanceAs (Decidable (_ ∧ _))

/-- Files below starts that are apart are at different places if those of each start are. -/
theorem spellApart_flatMap {α : Type} {fs : FileSystem} {starts : List α} {files : α → List Path}
    (top : List String) {place : α → List String} (apart : starts.Pairwise fun a b => Apart (place a) (place b))
    (own : ∀ a ∈ starts, fs.SpellApart (files a))
    (inside : ∀ a ∈ starts, ∀ p ∈ files a, top ++ place a <+: fs.spelledPlace p) :
    fs.SpellApart (starts.flatMap files) := by
  unfold SpellApart at own ⊢
  rw [List.map_flatMap, List.nodup_flatMap]
  refine ⟨own, apart.imp_of_mem ?_⟩
  intro a b first second ⟨notAbove, notBelow⟩
  change List.Disjoint _ _
  intro x memberA memberB
  obtain ⟨p, inA, rfl⟩ := List.mem_map.mp memberA
  obtain ⟨q, inB, same⟩ := List.mem_map.mp memberB
  have belowA := inside a first p inA
  have belowB := inside b second q inB
  rw [same] at belowB
  rcases List.prefix_or_prefix_of_prefix belowA belowB with above | above
  · exact notAbove ((List.prefix_append_right_inj top).mp above)
  · exact notBelow ((List.prefix_append_right_inj top).mp above)

end FileSystem

end Conformance
