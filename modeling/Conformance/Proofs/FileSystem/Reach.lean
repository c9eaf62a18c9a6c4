import Conformance.FileSystem.Basic
import Conformance.Proofs.Path.Components

namespace Conformance

namespace FileSystem

open Path

def Step.onward : Step → List String → Step
  | .arrived t, more => advance t more
  | .vacant t name, more => if more.isEmpty then .vacant t name else .missing
  | .missing, _ => .missing
  | .redirected next rest, more => .redirected next (rest ++ more)

theorem advance_append (t : Trail) (front back : List String) :
    advance t (front ++ back) = (advance t front).onward back := by
  induction front generalizing t with
  | nil => simp [advance, Step.onward]
  | cons segment rest ih =>
    rw [List.cons_append]
    unfold advance
    split
    · split
      · exact ih t
      · split
        · exact ih t.up
        · split
          · cases rest <;> cases back <;> simp [Step.onward]
          · simp [Step.onward]
          · exact ih _
    · rfl

/-- Behind segments that lead to a node, more segments lead where they lead from there, with the links that
are left. -/
theorem exists_follow_append {links : Nat} {t middle : Trail} {front : List String}
    (found : follow links t front = .found middle) (back : List String) :
    ∃ left, follow links t (front ++ back) = follow left middle back := by
  unfold follow at found
  cases step : advance t front with
  | arrived reached =>
    simp only [step, Reached.found.injEq] at found
    refine ⟨links, ?_⟩
    rw [follow, follow, advance_append, step, found]
    rfl
  | vacant _ _ => simp [step] at found
  | missing => simp [step] at found
  | redirected next rest =>
    cases links with
    | zero => simp [step] at found
    | succ links =>
      obtain ⟨left, onward⟩ := exists_follow_append (by simpa only [step] using found) back
      refine ⟨left, ?_⟩
      rw [← onward, follow, advance_append, step]
      rfl
termination_by links

theorem follow_append {links : Nat} {t middle last : Trail} {front back : List String}
    (found : follow links t front = .found middle) (arrived : advance middle back = .arrived last) :
    follow links t (front ++ back) = .found last := by
  obtain ⟨left, onward⟩ := exists_follow_append found back
  rw [onward, follow, arrived]

theorem advance_slash (t : Trail) :
    advance t [""] = if t.node.isDir then .arrived t else .missing := by
  unfold advance
  split
  · rename_i isDir
    simp [isDir, Node.isDir, advance]
  · rename_i notDir
    have : t.node.isDir = false := by
      cases node : t.node with
      | dir entries => exact absurd node (notDir entries)
      | file _ | link _ => rfl
    simp [this]

theorem follow_of_follow_slash {links : Nat} {t last : Trail} {front : List String}
    (found : follow links t (front ++ [""]) = .found last) :
    follow links t front = .found last := by
  unfold follow at found ⊢
  rw [advance_append] at found
  cases step : advance t front with
  | arrived middle =>
    simp only [step, Step.onward, advance_slash] at found ⊢
    by_cases isDir : middle.node.isDir = true <;> simp_all
  | vacant _ _ => simp [step, Step.onward] at found
  | missing => simp [step, Step.onward] at found
  | redirected next rest =>
    simp only [step, Step.onward] at found ⊢
    cases links with
    | zero => cases found
    | succ links => exact follow_of_follow_slash found
termination_by links

/-- Below a directory, proper names lead to the node that the tree has there, unless it is a link. -/
theorem advance_names {t : Trail} {names : List String} {node : Node}
    (proper : ∀ name ∈ names, IsName name) (found : t.node.at? names = some node)
    (solid : ∀ target, node ≠ .link target) :
    ∃ last, advance t names = .arrived last ∧ last.node = node := by
  induction names generalizing t with
  | nil => exact ⟨t, rfl, by simpa [Node.at?] using found⟩
  | cons name names ih =>
    obtain ⟨visible, notHere, notUp, _⟩ := proper name (by simp)
    obtain ⟨child, entered, below⟩ : ∃ child, t.node.child? name = some child ∧ child.at? names = some node := by
      simpa [Node.at?, Option.bind_eq_some_iff] using found
    cases own : t.node with
    | file _ | link _ => simp [own, Node.child?] at entered
    | dir entries =>
      have listed : entries.lookup name = some child := by simpa [own, Node.child?] using entered
      have notLink : ∀ target, child ≠ .link target := by
        rintro target rfl
        cases names with
        | nil => exact solid target (by simpa [Node.at?] using below.symm)
        | cons _ _ => simp [Node.at?, Node.child?] at below
      obtain ⟨last, arrived, reached⟩ := ih (t := t.enter name child)
        (fun n member => proper n (by simp [member])) below
      refine ⟨last, ?_, reached⟩
      unfold advance
      simp only [own, visible, notHere, notUp, decide_false, Bool.or_self, Bool.false_eq_true, if_false, listed]
      cases child with
      | link target => exact absurd rfl (notLink target)
      | file _ | dir _ => exact arrived

theorem origin_below {fs : FileSystem} {p : Path} {names : List String} (nonempty : p.raw ≠ "")
    (proper : ∀ name ∈ names, IsName name) : fs.origin (p.below names) = fs.origin p := by
  simp only [origin, isAbsolute_below nonempty proper]

theorem reach_of_node? {fs : FileSystem} {p : Path} {node : Node} (leads : fs.node? p = some node) :
    ∃ t, p.raw ≠ "" ∧ fits p = true ∧ t.node = node ∧
      follow linkLimit ⟨fs.root, []⟩ (fs.origin p ++ p.segments) = .found t := by
  unfold node? reach reachAlong at leads
  split at leads
  · rename_i t found
    split at found
    · rename_i usable
      simp only [ne_eq, decide_not, Bool.and_eq_true, Bool.not_eq_true', decide_eq_false_iff_not] at usable
      exact ⟨t, usable.1, usable.2, Option.some.inj leads, found⟩
    · cases found
  · cases leads

theorem node?_of_follow {fs : FileSystem} {p : Path} {t : Trail} (nonempty : p.raw ≠ "") (room : fits p = true)
    (found : follow linkLimit ⟨fs.root, []⟩ (fs.origin p ++ p.segments) = .found t) :
    fs.node? p = some t.node := by
  simp [node?, reach, reachAlong, nonempty, room, found]

theorem advance_empty {segments : List String} (t : Trail) (some : segments ≠ []) :
    advance t ("" :: segments) = advance t segments := by
  obtain ⟨segment, rest, rfl⟩ := List.exists_cons_of_ne_nil some
  cases node : t.node with
  | dir entries =>
    rw [advance, node]
    simp
  | file _ | link _ =>
    rw [advance, advance, node]

theorem utf8ByteSize_intercalate_le (front names : List String) :
    ("/".intercalate names).utf8ByteSize ≤ ("/".intercalate (front ++ names)).utf8ByteSize := by
  induction front with
  | nil => simp
  | cons name front ih =>
    cases rest : front ++ names with
    | nil =>
      obtain ⟨_, rfl⟩ := List.append_eq_nil_iff.mp rest
      simp
    | cons next more =>
      rw [rest] at ih
      rw [List.cons_append, rest, String.intercalate_cons_cons, String.utf8ByteSize_append]
      omega

/-- Names lead from the working directory where they lead behind the path to it. -/
theorem node?_from_workingDir {fs : FileSystem} {names : List String} (some : names ≠ [])
    (proper : ∀ n ∈ fs.workingDir ++ names, IsName n) (room : fits (below ⟨"/"⟩ (fs.workingDir ++ names)) = true) :
    fs.node? ⟨"/".intercalate names⟩ = fs.node? (below ⟨"/"⟩ (fs.workingDir ++ names)) := by
  have own : ∀ n ∈ names, IsName n := fun n member => proper n (by simp [member])
  obtain ⟨name, rest, rfl⟩ := List.exists_cons_of_ne_nil some
  obtain ⟨first, more, whole⟩ := List.exists_cons_of_ne_nil (List.append_ne_nil_of_right_ne_nil fs.workingDir some)
  rw [whole] at proper room
  rw [whole, below_root proper]
  rw [below_root proper] at room
  have relative := isAbsolute_intercalate own
  have cut : segments ⟨"/".intercalate (name :: rest)⟩ = name :: rest :=
    segments_intercalate (by simp) fun n member => (own n member).2.2.2
  have slash := segments_root proper
  have absolute : isAbsolute ⟨"/" ++ "/".intercalate (first :: more)⟩ = true := by
    simp [isAbsolute_iff slash]
  have shorter : fits ⟨"/".intercalate (name :: rest)⟩ = true := by
    have size := utf8ByteSize_intercalate_le fs.workingDir (name :: rest)
    simp only [fits, whole, String.utf8ByteSize_append, decide_eq_true_eq] at room size ⊢
    omega
  have visible : (below ⟨name⟩ rest).raw ≠ "" :=
    raw_below_ne_empty (own name (by simp)).1 fun n member => own n (by simp [member])
  rw [below_name own] at visible
  have visible' : "/" ++ "/".intercalate (first :: more) ≠ "" := by simp
  have same : follow linkLimit ⟨fs.root, []⟩ ("" :: first :: more) = follow linkLimit ⟨fs.root, []⟩ (first :: more) := by
    unfold follow
    rw [advance_empty _ (by simp)]
  simp only [node?, reach, reachAlong, visible, visible', shorter, room, origin, relative, absolute, cut, slash, whole,
    same, ne_eq, not_false_eq_true, decide_true, Bool.and_self, if_true, Bool.false_eq_true, if_false, List.nil_append]

theorem exists_follow_below {fs : FileSystem} {p : Path} {names : List String} {start : Node}
    (leads : fs.node? p = some start) (some : names ≠ []) (proper : ∀ name ∈ names, IsName name) :
    ∃ left t, t.node = start ∧
      follow linkLimit ⟨fs.root, []⟩ (fs.origin (p.below names) ++ (p.below names).segments) = follow left t names := by
  obtain ⟨t, nonempty, _, reached, way⟩ := reach_of_node? leads
  obtain ⟨front, joined, own⟩ := segments_below nonempty some proper
  have front_way : follow linkLimit ⟨fs.root, []⟩ (fs.origin p ++ front) = .found t := by
    rcases own with own | own
    · exact own ▸ way
    · rw [own, ← List.append_assoc] at way
      exact follow_of_follow_slash way
  obtain ⟨left, onward⟩ := exists_follow_append front_way names
  refine ⟨left, t, reached, ?_⟩
  rw [← onward, origin_below nonempty proper, joined, List.append_assoc]

theorem node?_below {fs : FileSystem} {p : Path} {names : List String} {start node : Node}
    (leads : fs.node? p = some start) (found : start.at? names = some node)
    (solid : ∀ target, node ≠ .link target) (proper : ∀ name ∈ names, IsName name)
    (room : fits (p.below names) = true) : fs.node? (p.below names) = some node := by
  by_cases none : names = []
  · subst none
    rw [← found]
    exact leads
  · obtain ⟨_, nonempty, _, _, _⟩ := reach_of_node? leads
    obtain ⟨left, t, reached, way⟩ := exists_follow_below leads none proper
    obtain ⟨last, arrived, same⟩ := advance_names (t := t) proper (reached ▸ found) solid
    have there : follow left t names = .found last := by rw [follow, arrived]
    rw [node?_of_follow (raw_below_ne_empty nonempty proper) room (way.trans there), same]

end FileSystem

end Conformance
