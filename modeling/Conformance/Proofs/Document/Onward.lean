import Conformance.Proofs.Document.Headings
import Conformance.Proofs.Text.Lines
import Mathlib.Data.List.Induction

namespace Conformance

section Lists

variable {α β : Type}

inductive Onward (R : α → α → Prop) : List α → List α → Prop
  | more (others : List α) : Onward R [] others
  | last {a b : α} (changed : R a b) (others : List α) : Onward R [a] (b :: others)
  | cons (a : α) {items others : List α} (rest : Onward R items others) : Onward R (a :: items) (a :: others)

variable {R : α → α → Prop} {items others : List α}

theorem Onward.behind (onward : Onward R items others) (front : List α) : Onward R (front ++ items) (front ++ others) := by
  induction front with
  | nil => exact onward
  | cons a front ih => exact .cons a ih

theorem Onward.numbered (onward : Onward R items others) :
    Onward (fun a b => a.1 = b.1 ∧ R a.2 b.2) (Text.numbered items) (Text.numbered others) := by
  have each : ∀ k, Onward (fun a b : Nat × α => a.1 = b.1 ∧ R a.2 b.2) ((items.zipIdx k).map fun x => (x.2 + 1, x.1))
      ((others.zipIdx k).map fun x => (x.2 + 1, x.1)) := by
    induction onward with
    | more others => exact fun _ => .more _
    | last changed others => exact fun _ => .last ⟨rfl, changed⟩ _
    | cons a rest ih => exact fun k => .cons _ (ih (k + 1))
  exact each 0

/-- What is read from items up to one that is refused stays, if what is read from an item stays when it is changed. -/
theorem Onward.takeWhile_sublist {read : α → Option β} {p : α → Bool} (onward : Onward R items others)
    (kept : ∀ a b, R a b → ∀ y, read a = some y → read b = some y ∧ p b = true) :
    ((items.takeWhile p).filterMap read).Sublist ((others.takeWhile p).filterMap read) := by
  induction onward with
  | more others => exact List.nil_sublist _
  | @last a b changed others =>
    cases own : read a with
    | none =>
      have nothing : ([a].takeWhile p).filterMap read = [] := by
        rw [List.takeWhile_cons]
        split <;> simp [own]
      rw [nothing]
      exact List.nil_sublist _
    | some y =>
      obtain ⟨same, accepted⟩ := kept a b changed y own
      rw [List.takeWhile_cons_of_pos accepted, List.filterMap_cons_some same, List.takeWhile_cons]
      split
      · rw [List.filterMap_cons_some own]
        exact (List.nil_sublist _).cons_cons y
      · exact List.nil_sublist _
  | cons a rest ih =>
    rw [List.takeWhile_cons, List.takeWhile_cons]
    split
    · rw [List.filterMap_cons, List.filterMap_cons]
      split
      · exact ih
      · exact ih.cons_cons _
    · exact List.nil_sublist _

/-- What is read from the items below a heading stays, if what is read from an item stays when it is changed. -/
theorem Onward.below_sublist {R : Nat × α → Nat × α → Prop} {items others : List (Nat × α)} {read : Nat × α → Option β}
    {opens closes : α → Bool} (onward : Onward R items others)
    (kept : ∀ a b, R a b → ∀ y, read a = some y → read b = some y ∧ closes b.2 = false) :
    ((Document.below opens closes items).filterMap read).Sublist
      ((Document.below opens closes others).filterMap read) := by
  have kept' : ∀ a b, R a b → ∀ y, read a = some y → read b = some y ∧ (!closes b.2) = true := by
    intro a b changed y own
    obtain ⟨same, open_⟩ := kept a b changed y own
    exact ⟨same, by rw [open_]; rfl⟩
  induction onward with
  | more others => exact List.nil_sublist _
  | @last a b changed others =>
    have nothing : Document.below opens closes [a] = [] := by
      rw [Document.below_cons]
      split <;> rfl
    rw [nothing]
    exact List.nil_sublist _
  | cons a rest ih =>
    rw [Document.below_cons, Document.below_cons]
    split
    · exact rest.takeWhile_sublist kept'
    · exact ih

end Lists

namespace Text

/-- The second line is the first one that goes on, without the carriage return of a line that a feed ends. -/
def GoesOn (line other : List Char) : Prop :=
  ∃ w, other = line ++ w ∨ other = dropReturn (line ++ w)

theorem exists_last_line (s : List Char) : ∃ front last, s = front ++ last ∧ EndsLine front.getLast? ∧ '\n' ∉ last := by
  induction s using List.reverseRecOn with
  | nil => exact ⟨[], [], rfl, by simp [EndsLine], by simp⟩
  | append_singleton s c ih =>
    obtain ⟨front, last, rfl, ends, open_⟩ := ih
    by_cases feed : c = '\n'
    · subst feed
      exact ⟨front ++ last ++ ['\n'], [], by simp, by simp [EndsLine], by simp⟩
    · exact ⟨front, last ++ [c], by simp, ends, by simpa [open_] using Ne.symm feed⟩

theorem onward_lines (s more : List Char) : Onward GoesOn (lines s) (lines (s ++ more)) := by
  obtain ⟨front, last, rfl, ends, open_⟩ := exists_last_line s
  rw [List.append_assoc, lines_append ends, lines_append ends]
  refine Onward.behind ?_ (lines front)
  by_cases none : last = []
  · subst none
    exact .more _
  rw [lines_of_free none open_]
  by_cases feed : '\n' ∈ more
  · obtain ⟨w, rest, rfl, first⟩ := List.eq_append_cons_of_mem feed
    have open_ : '\n' ∉ last ++ w := by simp [open_, first]
    rw [← List.append_assoc, lines_feed, split_of_free (not_feed open_)]
    exact .last ⟨w, .inr rfl⟩ _
  · rw [lines_of_free (by simp [none]) (by simp [open_, feed])]
    exact .last ⟨more, .inl rfl⟩ []

end Text

end Conformance
