import Conformance.Proofs.Text.Lines
import Conformance.Text.Offset

namespace Conformance

section Stops

variable {α : Type} {part s t : List α} {x : α}

theorem prefix_append_stop (free : x ∉ part) : part <+: s ++ x :: t ↔ part <+: s := by
  induction s generalizing part with
  | nil =>
    cases part with
    | nil => simp
    | cons a part =>
      have other : a ≠ x := fun same => free (same ▸ List.mem_cons_self)
      simp [List.cons_prefix_cons, other]
  | cons b s ih =>
    cases part with
    | nil => simp
    | cons a part =>
      have rest : part <+: s ++ x :: t ↔ part <+: s := ih fun inside => free (List.mem_cons_of_mem a inside)
      rw [List.cons_append, List.cons_prefix_cons, List.cons_prefix_cons, rest]

theorem infix_append_stop (free : x ∉ part) : part <:+: s ++ x :: t ↔ part <:+: s ∨ part <:+: t := by
  induction s with
  | nil =>
    have here : part <+: [] ++ x :: t ↔ part <+: [] := prefix_append_stop free
    rw [List.nil_append] at here ⊢
    rw [List.infix_cons_iff, here, List.prefix_nil, List.infix_nil]
  | cons b s ih =>
    have here : part <+: b :: s ++ x :: t ↔ part <+: b :: s := prefix_append_stop free
    rw [List.cons_append] at here ⊢
    rw [List.infix_cons_iff, here, ih, List.infix_cons_iff, or_assoc]

end Stops

namespace Text

variable {s t : List Char} {part : String}

theorem contains_iff : contains s part = true ↔ part.toList <:+: s := by
  rw [contains]
  induction s with
  | nil =>
    rw [beforeFirst?, List.infix_nil]
    split <;> simp_all
  | cons c s ih =>
    rw [beforeFirst?, List.infix_cons_iff, ← List.isPrefixOf_iff_prefix]
    split
    · rename_i begins
      simp [begins]
    · rename_i differs
      rw [Option.isSome_map, ih]
      simp [differs]

/-- A text without a line feed occurs in one of two parts that follow each other at the end of a line. -/
theorem contains_append (part : String) (ends : EndsLine s.getLast?) (free : '\n' ∉ part.toList) (t : List Char) :
    contains (s ++ t) part = (contains s part || contains t part) := by
  apply Bool.eq_iff_iff.mpr
  rw [Bool.or_eq_true, contains_iff, contains_iff, contains_iff]
  rcases ends.cases with rfl | ⟨front, rfl⟩
  · constructor
    · exact Or.inr
    · rintro (none | inside)
      · rw [List.infix_nil.mp none]
        exact List.nil_infix
      · exact inside
  · rw [List.append_assoc, List.singleton_append, infix_append_stop free, infix_append_stop free, List.infix_nil]
    constructor
    · exact Or.imp_left Or.inl
    · rintro ((inside | none) | inside)
      · exact Or.inl inside
      · rw [none]
        exact Or.inl List.nil_infix
      · exact Or.inr inside

/-- A carriage return at the end of a line is no part of a text that occurs in it. -/
theorem contains_dropReturn {line : List Char} (free : '\r' ∉ part.toList) :
    contains (dropReturn line) part = contains line part := by
  rw [dropReturn]
  split
  · rename_i ends
    obtain ⟨front, rfl⟩ := List.getLast?_eq_some_iff.mp ends
    rw [List.dropLast_concat]
    apply Bool.eq_iff_iff.mpr
    rw [contains_iff, contains_iff, infix_append_stop free, List.infix_nil]
    constructor
    · exact Or.inl
    · rintro (inside | none)
      · exact inside
      · rw [none]
        exact List.nil_infix
  · rfl

theorem slice?_join {s x y : List Char} {a b c : Nat} (first : slice? s a b = some x)
    (second : slice? s b c = some y) : slice? s a c = some (x ++ y) := by
  obtain ⟨front, back, rfl, rfl, middle⟩ := slice?_eq_some_iff.mp first
  obtain ⟨front', back', whole, start, rfl⟩ := slice?_eq_some_iff.mp second
  have here := splitAtByte?_byteLength (front ++ x) back
  have there := splitAtByte?_byteLength front' (y ++ back')
  rw [byteLength_append, ← middle, start, whole, List.append_assoc, there] at here
  obtain ⟨rfl, rfl⟩ : front' = front ++ x ∧ y ++ back' = back := by simpa using here
  apply slice?_eq_some_iff.mpr
  exact ⟨front, back', by simp, rfl, by simp [Nat.add_assoc]⟩

theorem slice?_append {s block : List Char} {start stop : Nat} (part : slice? s start stop = some block) (more : List Char) :
    slice? (s ++ more) start stop = some block := by
  obtain ⟨front, back, rfl, first, last⟩ := slice?_eq_some_iff.mp part
  exact slice?_eq_some_iff.mpr ⟨front, back ++ more, by simp, first, last⟩

theorem exists_front_of_slice?_end {s block : List Char} {start : Nat}
    (part : slice? s start (byteLength s) = some block) : ∃ front, s = front ++ block ∧ start = byteLength front := by
  obtain ⟨front, back, whole, first, last⟩ := slice?_eq_some_iff.mp part
  have none : back = [] := by
    apply eq_nil_of_byteLength
    have total := congrArg byteLength whole
    simp only [byteLength_append] at total
    omega
  exact ⟨front, by rw [whole, none, List.append_nil], first⟩

theorem slice?_append_end {s block : List Char} {start : Nat} (part : slice? s start (byteLength s) = some block)
    (more : List Char) :
    slice? (s ++ more) start (byteLength (s ++ more)) = some (block ++ more) ∧ ∃ front, s = front ++ block := by
  obtain ⟨front, rfl, first⟩ := exists_front_of_slice?_end part
  exact ⟨slice?_eq_some_iff.mpr ⟨front, [], by simp, first, by simp⟩, front, rfl⟩

end Text

end Conformance
