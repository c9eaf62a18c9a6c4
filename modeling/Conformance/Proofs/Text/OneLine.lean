import Conformance.Proofs.Text.Case
import Conformance.Text.Blank
import Conformance.Text.Lines

namespace Conformance

namespace Text

theorem digitChar_ne_newline (d : Nat) : Nat.digitChar d ≠ '\n' := by
  rcases Nat.lt_or_ge d 16 with below | above
  · revert below
    revert d
    decide
  · obtain ⟨k, rfl⟩ := Nat.exists_eq_add_of_le' above
    unfold Nat.digitChar
    simp

theorem newline_not_mem_toDigits (b n : Nat) : '\n' ∉ Nat.toDigits b n := by
  have digits : ∀ fuel n l, '\n' ∉ l → '\n' ∉ Nat.toDigitsCore b fuel n l := by
    intro fuel
    induction fuel with
    | zero => exact fun _ _ free => free
    | succ fuel ih =>
      intro n l free
      have more : '\n' ∉ Nat.digitChar (n % b) :: l :=
        fun inside => (List.mem_cons.mp inside).elim (digitChar_ne_newline _ ·.symm) free
      rw [Nat.toDigitsCore]
      split
      · exact more
      · exact ih _ _ more
  exact digits _ n [] (by simp)

end Text

def OneLine (s : String) : Prop :=
  '\n' ∉ s.toList

namespace OneLine

theorem literal {chars : List Char} (free : (chars.all fun c => c != '\n') = true) : OneLine (String.ofList chars) := by
  intro inside
  rw [String.toList_ofList] at inside
  have other := List.all_eq_true.mp free _ inside
  simp at other

@[simp] theorem ofList_iff {chars : List Char} : OneLine (String.ofList chars) ↔ '\n' ∉ chars := by
  rw [OneLine, String.toList_ofList]

@[simp] theorem append_iff {a b : String} : OneLine (a ++ b) ↔ OneLine a ∧ OneLine b := by
  simp [OneLine]

@[simp] theorem toString_iff {s : String} : OneLine (toString s) ↔ OneLine s :=
  Iff.rfl

theorem empty : OneLine "" := by
  simp [OneLine]

@[simp] theorem nat (n : Nat) : OneLine (toString n) := by
  rw [Nat.toString_eq_ofList_toDigits, ofList_iff]
  exact Text.newline_not_mem_toDigits 10 n

@[simp] theorem repr (n : Nat) : OneLine n.repr :=
  nat n

@[simp] theorem int (n : Int) : OneLine (toString n) := by
  cases n with
  | ofNat n => exact nat n
  | negSucc n =>
    have whole : OneLine ("-" ++ toString n.succ) := append_iff.mpr ⟨by simp [OneLine], nat _⟩
    exact whole

theorem intercalate {separator : String} {l : List String} (own : OneLine separator) (each : ∀ s ∈ l, OneLine s) :
    OneLine (separator.intercalate l) := by
  rw [OneLine, String.toList_intercalate]
  induction l with
  | nil => simp
  | cons s l ih =>
    have first : '\n' ∉ s.toList := each s (by simp)
    have others := ih fun s' member => each s' (by simp [member])
    cases l with
    | nil => simpa using first
    | cons s' l =>
      rw [List.map_cons, List.map_cons, List.intercalate_cons_cons, List.mem_append, List.mem_append]
      rintro ((inside | inside) | inside)
      · exact first inside
      · exact own inside
      · exact others inside

end OneLine

namespace Text

theorem newline_not_mem_of_mem_lines {s line : List Char} (member : line ∈ lines s) : '\n' ∉ line := by
  have pieces : ∀ piece ∈ split (· == '\n') s, '\n' ∉ piece := by
    intro piece inside feed
    have other := not_stops_of_mem_split (· == '\n') s piece inside '\n' feed
    simp at other
  rw [lines] at member
  generalize split (· == '\n') s = l at member pieces
  fun_induction linesOfPieces l with
  | case1 => cases member
  | case2 last empty => cases member
  | case3 last some =>
    obtain rfl := List.mem_singleton.mp member
    exact pieces line (by simp)
  | case4 piece rest _ ih =>
    rcases List.mem_cons.mp member with rfl | member
    · have own := pieces piece (by simp)
      unfold dropReturn
      split
      · exact fun inside => own (List.dropLast_subset _ inside)
      · exact own
    · exact ih member fun piece inside => pieces piece (by simp [inside])

theorem newline_not_mem_of_mem_numberedLines {s line : List Char} {number : Nat}
    (member : (number, line) ∈ numberedLines s) : '\n' ∉ line := by
  obtain ⟨⟨line', i⟩, inside, same⟩ := List.mem_map.mp member
  cases same
  exact newline_not_mem_of_mem_lines (List.fst_mem_of_mem_zipIdx inside)

theorem trim_subset (s : List Char) : trim s ⊆ s := by
  have front : trimStart s ⊆ s := List.dropWhile_subset _
  have back : trimEnd (trimStart s) ⊆ trimStart s := by
    intro c inside
    rw [trimEnd, List.mem_reverse] at inside
    exact List.mem_reverse.mp (List.dropWhile_subset _ inside)
  exact fun c inside => front (back inside)

theorem dropTails_subset (tail s : List Char) : dropTails tail s ⊆ s := by
  have within : ∀ n s, dropTails.go tail n s ⊆ s := by
    intro n
    induction n with
    | zero => exact fun s => List.Subset.refl s
    | succ n ih =>
      intro s
      rw [dropTails.go]
      split
      · rename_i shorter found
        have whole := beforeTail?_eq_some_iff.mp found
        exact fun c inside => whole ▸ List.mem_append_left _ (ih shorter inside)
      · exact List.Subset.refl s
  exact within s.length s

theorem newline_not_mem_capitalize {s : List Char} (free : '\n' ∉ s) : '\n' ∉ capitalize s :=
  not_mem_capitalize (by decide) (by decide) free

theorem newline_not_mem_decapitalize {s : List Char} (free : '\n' ∉ s) : '\n' ∉ decapitalize s :=
  not_mem_decapitalize (by decide) (by decide) free

end Text

end Conformance
