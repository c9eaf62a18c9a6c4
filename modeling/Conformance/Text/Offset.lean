namespace Conformance.Text

def byteLength : List Char → Nat
  | [] => 0
  | c :: s => c.utf8Size + byteLength s

@[simp] theorem byteLength_nil : byteLength [] = 0 := rfl

@[simp] theorem byteLength_cons (c : Char) (s : List Char) :
    byteLength (c :: s) = c.utf8Size + byteLength s := rfl

@[simp] theorem byteLength_append (s t : List Char) :
    byteLength (s ++ t) = byteLength s + byteLength t := by
  induction s with
  | nil => simp
  | cons c s ih => simp [ih, Nat.add_assoc]

def splitAtByte? : Nat → List Char → Option (List Char × List Char)
  | 0, s => some ([], s)
  | _ + 1, [] => none
  | n + 1, c :: s =>
    if c.utf8Size ≤ n + 1 then
      (splitAtByte? (n + 1 - c.utf8Size) s).map fun cut => (c :: cut.1, cut.2)
    else none

def slice? (s : List Char) (start stop : Nat) : Option (List Char) :=
  if start ≤ stop then do
    let (_, rest) ← splitAtByte? start s
    let (part, _) ← splitAtByte? (stop - start) rest
    pure part
  else none

theorem splitAtByte?_byteLength (s t : List Char) :
    splitAtByte? (byteLength s) (s ++ t) = some (s, t) := by
  induction s with
  | nil => simp [splitAtByte?]
  | cons c s ih =>
    have positive := c.utf8Size_pos
    obtain ⟨n, h⟩ : ∃ n, byteLength (c :: s) = n + 1 := ⟨c.utf8Size + byteLength s - 1, by simp; omega⟩
    have here : c.utf8Size ≤ n + 1 := by simp at h; omega
    have left : n + 1 - c.utf8Size = byteLength s := by simp at h; omega
    rw [h, List.cons_append, splitAtByte?, if_pos here, left, ih]
    rfl

theorem splitAtByte?_eq_some_iff {n : Nat} {s front back : List Char} :
    splitAtByte? n s = some (front, back) ↔ s = front ++ back ∧ n = byteLength front := by
  constructor
  · intro h
    induction s generalizing n front with
    | nil =>
      cases n with
      | zero => simp only [splitAtByte?, Option.some.injEq, Prod.mk.injEq] at h; simp [← h.1, ← h.2]
      | succ n => simp [splitAtByte?] at h
    | cons c s ih =>
      cases n with
      | zero => simp only [splitAtByte?, Option.some.injEq, Prod.mk.injEq] at h; simp [← h.1, ← h.2]
      | succ n =>
        simp only [splitAtByte?] at h
        split at h
        · rename_i fits
          obtain ⟨⟨f, b⟩, hcut, hpair⟩ := Option.map_eq_some_iff.1 h
          simp only [Prod.mk.injEq] at hpair
          obtain ⟨rfl, rfl⟩ := hpair
          obtain ⟨rfl, hn⟩ := ih hcut
          refine ⟨rfl, ?_⟩
          simp only [byteLength_cons]
          omega
        · exact absurd h (by simp)
  · rintro ⟨rfl, rfl⟩
    exact splitAtByte?_byteLength front back

/-- A slice is taken exactly when the text has that middle part at those offsets. -/
theorem slice?_eq_some_iff {s part : List Char} {start stop : Nat} :
    slice? s start stop = some part ↔
      ∃ front back, s = front ++ part ++ back ∧ start = byteLength front ∧
        stop = byteLength front + byteLength part := by
  unfold slice?
  split
  · rename_i ordered
    simp only [bind, Option.bind_eq_some_iff, pure, Option.some.injEq, Prod.exists]
    constructor
    · rintro ⟨front, rest, h₁, p, back, h₂, rfl⟩
      obtain ⟨rfl, rfl⟩ := splitAtByte?_eq_some_iff.1 h₁
      obtain ⟨rfl, h⟩ := splitAtByte?_eq_some_iff.1 h₂
      exact ⟨front, back, by simp, rfl, by omega⟩
    · rintro ⟨front, back, rfl, rfl, rfl⟩
      refine ⟨front, part ++ back, ?_, part, back, ?_, rfl⟩
      · rw [List.append_assoc, splitAtByte?_byteLength]
      · rw [Nat.add_sub_cancel_left, splitAtByte?_byteLength]
  · rename_i disordered
    constructor
    · intro h; exact absurd h (by simp)
    · rintro ⟨front, back, rfl, rfl, rfl⟩; omega

def IsBorder (s : List Char) (n : Nat) : Prop :=
  ∃ front back, s = front ++ back ∧ n = byteLength front

variable {s : List Char}

theorem isBorder_byteLength (front back : List Char) : IsBorder (front ++ back) (byteLength front) :=
  ⟨front, back, rfl, rfl⟩

theorem isBorder_end (s : List Char) : IsBorder s (byteLength s) :=
  ⟨s, [], by simp, rfl⟩

theorem isBorder_behind (front : List Char) (c : Char) (back : List Char) :
    IsBorder (front ++ c :: back) (byteLength front + c.utf8Size) :=
  ⟨front ++ [c], back, by simp, by simp⟩

theorem IsBorder.append {n : Nat} (border : IsBorder s n) (front : List Char) :
    IsBorder (front ++ s) (byteLength front + n) := by
  obtain ⟨inner, back, rfl, rfl⟩ := border
  exact ⟨front ++ inner, back, by simp, by simp⟩

theorem eq_nil_of_byteLength {s : List Char} (empty : byteLength s = 0) : s = [] := by
  cases s with
  | nil => rfl
  | cons c s =>
    have positive := c.utf8Size_pos
    rw [byteLength_cons] at empty
    omega

theorem exists_slice {a b : Nat} (first : IsBorder s a) (last : IsBorder s b) (ordered : a ≤ b) :
    ∃ part, slice? s a b = some part := by
  obtain ⟨front, back, rfl, rfl⟩ := first
  obtain ⟨front', back', whole, rfl⟩ := last
  rcases List.append_eq_append_iff.mp whole with ⟨part, rfl, rfl⟩ | ⟨part, rfl, rfl⟩
  · exact ⟨part, slice?_eq_some_iff.mpr ⟨front, back', by simp, rfl, by simp⟩⟩
  · rw [byteLength_append] at ordered
    obtain rfl := (eq_nil_of_byteLength (by omega) : part = [])
    exact ⟨[], slice?_eq_some_iff.mpr ⟨front', back, by simp, by simp, by simp⟩⟩

theorem slice?_front (part back : List Char) : slice? (part ++ back) 0 (byteLength part) = some part :=
  slice?_eq_some_iff.mpr ⟨[], back, by simp, rfl, by simp⟩

end Conformance.Text
