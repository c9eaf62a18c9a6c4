import Conformance.Proofs.Manifest.Cuts

namespace Conformance

theorem Text.append_inj_of_byteLength {front back front' back' : List Char} (same : front ++ back = front' ++ back')
    (size : byteLength front = byteLength front') : front = front' ∧ back = back' := by
  have first := splitAtByte?_byteLength front back
  rw [same, size, splitAtByte?_byteLength, Option.some.injEq, Prod.mk.injEq] at first
  exact ⟨first.1.symm, first.2.symm⟩

namespace Endpoint

open Text

def codeAmong (offset : Nat) (marked : List (Role × Char)) : List (Nat × Char) :=
  (placed offset marked).filterMap fun (at_, role, c) => if role = .code then some (at_, c) else none

theorem codeFrom_eq (offset : Nat) (s : List Char) : codeFrom offset s = codeAmong offset (roles .code s) := rfl

def further (n : Nat) (code : List (Nat × Char)) : List (Nat × Char) :=
  code.map fun x => (n + x.1, x.2)

theorem codeAmong_cons (offset : Nat) (role : Role) (c : Char) (marked : List (Role × Char)) :
    codeAmong offset ((role, c) :: marked) =
      (if role = .code then [(offset, c)] else []) ++ codeAmong (offset + c.utf8Size) marked := by
  by_cases code : role = .code <;> simp [codeAmong, placed, code]

theorem codeAmong_append (offset : Nat) (front back : List (Role × Char)) : codeAmong offset (front ++ back) =
    codeAmong offset front ++ codeAmong (offset + byteLength (front.map Prod.snd)) back := by
  induction front generalizing offset with
  | nil => rfl
  | cons x front ih =>
    obtain ⟨role, c⟩ := x
    rw [List.cons_append, codeAmong_cons, codeAmong_cons, ih, List.map_cons, byteLength_cons, List.append_assoc,
      Nat.add_assoc]

theorem codeAmong_further (n offset : Nat) (marked : List (Role × Char)) :
    codeAmong (n + offset) marked = further n (codeAmong offset marked) := by
  induction marked generalizing offset with
  | nil => rfl
  | cons x marked ih =>
    obtain ⟨role, c⟩ := x
    rw [codeAmong_cons, codeAmong_cons, Nat.add_assoc, ih, further, further, List.map_append]
    split <;> rfl

theorem codeFrom_further (n offset : Nat) (s : List Char) : codeFrom (n + offset) s = further n (codeFrom offset s) :=
  codeAmong_further n offset _

/-- The code among characters lies between the bytes where they begin and end. -/
theorem bounds_of_mem_codeAmong {offset : Nat} {marked : List (Role × Char)} {x : Nat × Char}
    (member : x ∈ codeAmong offset marked) :
    offset ≤ x.1 ∧ x.1 < offset + byteLength (marked.map Prod.snd) := by
  induction marked generalizing offset with
  | nil => cases member
  | cons y marked ih =>
    obtain ⟨role, c⟩ := y
    have positive := c.utf8Size_pos
    rw [codeAmong_cons, List.mem_append] at member
    rw [List.map_cons, byteLength_cons]
    dsimp only
    rcases member with here | later
    · split at here
      · obtain rfl := List.mem_singleton.mp here
        dsimp only
        omega
      · cases here
    · have inner := ih later
      omega

section Restart

variable {mode : Mode} {s : List Char} {front back : List (Role × Char)} {c : Char}

theorem exists_behind {x : Role × Char} {marked : List (Role × Char)} (other : x.1 ≠ .code)
    (cut : x :: marked = front ++ (.code, c) :: back) :
    ∃ front', front = x :: front' ∧ marked = front' ++ (.code, c) :: back := by
  rcases List.cons_eq_append_iff.mp cut with ⟨_, same⟩ | ⟨front', rfl, inner⟩
  · cases same
    exact absurd rfl other
  · exact ⟨front', rfl, inner⟩

/-- From a character of the code on, a new scan goes as the one before. -/
theorem roles_restart (cut : roles mode s = front ++ (.code, c) :: back) :
    roles .code (c :: back.map Prod.snd) = (.code, c) :: back := by
  fun_induction roles mode s generalizing front with
  | case1 => simp at cut
  | case2 s ih | case3 s ih | case6 mark d s ih | case10 s ih =>
    obtain ⟨front₁, rfl, second⟩ := exists_behind (by simp) cut
    obtain ⟨front₂, rfl, inner⟩ := exists_behind (by simp) second
    exact ih inner
  | case4 d s noLine noBlock quote ih | case7 mark d s noEscape ih | case8 s ih | case9 d s inside ih | case11 d s inside ih =>
    obtain ⟨front', rfl, inner⟩ := exists_behind (by simp) cut
    exact ih inner
  | case5 d s noLine noBlock noQuote ih =>
    rcases List.cons_eq_append_iff.mp cut with ⟨_, same⟩ | ⟨front', rfl, inner⟩
    · obtain ⟨here, rfl⟩ := List.cons.inj same
      cases here
      rw [map_snd_roles, roles.eq_4 _ _ noLine noBlock, if_neg noQuote]
    · exact ih inner

theorem spelled_of_roles (cut : roles mode s = front ++ (.code, c) :: back) :
    s = front.map Prod.snd ++ [c] ++ back.map Prod.snd := by
  rw [← map_snd_roles mode s, cut]
  simp

/-- A text that is cut off behind a character of its code is scanned as it was in the whole text. -/
theorem roles_cut_off (cut : roles mode s = front ++ (.code, c) :: back) :
    roles mode (front.map Prod.snd ++ [c]) = front ++ [(.code, c)] := by
  fun_induction roles mode s generalizing front with
  | case1 => simp at cut
  | case2 s ih | case3 s ih | case6 mark d s ih | case10 s ih =>
    obtain ⟨front₁, rfl, second⟩ := exists_behind (by simp) cut
    obtain ⟨front₂, rfl, inner⟩ := exists_behind (by simp) second
    simp only [List.map_cons, List.cons_append, roles, ih inner]
  | case4 d s noLine noBlock quote ih =>
    obtain ⟨front', rfl, inner⟩ := exists_behind (by simp) cut
    have whole := spelled_of_roles inner
    rw [List.map_cons, List.cons_append, roles.eq_4, if_pos quote, ih inner]
    · rfl
    · exact fun rest slash first => noLine (rest ++ back.map Prod.snd) slash (by rw [whole, first]; rfl)
    · exact fun rest slash first => noBlock (rest ++ back.map Prod.snd) slash (by rw [whole, first]; rfl)
  | case5 d s noLine noBlock noQuote ih =>
    rcases List.cons_eq_append_iff.mp cut with ⟨rfl, same⟩ | ⟨front', rfl, inner⟩
    · obtain ⟨here, rfl⟩ := List.cons.inj same
      cases here
      rw [List.map_nil, List.nil_append, roles.eq_4 _ _ (by simp) (by simp), if_neg noQuote]
      rfl
    · have whole := spelled_of_roles inner
      rw [List.map_cons, List.cons_append, roles.eq_4, if_neg noQuote, ih inner]
      · rfl
      · exact fun rest slash first => noLine (rest ++ back.map Prod.snd) slash (by rw [whole, first]; rfl)
      · exact fun rest slash first => noBlock (rest ++ back.map Prod.snd) slash (by rw [whole, first]; rfl)
  | case7 mark d s noEscape ih =>
    obtain ⟨front', rfl, inner⟩ := exists_behind (by simp) cut
    have whole := spelled_of_roles inner
    rw [List.map_cons, List.cons_append, roles.eq_6, ih inner]
    · rfl
    · exact fun e rest slash first => noEscape e (rest ++ back.map Prod.snd) slash (by rw [whole, first]; rfl)
  | case8 s ih =>
    obtain ⟨front', rfl, inner⟩ := exists_behind (by simp) cut
    rw [List.map_cons, List.cons_append, roles, if_pos rfl, ih inner]
    rfl
  | case9 d s inside ih =>
    obtain ⟨front', rfl, inner⟩ := exists_behind (by simp) cut
    rw [List.map_cons, List.cons_append, roles, if_neg inside, ih inner]
    rfl
  | case11 d s inside ih =>
    obtain ⟨front', rfl, inner⟩ := exists_behind (by simp) cut
    have whole := spelled_of_roles inner
    rw [List.map_cons, List.cons_append, roles.eq_9, ih inner]
    · rfl
    · exact fun rest star first => inside (rest ++ back.map Prod.snd) star (by rw [whole, first]; rfl)

end Restart

def between (first last : Nat) (code : List (Nat × Char)) : List (Nat × Char) :=
  code.filter fun x => first ≤ x.1 && x.1 ≤ last

section Between

variable {offset first last : Nat} {marked : List (Role × Char)}

theorem between_append (first last : Nat) (code more : List (Nat × Char)) :
    between first last (code ++ more) = between first last code ++ between first last more :=
  List.filter_append ..

theorem between_codeAmong_eq_nil (outside : offset + byteLength (marked.map Prod.snd) ≤ first ∨ last < offset) :
    between first last (codeAmong offset marked) = [] := by
  refine List.filter_eq_nil_iff.mpr fun x member => ?_
  have bounds := bounds_of_mem_codeAmong member
  simp only [Bool.and_eq_true, decide_eq_true_eq]
  omega

theorem between_codeAmong_concat (offset : Nat) (marked : List (Role × Char)) (c : Char) :
    between offset (offset + byteLength (marked.map Prod.snd)) (codeAmong offset (marked ++ [(.code, c)])) =
      codeAmong offset (marked ++ [(.code, c)]) := by
  refine List.filter_eq_self.mpr fun x member => ?_
  have lower := (bounds_of_mem_codeAmong member).1
  have upper : x.1 ≤ offset + byteLength (marked.map Prod.snd) := by
    rw [codeAmong_append, List.mem_append] at member
    rcases member with inside | last
    · exact Nat.le_of_lt (bounds_of_mem_codeAmong inside).2
    · obtain rfl := List.mem_singleton.mp last
      exact Nat.le_refl _
  rw [Bool.and_eq_true, decide_eq_true_eq, decide_eq_true_eq]
  exact ⟨lower, upper⟩

end Between

theorem exists_role_of_mem_codeFrom {offset at_ : Nat} {c : Char} {s : List Char} (member : (at_, c) ∈ codeFrom offset s) :
    ∃ front back, roles .code s = front ++ (.code, c) :: back ∧ at_ = offset + byteLength (front.map Prod.snd) :=
  mem_placed (mem_code_iff.mp member)

/-- Behind a character of the code, a new scan finds the code that the scan before found from there on. -/
theorem codeFrom_restart {offset : Nat} {front back : List Char} {c : Char}
    (member : (offset + byteLength front, c) ∈ codeFrom offset (front ++ back)) :
    codeFrom (offset + byteLength front) back =
      (codeFrom offset (front ++ back)).filter fun x => offset + byteLength front ≤ x.1 := by
  obtain ⟨before, behind, cut, place⟩ := exists_role_of_mem_codeFrom member
  have whole : front ++ back = before.map Prod.snd ++ c :: behind.map Prod.snd := by
    rw [← map_snd_roles .code (front ++ back), cut]
    simp
  obtain ⟨rfl, rfl⟩ : front = before.map Prod.snd ∧ back = c :: behind.map Prod.snd :=
    append_inj_of_byteLength whole (by omega)
  rw [codeFrom_eq, codeFrom_eq, cut, codeAmong_append, roles_restart cut, List.filter_append,
    List.filter_eq_nil_iff.mpr, List.filter_eq_self.mpr, List.nil_append]
  · intro x inside
    simpa using (bounds_of_mem_codeAmong inside).1
  · intro x inside
    have bounds := bounds_of_mem_codeAmong inside
    simp only [decide_eq_true_eq]
    omega

/-- From one character of the code to another, a text is scanned by itself as it is in the whole text. -/
theorem codeFrom_part {offset first last : Nat} {a b : Char} {s : List Char} (opens : (first, a) ∈ codeFrom offset s)
    (closes : (last, b) ∈ codeFrom offset s) (ordered : first < last) : ∃ front inner back,
      s = front ++ (a :: inner ++ [b] ++ back) ∧ offset + byteLength front = first ∧
      first + byteLength (a :: inner ++ [b]) = last + b.utf8Size ∧
      between first last (codeFrom offset s) = further first (codeFrom 0 (a :: inner ++ [b])) := by
  obtain ⟨before, behind, cut, rfl⟩ := exists_role_of_mem_codeFrom opens
  obtain ⟨before', behind', cut', rfl⟩ := exists_role_of_mem_codeFrom closes
  -- the closing character stands behind the opening one
  obtain ⟨inner, rfl, rfl⟩ : ∃ inner, before' = before ++ (.code, a) :: inner ∧ behind = inner ++ (.code, b) :: behind' := by
    rcases List.append_eq_append_iff.mp (cut.symm.trans cut') with ⟨inner, rfl, same⟩ | ⟨inner, rfl, _⟩
    · cases inner with
      | nil => simp at ordered
      | cons x inner =>
        obtain ⟨rfl, rfl⟩ := List.cons.inj same
        exact ⟨inner, rfl, rfl⟩
    · rw [List.map_append, byteLength_append] at ordered
      omega
  have own : roles .code (a :: inner.map Prod.snd ++ [b]) = (.code, a) :: inner ++ [(.code, b)] := by
    have restarted := roles_restart cut
    rw [← List.cons_append] at restarted
    exact roles_cut_off restarted
  have spelled : ((Role.code, a) :: inner ++ [(Role.code, b)]).map Prod.snd = a :: inner.map Prod.snd ++ [b] := by simp
  have marks : roles .code s = before ++ ((.code, a) :: inner ++ [(.code, b)] ++ behind') := by simp [cut]
  refine ⟨before.map Prod.snd, inner.map Prod.snd, behind'.map Prod.snd, ?_, rfl, ?_, ?_⟩
  · rw [← map_snd_roles .code s, marks]
    simp
  · simp
    omega
  · have inside := between_codeAmong_concat (offset + byteLength (before.map Prod.snd)) ((.code, a) :: inner) b
    rw [Nat.add_assoc, ← byteLength_append, ← List.map_append] at inside
    rw [codeFrom_eq, codeFrom_eq, marks, own, ← codeAmong_further, Nat.add_zero, codeAmong_append, codeAmong_append,
      between_append, between_append, inside, between_codeAmong_eq_nil (.inl (Nat.le_refl _)), between_codeAmong_eq_nil,
      List.nil_append, List.append_nil]
    have positive := b.utf8Size_pos
    right
    simp
    omega

end Endpoint

end Conformance
