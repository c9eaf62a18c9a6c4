import Conformance.Endpoint.Manifest
import Conformance.Proofs.Pattern.Places

namespace Conformance.Endpoint

open Text

theorem mem_placed {offset at_ : Nat} {role : Role} {c : Char} {marked : List (Role × Char)}
    (member : (at_, role, c) ∈ placed offset marked) :
    ∃ front back, marked = front ++ (role, c) :: back ∧ at_ = offset + byteLength (front.map Prod.snd) := by
  induction marked generalizing offset with
  | nil => cases member
  | cons x marked ih =>
    obtain ⟨role', c'⟩ := x
    rcases List.mem_cons.mp member with same | further
    · cases same
      exact ⟨[], marked, rfl, rfl⟩
    · obtain ⟨front, back, rfl, rfl⟩ := ih further
      exact ⟨(role', c') :: front, back, rfl, by simp [Nat.add_assoc]⟩

theorem pairwise_placed (offset : Nat) (marked : List (Role × Char)) :
    (placed offset marked).Pairwise fun x y => x.1 < y.1 := by
  induction marked generalizing offset with
  | nil => exact .nil
  | cons x marked ih =>
    obtain ⟨role, c⟩ := x
    refine List.pairwise_cons.mpr ⟨?_, ih _⟩
    rintro ⟨at_, role', c'⟩ member
    obtain ⟨_, _, _, rfl⟩ := mem_placed member
    have positive := c.utf8Size_pos
    dsimp only
    omega

structure Ordered (s : List Char) (offset : Nat) (code : List (Nat × Char)) : Prop where
  placed : ∀ x ∈ code, ∃ front back, s = front ++ x.2 :: back ∧ x.1 = offset + byteLength front
  ascending : code.Pairwise fun x y => x.1 < y.1

theorem ordered_codeFrom (offset : Nat) (s : List Char) : Ordered s offset (codeFrom offset s) where
  placed := by
    rintro ⟨at_, c⟩ member
    obtain ⟨front, back, whole, rfl⟩ := mem_placed (mem_code_iff.mp member)
    refine ⟨front.map Prod.snd, back.map Prod.snd, ?_, rfl⟩
    rw [← map_snd_roles .code s, whole, List.map_append, List.map_cons]
  ascending := by
    refine (pairwise_placed offset (roles .code s)).filterMap _ ?_
    rintro ⟨a, role, c⟩ ⟨b, role', c'⟩ below x own y own'
    dsimp only at own own'
    split at own
    · split at own'
      · cases own
        cases own'
        exact below
      · cases own'
    · cases own

namespace Ordered

variable {s : List Char} {offset : Nat} {code : List (Nat × Char)}

theorem sublist {code' : List (Nat × Char)} (h : Ordered s offset code) (sub : code'.Sublist code) :
    Ordered s offset code' :=
  ⟨fun x member => h.placed x (sub.subset member), h.ascending.sublist sub⟩

theorem isBorder {front : List Char} (h : Ordered s (byteLength front) code) {at_ : Nat} {c : Char}
    (member : (at_, c) ∈ code) : IsBorder (front ++ s) at_ ∧ IsBorder (front ++ s) (at_ + c.utf8Size) := by
  obtain ⟨inner, back, rfl, rfl⟩ := h.placed _ member
  refine ⟨(isBorder_byteLength inner _).append front, ?_⟩
  rw [Nat.add_assoc]
  exact (isBorder_behind inner c back).append front

end Ordered

namespace Manifest

section Brackets

variable {code : List (Nat × Char)}

theorem mem_of_closingBracket? {depth at_ : Nat} (found : closingBracket? depth code = some at_) : (at_, ']') ∈ code := by
  induction code generalizing depth with
  | nil => cases found
  | cons x code ih =>
    obtain ⟨a, c⟩ := x
    rw [closingBracket?] at found
    split at found
    · exact List.mem_cons_of_mem _ (ih found)
    · split at found
      · rename_i closes
        split at found
        · cases found
          rw [closes]
          exact List.mem_cons_self
        · exact List.mem_cons_of_mem _ (ih found)
      · exact List.mem_cons_of_mem _ (ih found)

theorem fromBracket_sublist (code : List (Nat × Char)) : (fromBracket code).Sublist code :=
  ((List.dropWhile_sublist _).trans (List.drop_sublist _ _)).trans (List.dropWhile_sublist _)

theorem fromBracket_head {at_ : Nat} {c : Char} {rest : List (Nat × Char)} (starts : fromBracket code = (at_, c) :: rest) :
    c = '[' := by
  have refused := List.head?_dropWhile_not (·.2 != '[') ((code.dropWhile (·.2 != '=')).drop 1)
  rw [show ((code.dropWhile (·.2 != '=')).drop 1).dropWhile (·.2 != '[') = (at_, c) :: rest from starts] at refused
  simpa using refused

/-- The bounds of an array are borders of characters, in order. -/
theorem borders_of_arrayBounds {text : List Char} {start stop : Nat} (found : arrayBounds text = .ok (start, stop)) :
    IsBorder text start ∧ IsBorder text stop ∧ start ≤ stop := by
  rw [arrayBounds] at found
  split at found
  · cases found
  · rename_i m declared
    have follows := Pattern.follows_of_find? declared
    obtain ⟨front, u, cut, _, place⟩ := Cursor.Leads.trans follows.ahead follows.isAhead
    have offset : m.stop.offset = byteLength front := by rw [place]; exact Nat.zero_add _
    have rest : m.stop.rest = u := by rw [place, Cursor.beyond_rest]
    have whole : text = front ++ u := cut
    rw [offset, rest] at found
    have ordered := (ordered_codeFrom (byteLength front) u).sublist (fromBracket_sublist _)
    split at found
    · cases found
    · rename_i open_ c rest' starts
      rw [starts] at ordered
      split at found
      · rename_i close closes
        cases found
        have closing := mem_of_closingBracket? closes
        have behind := (ordered.isBorder closing).2
        rw [show ']'.utf8Size = 1 by decide] at behind
        refine ⟨whole ▸ (ordered.isBorder List.mem_cons_self).1, whole ▸ behind, ?_⟩
        rcases List.mem_cons.mp closing with same | further
        · cases same
          omega
        · have below := (List.pairwise_cons.mp ordered.ascending).1 _ further
          dsimp only at below
          omega
      · cases found

def countDown : Nat → Except Fault Nat
  | 0 => .error .unstated
  | n + 1 => .ok n

def closingCounted (depth : Nat) : List (Nat × Char) → Except Fault (Option Nat)
  | [] => .ok none
  | (at_, c) :: rest =>
    if c = '[' then closingCounted (depth + 1) rest
    else if c = ']' then do
      let left ← countDown depth
      if left = 0 then pure (some at_) else closingCounted left rest
    else closingCounted depth rest

theorem closingCounted_eq {depth : Nat} (inside : 0 < depth) (code : List (Nat × Char)) :
    closingCounted depth code = .ok (closingBracket? depth code) := by
  induction code generalizing depth with
  | nil => rfl
  | cons x code ih =>
    obtain ⟨at_, c⟩ := x
    obtain ⟨left, rfl⟩ : ∃ left, depth = left + 1 := ⟨depth - 1, by omega⟩
    rw [closingCounted, closingBracket?]
    by_cases opens : c = '['
    · rw [if_pos opens, if_pos opens, ih (by omega)]
    · rw [if_neg opens, if_neg opens]
      by_cases closes : c = ']'
      · rw [if_pos closes, if_pos closes]
        cases left with
        | zero => rfl
        | succ left => exact ih (by omega)
      · rw [if_neg closes, if_neg closes, ih inside]

theorem closingCounted_fromBracket (code : List (Nat × Char)) :
    closingCounted 0 (fromBracket code) = .ok (closingBracket? 0 (fromBracket code)) := by
  cases starts : fromBracket code with
  | nil => rfl
  | cons x rest =>
    obtain ⟨at_, c⟩ := x
    obtain rfl := fromBracket_head starts
    exact closingCounted_eq Nat.one_pos rest

/-- `blockBounds` with the depth counted down at every closing brace behind an open one, before it is looked
at. -/
def blocksCounted (depth start : Nat) : List (Nat × Char) → Except Fault (List (Nat × Nat))
  | [] => .ok []
  | (at_, c) :: rest =>
    if c = '\x7b' then blocksCounted (depth + 1) (if depth = 0 then at_ else start) rest
    else if c = '\x7d' ∧ 0 < depth then do
      let left ← countDown depth
      if left = 0 then return (start, at_ + 1) :: (← blocksCounted left start rest)
      blocksCounted left start rest
    else blocksCounted depth start rest

theorem blocksCounted_eq (depth start : Nat) (code : List (Nat × Char)) :
    blocksCounted depth start code = .ok (blockBounds depth start code) := by
  induction code generalizing depth start with
  | nil => rfl
  | cons x code ih =>
    obtain ⟨at_, c⟩ := x
    rw [blocksCounted, blockBounds.eq_def]
    dsimp only
    by_cases opens : c = '\x7b'
    · rw [if_pos opens, if_pos opens, ih]
    · rw [if_neg opens, if_neg opens]
      by_cases closes : c = '\x7d'
      · rw [if_pos closes]
        cases depth with
        | zero => rw [if_neg (by simp), ih]
        | succ left =>
          rw [if_pos ⟨closes, by omega⟩]
          cases left with
          | zero =>
            change (do return (start, at_ + 1) :: (← blocksCounted 0 start code)) = _
            rw [ih]
            rfl
          | succ left => exact ih _ _
      · rw [if_neg closes, if_neg (by simp [closes]), ih]

/-- An object reaches from an opening brace, the one that is open or one ahead, to a closing one. -/
theorem mem_of_mem_blockBounds {depth start a b : Nat} (ascending : code.Pairwise fun x y => x.1 < y.1)
    (behind : 0 < depth → ∀ x ∈ code, start < x.1) (member : (a, b) ∈ blockBounds depth start code) :
    (0 < depth ∧ a = start ∨ (a, '\x7b') ∈ code) ∧ ∃ close, (close, '\x7d') ∈ code ∧ b = close + 1 ∧ a < close := by
  induction code generalizing depth start with
  | nil => cases member
  | cons x code ih =>
    obtain ⟨at_, c⟩ := x
    obtain ⟨first, ascending⟩ := List.pairwise_cons.mp ascending
    have below : 0 < depth → ∀ x ∈ code, start < x.1 := fun some x inside => behind some x (by simp [inside])
    have further : ∀ {depth' : Nat}, (0 < depth' → 0 < depth) → (a, b) ∈ blockBounds depth' start code →
        (0 < depth ∧ a = start ∨ (a, '\x7b') ∈ (at_, c) :: code) ∧
          ∃ close, (close, '\x7d') ∈ (at_, c) :: code ∧ b = close + 1 ∧ a < close := by
      intro depth' still member
      obtain ⟨opening, close, closing, same, ordered⟩ := ih ascending (fun some => below (still some)) member
      refine ⟨?_, close, List.mem_cons_of_mem _ closing, same, ordered⟩
      exact opening.imp (fun own => ⟨still own.1, own.2⟩) (List.mem_cons_of_mem _)
    rw [blockBounds.eq_def] at member
    dsimp only at member
    split at member
    · rename_i opens
      have behind' : ∀ x ∈ code, (if depth = 0 then at_ else start) < x.1 := by
        intro x inside
        split
        · exact first x inside
        · exact below (by omega) x inside
      obtain ⟨opening, close, closing, same, ordered⟩ := ih ascending (fun _ => behind') member
      refine ⟨?_, close, List.mem_cons_of_mem _ closing, same, ordered⟩
      rcases opening with ⟨_, begun⟩ | inside
      · split at begun
        · exact Or.inr (by rw [begun, opens]; exact List.mem_cons_self)
        · exact Or.inl ⟨by omega, begun⟩
      · exact Or.inr (List.mem_cons_of_mem _ inside)
    · split at member
      · rename_i closes
        split at member
        · exact further id member
        · rcases List.mem_cons.mp member with whole | member
          · cases whole
            exact ⟨Or.inl ⟨Nat.one_pos, rfl⟩, at_, by rw [closes]; exact List.mem_cons_self, rfl,
              behind Nat.one_pos _ List.mem_cons_self⟩
          · exact further (fun none => absurd none (Nat.lt_irrefl 0)) member
        · exact further (fun _ => Nat.succ_pos _) member
      · exact further id member

theorem borders_of_mem_blockBounds {array : List Char} {start stop : Nat}
    (member : (start, stop) ∈ blockBounds 0 0 (codeFrom 0 array)) :
    IsBorder array start ∧ IsBorder array stop ∧ start ≤ stop := by
  have ordered : Ordered array (byteLength []) (codeFrom 0 array) := ordered_codeFrom 0 array
  obtain ⟨opening, close, closing, rfl, below⟩ :=
    mem_of_mem_blockBounds ordered.ascending (fun none => absurd none (Nat.lt_irrefl 0)) member
  have opening : (start, '\x7b') ∈ codeFrom 0 array := opening.resolve_left (by simp)
  have behind : IsBorder ([] ++ array) (close + '\x7d'.utf8Size) := (ordered.isBorder closing).2
  rw [show '\x7d'.utf8Size = 1 by decide] at behind
  exact ⟨(ordered.isBorder opening).1, behind, by omega⟩

end Brackets

end Manifest

end Conformance.Endpoint
