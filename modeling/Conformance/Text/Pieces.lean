namespace Conformance.Text

instance (priority := high) decidableAll (p : Char → Prop) [DecidablePred p] (s : List Char) : Decidable (∀ c ∈ s, p c) :=
  List.decidableBAll p s

/-- The pieces of a text between the characters that `stops` accepts; there is always one more piece
than there are such characters. -/
def split (stops : Char → Bool) : List Char → List (List Char)
  | [] => [[]]
  | c :: rest =>
    if stops c then [] :: split stops rest
    else
      match split stops rest with
      | [] => [[c]]
      | piece :: pieces => (c :: piece) :: pieces

def join (separator : List Char) : List (List Char) → List Char
  | [] => []
  | [piece] => piece
  | piece :: pieces => piece ++ separator ++ join separator pieces

def startsWith (s : List Char) (lead : String) : Bool :=
  lead.toList.isPrefixOf s

def endsWith (s : List Char) (tail : String) : Bool :=
  tail.toList.isSuffixOf s

def afterLead? {α : Type} [DecidableEq α] : List α → List α → Option (List α)
  | [], s => some s
  | _ :: _, [] => none
  | a :: lead, c :: s => if a = c then afterLead? lead s else none

def beforeTail? (tail s : List Char) : Option (List Char) :=
  (afterLead? tail.reverse s.reverse).map List.reverse

def beforeFirst? (part : List Char) : List Char → Option (List Char)
  | [] => if part = [] then some [] else none
  | c :: s => if part.isPrefixOf (c :: s) then some [] else (beforeFirst? part s).map (c :: ·)

def contains (s : List Char) (part : String) : Bool :=
  (beforeFirst? part.toList s).isSome

def dropTails (tail s : List Char) : List Char :=
  go s.length s
where
  go : Nat → List Char → List Char
    | 0, s => s
    | n + 1, s =>
      match beforeTail? tail s with
      | some shorter => go n shorter
      | none => s

def afterLast (stops : Char → Bool) (s : List Char) : List Char :=
  (s.reverse.takeWhile (!stops ·)).reverse

theorem split_ne_nil (stops : Char → Bool) (s : List Char) : split stops s ≠ [] := by
  induction s with
  | nil => simp [split]
  | cons c rest ih =>
    unfold split
    split
    · simp
    · split <;> simp

theorem not_stops_of_mem_split (stops : Char → Bool) (s : List Char) :
    ∀ piece ∈ split stops s, ∀ c ∈ piece, stops c = false := by
  induction s with
  | nil => simp [split]
  | cons c rest ih =>
    unfold split
    split
    · simpa using ih
    · rename_i keep
      split
      · simpa using keep
      · rename_i piece pieces cut
        rw [cut] at ih
        intro q hq d hd
        rcases List.mem_cons.1 hq with rfl | hq
        · rcases List.mem_cons.1 hd with rfl | hd
          · simpa using keep
          · exact ih piece (by simp) d hd
        · exact ih q (by simp [hq]) d hd

theorem afterLead?_eq_some_iff {α : Type} [DecidableEq α] {lead s rest : List α} :
    afterLead? lead s = some rest ↔ s = lead ++ rest := by
  induction lead generalizing s with
  | nil => simp [afterLead?, eq_comm]
  | cons a lead ih =>
    cases s with
    | nil => simp [afterLead?]
    | cons c s =>
      by_cases h : a = c
      · simp [afterLead?, h, ih]
      · simp [afterLead?, h, Ne.symm h]

theorem beforeTail?_eq_some_iff {tail s rest : List Char} :
    beforeTail? tail s = some rest ↔ s = rest ++ tail := by
  simp only [beforeTail?, Option.map_eq_some_iff, afterLead?_eq_some_iff]
  constructor
  · rintro ⟨r, h, rfl⟩
    simpa using congrArg List.reverse h
  · rintro rfl
    exact ⟨rest.reverse, by simp, by simp⟩

theorem split_append_stop {stops : Char → Bool} {c : Char} (stop : stops c = true) (s t : List Char) :
    split stops (s ++ c :: t) = split stops s ++ split stops t := by
  induction s with
  | nil => simp [split, stop]
  | cons d s ih =>
    have nonempty := split_ne_nil stops s
    by_cases h : stops d = true
    · simp [split, h, ih]
    · cases cut : split stops s with
      | nil => exact absurd cut nonempty
      | cons piece pieces =>
        rw [cut] at ih
        simp [split, h, ih, cut]

theorem split_of_free {stops : Char → Bool} {s : List Char} (free : ∀ c ∈ s, stops c = false) :
    split stops s = [s] := by
  induction s with
  | nil => rfl
  | cons c s ih =>
    have head := free c (by simp)
    have tail := ih fun d member => free d (by simp [member])
    simp [split, head, tail]

theorem mem_of_mem_split {stops : Char → Bool} {s piece : List Char} {c : Char} (listed : piece ∈ split stops s)
    (member : c ∈ piece) : c ∈ s := by
  induction s generalizing piece with
  | nil => simp_all [split]
  | cons d rest ih =>
    unfold split at listed
    by_cases stop : stops d = true
    · rw [if_pos stop] at listed
      rcases List.mem_cons.mp listed with rfl | later
      · cases member
      · exact List.mem_cons_of_mem _ (ih later member)
    · rw [if_neg stop] at listed
      cases cut : split stops rest with
      | nil => exact absurd cut (split_ne_nil stops rest)
      | cons first pieces =>
        rw [cut] at listed ih
        rcases List.mem_cons.mp listed with rfl | later
        · rcases List.mem_cons.mp member with rfl | inner
          · simp
          · exact List.mem_cons_of_mem _ (ih (by simp) inner)
        · exact List.mem_cons_of_mem _ (ih (by simp [later]) member)

end Conformance.Text
