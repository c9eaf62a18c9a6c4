import Conformance.Proofs.Text.Classes
import Conformance.Text.Case

namespace Conformance.Text

theorem toNat_ofNat_of_ne {n : Nat} (real : (Char.ofNat n).toNat ≠ 0) : (Char.ofNat n).toNat = n := by
  by_cases valid : n.isValidChar
  · rw [Char.ofNat, dif_pos valid]
    rfl
  · rw [Char.ofNat, dif_neg valid] at real
    exact absurd rfl real

section Mask

variable {codes : List Nat} {lists : List (List Nat)} {n : Nat}

def mask (codes : List Nat) : Nat :=
  codes.foldr (fun n bits => bits ||| 1 <<< n) 0

def masks (lists : List (List Nat)) : Nat :=
  lists.foldr (fun codes bits => bits ||| mask codes) 0

theorem testBit_mask : (mask codes).testBit n = true ↔ n ∈ codes := by
  induction codes with
  | nil => simp [mask]
  | cons k codes ih =>
    have later : (codes.foldr (fun n bits => bits ||| 1 <<< n) 0).testBit n = true ↔ n ∈ codes := ih
    rw [mask, List.foldr_cons, Nat.testBit_or, Bool.or_eq_true, later, Nat.one_shiftLeft, Nat.testBit_two_pow,
      decide_eq_true_eq, List.mem_cons, or_comm, eq_comm]

theorem testBit_masks : (masks lists).testBit n = true ↔ ∃ codes ∈ lists, n ∈ codes := by
  induction lists with
  | nil => simp [masks]
  | cons codes lists ih =>
    have later : (lists.foldr (fun codes bits => bits ||| mask codes) 0).testBit n = true ↔ ∃ codes ∈ lists, n ∈ codes := ih
    rw [masks, List.foldr_cons, Nat.testBit_or, Bool.or_eq_true, later, testBit_mask, or_comm]
    simp

theorem notMem_of_masks {others : List (List Nat)} (apart : masks lists &&& masks others = 0) {own other : List Nat}
    (listed : own ∈ lists) (member : n ∈ own) (listed' : other ∈ others) : n ∉ other := by
  intro member'
  have both : (masks lists &&& masks others).testBit n = true := by
    rw [Nat.testBit_and, Bool.and_eq_true]
    exact ⟨testBit_masks.mpr ⟨own, listed, member⟩, testBit_masks.mpr ⟨other, listed', member'⟩⟩
  rw [apart, Nat.zero_testBit] at both
  cases both

end Mask

namespace CaseRun

variable {r : CaseRun} {n : Nat}

theorem moves_iff : r.moves n = true ↔ r.first ≤ n ∧ n ≤ r.last ∧ r.stride ∣ n - r.first := by
  simp only [moves, Bool.and_eq_true, decide_eq_true_eq, beq_iff_eq, and_assoc, Nat.dvd_iff_mod_eq_zero]

theorem target_eq : r.target n = ((n : Int) + r.shift).toNat := rfl

def codes (r : CaseRun) : List Nat :=
  (List.range ((r.last - r.first) / r.stride + 1)).map fun k => r.first + r.stride * k

theorem mem_codes (moved : r.moves n = true) : n ∈ r.codes := by
  obtain ⟨start, stop, k, passed⟩ := moves_iff.mp moved
  rw [codes, List.mem_map]
  rcases Nat.eq_zero_or_pos r.stride with still | goesOn
  · refine ⟨0, by simp, ?_⟩
    rw [still, Nat.zero_mul] at passed
    omega
  · refine ⟨k, List.mem_range.mpr (Nat.lt_succ_of_le ?_), by omega⟩
    rw [Nat.le_div_iff_mul_le goesOn, Nat.mul_comm]
    omega

end CaseRun

namespace CaseMap

variable {m : CaseMap} {c x : Char} {n : Nat}

def changed (m : CaseMap) : List (List Nat) :=
  m.expansions.map Prod.fst :: m.runs.map CaseRun.codes

def begun (m : CaseMap) : List (List Nat) :=
  m.expansions.filterMap (·.2.head?) :: m.runs.map fun r => r.codes.map r.target

def isSettled (m : CaseMap) : Bool :=
  masks m.begun &&& masks m.changed == 0 && masks m.changed % 2 == 0 && m.expansions.all (!·.2.isEmpty)

theorem apply_of_not_changed (kept : ∀ codes ∈ m.changed, c.toNat ∉ codes) : m.apply c = [c] := by
  obtain ⟨single, still⟩ := List.forall_mem_cons.mp kept
  have absent : m.expansions.lookup c.toNat = none := by
    refine List.lookup_eq_none_iff.mpr fun x listed => bne_iff_ne.mpr fun same => ?_
    exact single (same ▸ List.mem_map_of_mem listed)
  have unmoved : m.runs.find? (·.moves c.toNat) = none := by
    rw [List.find?_eq_none]
    exact fun r listed moved => still r.codes (List.mem_map_of_mem listed) (CaseRun.mem_codes moved)
  rw [apply, absent, unmoved]

/-- What a settled mapping gives begins with a character that it leaves as it is. -/
theorem exists_apply_eq_cons (settled : m.isSettled = true) (c : Char) : ∃ d rest, m.apply c = d :: rest ∧ m.apply d = [d] := by
  simp only [isSettled, Bool.and_eq_true, beq_iff_eq, List.all_eq_true, Bool.not_eq_true', List.isEmpty_eq_false_iff] at settled
  obtain ⟨⟨apart, zero⟩, present⟩ := settled
  have kept : ∀ own ∈ m.begun, ∀ n ∈ own, m.apply (Char.ofNat n) = [Char.ofNat n] := by
    intro own listed n member
    refine apply_of_not_changed fun codes listed' => ?_
    by_cases real : (Char.ofNat n).toNat = 0
    · -- a number that is no code point stands for the character zero
      intro inside
      rw [real] at inside
      have even := testBit_masks.mpr ⟨codes, listed', inside⟩
      rw [Nat.testBit_zero, zero] at even
      cases even
    · rw [toNat_ofNat_of_ne real]
      exact notMem_of_masks apart listed member listed'
  cases expanded : m.expansions.lookup c.toNat with
  | some codes =>
    have listed : (c.toNat, codes) ∈ m.expansions := by
      obtain ⟨front, back, whole, _⟩ := List.lookup_eq_some_iff.mp expanded
      simp [whole]
    obtain ⟨n, rest, rfl⟩ := List.exists_cons_of_ne_nil (present _ listed)
    refine ⟨Char.ofNat n, rest.map Char.ofNat, by rw [apply, expanded]; rfl, kept _ List.mem_cons_self n ?_⟩
    exact List.mem_filterMap.mpr ⟨_, listed, rfl⟩
  | none =>
    cases run : m.runs.find? (·.moves c.toNat) with
    | some r =>
      have listed : r ∈ m.runs := List.mem_of_find?_eq_some run
      have moved : r.moves c.toNat = true := by simpa using List.find?_some run
      refine ⟨Char.ofNat (r.target c.toNat), [], by rw [apply, expanded, run], ?_⟩
      refine kept (r.codes.map r.target) (List.mem_cons_of_mem _ ?_) _ (List.mem_map_of_mem (CaseRun.mem_codes moved))
      exact List.mem_map.mpr ⟨r, listed, rfl⟩
    | none =>
      have same : m.apply c = [c] := by rw [apply, expanded, run]
      exact ⟨c, [], same, same⟩

def avoids (m : CaseMap) (n : Nat) : Bool :=
  (m.runs.all fun r => (r.last : Int) + r.shift < n || (n : Int) < r.first + r.shift) &&
    m.expansions.all fun x => !x.2.contains n

/-- A character that the mapping avoids comes from itself alone. -/
theorem eq_of_mem_apply (avoided : m.avoids x.toNat = true) (real : x.toNat ≠ 0) (member : x ∈ m.apply c) : c = x := by
  simp only [avoids, Bool.and_eq_true, List.all_eq_true, Bool.or_eq_true, decide_eq_true_eq] at avoided
  obtain ⟨runs, expansions⟩ := avoided
  unfold apply at member
  split at member
  · rename_i codes found
    obtain ⟨code, inside, same⟩ := List.mem_map.mp member
    have own : code = x.toNat := by
      rw [← same] at real ⊢
      exact (toNat_ofNat_of_ne real).symm
    obtain ⟨front, back, whole, _⟩ := List.lookup_eq_some_iff.mp found
    have other := expansions (c.toNat, codes) (by simp [whole])
    rw [own] at inside
    simp [inside] at other
  · split at member
    · rename_i r found
      have same : x = Char.ofNat (r.target c.toNat) := List.mem_singleton.mp member
      have own : r.target c.toNat = x.toNat := by
        rw [same] at real ⊢
        exact (toNat_ofNat_of_ne real).symm
      have moved : r.moves c.toNat = true := by simpa using List.find?_some found
      obtain ⟨start, stop, _⟩ := CaseRun.moves_iff.mp moved
      have away := runs r (List.mem_of_find?_eq_some found)
      rw [CaseRun.target_eq] at own
      omega
    · exact (List.mem_singleton.mp member).symm

/-- Of a mapping that has one run below the code point 128, and nothing else there. -/
theorem apply_of_ascii {r : CaseRun} {rest : List CaseRun} (whole : m.runs = r :: rest)
    (others : (rest.all (128 ≤ ·.first) && m.expansions.all (128 ≤ ·.1)) = true) (small : c.toNat < 128) :
    m.apply c = [if r.moves c.toNat then Char.ofNat (r.target c.toNat) else c] := by
  simp only [Bool.and_eq_true, List.all_eq_true, decide_eq_true_eq] at others
  have single : m.expansions.lookup c.toNat = none :=
    List.lookup_eq_none_iff.mpr fun x listed => bne_iff_ne.mpr (Nat.ne_of_lt (Nat.lt_of_lt_of_le small (others.2 x listed)))
  have still : rest.find? (·.moves c.toNat) = none := by
    rw [List.find?_eq_none]
    intro a listed moved
    have start := (CaseRun.moves_iff.mp moved).1
    exact absurd (Nat.le_trans (others.1 a listed) start) (Nat.not_le.mpr small)
  rw [apply, single, whole, List.find?_cons]
  cases r.moves c.toNat with
  | true => rfl
  | false => simp [still]

end CaseMap

theorem upper_of_ascii {c : Char} (small : c.toNat < 128) : upper c = [c.toUpper] := by
  have same := of_ascii (p := fun c =>
    (if CaseRun.moves ⟨0x61, 0x7A, 1, -32⟩ c.toNat then Char.ofNat (CaseRun.target ⟨0x61, 0x7A, 1, -32⟩ c.toNat) else c) ==
      c.toUpper) (by decide) small
  rw [upper, CaseMap.apply_of_ascii rfl (by decide) small, beq_iff_eq.mp same]

theorem lower_of_ascii {c : Char} (small : c.toNat < 128) : lower c = [c.toLower] := by
  have same := of_ascii (p := fun c =>
    (if CaseRun.moves ⟨0x41, 0x5A, 1, 32⟩ c.toNat then Char.ofNat (CaseRun.target ⟨0x41, 0x5A, 1, 32⟩ c.toNat) else c) ==
      c.toLower) (by decide) small
  rw [lower, CaseMap.apply_of_ascii rfl (by decide) small, beq_iff_eq.mp same]

theorem exists_upper_lower_of_ascii {c : Char} (small : c.toNat < 128) :
    ∃ u l, upper c = [u] ∧ lower u = [l] ∧ upper l = [u] := by
  have within : (c.toUpper.toNat < 128 && c.toUpper.toLower.toNat < 128 && c.toUpper.toLower.toUpper == c.toUpper) = true :=
    of_ascii (p := fun c =>
      c.toUpper.toNat < 128 && c.toUpper.toLower.toNat < 128 && c.toUpper.toLower.toUpper == c.toUpper)
      (by decide) small
  simp only [Bool.and_eq_true, decide_eq_true_eq, beq_iff_eq] at within
  obtain ⟨⟨up, down⟩, back⟩ := within
  exact ⟨c.toUpper, c.toUpper.toLower, upper_of_ascii small, lower_of_ascii up, by rw [upper_of_ascii down, back]⟩

theorem not_mem_capitalize {x : Char} {s : List Char} (avoided : upperMap.avoids x.toNat = true) (real : x.toNat ≠ 0)
    (free : x ∉ s) : x ∉ capitalize s := by
  cases s with
  | nil => exact free
  | cons c s =>
    rw [capitalize, List.mem_append]
    rintro (inside | inside)
    · exact free (by simp [CaseMap.eq_of_mem_apply avoided real inside])
    · exact free (List.mem_cons_of_mem _ inside)

theorem not_mem_decapitalize {x : Char} {s : List Char} (avoided : lowerMap.avoids x.toNat = true) (real : x.toNat ≠ 0)
    (free : x ∉ s) : x ∉ decapitalize s := by
  cases s with
  | nil => exact free
  | cons c s =>
    rw [decapitalize, List.mem_append]
    rintro (inside | inside)
    · exact free (by simp [CaseMap.eq_of_mem_apply avoided real inside])
    · exact free (List.mem_cons_of_mem _ inside)

theorem isSettled_upperMap : upperMap.isSettled = true := by
  decide +kernel

theorem exists_upper_eq_cons (c : Char) : ∃ d rest, upper c = d :: rest ∧ upper d = [d] :=
  CaseMap.exists_apply_eq_cons isSettled_upperMap c

theorem capitalize_append {w : List Char} (some : w ≠ []) (more : List Char) :
    capitalize (capitalize w ++ more) = capitalize w ++ more := by
  obtain ⟨c, w, rfl⟩ := List.exists_cons_of_ne_nil some
  obtain ⟨d, rest, own, same⟩ := exists_upper_eq_cons c
  simp [capitalize, own, same]

end Conformance.Text
