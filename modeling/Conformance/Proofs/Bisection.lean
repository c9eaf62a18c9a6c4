import Conformance.Bisection
import Mathlib.Data.List.Basic

namespace Conformance

namespace Bisection

variable {items : List Nat} {target base size : Nat}

theorem lt_of_ascending (ascending : items.Pairwise (· < ·)) {i j x y : Nat} (order : i < j) (lower : items[i]? = some x)
    (upper : items[j]? = some y) : x < y := by
  obtain ⟨_, rfl⟩ := List.getElem?_eq_some_iff.mp lower
  obtain ⟨_, rfl⟩ := List.getElem?_eq_some_iff.mp upper
  exact List.pairwise_iff_getElem.mp ascending i j _ _ order

structure Narrowed (items : List Nat) (target base size : Nat) : Prop where
  left : 0 < size
  within : base + size ≤ items.length
  low : ∀ x ∈ items[base]?, base ≠ 0 → x ≤ target
  high : ∀ i x, base + size ≤ i → items[i]? = some x → target < x

theorem Narrowed.halve (ascending : items.Pairwise (· < ·)) (narrowed : Narrowed items target base size) (several : 1 < size) :
    Narrowed items target (if items[base + size / 2]?.any (target < ·) then base else base + size / 2) (size - size / 2) := by
  have within := narrowed.within
  have half : 0 < size / 2 ∧ size / 2 < size := by omega
  obtain ⟨middle, held⟩ : ∃ x, items[base + size / 2]? = some x := ⟨items[base + size / 2], List.getElem?_eq_getElem _⟩
  rw [held, Option.any_some]
  by_cases exceeds : target < middle
  · rw [if_pos (by simpa using exceeds)]
    refine ⟨by omega, by omega, narrowed.low, fun i x behind later => ?_⟩
    rcases Nat.lt_or_eq_of_le (show base + size / 2 ≤ i by omega) with further | rfl
    · exact Nat.lt_trans exceeds (lt_of_ascending ascending further held later)
    · rw [held] at later
      cases later
      exact exceeds
  · rw [if_neg (by simpa using exceeds)]
    refine ⟨by omega, by omega, fun x own _ => ?_, fun i x behind later => narrowed.high i x (by omega) later⟩
    cases own.symm.trans held
    exact Nat.not_lt.mp exceeds

theorem narrowed_narrow (ascending : items.Pairwise (· < ·)) (narrowed : Narrowed items target base size) :
    Narrowed items target (narrow items target base size) 1 := by
  fun_induction narrow items target base size with
  | case1 base size few =>
    obtain rfl : size = 1 := Nat.le_antisymm few narrowed.left
    exact narrowed
  | case2 base size several half middle next ih => exact ih (narrowed.halve ascending (Nat.not_le.mp several))

def Holds (items : List Nat) (target : Nat) : Standing → Prop
  | .exactly place => items[place]? = some target
  | .before place =>
    place ≤ items.length ∧ ∀ i x, items[i]? = some x → if i < place then x < target else target < x

/-- The search says how the target stands to the items. -/
theorem holds_search (ascending : items.Pairwise (· < ·)) (target : Nat) : Holds items target (search items target) := by
  rcases Nat.eq_zero_or_pos items.length with none | several
  · obtain rfl := List.length_eq_zero_iff.mp none
    simp [search, Holds]
  · have start : Narrowed items target 0 items.length := by
      refine ⟨several, by omega, fun _ _ other => absurd rfl other, fun i x behind held => ?_⟩
      obtain ⟨inside, _⟩ := List.getElem?_eq_some_iff.mp held
      omega
    obtain ⟨_, within, low, high⟩ := narrowed_narrow ascending start
    unfold search
    generalize narrow items target 0 items.length = base at *
    obtain ⟨item, held⟩ : ∃ x, items[base]? = some x := ⟨items[base], List.getElem?_eq_getElem _⟩
    simp only [held]
    split
    · rename_i same
      exact same ▸ held
    · rename_i other
      split
      · rename_i below
        refine ⟨within, fun i x own => ?_⟩
        split
        · rename_i earlier
          rcases Nat.lt_or_eq_of_le (Nat.le_of_lt_succ earlier) with before | rfl
          · exact Nat.lt_trans (lt_of_ascending ascending before own held) below
          · cases own.symm.trans held
            exact below
        · exact high i x (by omega) own
      · rename_i above
        -- only the first item is left without having been compared
        have first : base = 0 := Decidable.byContradiction fun further => by
          have most := low item held further
          omega
        subst first
        refine ⟨Nat.zero_le _, fun i x own => ?_⟩
        rw [if_neg (Nat.not_lt_zero i)]
        cases i with
        | zero =>
          cases own.symm.trans held
          omega
        | succ i => exact high (i + 1) x (by omega) own

section Threshold

variable {α : Type} {l : List α} {p : α → Bool} {k : Nat}

theorem countP_eq_of_getElem? (within : k ≤ l.length) (first : ∀ i x, l[i]? = some x → (p x = true ↔ i < k)) :
    l.countP p = k := by
  induction l generalizing k with
  | nil => exact (Nat.le_zero.mp within).symm
  | cons a l ih =>
    have own := first 0 a rfl
    rw [List.countP_cons]
    cases k with
    | zero =>
      rw [ih (Nat.zero_le _) fun i x held => by simpa using first (i + 1) x held]
      simpa using own
    | succ k =>
      rw [ih (Nat.le_of_succ_le_succ within) fun i x held => by simpa using first (i + 1) x held]
      simpa using own

end Threshold

/-- The items that do not exceed the target are those up to the one that it equals, or those in front of the place where
it belongs. -/
theorem countP_le_eq_search (ascending : items.Pairwise (· < ·)) (target : Nat) :
    items.countP (· ≤ target) = match search items target with
      | .exactly place => place + 1
      | .before place => place := by
  have holds := holds_search ascending target
  generalize search items target = standing at *
  cases standing with
  | exactly place =>
    have held : items[place]? = some target := holds
    obtain ⟨inside, _⟩ := List.getElem?_eq_some_iff.mp held
    refine countP_eq_of_getElem? inside fun i x own => ?_
    rw [decide_eq_true_eq, Nat.lt_succ_iff]
    rcases Nat.lt_trichotomy i place with before | rfl | behind
    · have less := lt_of_ascending ascending before own held
      omega
    · cases own.symm.trans held
      omega
    · have more := lt_of_ascending ascending behind held own
      omega
  | before place =>
    obtain ⟨within, sides⟩ := holds
    refine countP_eq_of_getElem? within fun i x own => ?_
    have side := sides i x own
    dsimp only
    rw [decide_eq_true_eq]
    split at side <;> omega

end Bisection

end Conformance
