import Conformance.Proofs.Text.ByteOrder
import Conformance.Repeats

namespace Conformance

variable {α β : Type} [DecidableEq α] [DecidableEq β]

/-- In a sorted list without repeated neighbours every item comes before all that follow. -/
theorem pairwise_dropRepeats {le : α → α → Prop} (antisymm : ∀ a b, le a b → le b a → a = b) {l : List α}
    (sorted : l.Pairwise le) : (dropRepeats l).Pairwise fun a b => le a b ∧ a ≠ b := by
  fun_induction dropRepeats l with
  | case1 => exact .nil
  | case2 a => exact List.pairwise_singleton _ _
  | case3 b rest ih => exact ih sorted.of_cons
  | case4 a b rest differ ih =>
    refine List.pairwise_cons.mpr ⟨?_, ih sorted.of_cons⟩
    intro c member
    have first := (List.pairwise_cons.mp sorted).1
    rcases List.mem_cons.mp (mem_dropRepeats.mp member) with rfl | further
    · exact ⟨first c (by simp), differ⟩
    · refine ⟨first c (by simp [further]), ?_⟩
      rintro rfl
      -- `b` would stand between two copies of `a`
      exact differ (antisymm a b (first b (by simp)) ((List.pairwise_cons.mp sorted.of_cons).1 a further))

theorem dropRepeats_of_nodup {l : List α} (nodup : l.Nodup) : dropRepeats l = l := by
  fun_induction dropRepeats l with
  | case1 | case2 => rfl
  | case3 b rest ih => simp at nodup
  | case4 a b rest differ ih => rw [ih nodup.of_cons]

theorem dropRepeats_map {f : α → β} {l : List α} (inj : ∀ a ∈ l, ∀ b ∈ l, f a = f b → a = b) :
    dropRepeats (l.map f) = (dropRepeats l).map f := by
  fun_induction dropRepeats l with
  | case1 => rfl
  | case2 a => rfl
  | case3 b rest ih =>
    rw [List.map_cons, List.map_cons, dropRepeats, if_pos rfl]
    exact ih fun x hx y hy => inj x (List.mem_cons_of_mem _ hx) y (List.mem_cons_of_mem _ hy)
  | case4 a b rest differ ih =>
    have apart : f a ≠ f b := fun same => differ (inj a (by simp) b (by simp) same)
    rw [List.map_cons, List.map_cons, dropRepeats, if_neg apart, List.map_cons]
    exact congrArg (f a :: ·) (ih fun x hx y hy => inj x (List.mem_cons_of_mem _ hx) y (List.mem_cons_of_mem _ hy))

theorem pairwise_sortedTexts (texts : List String) :
    (sortedTexts texts).Pairwise fun a b => Text.bytes a < Text.bytes b := by
  have trans : ∀ a b c : String, decide (a ≤ b) = true → decide (b ≤ c) = true → decide (a ≤ c) = true := by
    simp only [decide_eq_true_eq]
    exact fun a b c => String.le_trans
  have total : ∀ a b : String, (decide (a ≤ b) || decide (b ≤ a)) = true := by
    simp only [Bool.or_eq_true, decide_eq_true_eq]
    exact String.le_total
  have sorted : (texts.mergeSort (· ≤ ·)).Pairwise (· ≤ ·) :=
    (List.pairwise_mergeSort trans total texts).imp of_decide_eq_true
  refine (pairwise_dropRepeats (fun a b => String.le_antisymm) sorted).imp ?_
  rintro a b ⟨atMost, differ⟩
  refine Text.bytes_lt_iff.mpr (Decidable.by_contra fun notBelow => differ ?_)
  exact String.le_antisymm atMost notBelow

end Conformance
