import Mathlib.Data.List.Basic
import Mathlib.Data.List.Sort

namespace Conformance.Document

variable {α : Type} {opens closes : α → Bool} {items : List (Nat × α)} {n : Nat} {x : α}

/-- The numbered items below the first one that opens the part, down to the next one that closes it. -/
def below (opens closes : α → Bool) (items : List (Nat × α)) : List (Nat × α) :=
  ((items.dropWhile fun item => !opens item.2).drop 1).takeWhile fun item => !closes item.2

/-- The item stands below the first one that opens the part and above the next one that closes it. -/
def Below (opens closes : α → Bool) (items : List (Nat × α)) (n : Nat) (x : α) : Prop :=
  (n, x) ∈ items ∧ ∃ m heading, (m, heading) ∈ items ∧ opens heading = true ∧ m < n ∧
    (∀ item ∈ items, item.1 < m → opens item.2 = false) ∧
    ∀ item ∈ items, m < item.1 → item.1 ≤ n → closes item.2 = false

/-- What is taken from the front of numbered items are those with none above that is refused. -/
theorem mem_takeWhile_numbered {p : Nat × α → Bool} {y : Nat × α} (ordered : items.Pairwise fun a b => a.1 < b.1) :
    y ∈ items.takeWhile p ↔ y ∈ items ∧ ∀ z ∈ items, z.1 ≤ y.1 → p z = true := by
  induction items with
  | nil => simp
  | cons first rest ih =>
    obtain ⟨behind, ordered⟩ := List.pairwise_cons.mp ordered
    rw [List.takeWhile_cons]
    by_cases kept : p first = true
    · rw [if_pos kept, List.mem_cons, List.mem_cons, ih ordered, List.forall_mem_cons]
      constructor
      · rintro (rfl | ⟨later, all⟩)
        · exact ⟨.inl rfl, fun _ => kept, fun z member le => absurd (behind z member) (by omega)⟩
        · exact ⟨.inr later, fun _ => kept, all⟩
      · rintro ⟨rfl | later, _, all⟩
        · exact .inl rfl
        · exact .inr ⟨later, all⟩
    · rw [if_neg kept]
      refine iff_of_false List.not_mem_nil ?_
      rintro ⟨member, all⟩
      refine kept (all first List.mem_cons_self ?_)
      rcases List.mem_cons.mp member with rfl | later
      · exact Nat.le_refl _
      · exact Nat.le_of_lt (behind y later)

theorem below_cons (first : Nat × α) (rest : List (Nat × α)) : below opens closes (first :: rest) =
    if opens first.2 then rest.takeWhile fun item => !closes item.2 else below opens closes rest := by
  rw [below, List.dropWhile_cons]
  cases opens first.2 <;> rfl

/-- Behind an item that opens the part it goes on to the next one that closes it. -/
theorem below_iff_of_opens {first : Nat × α} {rest : List (Nat × α)} (behind : ∀ item ∈ rest, first.1 < item.1)
    (opened : opens first.2 = true) : Below opens closes (first :: rest) n x ↔
      (n, x) ∈ rest ∧ ∀ item ∈ rest, item.1 ≤ n → closes item.2 = false := by
  simp only [Below, List.mem_cons, forall_eq_or_imp]
  constructor
  · rintro ⟨member, m, heading, headed, _, lower, ⟨unopened, _⟩, _, unclosed⟩
    obtain rfl : (m, heading) = first := by
      rcases headed with own | later
      · exact own
      · rw [unopened (behind _ later)] at opened
        cases opened
    refine ⟨member.resolve_left fun own => ?_, fun item inside => unclosed item inside (behind item inside)⟩
    have same : n = m := congrArg Prod.fst own
    exact Nat.lt_irrefl m (same ▸ lower)
  · rintro ⟨member, unclosed⟩
    refine ⟨.inr member, first.1, first.2, .inl rfl, opened, behind _ member, ⟨fun lt => absurd lt (Nat.lt_irrefl _), ?_⟩,
      fun lt => absurd lt (Nat.lt_irrefl _), fun item inside _ => unclosed item inside⟩
    exact fun item inside lt => absurd lt (Nat.lt_asymm (behind item inside))

theorem below_iff_of_unopened {first : Nat × α} {rest : List (Nat × α)} (behind : ∀ item ∈ rest, first.1 < item.1)
    (unopened : opens first.2 = false) : Below opens closes (first :: rest) n x ↔ Below opens closes rest n x := by
  simp only [Below, List.mem_cons, forall_eq_or_imp]
  constructor
  · rintro ⟨member, m, heading, headed, opened, lower, ⟨_, firstly⟩, _, unclosed⟩
    have headed : (m, heading) ∈ rest := by
      refine headed.resolve_left ?_
      rintro rfl
      rw [unopened] at opened
      cases opened
    have above : first.1 < m := behind _ headed
    refine ⟨member.resolve_left ?_, m, heading, headed, opened, lower, firstly, unclosed⟩
    rintro rfl
    exact Nat.lt_asymm lower above
  · rintro ⟨member, m, heading, headed, opened, lower, firstly, unclosed⟩
    have above : first.1 < m := behind _ headed
    exact ⟨.inr member, m, heading, .inr headed, opened, lower, ⟨fun _ => unopened, firstly⟩,
      fun lt => absurd lt (Nat.lt_asymm above), unclosed⟩

theorem mem_below (ordered : items.Pairwise fun a b => a.1 < b.1) :
    (n, x) ∈ below opens closes items ↔ Below opens closes items n x := by
  induction items with
  | nil => simp [below, Below]
  | cons first rest ih =>
    obtain ⟨behind, ordered⟩ := List.pairwise_cons.mp ordered
    rw [below_cons]
    cases opened : opens first.2 with
    | true =>
      rw [if_pos rfl, mem_takeWhile_numbered ordered, below_iff_of_opens behind opened]
      simp only [Bool.not_eq_true']
    | false => rw [if_neg Bool.false_ne_true, ih ordered, below_iff_of_unopened behind opened]

theorem below_sublist (opens closes : α → Bool) (items : List (Nat × α)) : (below opens closes items).Sublist items :=
  (List.takeWhile_sublist _).trans ((List.drop_sublist _ _).trans (List.dropWhile_sublist _))

theorem eq_of_mem_iff {others : List (Nat × α)} (ordered : items.Pairwise fun a b => a.1 < b.1)
    (ordered' : others.Pairwise fun a b => a.1 < b.1) (same : ∀ y, y ∈ items ↔ y ∈ others) : items = others := by
  have : Std.Irrefl fun a b : Nat × α => a.1 < b.1 := ⟨fun a => Nat.lt_irrefl a.1⟩
  have : Std.Antisymm fun a b : Nat × α => a.1 < b.1 := ⟨fun _ _ lt gt => absurd gt (Nat.lt_asymm lt)⟩
  exact ordered.eq_of_mem_iff ordered' same

end Conformance.Document
