import Conformance.Proofs.FileSystem.Walks

namespace Conformance

namespace Component

def ownName : Component → String
  | name text => text
  | _ => ""

theorem order_eq (a b : Component) : order a b = compareLex (compareOn rank) (compareOn ownName) a b := by
  cases a <;> cases b
  case name.name a b => simp [order, compareLex, compareOn, rank, ownName]
  all_goals rfl

instance : Std.TransCmp order :=
  (funext₂ order_eq : order = _) ▸ inferInstance

theorem order_eq_lt_iff {a b : Component} : order a b = .lt ↔ Precedes a b := by
  cases a <;> cases b
  case name.name a b => exact compareOfLessAndEq_eq_lt.trans Text.bytes_lt_iff.symm
  all_goals exact Nat.compare_eq_lt

theorem order_eq_eq_iff {a b : Component} : order a b = .eq ↔ a = b := by
  cases a <;> cases b
  case name.name a b => simp [order]
  all_goals simp [order, rank]

theorem listOrder_eq : listOrder = List.compareLex order := by
  funext as bs
  induction as generalizing bs with
  | nil => cases bs <;> rfl
  | cons a as ih =>
    cases bs with
    | nil => rfl
    | cons b bs => rw [listOrder, ih, List.compareLex_cons_cons]

instance : Std.TransCmp listOrder :=
  listOrder_eq ▸ inferInstance

/-- Components that are not behind others and not the same stand before them, the first that differs deciding. -/
theorem lex_of_listOrder {as bs : List Component} (notBehind : listOrder as bs ≠ .gt) (apart : as ≠ bs) :
    List.Lex Precedes as bs := by
  induction as generalizing bs with
  | nil =>
    cases bs with
    | nil => exact absurd rfl apart
    | cons b bs => exact .nil
  | cons a as ih =>
    cases bs with
    | nil => exact absurd rfl notBehind
    | cons b bs =>
      rw [listOrder] at notBehind
      cases first : order a b with
      | lt => exact .rel (order_eq_lt_iff.mp first)
      | gt => simp [first] at notBehind
      | eq =>
        obtain rfl := order_eq_eq_iff.mp first
        rw [first] at notBehind
        exact .cons (ih notBehind fun same => apart (by rw [same]))

end Component

namespace Path

theorem components_ne_of_precedes {p q : Path} (before : Precedes p q) : p.components ≠ q.components := by
  intro same
  refine not_precedes_self p ?_
  rw [Precedes] at before ⊢
  rwa [← same] at before

theorem le_iff {p q : Path} : le p q = true ↔ (Component.listOrder p.components q.components).isLE = true := by
  rw [le, bne_iff_ne, Ordering.isLE_iff_ne_gt]

theorem le_trans (p q r : Path) (first : le p q = true) (second : le q r = true) : le p r = true := by
  rw [le_iff] at first second ⊢
  exact Std.TransCmp.isLE_trans first second

theorem le_total (p q : Path) : (le p q || le q p) = true := by
  rw [Bool.or_eq_true, le_iff, le_iff]
  cases own : Component.listOrder p.components q.components with
  | lt | eq => exact .inl rfl
  | gt => exact .inr (by rw [Std.OrientedCmp.lt_of_gt own]; rfl)

theorem pairwise_mergeSort {paths : List Path} (apart : paths.Pairwise fun p q => p.components ≠ q.components) :
    (paths.mergeSort le).Pairwise Precedes := by
  have sorted := List.pairwise_mergeSort le_trans le_total paths
  have distinct := apart.perm (List.mergeSort_perm paths le).symm fun different same => different same.symm
  refine (sorted.and distinct).imp fun {p q} both => ?_
  exact Component.lex_of_listOrder (by simpa [le] using both.1) both.2

end Path

end Conformance
