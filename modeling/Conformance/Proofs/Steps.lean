import Mathlib.Data.List.Basic

namespace Conformance

section Steps

variable {α β ε : Type}

theorem mapM_eq_ok {f : α → Except ε β} {g : α → β} {l : List α} (total : ∀ x ∈ l, f x = .ok (g x)) :
    l.mapM f = .ok (l.map g) := by
  induction l with
  | nil => rfl
  | cons x l ih =>
    have own := total x (by simp)
    have others := ih fun x' member => total x' (by simp [member])
    simp [List.mapM_cons, own, others, bind, Except.bind, pure, Except.pure]

theorem filterM_eq_ok {f : α → Except ε Bool} {g : α → Bool} {l : List α} (total : ∀ x ∈ l, f x = .ok (g x)) :
    l.filterM f = .ok (l.filter g) := by
  have judged : ∀ done, List.filterAuxM f l done = .ok ((l.filter g).reverse ++ done) := by
    induction l with
    | nil => exact fun done => rfl
    | cons x l ih =>
      intro done
      have own := total x (by simp)
      have others := ih fun x' member => total x' (by simp [member])
      cases kept : g x <;> simp [List.filterAuxM, own, others, bind, Except.bind, kept]
  simp [List.filterM, judged, bind, Except.bind, pure, Except.pure]

/-- Steps that all succeed do so as well where another kind of error can be raised. -/
theorem mapM_lift_of_ok {ε' : Type} {f : α → Except ε β} {l : List α} {results : List β}
    (done : l.mapM f = .ok results) : l.mapM (fun x => (liftM (f x) : ExceptT ε' (Except ε) β)) = pure results := by
  induction l generalizing results with
  | nil =>
    cases done
    rfl
  | cons x l ih =>
    rw [List.mapM_cons] at done
    cases first : f x with
    | error e =>
      rw [first] at done
      cases done
    | ok y =>
      cases others : l.mapM f with
      | error e =>
        rw [first, others] at done
        cases done
      | ok ys =>
        rw [first, others] at done
        cases done
        rw [List.mapM_cons, first, ih others]
        rfl

end Steps

end Conformance
