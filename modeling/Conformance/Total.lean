namespace Conformance

def total (numbers : List Nat) : Nat :=
  numbers.foldr (· + ·) 0

@[simp]
theorem total_nil : total [] = 0 := rfl

@[simp]
theorem total_cons (n : Nat) (numbers : List Nat) : total (n :: numbers) = n + total numbers := rfl

theorem total_append (first second : List Nat) :
    total (first ++ second) = total first + total second := by
  induction first with
  | nil => simp
  | cons n rest ih => simp [ih, Nat.add_assoc]

end Conformance
