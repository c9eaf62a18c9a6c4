import Conformance.Document.Prose
import Mathlib.Algebra.Ring.Parity
import Mathlib.Data.List.Basic

namespace Conformance.Document

open Text

def fencedAfter (fenced : Bool) (ls : List (List Char)) : Bool :=
  ls.foldl (fun open_ line => if isFence line then !open_ else open_) fenced

def proseFrom (fenced : Bool) (k : Nat) (ls : List (List Char)) : List (Nat × List Char) :=
  outsideFences fenced ((ls.zipIdx k).map fun x => (x.2 + 1, x.1))

variable {fenced : Bool} {k n : Nat} {line : List Char} {front back : List (List Char)}

theorem prose_eq (text : List Char) : prose text = proseFrom false 0 (lines text) := rfl

theorem fencedAfter_cons (fenced : Bool) (line : List Char) (below : List (List Char)) :
    fencedAfter fenced (line :: below) = fencedAfter (if isFence line then !fenced else fenced) below := rfl

theorem fencedAfter_iff (fenced : Bool) (ls : List (List Char)) :
    fencedAfter fenced ls = true ↔ (Odd (ls.countP isFence) ↔ fenced = false) := by
  induction ls generalizing fenced with
  | nil => cases fenced <;> simp [fencedAfter]
  | cons line below ih =>
    rw [fencedAfter_cons, ih, List.countP_cons]
    cases fence : isFence line with
    | true => cases fenced <;> simp [Nat.odd_add_one]
    | false => simp

theorem fencedAfter_eq_false_iff (ls : List (List Char)) : fencedAfter false ls = false ↔ Even (ls.countP isFence) := by
  rw [← Bool.not_eq_true, fencedAfter_iff, ← Nat.not_odd_iff_even]
  simp

theorem proseFrom_cons (fenced : Bool) (k : Nat) (line : List Char) (below : List (List Char)) :
    proseFrom fenced k (line :: below) = (if isFence line || fenced then [] else [(k + 1, line)]) ++
      proseFrom (if isFence line then !fenced else fenced) (k + 1) below := by
  rw [proseFrom, List.zipIdx_cons, List.map_cons, outsideFences]
  cases isFence line with
  | true => rfl
  | false => cases fenced <;> rfl

theorem proseFrom_append (fenced : Bool) (k : Nat) (front back : List (List Char)) :
    proseFrom fenced k (front ++ back) =
      proseFrom fenced k front ++ proseFrom (fencedAfter fenced front) (k + front.length) back := by
  induction front generalizing fenced k with
  | nil => rfl
  | cons line front ih =>
    have number : k + 1 + front.length = k + (front.length + 1) := by omega
    rw [List.cons_append, proseFrom_cons, ih, proseFrom_cons, fencedAfter_cons, List.length_cons, number, List.append_assoc]

theorem proseFrom_fenced (inside : ∀ line ∈ front, isFence line = false) (k : Nat) :
    proseFrom true k front = [] ∧ fencedAfter true front = true := by
  induction front generalizing k with
  | nil => exact ⟨rfl, rfl⟩
  | cons line front ih =>
    have own : isFence line = false := inside line (by simp)
    obtain ⟨none, open_⟩ := ih (fun l member => inside l (by simp [member])) (k + 1)
    rw [proseFrom_cons, fencedAfter_cons, own]
    exact ⟨none, open_⟩

theorem mem_proseFrom {ls : List (List Char)} : (n, line) ∈ proseFrom fenced k ls ↔
    ∃ above below, ls = above ++ line :: below ∧ n = k + above.length + 1 ∧ isFence line = false ∧
      fencedAfter fenced above = false := by
  induction ls generalizing fenced k with
  | nil => simp [proseFrom, outsideFences]
  | cons first rest ih =>
    rw [proseFrom_cons, List.mem_append, ih]
    constructor
    · rintro (here | ⟨above, below, rfl, rfl, plain, closed⟩)
      · cases fence : isFence first <;> cases fenced <;> simp [fence] at here
        obtain ⟨rfl, rfl⟩ := here
        exact ⟨[], rest, rfl, rfl, fence, rfl⟩
      · exact ⟨first :: above, below, rfl, by simp; omega, plain, closed⟩
    · rintro ⟨above, below, whole, rfl, plain, closed⟩
      cases above with
      | nil =>
        obtain ⟨rfl, rfl⟩ := List.cons.inj whole
        obtain rfl : fenced = false := closed
        exact .inl (by simp [plain])
      | cons own above =>
        obtain ⟨rfl, rfl⟩ := List.cons.inj whole
        exact .inr ⟨above, below, rfl, by simp; omega, plain, closed⟩

theorem pairwise_proseFrom (fenced : Bool) (k : Nat) (ls : List (List Char)) :
    (proseFrom fenced k ls).Pairwise fun x y => x.1 < y.1 := by
  induction ls generalizing fenced k with
  | nil => exact .nil
  | cons line below ih =>
    rw [proseFrom_cons]
    split
    · exact ih _ _
    · refine List.pairwise_cons.mpr ⟨?_, ih _ _⟩
      rintro ⟨n, line'⟩ later
      obtain ⟨above, _, _, rfl, _⟩ := mem_proseFrom.mp later
      dsimp only
      omega

theorem mem_prose {text : List Char} : (n, line) ∈ prose text ↔
    ∃ above below, lines text = above ++ line :: below ∧ n = above.length + 1 ∧ isFence line = false ∧
      Even (above.countP isFence) := by
  rw [prose_eq, mem_proseFrom]
  simp only [fencedAfter_eq_false_iff, Nat.zero_add]

theorem pairwise_prose (text : List Char) : (prose text).Pairwise fun x y => x.1 < y.1 :=
  pairwise_proseFrom false 0 (lines text)

/-- The other text has as many other lines in one stretch of fenced code, none of which opens or closes a fence. Where
the fence is never closed, their number does not matter. -/
def Refenced (text other : List Char) : Prop :=
  ∃ above inner inner' below, lines text = above ++ (inner ++ below) ∧ lines other = above ++ (inner' ++ below) ∧
    Odd (above.countP isFence) ∧ (∀ line ∈ inner, isFence line = false) ∧ (∀ line ∈ inner', isFence line = false) ∧
    (inner.length = inner'.length ∨ below = [])

theorem prose_of_refenced {text other : List Char} (refenced : Refenced text other) : prose other = prose text := by
  obtain ⟨above, inner, inner', below, whole, whole', odd, plain, plain', number⟩ := refenced
  have open_ : fencedAfter false above = true := by
    rw [fencedAfter_iff]
    simp [odd]
  obtain ⟨none, still⟩ := proseFrom_fenced plain (0 + above.length)
  obtain ⟨none', still'⟩ := proseFrom_fenced plain' (0 + above.length)
  rw [prose_eq, prose_eq, whole, whole', proseFrom_append, proseFrom_append _ _ above, proseFrom_append _ _ inner,
    proseFrom_append _ _ inner', open_, none, none', still, still']
  -- below a fence that is never closed there is nothing whose numbers could change
  rcases number with same | rfl
  · rw [same]
  · rfl

end Conformance.Document
