namespace Conformance

def dropRepeats {α : Type} [DecidableEq α] : List α → List α
  | [] => []
  | [a] => [a]
  | a :: b :: rest => if a = b then dropRepeats (b :: rest) else a :: dropRepeats (b :: rest)

def sortedTexts (texts : List String) : List String :=
  dropRepeats (texts.mergeSort (· ≤ ·))

@[simp] theorem sortedTexts_nil : sortedTexts [] = [] := by
  simp [sortedTexts, dropRepeats]

theorem mem_dropRepeats {α : Type} [DecidableEq α] {a : α} {l : List α} : a ∈ dropRepeats l ↔ a ∈ l := by
  fun_induction dropRepeats l with
  | case1 => rfl
  | case2 b => rfl
  | case3 b rest ih => simp [ih]
  | case4 b c rest differ ih => simp [ih]

theorem mem_sortedTexts {text : String} {texts : List String} : text ∈ sortedTexts texts ↔ text ∈ texts := by
  rw [sortedTexts, mem_dropRepeats, List.mem_mergeSort]

end Conformance
