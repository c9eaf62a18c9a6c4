import Conformance.Endpoint.Entry
import Conformance.Proofs.Text.Case
import Conformance.Text.Pieces

namespace Conformance

namespace Endpoint

variable {c x : Char} {s a b : List Char}

def separators : List Char :=
  ['-', '_', '/', '\\']

theorem isSeparator_iff : isSeparator c = true ↔ c ∈ separators := by
  simp [isSeparator, separators, or_assoc]

theorem nameWords_append (stop : isSeparator c = true) (a b : List Char) :
    nameWords (a ++ c :: b) = nameWords a ++ nameWords b := by
  rw [nameWords, Text.split_append_stop stop, List.filter_append, nameWords, nameWords]

theorem pascalCase_append (stop : isSeparator c = true) (a b : List Char) :
    pascalCase (a ++ c :: b) = pascalCase a ++ pascalCase b := by
  rw [pascalCase, nameWords_append stop, List.flatMap_append, pascalCase, pascalCase]

theorem pascalCase_of_free (free : ∀ c ∈ s, isSeparator c = false) : pascalCase s = Text.capitalize s := by
  rw [pascalCase, nameWords, Text.split_of_free free]
  cases s with
  | nil => rfl
  | cons c s => simp

theorem avoids_separator (separator : x ∈ separators) :
    x.toNat ≠ 0 ∧ Text.upperMap.avoids x.toNat = true ∧ Text.lowerMap.avoids x.toNat = true := by
  revert x
  decide +kernel

theorem isSeparator_of_mem_nameWords {w : List Char} (listed : w ∈ nameWords s) (member : c ∈ w) : isSeparator c = false :=
  Text.not_stops_of_mem_split isSeparator s w (List.mem_of_mem_filter listed) c member

theorem separator_not_mem_pascalCase (separator : x ∈ separators) (s : List Char) : x ∉ pascalCase s := by
  obtain ⟨real, avoided, _⟩ := avoids_separator separator
  intro inside
  obtain ⟨w, listed, member⟩ := List.mem_flatMap.mp inside
  refine Text.not_mem_capitalize avoided real (fun own => ?_) member
  exact Bool.false_ne_true ((isSeparator_of_mem_nameWords listed own).symm.trans (isSeparator_iff.mpr separator))

theorem separator_not_mem_camelCase (separator : x ∈ separators) (s : List Char) : x ∉ camelCase s := by
  obtain ⟨real, _, avoided⟩ := avoids_separator separator
  exact Text.not_mem_decapitalize avoided real (separator_not_mem_pascalCase separator s)

theorem isSeparator_of_mem_pascalCase (member : c ∈ pascalCase s) : isSeparator c = false := by
  rw [Bool.eq_false_iff]
  exact fun stop => separator_not_mem_pascalCase (isSeparator_iff.mp stop) s member

theorem isSeparator_of_mem_camelCase (member : c ∈ camelCase s) : isSeparator c = false := by
  rw [Bool.eq_false_iff]
  exact fun stop => separator_not_mem_camelCase (isSeparator_iff.mp stop) s member

theorem nameWords_eq_nil_or_cons (s : List Char) :
    nameWords s = [] ∨ ∃ c w rest, nameWords s = (c :: w) :: rest ∧ s.find? (!isSeparator ·) = some c := by
  induction s with
  | nil => exact .inl rfl
  | cons c s ih =>
    by_cases stop : isSeparator c = true
    · rw [show nameWords (c :: s) = nameWords s from nameWords_append stop [] s, List.find?_cons_of_neg (by simp [stop])]
      exact ih
    · obtain ⟨piece, pieces, cut⟩ := List.exists_cons_of_ne_nil (Text.split_ne_nil isSeparator s)
      refine .inr ⟨c, piece, pieces.filter (!·.isEmpty), ?_, List.find?_cons_of_pos (by simp [stop])⟩
      simp [nameWords, Text.split, stop, cut]

theorem pascalCase_pascalCase (s : List Char) : pascalCase (pascalCase s) = pascalCase s := by
  rw [pascalCase_of_free fun _ => isSeparator_of_mem_pascalCase]
  rcases nameWords_eq_nil_or_cons s with none | ⟨c, w, rest, first, _⟩
  · rw [pascalCase, none]
    rfl
  · rw [pascalCase, first, List.flatMap_cons, Text.capitalize_append (List.cons_ne_nil c w)]

theorem pascalCase_camelCase (ascii : ∀ c ∈ s.find? (!isSeparator ·), c.toNat < 128) :
    pascalCase (camelCase s) = pascalCase s := by
  rw [pascalCase_of_free fun _ => isSeparator_of_mem_camelCase]
  rcases nameWords_eq_nil_or_cons s with none | ⟨c, w, rest, first, found⟩
  · rw [camelCase, pascalCase, none]
    rfl
  · obtain ⟨u, l, up, down, back⟩ := Text.exists_upper_lower_of_ascii (ascii c found)
    simp [camelCase, pascalCase, first, Text.capitalize, Text.decapitalize, up, down, back]

/-- Pascal case takes a name apart at every separator; done over again, or before camel case, it changes nothing, and no
separator stays. A name that begins with a character of ASCII has the same Pascal and camel case as its camel case. -/
theorem case_laws :
    (∀ a b, ∀ c ∈ ['-', '_', '/', '\\'], pascalCase (a ++ c :: b) = pascalCase a ++ pascalCase b) ∧
    (∀ s, pascalCase (pascalCase s) = pascalCase s ∧ camelCase (pascalCase s) = camelCase s ∧
      ∀ c ∈ ['-', '_', '/', '\\'], c ∉ pascalCase s ∧ c ∉ camelCase s) ∧
    ∀ s : List Char, (∀ c ∈ s.find? (· ∉ ['-', '_', '/', '\\']), c.toNat < 128) →
      camelCase (camelCase s) = camelCase s ∧ pascalCase (camelCase s) = pascalCase s := by
  refine ⟨fun a b c separator => pascalCase_append (isSeparator_iff.mpr separator) a b, fun s => ?_, fun s ascii => ?_⟩
  · have again := pascalCase_pascalCase s
    exact ⟨again, by rw [camelCase, again, camelCase], fun c separator =>
      ⟨separator_not_mem_pascalCase separator s, separator_not_mem_camelCase separator s⟩⟩
  · have same : (fun c => decide (c ∉ ['-', '_', '/', '\\'])) = fun c => !isSeparator c := by
      funext c
      simp [isSeparator, beq_eq_decide, Bool.and_assoc]
    rw [same] at ascii
    have pascal := pascalCase_camelCase ascii
    exact ⟨by rw [camelCase, pascal, camelCase], pascal⟩

theorem case_laws_words :
    pascalCase "item-ßa/".toList = pascalCase "item".toList ++ pascalCase "ßa/".toList ∧
    pascalCase (pascalCase "item-ßa/".toList) = "ItemSSa".toList ∧
    camelCase (camelCase "item-ßa/".toList) = "itemSSa".toList ∧ pascalCase (camelCase "item-ßa/".toList) = "ItemSSa".toList := by
  obtain ⟨parts, pascal, camel⟩ := case_laws
  have split := parts "item".toList "ßa/".toList '-' (by decide)
  have again := (pascal "item-ßa/".toList).1
  obtain ⟨same, back⟩ := camel "item-ßa/".toList (by simp)
  have words : nameWords "item-ßa/".toList = ["item".toList, "ßa".toList] := by decide
  have capital : Text.upper 'i' = ['I'] := Text.upper_of_ascii (by decide)
  have sharp : Text.upper 'ß' = ['S', 'S'] := by decide
  have small : Text.lower 'I' = ['i'] := Text.lower_of_ascii (by decide)
  have made : pascalCase "item-ßa/".toList = "ItemSSa".toList := by
    rw [pascalCase, words]
    simp [Text.capitalize, capital, sharp]
  have made' : camelCase "item-ßa/".toList = "itemSSa".toList := by
    rw [camelCase, made]
    simp [Text.decapitalize, small]
  exact ⟨split, again.trans made, same.trans made', back.trans made⟩

end Endpoint

end Conformance
