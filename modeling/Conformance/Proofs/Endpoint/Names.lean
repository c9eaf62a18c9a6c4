import Conformance.Endpoint.Entry
import Conformance.Proofs.Text.Case
import Conformance.Proofs.Text.Trim
import Conformance.Text.Pieces
import Mathlib.Data.List.Nodup

namespace Conformance

namespace Text

theorem isAlphanum_upper {c d : Char} (letter : c.isAlphanum = true) (member : d ∈ upper c) : d.isAlphanum = true := by
  have small := toNat_lt_of_isAlphanum letter
  have own := of_ascii (p := fun c => !c.isAlphanum || c.toUpper.isAlphanum) (by decide) small
  rw [upper_of_ascii small] at member
  rw [List.mem_singleton.mp member]
  simpa [letter] using own

theorem isAlphanum_lower {c d : Char} (letter : c.isAlphanum = true) (member : d ∈ lower c) : d.isAlphanum = true := by
  have small := toNat_lt_of_isAlphanum letter
  have own := of_ascii (p := fun c => !c.isAlphanum || c.toLower.isAlphanum) (by decide) small
  rw [lower_of_ascii small] at member
  rw [List.mem_singleton.mp member]
  simpa [letter] using own

end Text

namespace Endpoint

def isStemChar (c : Char) : Bool :=
  c.isAlphanum || c == '_'

def isHandlerChar (c : Char) : Bool :=
  isStemChar c || c == '-'

def isRouteChar (c : Char) : Bool :=
  isHandlerChar c || c == '/'

/-- An entry with names as they are meant to be: a route or a source of its own, a handler that begins
with a letter, and a stem that is a word. -/
structure Entry.Regular (e : Entry) : Prop where
  handler : ∃ c rest, e.handler.toList = c :: rest ∧ c.isAlpha = true ∧ ∀ d ∈ rest, isHandlerChar d = true
  route : e.route ≠ "" → (∀ c ∈ e.route.toList, isRouteChar c = true) ∧ e.route.toList.head? ≠ some '/'
  source : e.route = "" → ∃ s, e.customSource = some s ∧ s ≠ ""
  stem : e.functionStem ≠ "" ∧ ∀ c ∈ e.functionStem.toList, isStemChar c = true

/-- Entries with names as they are meant to be, of which no two share a handler or a stem. -/
structure Regular (entries : List Entry) : Prop where
  nonempty : entries ≠ []
  each : ∀ e ∈ entries, e.Regular
  handlers : (entries.map Entry.handler).Nodup
  stems : (entries.map Entry.functionStem).Nodup

theorem isWord_of_isStemChar {c : Char} (stem : isStemChar c = true) : Text.isWord c = true := by
  simp only [isStemChar, Bool.or_eq_true, beq_iff_eq] at stem
  rcases stem with letter | rfl
  · exact Text.isWord_of_isAlphanum letter
  · decide

theorem isBlank_of_isRouteChar {c : Char} (inRoute : isRouteChar c = true) : Text.isBlank c = false := by
  have all : ∀ n < 128, (!isRouteChar (Char.ofNat n) || !Text.isBlank (Char.ofNat n)) = true := by decide
  have small : c.toNat < 128 := by
    simp only [isRouteChar, isHandlerChar, isStemChar, Bool.or_eq_true, beq_iff_eq] at inRoute
    rcases inRoute with ((letter | rfl) | rfl) | rfl
    · exact Text.toNat_lt_of_isAlphanum letter
    · decide
    · decide
    · decide
  have own := Text.of_ascii (p := fun c => !isRouteChar c || !Text.isBlank c) all small
  simpa [inRoute] using own

theorem isHandlerChar_handler {e : Entry} (regular : e.Regular) : ∀ c ∈ e.handler.toList, isHandlerChar c = true := by
  obtain ⟨first, rest, whole, letter, others⟩ := regular.handler
  intro c member
  rw [whole] at member
  rcases List.mem_cons.mp member with rfl | inner
  · have word : c.isAlphanum = true := by rw [Char.isAlphanum, letter, Bool.true_or]
    simp [isHandlerChar, isStemChar, word]
  · exact others c inner

theorem isAlphanum_camelCase {name : List Char} (proper : ∀ c ∈ name, isHandlerChar c = true) :
    ∀ c ∈ camelCase name, c.isAlphanum = true := by
  have word : ∀ w ∈ nameWords name, ∀ c ∈ w, c.isAlphanum = true := by
    intro w listed c member
    have piece : w ∈ Text.split isSeparator name := List.mem_of_mem_filter listed
    have own := proper c (Text.mem_of_mem_split piece member)
    have solid := Text.not_stops_of_mem_split isSeparator name w piece c member
    simp only [isHandlerChar, isStemChar, isSeparator, Bool.or_eq_true, Bool.or_eq_false_iff, beq_iff_eq,
      beq_eq_false_iff_ne] at own solid
    rcases own with (letter | rfl) | rfl
    · exact letter
    · exact absurd rfl solid.1.1.2
    · exact absurd rfl solid.1.1.1
  have pascal : ∀ c ∈ pascalCase name, c.isAlphanum = true := by
    intro c member
    obtain ⟨w, listed, inner⟩ := List.mem_flatMap.mp member
    cases w with
    | nil => cases inner
    | cons d w =>
      rcases List.mem_append.mp inner with first | later
      · exact Text.isAlphanum_upper (word _ listed d (by simp)) first
      · exact word _ listed c (by simp [later])
  intro c member
  unfold camelCase at member
  cases whole : pascalCase name with
  | nil =>
    rw [whole] at member
    cases member
  | cons d rest =>
    rw [whole] at member pascal
    rcases List.mem_append.mp member with first | later
    · exact Text.isAlphanum_lower (pascal d (by simp)) first
    · exact pascal c (by simp [later])

theorem isAlphanum_appName {e : Entry} (regular : e.Regular) : ∀ c ∈ e.appName.toList, c.isAlphanum = true := by
  intro c member
  rw [Entry.appName, String.toList_append, String.toList_ofList, List.mem_append] at member
  rcases member with inner | last
  · exact isAlphanum_camelCase (isHandlerChar_handler regular) c inner
  · revert c
    decide

theorem exists_stage {e : Entry} {name : String} (listed : name ∈ e.functionNames) :
    ∃ stage, (stage = "dev" ∨ stage = "prod") ∧ name = stage ++ e.functionStem := by
  unfold Entry.functionNames at listed
  split at listed
  · exact ⟨"dev", Or.inl rfl, List.mem_singleton.mp listed⟩
  · rcases List.mem_cons.mp listed with rfl | later
    · exact ⟨"dev", Or.inl rfl, rfl⟩
    · exact ⟨"prod", Or.inr rfl, List.mem_singleton.mp later⟩

theorem isStemChar_functionName {e : Entry} (regular : e.Regular) {name : String} (listed : name ∈ e.functionNames) :
    ∀ c ∈ name.toList, isStemChar c = true := by
  obtain ⟨stage, known, rfl⟩ := exists_stage listed
  intro c member
  rw [String.toList_append, List.mem_append] at member
  rcases member with first | later
  · rcases known with rfl | rfl <;> revert c <;> decide
  · exact regular.stem.2 c later

theorem functionName_ne_nil {e : Entry} {name : String} (listed : name ∈ e.functionNames) : name.toList ≠ [] := by
  obtain ⟨stage, known, rfl⟩ := exists_stage listed
  rw [String.toList_append]
  rcases known with rfl | rfl <;> simp

theorem normalRoute_of_regular {e : Entry} (regular : e.Regular) (present : e.route ≠ "") :
    normalRoute e.route.toList = e.route.toList := by
  obtain ⟨proper, front⟩ := regular.route present
  rw [normalRoute, Text.trim_of_solid fun c member => isBlank_of_isRouteChar (proper c member)]
  cases whole : e.route.toList with
  | nil => rfl
  | cons c rest =>
    rw [whole] at front
    exact List.dropWhile_cons_of_neg (by simpa using front)

/-- What the entry point has to hold: the import of a handler, or the export of a function. -/
inductive Piece where
  | importing (e : Entry)
  | exporting (name : String)
deriving DecidableEq

def required (entries : List Entry) : List Piece :=
  entries.flatMap fun e => .importing e :: e.functionNames.map .exporting

theorem mem_required {entries : List Entry} {piece : Piece} :
    piece ∈ required entries ↔
      ∃ e ∈ entries, piece = .importing e ∨ ∃ name ∈ e.functionNames, piece = .exporting name := by
  simp only [required, List.mem_flatMap, List.mem_cons, List.mem_map, eq_comm]

end Endpoint

end Conformance
