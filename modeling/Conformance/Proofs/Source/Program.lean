import Conformance.Proofs.Endpoint.Names
import Conformance.Proofs.Source.CommentLine
import Conformance.Proofs.Source.Forms
import Mathlib.Data.List.Perm.Basic

namespace Conformance

namespace Source.Import

open Pattern

def isNameChar (c : Char) : Bool :=
  Text.isWord c || c == '$'

def isListChar (c : Char) : Bool :=
  isNameChar c || Text.isBlank c || c == ','

def isModuleChar (c : Char) : Bool :=
  c.isAlphanum || among "_@./-" c

structure Name where
  chars : List Char
  named : chars ≠ []
  inName : ∀ c ∈ chars, isNameChar c = true

structure NameList where
  chars : List Char
  inList : ∀ c ∈ chars, isListChar c = true

/-- A module as a statement writes it. Neither of the words that begin a clause stands in its name. -/
structure Module where
  chars : List Char
  mark : Char
  isMark : Pattern.isMark mark = true
  named : chars ≠ []
  inModule : ∀ c ∈ chars, isModuleChar c = true
  free : ∀ word ∈ ["import", "export"], ¬ StandsIn word.toList chars

inductive Statement where
  /-- `import name from 'module'` -/
  | importDefault (name : Name) (source : Module)
  /-- `import {names} from 'module'` -/
  | importNames (names : NameList) (source : Module)
  /-- `import * as name from 'module'` -/
  | importAll (name : Name) (source : Module)
  /-- `export {names} from 'module'` -/
  | exportNames (names : NameList) (source : Module)
  /-- `export * from 'module'` -/
  | exportAll (source : Module)
  /-- `import 'module'` -/
  | importOnly (source : Module)
  /-- `const name = require('module')` -/
  | requireCall (name : Name) (source : Module)
  /-- `const name = await import('module')` -/
  | importCall (name : Name) (source : Module)

def Module.quoted (source : Module) : List Char :=
  source.mark :: (source.chars ++ [source.mark])

namespace Statement

def source : Statement → Module
  | importDefault _ source | importNames _ source | importAll _ source | exportNames _ source | exportAll source
  | importOnly source | requireCall _ source | importCall _ source => source

def text : Statement → List Char
  | importDefault name source => "import ".toList ++ name.chars ++ " from ".toList ++ source.quoted ++ ";\n".toList
  | importNames names source => "import \x7b".toList ++ names.chars ++ "\x7d from ".toList ++ source.quoted ++ ";\n".toList
  | importAll name source => "import * as ".toList ++ name.chars ++ " from ".toList ++ source.quoted ++ ";\n".toList
  | exportNames names source => "export \x7b".toList ++ names.chars ++ "\x7d from ".toList ++ source.quoted ++ ";\n".toList
  | exportAll source => "export * from ".toList ++ source.quoted ++ ";\n".toList
  | importOnly source => "import ".toList ++ source.quoted ++ ";\n".toList
  | requireCall name source =>
    "const ".toList ++ name.chars ++ " = ".toList ++ "require(".toList ++ source.quoted ++ [')'] ++ ";\n".toList
  | importCall name source =>
    "const ".toList ++ name.chars ++ " = await ".toList ++ "import(".toList ++ source.quoted ++ [')'] ++ ";\n".toList

end Statement

def programText (program : List Statement) : List Char :=
  program.flatMap Statement.text

/-- The references of a program whose first line has the given number: one for each statement. -/
def programImports (line : Nat) : List Statement → List Import
  | [] => []
  | statement :: program =>
    ⟨String.ofList statement.source.chars, line⟩ :: programImports (line + statement.text.count '\n') program

namespace Statement

def form : Statement → Form
  | importDefault .. | importNames .. | importAll .. | exportNames .. | exportAll .. => .clause
  | importOnly .. => .sideEffect
  | requireCall .. | importCall .. => .call

def front : Statement → List Char
  | requireCall name _ => "const ".toList ++ (name.chars ++ " = ".toList)
  | importCall name _ => "const ".toList ++ (name.chars ++ " = await ".toList)
  | _ => []

def lead : Statement → List Char
  | importDefault name _ => "import ".toList ++ (name.chars ++ " from ".toList)
  | importNames names _ => "import \x7b".toList ++ (names.chars ++ "\x7d from ".toList)
  | importAll name _ => "import * as ".toList ++ (name.chars ++ " from ".toList)
  | exportNames names _ => "export \x7b".toList ++ (names.chars ++ "\x7d from ".toList)
  | exportAll _ => "export * from ".toList
  | importOnly _ => "import ".toList
  | requireCall .. => "require(".toList
  | importCall .. => "import(".toList

def tail : Statement → List Char
  | requireCall .. | importCall .. => [')']
  | _ => []

variable (s : Statement)

theorem text_eq : s.text = s.front ++ (s.lead ++ (s.source.quoted ++ (s.tail ++ ";\n".toList))) := by
  have clause : ∀ a b c d e : List Char, a ++ b ++ c ++ d ++ e = [] ++ ((a ++ (b ++ c)) ++ (d ++ ([] ++ e))) := by simp
  have short : ∀ a d e : List Char, a ++ d ++ e = [] ++ (a ++ (d ++ ([] ++ e))) := by simp
  have call : ∀ a b c lead d tail e : List Char,
      a ++ b ++ c ++ lead ++ d ++ tail ++ e = (a ++ (b ++ c)) ++ (lead ++ (d ++ (tail ++ e))) := by simp
  cases s with
  | importDefault name source | importAll name source | importNames names source | exportNames names source =>
    exact clause _ _ _ _ _
  | exportAll source | importOnly source => exact short _ _ _
  | requireCall name source | importCall name source => exact call _ _ _ _ _ _ _

theorem tail_endsWith : s.form.EndsWith s.tail := by
  cases s with
  | requireCall | importCall => exact ⟨[], rfl, by simp⟩
  | _ => rfl

theorem inClause_of_isNameChar {c : Char} (inName : isNameChar c = true) : inClause c = true := by
  rcases Bool.or_eq_true_iff.mp inName with word | dollar
  · exact inClause_of_isWord word
  · obtain rfl := beq_iff_eq.mp dollar
    decide

theorem inClause_of_isListChar {c : Char} (inList : isListChar c = true) : inClause c = true := by
  rcases Bool.or_eq_true_iff.mp inList with either | comma
  · exact (Bool.or_eq_true_iff.mp either).elim inClause_of_isNameChar inClause_of_isBlank
  · obtain rfl := beq_iff_eq.mp comma
    decide

/-- Between the words of a clause stands a text that begins with a space and ends with one. -/
theorem leadsUp_clause (word : String) (v : List Char) {names : List Char} (known : word ∈ ["import", "export"])
    (inside : ∀ c ∈ v ++ names, inClause c = true) {front behind : List Char} (before : front = word.toList ++ ' ' :: v)
    (after : behind = ' ' :: ("from".toList ++ [' ']) ∨ behind = '\x7d' :: ' ' :: ("from".toList ++ [' '])) :
    Form.clause.LeadsUp (front ++ (names ++ behind)) := by
  obtain ⟨last, shape, inLast, space⟩ : ∃ last, behind = last ++ ("from".toList ++ [' ']) ∧
      (∀ c ∈ last, inClause c = true) ∧ last.getLast? = some ' ' := by
    rcases after with rfl | rfl
    · exact ⟨[' '], rfl, by decide, rfl⟩
    · exact ⟨['\x7d', ' '], rfl, by decide, rfl⟩
  refine ⟨word, known, ' ' :: (v ++ (names ++ last)), [' '], ?_, ?_, ⟨' ', rfl, by decide⟩, ⟨' ', ?_, by decide⟩, by decide⟩
  · rw [before, shape]
    simp
  · intro c member
    simp only [List.mem_cons, List.mem_append] at member
    rcases member with rfl | inV | inNames | member
    · decide
    · exact inside c (by simp [inV])
    · exact inside c (by simp [inNames])
    · exact inLast c member
  · rw [← List.append_assoc, List.getLast?_cons, List.getLast?_append, space]
    rfl

theorem lead_leadsUp : s.form.LeadsUp s.lead := by
  have all : ∀ {v names : List Char} {p : Char → Bool}, (∀ c ∈ v, inClause c = true) → (∀ c, p c = true → inClause c = true) →
      (∀ c ∈ names, p c = true) → ∀ c ∈ v ++ names, inClause c = true := by
    intro v names p inV class_ inNames c member
    exact (List.mem_append.mp member).elim (inV c) fun own => class_ c (inNames c own)
  have from_ : " from ".toList = ' ' :: ("from".toList ++ [' ']) := by decide
  have brace : "\x7d from ".toList = '\x7d' :: ' ' :: ("from".toList ++ [' ']) := by decide
  cases s with
  | importDefault name source =>
    exact leadsUp_clause "import" [] (by decide)
      (all (by simp) (fun _ => inClause_of_isNameChar) name.inName) (by decide) (.inl from_)
  | importNames names source =>
    exact leadsUp_clause "import" ['\x7b'] (by decide)
      (all (by decide) (fun _ => inClause_of_isListChar) names.inList) (by decide) (.inr brace)
  | importAll name source =>
    exact leadsUp_clause "import" "* as ".toList (by decide)
      (all (by decide) (fun _ => inClause_of_isNameChar) name.inName) (by decide) (.inl from_)
  | exportNames names source =>
    exact leadsUp_clause "export" ['\x7b'] (by decide)
      (all (by decide) (fun _ => inClause_of_isListChar) names.inList) (by decide) (.inr brace)
  | exportAll source =>
    exact @leadsUp_clause "export" [] ['*'] (by decide) (by decide) "export ".toList _ (by decide) (.inl from_)
  | importOnly source => exact ⟨[], [' '], (by decide : "import ".toList = _), by simp, by simp, by decide⟩
  | requireCall name source =>
    exact ⟨"require", by decide, [], [], (by decide : "require(".toList = _), by simp, by simp⟩
  | importCall name source =>
    exact ⟨"import", by decide, [], [], (by decide : "import(".toList = _), by simp, by simp⟩

end Statement

section Module

variable (source : Module)

theorem Module.inClause {c : Char} (member : c ∈ source.chars) : inClause c = true := by
  have marks : ∀ d ∈ "_@./-".toList, Import.inClause d = true := by decide
  rcases Bool.or_eq_true_iff.mp (source.inModule c member) with letter | listed
  · exact inClause_of_isWord (Text.isWord_of_isAlphanum letter)
  · exact marks c (by simpa [among] using listed)

theorem Module.oneLine : '\n' ∉ source.chars := by
  intro member
  have inModule := source.inModule '\n' member
  revert inModule
  decide

theorem Module.unmarked : ∀ c ∈ source.chars, Pattern.isMark c = false := by
  intro c member
  rw [Bool.eq_false_iff]
  intro mark
  have inside := source.inClause member
  rw [not_inClause_of_isMark mark] at inside
  cases inside

end Module

namespace Statement

variable {s : Statement} {form : Form} {place : Cursor} {rest : List Char} {q : Char}

/-- In front of a call stand a name, an equals sign and what begins no call. -/
theorem call_shape (isCall : s.form = .call) : ∃ x y word, s.front = x ++ '=' :: y ∧ s.lead = word ++ ['('] ∧
    (∀ c ∈ x, inClause c = true) ∧ (y = [' '] ∨ y = " await ".toList) ∧ ∀ c ∈ y ++ word, inClause c = true := by
  have named : ∀ name : Name, ∀ c ∈ "const ".toList ++ (name.chars ++ [' ']), inClause c = true := by
    intro name c member
    have const : ∀ c ∈ "const ".toList, inClause c = true := by decide
    rcases List.mem_append.mp member with first | more
    · exact const c first
    · rcases List.mem_append.mp more with inName | space
      · exact inClause_of_isNameChar (name.inName c inName)
      · obtain rfl := List.mem_singleton.mp space
        decide
  have equals : " = ".toList = [' '] ++ '=' :: [' '] := by decide
  have awaits : " = await ".toList = [' '] ++ '=' :: " await ".toList := by decide
  have spelled : ∀ {last y : List Char} (name : Name), last = [' '] ++ '=' :: y →
      "const ".toList ++ (name.chars ++ last) = ("const ".toList ++ (name.chars ++ [' '])) ++ '=' :: y := by
    rintro last y name rfl
    simp only [List.append_assoc]
  cases s with
  | requireCall name source =>
    exact ⟨_, [' '], "require".toList, spelled name equals, (by decide : "require(".toList = _), named name, .inl rfl,
      by decide⟩
  | importCall name source =>
    exact ⟨_, " await ".toList, "import".toList, spelled name awaits, (by decide : "import(".toList = _), named name,
      .inr rfl, by decide⟩
  | _ => cases isCall

theorem front_eq_nil (other : s.form ≠ .call) : s.front = [] := by
  cases s with
  | requireCall | importCall => exact absurd rfl other
  | _ => rfl

/-- In front of the module of a statement only its own form begins. -/
theorem sightings_skip_lead (other : form ≠ s.form) (mark : isMark q = true)
    (ahead : place.rest = s.front ++ s.lead ++ q :: rest) :
    sightings 1 form.pattern place = sightings 1 form.pattern (place.beyond (s.front ++ s.lead) (q :: rest)) := by
  have quote : inClause q = false := not_inClause_of_isMark mark
  by_cases isCall : s.form = .call
  · obtain ⟨x, y, word, inFront, inLead, inside, _, inside'⟩ := call_shape isCall
    have stops : form.stopsAt '=' = false ∧ form.stopsAt '(' = false := by
      revert other
      rw [isCall]
      cases form <;> decide
    have starts : form.starts '=' = false ∧ form.starts '(' = false := by
      cases form <;> decide
    have whole : place.rest = x ++ '=' :: (y ++ word ++ '(' :: q :: rest) := by
      rw [ahead, inFront, inLead]
      simp
    have spelled : s.front ++ s.lead = (x ++ ['=']) ++ ((y ++ word) ++ ['(']) := by
      rw [inFront, inLead]
      simp
    rw [sightings_skip_past _ _ _ whole inside (by decide) stops.1 starts.1,
      sightings_skip_past (y ++ word) '(' (q :: rest) rfl inside' (by decide) stops.2 starts.2,
      Cursor.beyond_beyond, spelled]
  · rw [front_eq_nil isCall, List.nil_append] at ahead ⊢
    have inside := s.lead_leadsUp.passes isCall
    by_cases call : form = .call
    · subst call
      refine sightings_skip_stop ahead inside quote ?_
      rcases isMark_eq_true_iff.mp mark with rfl | rfl <;> rfl
    · obtain ⟨front, z, spelled, blank⟩ := s.lead_leadsUp.last
      refine sightings_skip_last call ahead inside quote spelled ?_ blank ?_
      · cases s.form <;> decide
      · revert other isCall call
        cases form <;> cases s.form <;> decide

/-- No call begins in front of the word of a call. -/
theorem sightings_skip_awaited {y : List Char} (either : y = [' '] ∨ y = " await ".toList) (ahead : place.rest = y ++ rest) :
    sightings 1 Form.call.pattern place = sightings 1 Form.call.pattern (place.beyond y rest) := by
  rcases either with rfl | rfl
  · exact sightings_skip_starts _ _ ahead (by decide)
  · have letter : ∀ place : Cursor, place.rest = 'i' :: 't' :: ' ' :: rest → Form.call.pattern.ways ⟨place, []⟩ = [] := by
      intro place own
      refine List.eq_nil_iff_forall_not_mem.mpr fun m member => ?_
      obtain ⟨_, a, w, b, tail, u, _, ⟨word, known, z, z', rfl, _⟩, _, quotes, _, _⟩ := mem_ways_call.mp member
      have whole : place.rest = _ := quotes.whole
      rw [own] at whole
      simp only [List.mem_cons, List.not_mem_nil, or_false] at known
      rcases known with rfl | rfl <;> simp at whole
    have pieces : " await ".toList = " awa".toList ++ 'i' :: ['t', ' '] := by decide
    have whole : place.rest = " awa".toList ++ 'i' :: 't' :: ' ' :: rest := by
      rw [ahead, pieces, List.append_assoc]
      rfl
    calc sightings 1 Form.call.pattern place
        = sightings 1 Form.call.pattern (place.beyond " awa".toList ('i' :: 't' :: ' ' :: rest)) :=
          sightings_skip_starts _ _ whole (by decide)
      _ = sightings 1 Form.call.pattern
            ((place.beyond " awa".toList ('i' :: 't' :: ' ' :: rest)).past 'i' ('t' :: ' ' :: rest)) :=
          sightings_of_refused 1 (Form.passesSome_pattern .call) rfl (letter _ rfl)
      _ = sightings 1 Form.call.pattern (place.beyond " await ".toList rest) := by
          rw [sightings_skip_starts ['t', ' '] rest rfl (by decide), Cursor.past_eq_beyond,
            Cursor.beyond_beyond, Cursor.beyond_beyond, pieces]
          rfl

theorem sightings_skip_front (ahead : place.rest = s.front ++ (s.lead ++ rest)) :
    sightings 1 s.form.pattern place = sightings 1 s.form.pattern (place.beyond s.front (s.lead ++ rest)) := by
  by_cases isCall : s.form = .call
  · obtain ⟨x, y, word, inFront, inLead, inside, either, _⟩ := call_shape isCall
    have whole : place.rest = x ++ '=' :: (y ++ (s.lead ++ rest)) := by
      rw [ahead, inFront]
      simp
    have spelled : s.front = (x ++ ['=']) ++ y := by
      rw [inFront]
      simp
    rw [isCall, sightings_skip_past _ _ _ whole inside (by decide) (by decide) (by decide), spelled,
      sightings_skip_awaited either rfl, Cursor.beyond_beyond]
  · rw [front_eq_nil isCall, Cursor.beyond_nil_of_rest (u := s.lead ++ rest)]
    rwa [front_eq_nil isCall, List.nil_append] at ahead

theorem beginsAt (s : Statement) (starts : EndsLine place.before) (rest : List Char) :
    s.form.BeginsAt (place.beyond s.front rest) := by
  have feed : ∀ c ∈ place.before, c = '\n' := starts
  have outer : (none.or place.before).any Text.isWord = false ∧ place.before.all (· == '\n') = true := by
    cases before : place.before with
    | none => exact ⟨rfl, rfl⟩
    | some c =>
      obtain rfl := feed c (by simp [before])
      exact ⟨rfl, rfl⟩
  have behind : ∀ first name last : List Char, last.getLast? = some ' ' →
      ((first ++ (name ++ last)).getLast?.or place.before).any Text.isWord = false := by
    intro first name last space
    rw [List.getLast?_append, List.getLast?_append, space]
    rfl
  cases s with
  | requireCall name source =>
    exact behind "const ".toList name.chars " = ".toList (by decide)
  | importCall name source =>
    exact behind "const ".toList name.chars " = await ".toList (by decide)
  | importOnly source => exact outer.2
  | _ => exact outer.1

/-- Each statement is seen in its own form, with its module, and nothing else begins in it. -/
theorem sightings_statement (form : Form) (ahead : place.rest = s.text ++ rest) (starts : EndsLine place.before) :
    sightings 1 form.pattern place =
      (if form = s.form then [(place.offset + Text.byteLength s.front, some s.source.chars)] else []) ++
        sightings 1 form.pattern (place.beyond s.text rest) := by
  have ending : ∀ c ∈ ";\n".toList, form.starts c = false := by
    cases form <;> decide
  by_cases own : form = s.form
  · subst own
    have whole : place.rest = s.front ++ (s.lead ++ (s.source.mark :: (s.source.chars ++ s.source.mark ::
        (s.tail ++ (";\n".toList ++ rest))))) := by
      rw [ahead, text_eq]
      simp [Module.quoted]
    have quotes : Quotes (s.lead ++ (s.source.mark :: (s.source.chars ++ s.source.mark ::
        (s.tail ++ (";\n".toList ++ rest))))) s.lead s.source.mark s.source.chars s.source.mark
          (s.tail ++ (";\n".toList ++ rest)) := ⟨rfl, s.source.isMark, s.source.isMark, s.source.unmarked⟩
    rw [if_pos rfl, sightings_skip_front whole,
      sightings_of_lead (s.beginsAt starts _) s.lead_leadsUp s.tail_endsWith quotes s.source.named,
      sightings_skip_starts ";\n".toList rest rfl ending, Cursor.beyond_beyond,
      Cursor.beyond_beyond, text_eq]
    simp [Module.quoted, Cursor.beyond]
  · have whole : place.rest = s.front ++ s.lead ++ s.source.mark :: (s.source.chars ++ s.source.mark ::
        (s.tail ++ ";\n".toList ++ rest)) := by
      rw [ahead, text_eq]
      simp [Module.quoted]
    have closing : ∀ c ∈ s.tail ++ ";\n".toList, form.starts c = false := by
      intro c member
      rcases List.mem_append.mp member with bracket | end_
      · obtain rfl : c = ')' := by
          cases s with
          | requireCall | importCall => exact List.mem_singleton.mp bracket
          | _ => cases bracket
        cases form <;> decide
      · exact ending c end_
    rw [if_neg own, List.nil_append, sightings_skip_lead own s.source.isMark whole,
      sightings_skip_quoted s.source.isMark (fun c => s.source.inClause) s.source.oneLine s.source.free rfl,
      sightings_skip_starts (s.tail ++ ";\n".toList) rest rfl closing, Cursor.beyond_beyond,
      Cursor.beyond_beyond, text_eq]
    simp [Module.quoted]

theorem text_getLast? (s : Statement) : s.text.getLast? = some '\n' := by
  have feed : ";\n".toList.getLast? = some '\n' := by decide
  rw [text_eq, List.getLast?_append, List.getLast?_append, List.getLast?_append, List.getLast?_append, feed]
  rfl

theorem byteLength_front_lt (s : Statement) : Text.byteLength s.front < Text.byteLength s.text := by
  have feed : 0 < Text.byteLength ";\n".toList := by decide
  simp only [text_eq, Text.byteLength_append]
  omega

end Statement

/-- The references of a program from a byte and a line on, each with the form that sees it and the byte where it
begins. -/
def located (offset line : Nat) : List Statement → List (Form × Nat × Import)
  | [] => []
  | s :: program =>
    (s.form, offset + Text.byteLength s.front, ⟨String.ofList s.source.chars, line⟩) ::
      located (offset + Text.byteLength s.text) (line + s.text.count '\n') program

theorem map_located (offset line : Nat) (program : List Statement) :
    (located offset line program).map (fun x => x.2.2) = programImports line program := by
  induction program generalizing offset line with
  | nil => rfl
  | cons s program ih => rw [located, List.map_cons, ih, programImports]

theorem sightings_program (form : Form) {place : Cursor} {program : List Statement} (line : Nat)
    (ahead : place.rest = programText program) (starts : EndsLine place.before) : sightings 1 form.pattern place =
      ((located place.offset line program).filter (·.1 = form)).map fun x => (x.2.1, some x.2.2.specifier.toList) := by
  induction program generalizing place line with
  | nil => exact sightings_nil form.passesSome_pattern ahead
  | cons s program ih =>
    have onward : EndsLine (place.beyond s.text (programText program)).before := by
      intro c last
      simpa [Cursor.beyond, s.text_getLast?, eq_comm] using last
    have whole : place.rest = s.text ++ programText program := ahead
    rw [Statement.sightings_statement form whole starts,
      ih (line + s.text.count '\n') rfl onward, located]
    by_cases own : form = s.form
    · simp [own, Cursor.beyond]
    · simp [own, Cursor.beyond, Ne.symm own]

theorem le_of_mem_located {offset line : Nat} {program : List Statement} {x : Form × Nat × Import}
    (member : x ∈ located offset line program) : offset ≤ x.2.1 ∧ line ≤ x.2.2.line := by
  induction program generalizing offset line with
  | nil => cases member
  | cons s program ih =>
    rcases List.mem_cons.mp member with rfl | later
    · exact ⟨Nat.le_add_right _ _, Nat.le_refl _⟩
    · have bound := ih later
      omega

theorem pairwise_located (offset line : Nat) (program : List Statement) :
    (located offset line program).Pairwise fun x y => x.2.1 < y.2.1 ∧ x.2.2.line < y.2.2.line := by
  induction program generalizing offset line with
  | nil => exact .nil
  | cons s program ih =>
    refine List.pairwise_cons.mpr ⟨fun y later => ?_, ih _ _⟩
    have bound := le_of_mem_located later
    have shorter := s.byteLength_front_lt
    have feeds : 0 < s.text.count '\n' := List.count_pos_iff.mpr (List.mem_of_getLast? s.text_getLast?)
    dsimp only
    omega

section Counted

variable {above : List Char}

theorem Statement.not_mem_front (s : Statement) : '\n' ∉ s.front := by
  have named : ∀ name : Name, '\n' ∉ name.chars := by
    intro name member
    have inName := name.inName '\n' member
    revert inName
    decide
  have pieces : '\n' ∉ "const ".toList ∧ '\n' ∉ " = ".toList ∧ '\n' ∉ " = await ".toList := by decide
  have whole : ∀ (name : Name) (last : List Char), '\n' ∉ last → '\n' ∉ "const ".toList ++ (name.chars ++ last) := by
    intro name last none
    simp only [List.mem_append, not_or]
    exact ⟨pieces.1, named name, none⟩
  cases s with
  | requireCall name source => exact whole name _ pieces.2.1
  | importCall name source => exact whole name _ pieces.2.2
  | _ => exact List.not_mem_nil

theorem lineOf_front (s : Statement) (rest : List Char) :
    (Text.LineIndex.ofText (s.text ++ rest)).lineOf (Text.byteLength s.front) = 1 := by
  rw [Text.lineOf_ofText, Statement.text_eq, List.append_assoc, Text.feedsBelow_append, Text.feedsBelow_eq_count (by omega),
    Text.feedsBelow_eq_zero (by omega), List.count_eq_zero.mpr s.not_mem_front]

theorem first_line (s : Statement) (rest : List Char) :
    ∃ line, (Text.lines (s.text ++ rest))[0]? = some line ∧ isCommentLine line = false := by
  obtain ⟨c, more, begins, letter⟩ : ∃ c more, s.text = c :: more ∧ (c = 'i' ∨ c = 'e' ∨ c = 'c') := by
    cases s with
    | exportNames | exportAll => exact ⟨'e', _, rfl, by simp⟩
    | requireCall | importCall => exact ⟨'c', _, rfl, by simp⟩
    | _ => exact ⟨'i', _, rfl, by simp⟩
  have solid : ∀ line, isCommentLine (c :: line) = false := by
    intro line
    rcases letter with rfl | rfl | rfl <;> rw [isCommentLine, Text.trimStart, List.dropWhile_cons_of_neg (by decide)] <;> rfl
  obtain ⟨line, first⟩ := Text.lines_head? (c := c) (more ++ rest) (by rcases letter with rfl | rfl | rfl <;> decide)
    (by rcases letter with rfl | rfl | rfl <;> decide)
  rw [List.head?_eq_getElem?] at first
  exact ⟨c :: line, by rw [begins]; exact first, solid line⟩

/-- Each reference counts: it is on the line where its statement begins, which is no comment. -/
theorem counted?_located (ends : EndsLine above.getLast?) {program : List Statement} {x : Form × Nat × Import}
    (member : x ∈ located (Text.byteLength above) ((Text.lines above).length + 1) program) :
    counted? (above ++ programText program) (x.2.1, some x.2.2.specifier.toList) = some x.2 := by
  induction program generalizing above with
  | nil => cases member
  | cons s program ih =>
    rcases List.mem_cons.mp member with rfl | later
    · obtain ⟨line, first, code⟩ := first_line s (programText program)
      have whole : above ++ programText (s :: program) = above ++ (s.text ++ programText program) := rfl
      have index : (Text.lines above ++ Text.lines (s.text ++ programText program))[(Text.lines above).length + 1 - 1]? =
          some line := by
        rw [Nat.add_sub_cancel, List.getElem?_append_right (Nat.le_refl _), Nat.sub_self, first]
      simp only [counted?, Option.bind_some, whole, Text.lineOf_append_add ends, lineOf_front, onCodeLine,
        Text.lines_append ends, index, Option.all_some, code, String.ofList_toList]
      rfl
    · have closed : EndsLine (above ++ s.text).getLast? := by
        simp [List.getLast?_append, s.text_getLast?, EndsLine]
      have ends' : EndsLine s.text.getLast? := by
        simp [s.text_getLast?, EndsLine]
      have onward : x ∈ located (Text.byteLength (above ++ s.text)) ((Text.lines (above ++ s.text)).length + 1) program := by
        rwa [Text.byteLength_append, Text.lines_append ends, List.length_append, Text.length_lines ends', Nat.add_right_comm]
      have whole : above ++ programText (s :: program) = above ++ s.text ++ programText program :=
        (List.append_assoc ..).symm
      rw [whole]
      exact ih closed onward

theorem countedOf_program (form : Form) (program : List Statement) :
    countedOf (programText program) form.pattern = ((located 0 1 program).filter (·.1 = form)).map Prod.snd := by
  rw [countedOf, sightings_program form 1 rfl (by simp [Cursor.ofText, EndsLine]), List.filterMap_map]
  have each : ∀ x ∈ (located 0 1 program).filter (·.1 = form),
      counted? (programText program) (x.2.1, some x.2.2.specifier.toList) = some x.2 := fun x member =>
    counted?_located (show EndsLine ([] : List Char).getLast? by simp [EndsLine]) (List.mem_of_mem_filter member)
  exact (List.filterMap_congr each).trans (congrFun List.filterMap_eq_map _)

end Counted

theorem perm_forms {α : Type} (l : List (Form × α)) :
    ([Form.clause, .sideEffect, .call].flatMap fun form => (l.filter (·.1 = form)).map Prod.snd).Perm (l.map Prod.snd) := by
  induction l with
  | nil => exact .nil
  | cons x l ih =>
    obtain ⟨form, item⟩ := x
    simp only [List.flatMap_cons, List.flatMap_nil, List.append_nil] at ih ⊢
    cases form with
    | clause => simpa using ih
    | sideEffect => simpa using List.perm_middle.trans (ih.cons item)
    | call =>
      simp only [List.filter_cons, reduceCtorEq, decide_false, decide_true, Bool.false_eq_true, if_false, if_true,
        List.map_cons]
      rw [← List.append_assoc] at ih ⊢
      exact List.perm_middle.trans (ih.cons item)

theorem mergeSort_eq_of_perm {α : Type} {l l' : List (Nat × α)} (strict : l.Pairwise fun a b => a.1 < b.1)
    (perm : l'.Perm l) : (l'.mergeSort fun a b => a.1 ≤ b.1) = l := by
  have sorted : (l'.mergeSort fun a b => a.1 ≤ b.1).Pairwise fun a b => a.1 ≤ b.1 := by
    refine (List.pairwise_mergeSort ?_ ?_ l').imp of_decide_eq_true
    · simp only [decide_eq_true_eq]
      intro a b c
      exact Nat.le_trans
    · simp only [Bool.or_eq_true, decide_eq_true_eq]
      exact fun a b => Nat.le_total a.1 b.1
  have same : ((l'.mergeSort fun a b => a.1 ≤ b.1)).Perm l := (List.mergeSort_perm l' _).trans perm
  have keys : (l.map Prod.fst).Nodup := List.pairwise_map.mpr (strict.imp Nat.ne_of_lt)
  refine same.eq_of_pairwise (fun a b ha hb ab ba => ?_) sorted (strict.imp Nat.le_of_lt)
  exact List.inj_on_of_nodup_map keys (same.subset ha) hb (Nat.le_antisymm ab ba)

/-- From a program of statements one reference is read for each, in their order, on the line where it begins. -/
theorem ofText_program (program : List Statement) : ofText (programText program) = programImports 1 program := by
  have strict := pairwise_located 0 1 program
  have forms : [fromClause, sideEffect, call].flatMap (countedOf (programText program)) =
      [Form.clause, .sideEffect, .call].flatMap fun form => ((located 0 1 program).filter (·.1 = form)).map Prod.snd :=
    (List.flatMap_map Form.pattern _ [.clause, .sideEffect, .call]).trans
      (List.flatMap_congr fun form _ => countedOf_program form program)
  have inOrder : ((located 0 1 program).map Prod.snd).Pairwise fun a b => a.1 < b.1 :=
    List.pairwise_map.mpr (strict.imp And.left)
  have apart : (((located 0 1 program).map Prod.snd).map Prod.snd).Nodup := by
    rw [List.map_map]
    apply List.pairwise_map.mpr
    refine strict.imp ?_
    intro x y later same
    exact Nat.ne_of_lt later.2 (congrArg (fun i : Import => i.line) same)
  rw [ofText_eq, forms, mergeSort_eq_of_perm inOrder (perm_forms _), dropRepeats_of_nodup apart, List.map_map]
  exact map_located 0 1 program

end Source.Import

end Conformance
