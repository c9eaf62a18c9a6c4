import Conformance.Check.TestBodies
import Conformance.Proofs.Check.FocusedTests
import Conformance.Proofs.Check.LineChecks
import Conformance.Proofs.Text.Trim

namespace Conformance

namespace Check.TestBodies

open Pattern

def BlankLine (line : List Char) : Prop :=
  ∀ c ∈ line, Text.isBlank c = true

instance (line : List Char) : Decidable (BlankLine line) :=
  inferInstanceAs (Decidable (∀ c ∈ line, Text.isBlank c = true))

def OpensTest (line : List Char) : Prop :=
  ∃ front name z back, line = front ++ (name.toList ++ (z ++ '(' :: back)) ∧ name ∈ ["it", "test"] ∧
    front.getLast?.any Text.isWord = false ∧ BlankLine z

def EndsOpen (line : List Char) : Prop :=
  ∃ front z z', line = front ++ ("=>".toList ++ (z ++ '\x7b' :: z')) ∧ BlankLine z ∧ BlankLine z'

def ClosesBody (line : List Char) : Prop :=
  ∃ z z' z₃ mark z₄, line = z ++ '\x7d' :: (z' ++ ')' :: (z₃ ++ (mark ++ z₄))) ∧ mark ∈ [[], ";".toList] ∧
    BlankLine z ∧ BlankLine z' ∧ BlankLine z₃ ∧ BlankLine z₄

section Shapes

variable {line : List Char}

theorem occursIn_opening_iff : opening.occursIn line = true ↔ OpensTest line := by
  have lettered : ∀ name ∈ ["it", "test"], name.toList.head?.any Text.isWord = true := by decide
  rw [occursIn_iff_mem]
  simp only [opening, blanks, mem_ways_chain_cons, mem_ways_chain_nil, mem_ways_wordBorder, mem_ways_anyOf, mem_ways_most,
    mem_ways_text]
  constructor
  · rintro ⟨front, u, m, rfl, _, ⟨border, rfl⟩, _, ⟨name, known, u₁, ahead, rfl⟩, _, ⟨z, u₂, cut₁, blank, rfl⟩, _,
      ⟨back, cut₂, rfl⟩, rfl⟩
    obtain rfl : u = name.toList ++ u₁ := ahead
    obtain rfl : u₁ = z ++ u₂ := cut₁
    obtain rfl : u₂ = '(' :: back := cut₂
    exact ⟨front, name, z, back, rfl, known, (Tests.atWordBorder_callee _ (lettered name known) front _).mp border, blank⟩
  · rintro ⟨front, name, z, back, rfl, known, apart, blank⟩
    exact ⟨front, _, _, rfl, _, ⟨(Tests.atWordBorder_callee _ (lettered name known) front _).mpr apart, rfl⟩, _,
      ⟨name, known, _, rfl, rfl⟩, _, ⟨z, _, rfl, blank, rfl⟩, _, ⟨back, rfl, rfl⟩, rfl⟩

theorem occursIn_bodyOpens_iff : bodyOpens.occursIn line = true ↔ EndsOpen line := by
  rw [occursIn_iff_mem]
  simp only [bodyOpens, blanks, mem_ways_chain_cons, mem_ways_chain_nil, mem_ways_text, mem_ways_most, mem_ways_textEnd]
  constructor
  · rintro ⟨front, u, m, rfl, _, ⟨u₁, ahead, rfl⟩, _, ⟨z, u₂, cut₁, blank, rfl⟩, _, ⟨u₃, cut₂, rfl⟩, _,
      ⟨z', u₄, cut₃, blank', rfl⟩, _, ⟨last, rfl⟩, rfl⟩
    obtain rfl : u = "=>".toList ++ u₁ := ahead
    obtain rfl : u₁ = z ++ u₂ := cut₁
    obtain rfl : u₂ = '\x7b' :: u₃ := cut₂
    obtain rfl : u₃ = z' ++ u₄ := cut₃
    obtain rfl : u₄ = [] := last
    exact ⟨front, z, z', by simp, blank, blank'⟩
  · rintro ⟨front, z, z', rfl, blank, blank'⟩
    exact ⟨front, _, _, rfl, _, ⟨_, rfl, rfl⟩, _, ⟨z, _, rfl, blank, rfl⟩, _, ⟨_, rfl, rfl⟩, _,
      ⟨z', [], by simp, blank', rfl⟩, _, ⟨rfl, rfl⟩, rfl⟩

theorem occursIn_bodyCloses_iff : bodyCloses.occursIn line = true ↔ ClosesBody line := by
  rw [occursIn_iff_mem]
  simp only [bodyCloses, blanks, mem_ways_chain_cons, mem_ways_chain_nil, mem_ways_textStart, mem_ways_text, mem_ways_most,
    Tests.mem_ways_optional_text, mem_ways_textEnd]
  constructor
  · rintro ⟨front, u, m, rfl, _, ⟨start, rfl⟩, _, ⟨z, u₁, ahead, blank, rfl⟩, _, ⟨u₂, cut₁, rfl⟩, _,
      ⟨z', u₃, cut₂, blank', rfl⟩, _, ⟨u₄, cut₃, rfl⟩, _, ⟨z₃, u₅, cut₄, blank₃, rfl⟩, _, ⟨mark, known, u₆, cut₅, rfl⟩, _,
      ⟨z₄, u₇, cut₆, blank₄, rfl⟩, _, ⟨last, rfl⟩, rfl⟩
    obtain rfl : front = [] := by simpa [Cursor.beyond, Cursor.ofText] using start
    obtain rfl : u = z ++ u₁ := ahead
    obtain rfl : u₁ = '\x7d' :: u₂ := cut₁
    obtain rfl : u₂ = z' ++ u₃ := cut₂
    obtain rfl : u₃ = ')' :: u₄ := cut₃
    obtain rfl : u₄ = z₃ ++ u₅ := cut₄
    obtain rfl : u₅ = mark ++ u₆ := cut₅
    obtain rfl : u₆ = z₄ ++ u₇ := cut₆
    obtain rfl : u₇ = [] := last
    exact ⟨z, z', z₃, mark, z₄, by simp, known, blank, blank', blank₃, blank₄⟩
  · rintro ⟨z, z', z₃, mark, z₄, rfl, known, blank, blank', blank₃, blank₄⟩
    exact ⟨[], _, _, rfl, _, ⟨rfl, rfl⟩, _, ⟨z, _, rfl, blank, rfl⟩, _, ⟨_, rfl, rfl⟩, _, ⟨z', _, rfl, blank', rfl⟩, _,
      ⟨_, rfl, rfl⟩, _, ⟨z₃, _, rfl, blank₃, rfl⟩, _, ⟨mark, known, _, rfl, rfl⟩, _, ⟨z₄, [], by simp, blank₄, rfl⟩, _,
      ⟨rfl, rfl⟩, rfl⟩

end Shapes

instance (line : List Char) : Decidable (OpensTest line) :=
  decidable_of_iff _ occursIn_opening_iff

instance (line : List Char) : Decidable (EndsOpen line) :=
  decidable_of_iff _ occursIn_bodyOpens_iff

instance (line : List Char) : Decidable (ClosesBody line) :=
  decidable_of_iff _ occursIn_bodyCloses_iff

section Blank

variable {line : List Char} (blank : BlankLine line)

include blank

theorem not_infix_of_blank {part : List Char} {c : Char} (member : c ∈ part) (solid : Text.isBlank c = false) :
    ¬ part <:+: line := by
  intro inside
  rw [blank c (inside.subset member)] at solid
  cases solid

theorem opening_of_blank : opening.occursIn line = false := by
  rw [Bool.eq_false_iff]
  intro occurs
  obtain ⟨front, name, z, back, rfl, _⟩ := occursIn_opening_iff.mp occurs
  exact not_infix_of_blank blank (List.mem_singleton_self '(') (by decide) ⟨front ++ (name.toList ++ z), back, by simp⟩

theorem assertion_of_blank : assertion.occursIn line = false := by
  rw [Bool.eq_false_iff, Ne, occursIn_iff_mem]
  rintro ⟨front, u, m, rfl, way⟩
  simp only [assertion, mem_ways_either, mem_ways_chain_cons, mem_ways_wordBorder, mem_ways_text] at way
  have away : ∀ (word : String) (rest : List Char), u = word.toList ++ rest → 'e' ∈ word.toList → False := by
    rintro word rest rfl member
    exact not_infix_of_blank blank member (by decide) ⟨front, rest, by simp⟩
  rcases way with ⟨_, ⟨_, rfl⟩, _, ⟨rest, ahead, _⟩, _⟩ | ⟨_, ⟨_, rfl⟩, _, ⟨rest, ahead, _⟩, _⟩
  · exact away "expect" rest ahead (by decide)
  · exact away "assert" rest ahead (by decide)

theorem emptyBody?_of_blank (number : Nat) (following : List (List Char)) : emptyBody? number line following = none := by
  simp [emptyBody?, opening_of_blank blank]

end Blank

theorem ClosesBody.not_blank {line : List Char} (closes : ClosesBody line) : ¬ BlankLine line := by
  obtain ⟨z, z', z₃, mark, z₄, rfl, _⟩ := closes
  intro blank
  exact absurd (blank '\x7d' (by simp)) (by decide)

theorem isEmpty_trim_iff {line : List Char} : (Text.trim line).isEmpty = true ↔ BlankLine line :=
  List.isEmpty_iff.trans Text.trim_eq_nil_iff

theorem closesAtOnce_of_closesBody {fillers : List (List Char)} {closing : List Char}
    (blank : ∀ line ∈ fillers, BlankLine line) (closes : ClosesBody closing) (back : List (List Char)) :
    closesAtOnce (fillers ++ closing :: back) = true := by
  have passed : ∀ line ∈ fillers, ¬ (!(Text.trim line).isEmpty) = true := by
    intro line member
    simp [isEmpty_trim_iff.mpr (blank line member)]
  have kept : (!(Text.trim closing).isEmpty) = true := by
    rw [Bool.not_eq_true', ← Bool.not_eq_true, isEmpty_trim_iff]
    exact closes.not_blank
  rw [closesAtOnce, List.find?_append, List.find?_eq_none.mpr passed, Option.none_or, List.find?_cons, kept]
  exact occursIn_bodyCloses_iff.mpr closes

theorem emptyBody?_of_opens {line closing : List Char} {fillers : List (List Char)} (number : Nat)
    (code : Source.isCommentLine line = false) (opens : OpensTest line) (ends : EndsOpen line)
    (blank : ∀ filler ∈ fillers, BlankLine filler) (closes : ClosesBody closing) (back : List (List Char)) :
    emptyBody? number line (fillers ++ closing :: back) = some ⟨number, !emptyOnLine.occursIn line⟩ := by
  rw [emptyBody?, code, occursIn_opening_iff.mpr opens, occursIn_bodyOpens_iff.mpr ends,
    closesAtOnce_of_closesBody blank closes]
  cases emptyOnLine.occursIn line <;> rfl

theorem emptyBodies_append (number : Nat) (front back : List (List Char)) : ∃ bodies,
    emptyBodies number (front ++ back) = bodies ++ emptyBodies (number + front.length) back := by
  induction front generalizing number with
  | nil => exact ⟨[], rfl⟩
  | cons line front ih =>
    obtain ⟨bodies, later⟩ := ih (number + 1)
    refine ⟨(emptyBody? number line (front ++ back)).toList ++ bodies, ?_⟩
    rw [List.cons_append, emptyBodies, later, List.append_assoc, List.length_cons, Nat.add_right_comm, Nat.add_assoc]

theorem mem_emptyBodies {number : Nat} {front following : List (List Char)} {line : List Char} {body : EmptyBody}
    (found : emptyBody? (number + front.length) line following = some body) :
    body ∈ emptyBodies number (front ++ line :: following) := by
  obtain ⟨bodies, whole⟩ := emptyBodies_append number front (line :: following)
  rw [whole, emptyBodies, found]
  simp

/-- What is found in the text of a test file: the empty bodies, and how many tests and assertions there are. -/
structure Finding where
  bodies : List EmptyBody
  tests : Nat
  assertions : Nat

def look (text : List Char) : Finding :=
  ⟨emptyBodies 1 (Text.lines text), countOnCode opening (Text.lines text), countOnCode assertion (Text.lines text)⟩

def EmptyBody.lowered (gaps : Nat → List (List Char)) (body : EmptyBody) : EmptyBody :=
  { body with line := body.line + putInBefore gaps body.line }

namespace Finding

def shown (file : String) (found : Finding) : List Violation :=
  found.bodies.map (emptyViolation file) ++
    if tooFew found.tests found.assertions then [fewViolation file found.tests found.assertions] else []

def lowered (gaps : Nat → List (List Char)) (found : Finding) : Finding :=
  { found with bodies := found.bodies.map (·.lowered gaps) }

end Finding

section PutIn

theorem emptyBodies_of_blank {ls : List (List Char)} (blank : ∀ line ∈ ls, BlankLine line) (number : Nat)
    (following : List (List Char)) :
    emptyBodies number (ls ++ following) = emptyBodies (number + ls.length) following := by
  induction ls generalizing number with
  | nil => rfl
  | cons line ls ih =>
    obtain ⟨own, others⟩ := List.forall_mem_cons.mp blank
    rw [List.cons_append, emptyBodies, emptyBody?_of_blank own, ih others, List.length_cons, Nat.add_right_comm,
      Nat.add_assoc]
    rfl

theorem countOnCode_eq (pattern : Pattern) (ls : List (List Char)) : countOnCode pattern ls =
    total ((ls.filter fun line => pattern.occursIn line && !Source.isCommentLine line).map pattern.count) := by
  have zero : ∀ line, pattern.occursIn line = false → pattern.count line = 0 := by
    intro line absent
    rw [occursIn_eq, Bool.not_eq_false', List.isEmpty_iff] at absent
    rw [count, absent]
    rfl
  rw [countOnCode]
  induction ls with
  | nil => rfl
  | cons line ls ih =>
    cases comment : Source.isCommentLine line with
    | true => simpa [comment] using ih
    | false =>
      cases occurs : pattern.occursIn line with
      | true => simpa [comment, occurs] using ih
      | false => simpa [comment, occurs, zero line occurs] using ih

variable {gaps : Nat → List (List Char)} (blank : ∀ n, ∀ line ∈ gaps n, BlankLine line)

include blank

theorem closesAtOnce_withGaps (n : Nat) (following : List (List Char)) :
    closesAtOnce (withGaps gaps n following) = closesAtOnce following := by
  have passed : ∀ n, ∀ line ∈ gaps n, (!(Text.trim line).isEmpty) = false := by
    intro n line member
    rw [isEmpty_trim_iff.mpr (blank n line member)]
    rfl
  rw [closesAtOnce, closesAtOnce, ← List.head?_filter, ← List.head?_filter, filter_withGaps passed]

theorem emptyBody?_withGaps (number n : Nat) (line : List Char) (following : List (List Char)) :
    emptyBody? (number + putInBefore gaps number) line (withGaps gaps n following) =
      (emptyBody? number line following).map (·.lowered gaps) := by
  simp only [emptyBody?, closesAtOnce_withGaps blank]
  split_ifs <;> rfl

theorem emptyBodies_withGaps (k : Nat) (ls : List (List Char)) :
    emptyBodies (k + 1 + putInBefore gaps k) (withGaps gaps (k + 1) ls) =
      (emptyBodies (k + 1) ls).map (·.lowered gaps) := by
  induction ls generalizing k with
  | nil =>
    have none := emptyBodies_of_blank (blank (k + 1)) (k + 1 + putInBefore gaps k) []
    rwa [List.append_nil] at none
  | cons line ls ih =>
    have here : k + 1 + putInBefore gaps k + (gaps (k + 1)).length = k + 1 + putInBefore gaps (k + 1) := by
      rw [putInBefore]
      omega
    have next : k + 1 + putInBefore gaps (k + 1) + 1 = k + 1 + 1 + putInBefore gaps (k + 1) := by omega
    rw [withGaps, emptyBodies_of_blank (blank (k + 1)), here, emptyBodies, emptyBody?_withGaps blank, next, ih, emptyBodies,
      List.map_append, Option.toList_map]

theorem countOnCode_withGaps {pattern : Pattern} (absent : ∀ line, BlankLine line → pattern.occursIn line = false) (n : Nat)
    (ls : List (List Char)) : countOnCode pattern (withGaps gaps n ls) = countOnCode pattern ls := by
  have passed : ∀ n, ∀ line ∈ gaps n, (pattern.occursIn line && !Source.isCommentLine line) = false := by
    intro n line member
    rw [absent line (blank n line member), Bool.false_and]
  rw [countOnCode_eq, countOnCode_eq, filter_withGaps passed]

theorem look_withGaps {text other : List Char} (lines : Text.lines other = withGaps gaps 1 (Text.lines text)) :
    look other = (look text).lowered gaps := by
  have bodies := emptyBodies_withGaps blank 0 (Text.lines text)
  rw [putInBefore] at bodies
  rw [look, lines, countOnCode_withGaps blank (fun _ => opening_of_blank),
    countOnCode_withGaps blank (fun _ => assertion_of_blank)]
  exact congrArg (Finding.mk · _ _) bodies

end PutIn

/-- The other files are the first ones with blank lines put in between the lines of the texts at the paths: `gaps p n` in
front of line `n` of the file at `p`, or behind its last line. -/
structure Spaced (paths : List Path) (gaps : Path → Nat → List (List Char)) (files other : FileSystem) : Prop where
  shape : files.shape = other.shape
  blank : ∀ p ∈ paths, ∀ n, ∀ line ∈ gaps p n, BlankLine line
  texts : ∀ p ∈ paths,
    (other.read p).map Text.lines = (files.read p).map fun text => withGaps (gaps p) 1 (Text.lines text)

def findings (repo : Repository) : List (Path × Except ReadError Finding) :=
  (repo.files.testFiles repo.layout.root).map fun p => (p, (repo.files.read p).map look)

def shownAt (layout : Layout) : Path × Except ReadError Finding → List Violation
  | (p, .ok found) => found.shown (layout.relative p)
  | (p, .error cause) => [Repository.unreadable (layout.relative p) cause]

theorem find_eq (repo : Repository) : testBodies.find repo = .ok ((findings repo).flatMap (shownAt repo.layout)) := by
  refine congrArg Except.ok ?_
  rw [Repository.inspectFiles, findings, List.flatMap_map]
  refine List.flatMap_congr fun p _ => ?_
  rw [Repository.inspectFile]
  cases repo.files.read p <;> rfl

def lowered (gaps : Path → Nat → List (List Char)) (found : Path × Except ReadError Finding) :
    Path × Except ReadError Finding :=
  (found.1, found.2.map (·.lowered (gaps found.1)))

theorem findings_spaced {files other : FileSystem} {layout : Layout} {gaps : Path → Nat → List (List Char)}
    (spaced : Spaced (files.testFiles layout.root) gaps files other) :
    findings ⟨other, layout⟩ = (findings ⟨files, layout⟩).map (lowered gaps) := by
  have same : other.testFiles layout.root = files.testFiles layout.root := by
    simp [FileSystem.testFiles, FileSystem.collectFiles_of_shape spaced.shape]
  rw [findings, findings, List.map_map, same]
  refine List.map_congr_left fun p member => congrArg (Prod.mk p) ?_
  change (other.read p).map look = ((files.read p).map look).map (·.lowered (gaps p))
  rcases reads_cases (spaced.texts p member) with ⟨text, text', read, read', lines⟩ | ⟨cause, read, read'⟩
  · rw [read, read']
    exact congrArg Except.ok (look_withGaps (spaced.blank p member) lines)
  · rw [read, read']
    rfl

theorem BlankLine.dropReturn {line : List Char} (blank : BlankLine line) : BlankLine (Text.dropReturn line) := by
  unfold Text.dropReturn
  split
  · exact fun c member => blank c (List.dropLast_subset line member)
  · exact blank

theorem spaced_withLinesAt {files : FileSystem} {place : List String} {content : ByteArray} {text : String}
    {gaps : Nat → List (List Char)} (held : files.root.at? place = some (.file content))
    (decoded : String.fromUTF8? content = some text) (blank : ∀ n, ∀ line ∈ gaps n, '\n' ∉ line ∧ BlankLine line)
    (ends : EndsLine text.toList.getLast? ∨ gaps ((Text.lines text.toList).length + 1) = []) (paths : List Path) :
    Spaced paths (gapsAt files place gaps) files (withLinesAt files place text gaps) where
  shape := (FileSystem.alikeOutside_overwrite files place _).shape
  blank p _ n line member := by
    obtain ⟨raw, put, rfl⟩ := of_mem_gapsAt member
    exact (blank n raw put).2.dropReturn
  texts p _ := lines_withLinesAt held decoded (fun n line put => (blank n line put).1) ends p

end Check.TestBodies

namespace Check

open TestBodies

/-- A test whose body is closed by the next line that is not blank is reported at the line that opens it: as a body that
goes over lines, unless the line also has a whole test with an empty body and is reported for that one. Blank lines that are
put in between the lines of the test files lower the bodies and leave the counts as they are. -/
theorem find_emptyBodies (files : FileSystem) (layout : Layout) : ∃ violations,
    testBodies.find ⟨files, layout⟩ = .ok violations ∧
    (∀ p ∈ files.testFiles layout.root, ∀ text, files.read p = .ok text → ∀ front line fillers closing back,
      Text.lines text = front ++ line :: (fillers ++ closing :: back) → Source.isCommentLine line = false →
      OpensTest line → EndsOpen line → (∀ filler ∈ fillers, BlankLine filler) → ClosesBody closing →
      emptyViolation (layout.relative p) ⟨front.length + 1, !emptyOnLine.occursIn line⟩ ∈ violations) ∧
    violations = (findings ⟨files, layout⟩).flatMap (shownAt layout) ∧
    ∀ other gaps, Spaced (files.testFiles layout.root) gaps files other →
      testBodies.find ⟨other, layout⟩ = .ok (((findings ⟨files, layout⟩).map (lowered gaps)).flatMap (shownAt layout)) := by
  refine ⟨_, find_eq ⟨files, layout⟩, ?_, rfl, fun other gaps spaced => ?_⟩
  · intro p scanned text read front line fillers closing back lines code opens ends blank closes
    have found := emptyBody?_of_opens (1 + front.length) code opens ends blank closes back
    have listed : ⟨front.length + 1, !emptyOnLine.occursIn line⟩ ∈ (look text).bodies := by
      rw [look, lines, Nat.add_comm front.length]
      exact mem_emptyBodies found
    refine List.mem_flatMap.mpr ⟨(p, .ok (look text)), List.mem_map.mpr ⟨p, scanned, by rw [read]; rfl⟩, ?_⟩
    exact List.mem_append_left _ (List.mem_map_of_mem listed)
  · rw [find_eq, findings_spaced spaced]

def bareTests : String :=
  "it('a', () => \x7b expect(1).toBe(1); \x7d);\ntest('b', () => \x7b\n\t\n\x7d);\n"

def spaces : Nat → List (List Char)
  | 1 => [[]]
  | 3 => ["  ".toList]
  | _ => []

theorem bareTests_find :
    let repo := testRepository bareTests
    let place := ["repo", "a.test.ts"]
    ∃ violations, testBodies.find repo = .ok violations ∧
      emptyViolation (repo.relative "/repo/a.test.ts") ⟨2, true⟩ ∈ violations ∧
      testBodies.find ⟨withLinesAt repo.files place bareTests spaces, repo.layout⟩ = .ok
        (((findings repo).map (lowered (gapsAt repo.files place spaces))).flatMap (shownAt repo.layout)) := by
  intro repo place
  have held : repo.files.root.at? place = some (.file bareTests.toUTF8) := rfl
  have blank : ∀ n, ∀ line ∈ spaces n, '\n' ∉ line ∧ BlankLine line := by
    intro n
    unfold spaces
    split <;> decide
  have source : bareTests.toList = _ := String.toList_ofList
  have spaced := spaced_withLinesAt held (FileSystem.fromUTF8?_toUTF8 bareTests) blank
    (.inl (by rw [source]; decide +kernel)) (repo.files.testFiles repo.layout.root)
  obtain ⟨violations, found, reported, _, later⟩ := find_emptyBodies repo.files repo.layout
  have scanned : (⟨"/repo/a.test.ts"⟩ : Path) ∈ repo.files.testFiles repo.layout.root := by
    rw [testFiles_testRepository]
    exact List.mem_singleton_self _
  have first : "it('a', () => \x7b expect(1).toBe(1); \x7d);".toList = _ := String.toList_ofList
  have line : "test('b', () => \x7b".toList = _ := String.toList_ofList
  have listed := reported _ scanned _ (read_testRepository _)
    ["it('a', () => \x7b expect(1).toBe(1); \x7d);".toList] "test('b', () => \x7b".toList ["\t".toList] "\x7d);".toList []
    (by rw [source, first, line]; decide +kernel) (by rw [line]; decide +kernel) (by rw [line]; decide +kernel)
    (by rw [line]; decide +kernel) (by decide) (by decide +kernel)
  exact ⟨violations, found, listed, later _ _ spaced⟩

theorem commentedBody_unreported :
    let line := "it('a', () => \x7b"
    let filler := "  // later"
    let closing := "\x7d);"
    let other := "it('b', () => expect(1));"
    let source := line ++ "\n" ++ filler ++ "\n" ++ closing ++ "\n" ++ other
    let repo := testRepository source
    (⟨"/repo/a.test.ts"⟩ ∈ repo.files.testFiles repo.layout.root ∧ repo.files.read "/repo/a.test.ts" = .ok source.toList ∧
      Text.lines source.toList = [line.toList, filler.toList, closing.toList, other.toList]) ∧
    (Source.isCommentLine line.toList = false ∧ OpensTest line.toList ∧ EndsOpen line.toList ∧
      emptyOnLine.occursIn line.toList = false) ∧
    Source.isCommentLine filler.toList = true ∧ ClosesBody closing.toList ∧ testBodies.find repo = .ok [] := by
  intro line filler closing other source repo
  have lineChars : line.toList = _ := String.toList_ofList
  have fillerChars : filler.toList = _ := String.toList_ofList
  have closingChars : closing.toList = _ := String.toList_ofList
  have otherChars : other.toList = _ := String.toList_ofList
  have whole : source.toList = line.toList ++ '\n' :: (filler.toList ++ '\n' :: (closing.toList ++ '\n' :: other.toList)) := by
    simp [source]
  have scanned : (⟨"/repo/a.test.ts"⟩ : Path) ∈ repo.files.testFiles repo.layout.root := by
    rw [testFiles_testRepository]
    exact List.mem_singleton_self _
  obtain ⟨bodies, enough⟩ : (look source.toList).bodies.isEmpty = true ∧
      tooFew (look source.toList).tests (look source.toList).assertions = false := by
    rw [whole, lineChars, fillerChars, closingChars, otherChars]
    decide +kernel
  have passed : (look source.toList).shown (repo.layout.relative ⟨"/repo/a.test.ts"⟩) = [] := by
    rw [Finding.shown, List.isEmpty_iff.mp bodies, enough]
    rfl
  refine ⟨⟨scanned, read_testRepository source, ?_⟩, ?_, ?_, ?_, ?_⟩
  · rw [whole, lineChars, fillerChars, closingChars, otherChars]
    decide +kernel
  · rw [lineChars]
    decide +kernel
  · rw [fillerChars]
    decide +kernel
  · rw [closingChars]
    decide +kernel
  · rw [find_eq, findings, testFiles_testRepository, List.map_singleton, read_testRepository, List.flatMap_singleton]
    exact congrArg Except.ok passed

end Check

end Conformance
