import Conformance.Check.Tests
import Conformance.Proofs.Layout.Spelling
import Conformance.Proofs.Pattern.Members

namespace Conformance

namespace Check.Tests

open Pattern

/-- What the calls are of: a test function with a modifier, with or without a way to run it in between, or a short
name. -/
def callees (modifier : String) (shortNames : List String) : List String :=
  (["it", "test", "describe", "context", "suite"].flatMap fun name =>
    ["", ".concurrent", ".sequential"].map fun mode => name ++ (mode ++ modifier)) ++ shortNames

/-- What stands behind the name of what is called, up to the mark that opens the arguments or the template. -/
def Opens (lead : List Char) : Prop :=
  ∃ z each z' mark, lead = z ++ (each ++ (z' ++ [mark])) ∧ (∀ c ∈ z, Text.isBlank c = true) ∧
    each ∈ [[], ".each".toList] ∧ (∀ c ∈ z', Text.isBlank c = true) ∧ among "(`" mark = true

/-- A line calls something, or tags a template with it: the name is not the end of a longer word, and what opens the
arguments or the template stands behind it. -/
def Calls (callee : String) (line : List Char) : Prop :=
  ∃ front lead back, line = front ++ (callee.toList ++ (lead ++ back)) ∧ front.getLast?.any Text.isWord = false ∧
    Opens lead

section Modified

variable {modifier shortName : String} {shortNames : List String} {s m : Progress}

theorem mem_ways_mode : m ∈ (optional (seq (text ".") (anyOf "concurrent" ["sequential"]))).ways s ↔
    ∃ mode ∈ ["", ".concurrent", ".sequential"], ∃ u, s.place.rest = mode.toList ++ u ∧ m = s.beyond mode.toList u := by
  have spelled : ".concurrent".toList = ".".toList ++ "concurrent".toList ∧
      ".sequential".toList = ".".toList ++ "sequential".toList := by decide
  rw [mem_ways_optional, mem_ways_seq]
  simp only [mem_ways_text, mem_ways_anyOf]
  constructor
  · rintro (⟨_, ⟨u, ahead, rfl⟩, way, known, u', cut, rfl⟩ | rfl)
    · obtain rfl : u = way.toList ++ u' := cut
      simp only [List.mem_cons, List.not_mem_nil, or_false] at known
      rcases known with rfl | rfl
      · exact ⟨".concurrent", by simp, u', by rw [ahead, spelled.1, List.append_assoc], by rw [spelled.1]; simp⟩
      · exact ⟨".sequential", by simp, u', by rw [ahead, spelled.2, List.append_assoc], by rw [spelled.2]; simp⟩
    · exact ⟨"", by simp, _, rfl, (Progress.beyond_nil rfl).symm⟩
  · rintro ⟨mode, known, u, ahead, rfl⟩
    simp only [List.mem_cons, List.not_mem_nil, or_false] at known
    rcases known with rfl | rfl | rfl
    · exact Or.inr (Progress.beyond_nil ahead)
    · rw [spelled.1, List.append_assoc] at ahead
      exact Or.inl ⟨_, ⟨_, ahead, rfl⟩, "concurrent", by simp, u, rfl, by rw [spelled.1]; simp⟩
    · rw [spelled.2, List.append_assoc] at ahead
      exact Or.inl ⟨_, ⟨_, ahead, rfl⟩, "sequential", by simp, u, rfl, by rw [spelled.2]; simp⟩

theorem mem_ways_called : m ∈ (either
      (chain [anyOf "it" ["test", "describe", "context", "suite"],
        optional (seq (text ".") (anyOf "concurrent" ["sequential"])), text modifier])
      (anyOf shortName shortNames)).ways s ↔
    ∃ callee ∈ callees modifier (shortName :: shortNames), ∃ u, s.place.rest = callee.toList ++ u ∧
      m = s.beyond callee.toList u := by
  rw [mem_ways_either, mem_ways_anyOf]
  simp only [callees, List.mem_append, or_and_right, exists_or, List.mem_flatMap, List.mem_map]
  refine or_congr ?_ Iff.rfl
  simp only [mem_ways_chain_cons, mem_ways_chain_nil, mem_ways_anyOf, mem_ways_mode, mem_ways_text]
  constructor
  · rintro ⟨_, ⟨name, known, u₁, ahead, rfl⟩, _, ⟨mode, way, u₂, cut, rfl⟩, _, ⟨u, cut', rfl⟩, rfl⟩
    obtain rfl : u₁ = mode.toList ++ u₂ := cut
    obtain rfl : u₂ = modifier.toList ++ u := cut'
    exact ⟨_, ⟨name, known, mode, way, rfl⟩, u, by simp [ahead], by simp⟩
  · rintro ⟨_, ⟨name, known, mode, way, rfl⟩, u, ahead, rfl⟩
    rw [String.toList_append, String.toList_append, List.append_assoc, List.append_assoc] at ahead
    exact ⟨_, ⟨name, known, _, ahead, rfl⟩, _, ⟨mode, way, _, rfl, rfl⟩, _, ⟨u, rfl, rfl⟩, by simp⟩

theorem mem_ways_optional_text {word : String} : m ∈ (optional (text word)).ways s ↔
    ∃ w ∈ [[], word.toList], ∃ u, s.place.rest = w ++ u ∧ m = s.beyond w u := by
  rw [mem_ways_optional, mem_ways_text]
  constructor
  · rintro (⟨u, ahead, rfl⟩ | rfl)
    · exact ⟨_, by simp, u, ahead, rfl⟩
    · exact ⟨[], by simp, _, rfl, (Progress.beyond_nil rfl).symm⟩
  · rintro ⟨w, known, u, ahead, rfl⟩
    simp only [List.mem_cons, List.not_mem_nil, or_false] at known
    rcases known with rfl | rfl
    · exact Or.inr (Progress.beyond_nil ahead)
    · exact Or.inl ⟨u, ahead, rfl⟩

/-- The pattern has a way behind each opened call, with the name kept, and no other. -/
theorem mem_ways_modified : m ∈ (modified modifier shortName shortNames).ways s ↔
    s.place.atWordBorder = true ∧ ∃ callee ∈ callees modifier (shortName :: shortNames), ∃ lead back,
      s.place.rest = callee.toList ++ (lead ++ back) ∧ Opens lead ∧
      m = ⟨s.place.beyond (callee.toList ++ lead) back,
        ⟨1, s.place, s.place.beyond callee.toList (lead ++ back)⟩ :: s.captures⟩ := by
  unfold modified
  simp only [blanks, mem_ways_chain_cons (p := wordBorder), mem_ways_chain_cons (p := group _ _),
    mem_ways_chain_cons (p := most _), mem_ways_chain_cons (p := optional _), mem_ways_chain_cons (p := char _),
    mem_ways_chain_nil, mem_ways_wordBorder, mem_ways_group, mem_ways_called, mem_ways_most, mem_ways_optional_text,
    mem_ways_char]
  constructor
  · rintro ⟨_, ⟨border, rfl⟩, _, ⟨_, ⟨callee, known, u, ahead, rfl⟩, rfl⟩, _, ⟨z, u₁, cut₁, blank, rfl⟩, _,
      ⟨each, only, u₂, cut₂, rfl⟩, _, ⟨z', u₃, cut₃, blank', rfl⟩, _, ⟨mark, back, cut₄, accepted, rfl⟩, rfl⟩
    obtain rfl : u = z ++ u₁ := cut₁
    obtain rfl : u₁ = each ++ u₂ := cut₂
    obtain rfl : u₂ = z' ++ u₃ := cut₃
    obtain rfl : u₃ = mark :: back := cut₄
    refine ⟨border, callee, known, z ++ (each ++ (z' ++ [mark])), back, by simp [ahead],
      ⟨z, each, z', mark, rfl, blank, only, blank', accepted⟩, ?_⟩
    simp [Progress.beyond, Progress.moveTo, Progress.keep]
  · rintro ⟨border, callee, known, _, back, ahead, ⟨z, each, z', mark, rfl, blank, only, blank', accepted⟩, rfl⟩
    simp only [List.append_assoc, List.singleton_append] at ahead
    refine ⟨s, ⟨border, rfl⟩, _, ⟨_, ⟨callee, known, _, ahead, rfl⟩, rfl⟩, _, ⟨z, _, rfl, blank, rfl⟩, _,
      ⟨each, only, _, rfl, rfl⟩, _, ⟨z', _, rfl, blank', rfl⟩, _, ⟨mark, back, rfl, accepted, rfl⟩, ?_⟩
    simp [Progress.beyond, Progress.moveTo, Progress.keep]

section Search

variable {line text : List Char}

theorem atWordBorder_callee (line : List Char) {callee : String} (lettered : callee.toList.head?.any Text.isWord = true)
    (front rest : List Char) :
    ((Cursor.ofText line).beyond front (callee.toList ++ rest)).atWordBorder = true ↔
      front.getLast?.any Text.isWord = false := by
  obtain ⟨c, first, inWord⟩ := Option.any_eq_true _ _ |>.mp lettered
  obtain ⟨more, spelled⟩ := List.head?_eq_some_iff.mp first
  have ahead : ((Cursor.ofText line).beyond front (callee.toList ++ rest)).rest = c :: (more ++ rest) := by
    rw [Cursor.beyond_rest, spelled]
    rfl
  rw [atWordBorder_in_front ahead inWord]
  simp [Cursor.beyond, Cursor.ofText]

variable (lettered : ∀ callee ∈ callees modifier (shortName :: shortNames), callee.toList.head?.any Text.isWord = true)

include lettered

theorem calls_of_find? {m : Match} (found : (modified modifier shortName shortNames).find? line = some m) :
    ∃ callee ∈ callees modifier (shortName :: shortNames), Calls callee line ∧ m.group? 1 = some callee.toList := by
  obtain ⟨front, rest, s, whole, way, rfl⟩ := searchFrom_eq_some found
  obtain ⟨border, callee, known, lead, back, ahead, opens, rfl⟩ := mem_ways_modified.mp way
  obtain rfl : rest = callee.toList ++ (lead ++ back) := ahead
  have apart := (atWordBorder_callee line (lettered callee known) front (lead ++ back)).mp border
  exact ⟨callee, known, ⟨front, lead, back, whole, apart, opens⟩, congrArg some (Cursor.textTo_beyond rfl)⟩

theorem exists_find? {callee : String} (known : callee ∈ callees modifier (shortName :: shortNames))
    (calls : Calls callee line) : ∃ m, (modified modifier shortName shortNames).find? line = some m := by
  obtain ⟨front, lead, back, whole, apart, opens⟩ := calls
  have border := (atWordBorder_callee line (lettered callee known) front (lead ++ back)).mpr apart
  have way := (mem_ways_modified (s := ⟨_, []⟩)).mpr ⟨border, callee, known, lead, back, rfl, opens, rfl⟩
  exact Option.isSome_iff_exists.mp (searchFrom_isSome_iff.mpr ⟨front, _, whole, List.ne_nil_of_mem way⟩)

theorem exists_hit {n : Nat} (listed : (n, line) ∈ Text.numberedLines text) (code : Source.isCommentLine line = false)
    (calls : ∃ callee ∈ callees modifier (shortName :: shortNames), Calls callee line) :
    ∃ callee ∈ callees modifier (shortName :: shortNames), Calls callee line ∧
      ⟨n, callee⟩ ∈ codeHits (modified modifier shortName shortNames) text := by
  obtain ⟨callee, known, calls⟩ := calls
  obtain ⟨m, found⟩ := exists_find? lettered known calls
  obtain ⟨first, known', calls', kept⟩ := calls_of_find? lettered found
  refine ⟨first, known', calls', List.mem_filterMap.mpr ⟨(n, line), List.mem_filter.mpr ⟨listed, by simp [code]⟩, ?_⟩⟩
  simp [found, kept]

theorem calls_of_mem_codeHits {hit : Hit} (member : hit ∈ codeHits (modified modifier shortName shortNames) text) :
    ∃ line, (hit.line, line) ∈ Text.numberedLines text ∧ Source.isCommentLine line = false ∧
      hit.matched ∈ callees modifier (shortName :: shortNames) ∧ Calls hit.matched line := by
  obtain ⟨⟨n, line⟩, code, own⟩ := List.mem_filterMap.mp member
  obtain ⟨listed, code⟩ := List.mem_filter.mp code
  obtain ⟨m, found, rfl⟩ := Option.map_eq_some_iff.mp own
  obtain ⟨callee, known, calls, kept⟩ := calls_of_find? lettered found
  refine ⟨line, listed, by simpa using code, ?_⟩
  rw [kept, Option.getD_some, String.ofList_toList]
  exact ⟨known, calls⟩

end Search

end Modified

def focusedCallees : List String :=
  callees ".only" ["fit", "fdescribe"]

theorem focusedCallees_lettered : ∀ callee ∈ focusedCallees, callee.toList.head?.any Text.isWord = true := by
  decide

end Check.Tests

namespace Check

open Tests

/-- Every line of a test file that is no comment and calls a focused test is reported, by what is called in it. A comment
is never reported. -/
theorem find_focused (repo : Repository) : ∃ violations, focusedTests.find repo = .ok violations ∧
    (∀ p ∈ repo.files.testFiles repo.layout.root, ∀ text, repo.files.read p = .ok text →
      ∀ n line, (n, line) ∈ Text.numberedLines text → Source.isCommentLine line = false →
        (∃ callee ∈ focusedCallees, Calls callee line) →
          ∃ callee ∈ focusedCallees, Calls callee line ∧ focused (repo.relative p) ⟨n, callee⟩ ∈ violations) ∧
    ∀ v ∈ violations, ∃ p ∈ repo.files.testFiles repo.layout.root,
      (∃ cause, repo.files.read p = .error cause ∧ v = Repository.unreadable (repo.relative p) cause) ∨
      ∃ text n line matched, repo.files.read p = .ok text ∧ (n, line) ∈ Text.numberedLines text ∧
        Source.isCommentLine line = false ∧ v = focused (repo.relative p) ⟨n, matched⟩ := by
  refine ⟨_, rfl, fun p scanned text read n line listed code calls => ?_, fun v member => ?_⟩
  · obtain ⟨callee, known, calls, hit⟩ := exists_hit focusedCallees_lettered listed code calls
    refine ⟨callee, known, calls, List.mem_flatMap.mpr ⟨p, scanned, ?_⟩⟩
    rw [Repository.inspectFile, read]
    exact List.mem_map_of_mem hit
  · obtain ⟨p, scanned, own⟩ := List.mem_flatMap.mp member
    refine ⟨p, scanned, ?_⟩
    rw [Repository.inspectFile] at own
    cases read : repo.files.read p with
    | ok text =>
      rw [read] at own
      obtain ⟨hit, found, rfl⟩ := List.mem_map.mp own
      obtain ⟨line, listed, code, _⟩ := calls_of_mem_codeHits focusedCallees_lettered found
      exact .inr ⟨text, hit.line, line, hit.matched, rfl, listed, code, rfl⟩
    | error cause =>
      rw [read] at own
      exact .inl ⟨cause, rfl, List.mem_singleton.mp own⟩

def testRepository (source : String) : Repository :=
  ⟨⟨.dir [("repo", .dir [("a.test.ts", .file source.toUTF8)])], []⟩, .ofRoot "/repo"⟩

theorem read_testRepository (source : String) :
    (testRepository source).files.read "/repo/a.test.ts" = .ok source.toList := by
  have leads : (testRepository source).files.node? "/repo/a.test.ts" = some (.file source.toUTF8) := by rfl
  exact FileSystem.read_of_toUTF8 leads

theorem testFiles_testRepository (source : String) :
    (testRepository source).files.testFiles (testRepository source).layout.root = [⟨"/repo/a.test.ts"⟩] := by
  have leads : (testRepository source).files.node? "/repo" = some (.dir [("a.test.ts", .file source.toUTF8)]) := by rfl
  have tests : FileSystem.isTestName "a.test.ts" = true := by decide
  rw [FileSystem.testFiles, show (testRepository source).layout.root = "/repo" from rfl,
    FileSystem.collectFiles_eq _ _ leads]
  simp only [FileSystem.filesIn, FileSystem.placesIn, FileSystem.placesAt, List.append_nil, tests, Bool.not_false,
    Bool.and_self, List.filter_cons_of_pos, List.filter_nil, List.map_cons, List.map_nil]
  rfl

theorem focused_each_reported :
    let repo := testRepository "const rows = [1];\nsetUp(); it.concurrent.only .each(rows)('x', f);\n"
    ∃ violations, focusedTests.find repo = .ok violations ∧
      ∃ callee ∈ focusedCallees, Calls callee "setUp(); it.concurrent.only .each(rows)('x', f);".toList ∧
        focused (repo.relative "/repo/a.test.ts") ⟨2, callee⟩ ∈ violations := by
  intro repo
  have calls : Calls "it.concurrent.only" "setUp(); it.concurrent.only .each(rows)('x', f);".toList := by
    refine ⟨"setUp(); ".toList, " .each(".toList, "rows)('x', f);".toList, ?_, by decide, " ".toList, ".each".toList, [],
      '(', by decide⟩
    repeat rw [String.toList_ofList]
    rfl
  have scanned : (⟨"/repo/a.test.ts"⟩ : Path) ∈ repo.files.testFiles repo.layout.root := by
    rw [testFiles_testRepository]
    exact List.mem_singleton_self _
  have listed : (2, "setUp(); it.concurrent.only .each(rows)('x', f);".toList) ∈
      Text.numberedLines "const rows = [1];\nsetUp(); it.concurrent.only .each(rows)('x', f);\n".toList := by
    repeat rw [String.toList_ofList]
    decide
  have code : Source.isCommentLine "setUp(); it.concurrent.only .each(rows)('x', f);".toList = false := by
    rw [String.toList_ofList]
    decide
  obtain ⟨violations, found, reported, _⟩ := find_focused repo
  exact ⟨violations, found, reported _ scanned _ (read_testRepository _) 2 _ listed code ⟨_, by decide, calls⟩⟩

theorem focused_behind_comment :
    let line := "/* slow */ it.only('x', () => \x7b\x7d);"
    let repo := testRepository line
    repo.files.testFiles repo.layout.root = ["/repo/a.test.ts"] ∧ repo.files.read "/repo/a.test.ts" = .ok line.toList ∧
      Text.numberedLines line.toList = [(1, line.toList)] ∧ Calls "it.only" line.toList ∧
      focusedTests.find repo = .ok [] := by
  intro line repo
  have source : line.toList = _ := String.toList_ofList
  refine ⟨testFiles_testRepository line, read_testRepository line, by rw [source]; decide +kernel, ?_, ?_⟩
  · refine ⟨"/* slow */ ".toList, "(".toList, "'x', () => \x7b\x7d);".toList, ?_, by decide, [], [], [], '(', by decide⟩
    repeat rw [String.toList_ofList]
    rfl
  · have passed : codeHits focusedTest line.toList = [] := by
      rw [source]
      decide +kernel
    refine congrArg Except.ok ?_
    rw [inspectTests, testFiles_testRepository, Repository.inspectFiles, List.flatMap_singleton, Repository.inspectFile,
      read_testRepository]
    simp [passed]

end Check

end Conformance
