import Conformance.Proofs.Check.Scan
import Conformance.Proofs.FileSystem.Overwrite
import Conformance.Proofs.Source.CommentLine
import Conformance.Proofs.Text.PutIn

namespace Conformance

namespace Check

/-- A check that looks for a pattern on every line: the files it reads, the pattern, which of the lines with the
pattern it reports, and what it says. Of a violation, only the location has the number of the line. -/
structure LineCheck where
  scan : Scan
  pattern : Pattern
  reports : List Char → Bool
  message : String → String
  advice : List (String × List String)
  inspect_eq : ∀ repo p file text, scan.inspect repo p file text =
    ((codeHits pattern text).filter fun hit => (Text.lines text)[hit.line - 1]?.all reports).map fun hit =>
      { Violation.at_ s!"{file}:{hit.line}" (message hit.matched) with sections := advice }

abbrev Finding := Path × Except ReadError Hit

namespace LineCheck

variable (check : LineCheck)

def look (line : List Char) : Option String :=
  if Source.isCommentLine line || !check.reports line then none
  else (check.pattern.find? line).map fun m => String.ofList ((m.group? 1).getD m.text)

def hits (text : List Char) : List Hit :=
  (Text.foundFrom check.look 0 (Text.lines text)).map fun x => ⟨x.1, x.2⟩

def findingsAt (files : FileSystem) (p : Path) : List Finding :=
  match files.read p with
  | .ok text => (check.hits text).map fun hit => (p, .ok hit)
  | .error cause => [(p, .error cause)]

def findings (repo : Repository) : List Finding :=
  (check.scan.paths repo).flatMap (check.findingsAt repo.files)

def shown (layout : Layout) : Finding → Violation
  | (p, .ok hit) =>
    { Violation.at_ s!"{layout.relative p}:{hit.line}" (check.message hit.matched) with sections := check.advice }
  | (p, .error cause) => Repository.unreadable (layout.relative p) cause

theorem hits_eq (text : List Char) : check.hits text =
    (codeHits check.pattern text).filter fun hit => (Text.lines text)[hit.line - 1]?.all check.reports := by
  rw [hits, Text.foundFrom, codeHits, Text.numberedLines, Text.numbered, List.filterMap_filter, List.filterMap_map,
    List.filter_filterMap, List.map_filterMap]
  apply List.filterMap_congr
  rintro ⟨line, i⟩ member
  have held : (Text.lines text)[i]? = some line := List.mem_zipIdx_iff_getElem?.mp member
  have again : ∀ matched : String,
      (some (Hit.mk (i + 1) matched)).filter (fun hit => (Text.lines text)[hit.line - 1]?.all check.reports) =
        if check.reports line then some ⟨i + 1, matched⟩ else none := by
    intro matched
    simp [Option.filter, held]
  cases comment : Source.isCommentLine line with
  | true => simp [look, comment]
  | false =>
    cases reported : check.reports line <;> cases found : check.pattern.find? line <;>
      simp [look, comment, reported, found, again]

theorem find_eq (repo : Repository) :
    check.scan.check.find repo = .ok ((check.findings repo).map (check.shown repo.layout)) := by
  rw [check.scan.find_eq, findings, List.map_flatMap]
  refine congrArg Except.ok (List.flatMap_congr fun p _ => ?_)
  rw [Repository.inspectFile, findingsAt]
  cases read : repo.files.read p with
  | ok text => simp [check.inspect_eq, check.hits_eq, shown, Repository.relative]
  | error cause => simp [shown, Repository.relative]

theorem pairwise_hits (text : List Char) : (check.hits text).Pairwise fun a b => a.line < b.line :=
  List.pairwise_map.mpr (Text.pairwise_foundFrom check.look 0 _)

theorem code_of_mem_hits {text : List Char} {hit : Hit} (member : hit ∈ check.hits text) :
    ∃ line, (hit.line, line) ∈ Text.numberedLines text ∧ Source.isCommentLine line = false ∧
      check.pattern.occursIn line = true := by
  obtain ⟨x, found, rfl⟩ := List.mem_map.mp member
  obtain ⟨i, line, held, own, number⟩ := Text.of_mem_foundFrom found
  have code : Source.isCommentLine line = false := by
    by_contra comment
    simp [look, comment] at own
  have occurs : (check.pattern.find? line).isSome = true := by
    cases seen : check.pattern.find? line with
    | none => simp [look, seen] at own
    | some m => rfl
  refine ⟨line, ?_, code, occurs⟩
  rw [Text.numberedLines, Text.numbered]
  exact List.mem_map.mpr ⟨(line, i), List.mem_zipIdx_iff_getElem?.mpr held, by simp [number]⟩

def lowered (gaps : Path → Nat → List (List Char)) : Finding → Finding
  | (p, .ok hit) => (p, .ok { hit with line := hit.line + putInBefore (gaps p) hit.line })
  | (p, .error cause) => (p, .error cause)

end LineCheck

/-- Where lines are put in, either both texts can be read or none, and for the same cause. -/
theorem reads_cases {read read' : Except ReadError (List Char)} {gaps : Nat → List (List Char)}
    (texts : read'.map Text.lines = read.map fun text => withGaps gaps 1 (Text.lines text)) :
    (∃ text text', read = .ok text ∧ read' = .ok text' ∧ Text.lines text' = withGaps gaps 1 (Text.lines text)) ∨
      ∃ cause, read = .error cause ∧ read' = .error cause := by
  cases read with
  | ok text =>
    cases read' with
    | ok text' => exact .inl ⟨text, text', rfl, rfl, by simpa [Except.map] using texts⟩
    | error cause => simp [Except.map] at texts
  | error cause =>
    cases read' with
    | ok text' => simp [Except.map] at texts
    | error cause' =>
      obtain rfl : cause' = cause := by simpa [Except.map] using texts
      exact .inr ⟨cause', rfl, rfl⟩

/-- The other files are the first ones with comment lines put in between the lines of the texts at the paths:
`gaps p n` in front of line `n` of the file at `p`, or behind its last line. -/
structure Commented (paths : List Path) (gaps : Path → Nat → List (List Char)) (files other : FileSystem) : Prop where
  shape : files.shape = other.shape
  comments : ∀ p ∈ paths, ∀ n, ∀ line ∈ gaps p n, Source.isCommentLine line = true
  texts : ∀ p ∈ paths,
    (other.read p).map Text.lines = (files.read p).map fun text => withGaps (gaps p) 1 (Text.lines text)

namespace LineCheck

variable (check : LineCheck) {files other : FileSystem} {layout : Layout} {gaps : Path → Nat → List (List Char)}

theorem hits_withGaps {gaps : Nat → List (List Char)} (comments : ∀ n, ∀ line ∈ gaps n, Source.isCommentLine line = true)
    {text text' : List Char} (lines : Text.lines text' = withGaps gaps 1 (Text.lines text)) :
    check.hits text' = (check.hits text).map fun hit => { hit with line := hit.line + putInBefore gaps hit.line } := by
  have none : ∀ n, ∀ line ∈ gaps n, check.look line = Option.none := by
    intro n line member
    simp [look, comments n line member]
  have found := Text.foundFrom_withGaps none 0 (Text.lines text)
  rw [putInBefore, Nat.zero_add] at found
  rw [hits, lines, found, hits, List.map_map, List.map_map]
  rfl

theorem findings_commented (commented : Commented (check.scan.paths ⟨files, layout⟩) gaps files other) :
    check.findings ⟨other, layout⟩ = (check.findings ⟨files, layout⟩).map (lowered gaps) := by
  rw [findings, findings, ← (check.scan.blind commented.shape layout).1, List.map_flatMap]
  refine List.flatMap_congr fun p member => ?_
  rw [findingsAt, findingsAt]
  rcases reads_cases (commented.texts p member) with ⟨text, text', read, read', lines⟩ | ⟨cause, read, read'⟩
  · simp [read, read', check.hits_withGaps (commented.comments p member) lines, lowered]
  · simp [read, read', lowered]

theorem of_mem_findingsAt {p : Path} {x : Finding} (member : x ∈ check.findingsAt files p) :
    x.1 = p ∧ ∀ hit, x.2 = .ok hit → ∃ text, files.read p = .ok text ∧ hit ∈ check.hits text := by
  rw [findingsAt] at member
  cases read : files.read p with
  | ok text =>
    rw [read] at member
    obtain ⟨hit, found, rfl⟩ := List.mem_map.mp member
    refine ⟨rfl, fun hit' same => ⟨text, rfl, ?_⟩⟩
    cases same
    exact found
  | error cause =>
    rw [read] at member
    obtain rfl := List.mem_singleton.mp member
    exact ⟨rfl, fun hit same => by cases same⟩

/-- Where a finding is: the place of the file and the line; a file that cannot be read has no line. -/
def site? (files : FileSystem) : Finding → Option (List String × Nat)
  | (p, .ok hit) => some (files.spelledPlace p, hit.line)
  | (_, .error _) => none

theorem site?_eq_some {x : Finding} {site : List String × Nat} (here : site? files x = some site) :
    site.1 = files.spelledPlace x.1 ∧ ∃ hit, x.2 = .ok hit ∧ site.2 = hit.line := by
  obtain ⟨p, hit | cause⟩ := x
  · cases here
  · cases here
    exact ⟨rfl, _, rfl, rfl⟩

theorem nodup_sites (wellFormed : files.root.WellFormed) (root : Path) :
    ((check.findings ⟨files, .ofRoot root⟩).filterMap (site? files)).Nodup := by
  have apart : (check.scan.paths ⟨files, .ofRoot root⟩).Pairwise fun p q => files.spelledPlace p ≠ files.spelledPlace q :=
    List.pairwise_map.mp (check.scan.apart wellFormed root)
  rw [findings, List.filterMap_flatMap, List.nodup_flatMap]
  constructor
  · intro p _
    dsimp only
    rw [findingsAt]
    cases files.read p with
    | ok text =>
      rw [List.filterMap_map]
      refine (check.pairwise_hits text).filterMap _ ?_
      rintro a b below x first y second same
      cases first
      cases second
      injection same with _ lines
      omega
    | error cause => exact .nil
  · have own : ∀ p, ∀ site ∈ (check.findingsAt files p).filterMap (site? files), site.1 = files.spelledPlace p := by
      intro p site member
      obtain ⟨x, found, here⟩ := List.mem_filterMap.mp member
      rw [(site?_eq_some here).1, (check.of_mem_findingsAt found).1]
    exact apart.imp fun other site first second => other ((own _ site first).symm.trans (own _ site second))

end LineCheck

section Checks

theorem filter_reporting_all (pattern : Pattern) (text : List Char) :
    ((codeHits pattern text).filter fun hit => (Text.lines text)[hit.line - 1]?.all fun _ => true) =
      codeHits pattern text := by
  simp

def consoleLines : LineCheck where
  scan := consoleScan
  pattern := Tidiness.consoleCall
  reports _ := true
  message matched := s!"uses {matched} instead of the Firebase logger."
  advice := (Tidiness.printing "" ⟨0, ""⟩).sections
  inspect_eq _ _ file text := by
    rw [filter_reporting_all]
    rfl

def networkLines : LineCheck where
  scan := networkScan
  pattern := App.networkSession
  reports _ := true
  message _ := "uses URLSession directly instead of the shared APIClient."
  advice := (App.rawSession "" ⟨0, ""⟩).sections
  inspect_eq _ _ file text := by
    rw [filter_reporting_all]
    rfl

def schemaLines : LineCheck where
  scan := schemaScan
  pattern := Placement.schemaBuilder
  reports line := !Placement.schemaType.occursIn line
  message matched := s!"constructs a Zod schema ({matched}) outside of schemas/ directory."
  advice := (Placement.straySchema "" ⟨0, ""⟩).sections
  inspect_eq _ _ file text := by
    have same : ∀ hit : Hit, (!Placement.namesSchemaType text hit.line) =
        (Text.lines text)[hit.line - 1]?.all fun line => !Placement.schemaType.occursIn line := by
      intro hit
      rw [Placement.namesSchemaType]
      cases (Text.lines text)[hit.line - 1]? <;> rfl
    simp only [← same]
    rfl

theorem find_skippedTests (repo : Repository) : skippedTests.find repo = .ok (repo.inspectFiles
    (repo.files.testFiles repo.layout.root) fun file text => (codeHits Tests.skippedTest text).map (Tests.skipped file)) :=
  rfl

theorem find_focusedTests (repo : Repository) : focusedTests.find repo = .ok (repo.inspectFiles
    (repo.files.testFiles repo.layout.root) fun file text => (codeHits Tests.focusedTest text).map (Tests.focused file)) :=
  rfl

def skippedLines : LineCheck where
  scan := testScan skippedTests _ find_skippedTests
  pattern := Tests.skippedTest
  reports _ := true
  message matched := s!"has a skipped test ({matched})."
  advice := (Tests.skipped "" ⟨0, ""⟩).sections
  inspect_eq _ _ file text := by
    rw [filter_reporting_all]
    rfl

def focusedLines : LineCheck where
  scan := testScan focusedTests _ find_focusedTests
  pattern := Tests.focusedTest
  reports _ := true
  message matched := s!"has a focused test ({matched})."
  advice := (Tests.focused "" ⟨0, ""⟩).sections
  inspect_eq _ _ file text := by
    rw [filter_reporting_all]
    rfl

def lineChecks : List LineCheck :=
  [consoleLines, networkLines, schemaLines, skippedLines, focusedLines]

end Checks

section Overwritten

open FileSystem

variable {files : FileSystem} {place : List String} {content : ByteArray} {text : String}
  {gaps : Nat → List (List Char)}

def withLinesAt (files : FileSystem) (place : List String) (text : String) (gaps : Nat → List (List Char)) : FileSystem :=
  files.overwrite place (String.ofList (Text.withLines gaps text.toList)).toUTF8

def gapsAt (files : FileSystem) (place : List String) (gaps : Nat → List (List Char)) (p : Path) (n : Nat) :
    List (List Char) :=
  if files.resolve? p = some place then (gaps n).map Text.dropReturn else []

theorem of_mem_gapsAt {p : Path} {n : Nat} {line : List Char} (member : line ∈ gapsAt files place gaps p n) :
    ∃ raw ∈ gaps n, Text.dropReturn raw = line := by
  rw [gapsAt] at member
  split at member
  · exact List.mem_map.mp member
  · cases member

/-- Lines that are put into the text of one file stand between its lines. -/
theorem lines_withLinesAt (held : files.root.at? place = some (.file content))
    (decoded : String.fromUTF8? content = some text) (free : ∀ n, ∀ line ∈ gaps n, '\n' ∉ line)
    (ends : EndsLine text.toList.getLast? ∨ gaps ((Text.lines text.toList).length + 1) = []) (p : Path) :
    ((withLinesAt files place text gaps).read p).map Text.lines =
      (files.read p).map fun text => withGaps (gapsAt files place gaps p) 1 (Text.lines text) := by
  have alike := alikeOutside_overwrite files place (String.ofList (Text.withLines gaps text.toList)).toUTF8
  by_cases resolved : files.resolve? p = some place
  · have read := read_overwrite_at held decoded (Text.withLines gaps text.toList) resolved
    have own : gapsAt files place gaps p = fun n => (gaps n).map Text.dropReturn := by
      funext n
      rw [gapsAt, if_pos resolved]
    rw [read.1, withLinesAt, read.2, own]
    exact congrArg Except.ok (Text.lines_withLines free ends)
  · have none : ∀ n, gapsAt files place gaps p n = [] := fun n => if_neg resolved
    rw [withLinesAt, ← alike.read_eq fun q leads same => resolved (same ▸ leads)]
    cases files.read p with
    | ok text => exact congrArg Except.ok (withGaps_nil (fun n _ => none n) _).symm
    | error cause => rfl

theorem commented_withLinesAt (held : files.root.at? place = some (.file content))
    (decoded : String.fromUTF8? content = some text)
    (comments : ∀ n, ∀ line ∈ gaps n, '\n' ∉ line ∧ Source.isCommentLine line = true)
    (ends : EndsLine text.toList.getLast? ∨ gaps ((Text.lines text.toList).length + 1) = []) (paths : List Path) :
    Commented paths (gapsAt files place gaps) files (withLinesAt files place text gaps) where
  shape := (alikeOutside_overwrite files place _).shape
  comments p _ n line member := by
    obtain ⟨raw, put, rfl⟩ := of_mem_gapsAt member
    exact Source.isCommentLine_dropReturn (comments n raw put).2
  texts p _ := lines_withLinesAt held decoded (fun n line put => (comments n line put).1) ends p

end Overwritten

/-- Comment lines that are put in between the lines of the files that such a check reads lower what it finds, each
finding by the lines above it, and change nothing else. No finding is a comment, and no line is found twice. -/
theorem find_commented : lineChecks.map (·.scan.check) =
      [consoleUse, networkAccess, schemasInPlace, skippedTests, focusedTests] ∧
    ∀ check ∈ lineChecks, ∀ (files other : FileSystem) (root : Path) (gaps : Path → Nat → List (List Char)),
      files.root.WellFormed → Commented (check.scan.paths ⟨files, .ofRoot root⟩) gaps files other →
      check.scan.check.find ⟨files, .ofRoot root⟩ =
        .ok ((check.findings ⟨files, .ofRoot root⟩).map (check.shown (.ofRoot root))) ∧
      check.scan.check.find ⟨other, .ofRoot root⟩ =
        .ok (((check.findings ⟨files, .ofRoot root⟩).map (LineCheck.lowered gaps)).map (check.shown (.ofRoot root))) ∧
      (∀ p hit, (p, .ok hit) ∈ check.findings ⟨files, .ofRoot root⟩ → ∃ text line, files.read p = .ok text ∧
        (hit.line, line) ∈ Text.numberedLines text ∧ Source.isCommentLine line = false) ∧
      ((check.findings ⟨files, .ofRoot root⟩).filterMap (LineCheck.site? files)).Nodup := by
  refine ⟨rfl, fun check _ files other root gaps wellFormed commented => ⟨check.find_eq _, ?_, ?_, ?_⟩⟩
  · rw [check.find_eq, check.findings_commented commented]
  · intro p hit member
    obtain ⟨q, _, own⟩ := List.mem_flatMap.mp member
    obtain ⟨rfl, readable⟩ := check.of_mem_findingsAt own
    obtain ⟨text, read, found⟩ := readable hit rfl
    obtain ⟨line, listed, code, _⟩ := check.code_of_mem_hits found
    exact ⟨text, line, read, listed, code⟩
  · exact check.nodup_sites wellFormed root

def chattySource : String :=
  "console.log(1)\nconst b = 2;\nconsole.log(b)\n"

def chattyFiles : FileSystem :=
  ⟨.dir [("repo", .dir [("packages", .dir [("functions", .dir [("src", .dir [("a.ts",
    .file chattySource.toUTF8)])])])])], []⟩

def chattyPlace : List String :=
  ["repo", "packages", "functions", "src", "a.ts"]

/-- Comments in front of the first line and of the third, each with a call that prints. -/
def chattyComments : Nat → List (List Char)
  | 1 => ["// console.log(0)".toList]
  | 3 => ["  /* console.log(1)".toList, " * console.log(2) */\r".toList]
  | _ => []

theorem chatty_commented :
    let repo : Repository := ⟨chattyFiles, .ofRoot "/repo"⟩
    let gaps := gapsAt chattyFiles chattyPlace chattyComments
    (consoleLines.findings repo).filterMap (LineCheck.site? chattyFiles) = [(chattyPlace, 1), (chattyPlace, 3)] ∧
    ((consoleLines.findings repo).map (LineCheck.lowered gaps)).filterMap (LineCheck.site? chattyFiles) =
      [(chattyPlace, 2), (chattyPlace, 6)] ∧
    consoleUse.find repo = .ok ((consoleLines.findings repo).map (consoleLines.shown repo.layout)) ∧
    consoleUse.find ⟨withLinesAt chattyFiles chattyPlace chattySource chattyComments, .ofRoot "/repo"⟩ =
      .ok (((consoleLines.findings repo).map (LineCheck.lowered gaps)).map (consoleLines.shown repo.layout)) := by
  have wellFormed : chattyFiles.root.WellFormed := by decide
  have held : chattyFiles.root.at? chattyPlace = some (.file chattySource.toUTF8) := rfl
  have comments : ∀ n, ∀ line ∈ chattyComments n, '\n' ∉ line ∧ Source.isCommentLine line = true := by
    intro n
    unfold chattyComments
    split <;> decide
  have decoded := FileSystem.fromUTF8?_toUTF8 chattySource
  have found := find_commented.2 consoleLines (by simp [lineChecks]) chattyFiles _ "/repo" _ wellFormed
    (commented_withLinesAt held decoded comments (.inl (by decide +kernel)) _)
  rw [← and_assoc]
  exact ⟨by decide +kernel, found.1, found.2.1⟩

end Check

end Conformance
