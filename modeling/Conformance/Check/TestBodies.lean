import Conformance.Check.Basic

namespace Conformance

namespace Check.TestBodies

def opening : Pattern :=
  .chain [.wordBorder, .anyOf "it" ["test"], .blanks, .text "("]

def emptyOnLine : Pattern :=
  .chain [opening, .most (· != ')'), .text ",", .blanks,
    .optional (.seq (.text "async") .blanks), .text "(", .most (· != ')'), .text ")", .blanks,
    .text "=>", .blanks, .text "\x7b", .blanks, .text "\x7d", .blanks, .text ")"]

def bodyOpens : Pattern :=
  .chain [.text "=>", .blanks, .text "\x7b", .blanks, .textEnd]

def bodyCloses : Pattern :=
  .chain [.textStart, .blanks, .text "\x7d", .blanks, .text ")", .blanks, .optional (.text ";"),
    .blanks, .textEnd]

def assertion : Pattern :=
  .either (.chain [.wordBorder, .text "expect", .blanks, .text "("])
    (.chain [.wordBorder, .text "assert", .optional (.seq (.text ".") (.mostOne Text.isWord)),
      .blanks, .text "("])

/-- A test with an empty body: the number of its line, and whether the body goes over lines. -/
structure EmptyBody where
  line : Nat
  overLines : Bool
deriving DecidableEq

def closesAtOnce (following : List (List Char)) : Bool :=
  (following.find? fun line => !(Text.trim line).isEmpty).any bodyCloses.occursIn

def emptyBody? (number : Nat) (line : List Char) (following : List (List Char)) :
    Option EmptyBody :=
  if Source.isCommentLine line || !opening.occursIn line then none
  else if emptyOnLine.occursIn line then some ⟨number, false⟩
  else if bodyOpens.occursIn line && closesAtOnce following then some ⟨number, true⟩
  else none

def emptyBodies (number : Nat) : List (List Char) → List EmptyBody
  | [] => []
  | line :: following =>
    (emptyBody? number line following).toList ++ emptyBodies (number + 1) following

def countOnCode (pattern : Pattern) (lines : List (List Char)) : Nat :=
  total ((lines.filter (!Source.isCommentLine ·)).map pattern.count)

def tooFew (tests assertions : Nat) : Bool :=
  tests > 0 && 10 * assertions < tests

def emptyViolation (file : String) (body : EmptyBody) : Violation :=
  let kind := if body.overLines then "an empty test body (multi-line)" else "an empty test body"
  (Violation.at_ s!"{file}:{body.line}" s!"has {kind}."
  ).rule "Every test case must contain at least one expect() assertion."
  |>.fixLines
    ["Add assertions that verify the behavior under test, e.g.:",
      "expect(result).toBe(expectedValue);"]
  |>.see "docs/conventions/testing.md"

def fewViolation (file : String) (tests assertions : Nat) : Violation :=
  (Violation.at_ file s!"has {tests} test case(s) but only {assertions} assertion(s)."
  ).rule "Test files need at least 0.1 assertions per test case; assertion-free tests always pass."
  |>.fixLines
    ["Add expect() assertions to each test case. Example:", "expect(result.success).toBe(true);",
      "expect(body.data).toHaveLength(2);"]
  |>.see "docs/conventions/testing.md"

def inspect (file : String) (text : List Char) : List Violation :=
  let lines := Text.lines text
  let tests := countOnCode opening lines
  let assertions := countOnCode assertion lines
  (emptyBodies 1 lines).map (emptyViolation file) ++
    if tooFew tests assertions then [fewViolation file tests assertions] else []

end Check.TestBodies

def Check.testBodies : Check where
  id := "test-quality"
  name := "Test quality (no empty/assertion-free tests)"
  find repo := .ok (repo.inspectFiles (repo.files.testFiles repo.layout.root) TestBodies.inspect)

end Conformance
