/-!
The lexical structure of a source text as far as a search for brackets needs it: which characters are
code, which belong to string literals and which to comments.

A literal begins with one of the three quotation marks and ends with the same mark; a backslash in it
takes the next character along. A comment is `//` up to the end of the line, or `/*` up to `*/`.
-/

namespace Conformance.Endpoint

inductive Role where
  | code
  /-- In a string literal, its quotation marks included. -/
  | literal
  /-- In a comment, but not its end. -/
  | comment
  /-- The line feed that ends a line comment. -/
  | lineEnd
  /-- The slash that ends a block comment. -/
  | blockEnd
deriving DecidableEq

inductive Mode where
  | code
  | quoted (mark : Char)
  | lineComment
  | blockComment
deriving DecidableEq

def isQuote (c : Char) : Bool :=
  c == '\'' || c == '"' || c == '`'

def roles : Mode → List Char → List (Role × Char)
  | _, [] => []
  | .code, '/' :: '/' :: s => (.comment, '/') :: (.comment, '/') :: roles .lineComment s
  | .code, '/' :: '*' :: s => (.comment, '/') :: (.comment, '*') :: roles .blockComment s
  | .code, c :: s =>
    if isQuote c then (.literal, c) :: roles (.quoted c) s else (.code, c) :: roles .code s
  | .quoted mark, '\\' :: c :: s => (.literal, '\\') :: (.literal, c) :: roles (.quoted mark) s
  | .quoted mark, c :: s => (.literal, c) :: roles (if c = mark then .code else .quoted mark) s
  | .lineComment, c :: s =>
    if c = '\n' then (.lineEnd, c) :: roles .code s else (.comment, c) :: roles .lineComment s
  | .blockComment, '*' :: '/' :: s => (.comment, '*') :: (.blockEnd, '/') :: roles .code s
  | .blockComment, c :: s => (.comment, c) :: roles .blockComment s

def placed (offset : Nat) : List (Role × Char) → List (Nat × Role × Char)
  | [] => []
  | (role, c) :: rest => (offset, role, c) :: placed (offset + c.utf8Size) rest

def codeFrom (offset : Nat) (s : List Char) : List (Nat × Char) :=
  (placed offset (roles .code s)).filterMap fun (at_, role, c) =>
    if role = .code then some (at_, c) else none

/-- What is left of a character when comments are taken out: a block comment leaves a space and a
line comment its line feed. -/
def kept : Role × Char → Option Char
  | (.code, c) => some c
  | (.literal, c) => some c
  | (.comment, _) => none
  | (.lineEnd, c) => some c
  | (.blockEnd, _) => some ' '

def withoutComments (s : List Char) : List Char :=
  (roles .code s).filterMap kept

theorem mem_code_iff {marked : List (Nat × Role × Char)} {at_ : Nat} {c : Char} :
    (at_, c) ∈ marked.filterMap (fun (at_, role, c) => if role = .code then some (at_, c) else none) ↔
      (at_, .code, c) ∈ marked := by
  simp only [List.mem_filterMap]
  constructor
  · rintro ⟨⟨at', role, c'⟩, member, stands⟩
    obtain ⟨rfl, same⟩ := Option.ite_none_right_eq_some.mp stands
    cases same
    exact member
  · exact fun member => ⟨_, member, rfl⟩

theorem map_snd_roles (mode : Mode) (s : List Char) : (roles mode s).map Prod.snd = s := by
  fun_induction roles mode s <;> simp_all

end Conformance.Endpoint
