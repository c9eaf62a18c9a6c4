import Conformance.Proofs.Endpoint.MountedRoute
import Conformance.Proofs.Endpoint.Names

namespace Conformance.Endpoint

open Pattern

inductive Line where
  | importing (e : Entry)
  | exporting (name : String) (value : List Char)

namespace Line

def piece : Line → Piece
  | importing e => .importing e
  | exporting name _ => .exporting name

def handlerPath (e : Entry) : String :=
  s!"./handlers/{e.handler}.js"

def words : Line → List (List Char)
  | importing e => ["import".toList, "\x7b".toList, e.appName.toList, "\x7d".toList, "from".toList,
      '\'' :: ((handlerPath e).toList ++ "';".toList)]
  | exporting name value => ["export".toList, "const".toList, name.toList, "=".toList, value]

def body (line : Line) : List Char :=
  Text.join [' '] line.words

end Line

def entryPoint (lines : List Line) : List Char :=
  lines.flatMap fun line => line.body ++ ['\n']

def Quiet (value : List Char) : Prop :=
  '\n' ∉ value ∧ ∀ word ∈ ["import", "export"], ∀ v u, value = v ++ (word.toList ++ u) →
    ∃ c rest, u = c :: rest ∧ Text.isBlank c = false ∧ c ≠ '\x7b'

inductive Line.Proper : Line → Prop
  | importing {e : Entry} (regular : e.Regular) : Proper (.importing e)
  | exporting {e : Entry} {name : String} {value : List Char} (regular : e.Regular) (listed : name ∈ e.functionNames)
      (quiet : Quiet value) : Proper (.exporting name value)

/-- What stands behind one of the words inside a line: a solid character that opens no list, or an equals
sign. -/
def Continues (u : List Char) : Prop :=
  (∃ c rest, u = c :: rest ∧ Text.isBlank c = false ∧ c ≠ '\x7b') ∨ ∃ rest, u = ' ' :: '=' :: rest

theorem Continues.append {u : List Char} (continues : Continues u) (more : List Char) : Continues (u ++ more) := by
  rcases continues with ⟨c, rest, rfl, solid, other⟩ | ⟨rest, rfl⟩
  · exact Or.inl ⟨c, rest ++ more, rfl, solid, other⟩
  · exact Or.inr ⟨rest ++ more, rfl⟩

section Occurrences

variable {w v u : List Char}

def Keyword (w : List Char) : Prop :=
  w = "import".toList ∨ w = "export".toList

theorem Keyword.facts (keyword : Keyword w) : w ≠ [] ∧ ' ' ∉ w ∧ '\n' ∉ w ∧ w.length = 6 ∧ w.getLast? = some 't' := by
  rcases keyword with rfl | rfl <;> decide

theorem entryPoint_cons (line : Line) (lines : List Line) :
    entryPoint (line :: lines) = line.body ++ '\n' :: entryPoint lines := by
  simp [entryPoint]

theorem entryPoint_append (before after : List Line) :
    entryPoint (before ++ after) = entryPoint before ++ entryPoint after :=
  List.flatMap_append

end Occurrences

end Conformance.Endpoint
