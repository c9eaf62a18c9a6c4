import Conformance.Pattern.Search
import Conformance.Text.Lines

namespace Conformance.Source

inductive TypeKind where
  | interface
  | typeAlias
deriving DecidableEq

def TypeKind.keyword : TypeKind → String
  | interface => "interface"
  | typeAlias => "type"

structure ExportedType where
  name : String
  line : Nat
  kind : TypeKind
deriving DecidableEq

namespace ExportedType

def interfaceDeclaration : Pattern :=
  .chain [.textStart, .text "export", .someBlanks, .text "interface", .someBlanks,
    .group 1 (.mostOne Text.isWord)]

def aliasDeclaration : Pattern :=
  .chain [.textStart, .text "export", .someBlanks, .text "type", .someBlanks,
    .group 1 (.mostOne Text.isWord), .blanks, .text "="]

def passedOn : Pattern :=
  .chain [.textStart, .text "export", .someBlanks, .optional (.chain [.text "type", .someBlanks]),
    .either (.chain [.text "\x7b", .most (· != '}'), .text "\x7d"]) (.text "*"), .someBlanks,
    .text "from", .someBlanks]

def ofLine? (line : List Char) : Option (String × TypeKind) :=
  if passedOn.occursIn line then none
  else
    let name (p : Pattern) := ((p.find? line).bind (·.group? 1)).map String.ofList
    match name interfaceDeclaration with
    | some found => some (found, .interface)
    | none => (name aliasDeclaration).map (·, .typeAlias)

def ofText (text : List Char) : List ExportedType :=
  (Text.numberedLines text).filterMap fun (number, line) =>
    (ofLine? line).map fun (name, kind) => ⟨name, number, kind⟩

end ExportedType

end Conformance.Source
