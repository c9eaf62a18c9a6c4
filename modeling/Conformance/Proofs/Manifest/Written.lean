import Conformance.Endpoint.Manifest

namespace Conformance.Endpoint.Manifest

def isAsciiBlank (c : Char) : Bool :=
  c == ' ' || (0x9 ≤ c.toNat && c.toNat ≤ 0xD)

inductive Filler where
  | blank (c : Char) (isBlank : isAsciiBlank c = true)
  | line (body : List Char) (open_ : '\n' ∉ body)
  | block (body : List Char) (open_ : ¬ ['*', '/'] <:+: body)

namespace Filler

def text : Filler → List Char
  | blank c _ => [c]
  | line body _ => '/' :: '/' :: (body ++ ['\n'])
  | block body _ => '/' :: '*' :: (body ++ ['*', '/'])

def plain : Filler → Filler
  | blank c isBlank => blank c isBlank
  | line _ _ => blank '\n' (by decide)
  | block _ _ => blank ' ' (by decide)

end Filler

abbrev Gap := List Filler

namespace Gap

def text (g : Gap) : List Char :=
  g.flatMap Filler.text

def plain (g : Gap) : Gap :=
  g.map Filler.plain

end Gap

inductive Mark where
  | single
  | double
  | back

def Mark.char : Mark → Char
  | single => '\''
  | double => '"'
  | back => '`'

def escape (mark : Char) : List Char → List Char
  | [] => []
  | c :: rest => if c = mark ∨ c = '\\' then '\\' :: c :: escape mark rest else c :: escape mark rest

def Value.written (mark : Mark) : Value → List Char
  | .text chars => mark.char :: (escape mark.char chars ++ [mark.char])
  | .flag true => "true".toList
  | .flag false => "false".toList

structure Property where
  key : List Char
  value : Value
  mark : Mark := .single
  beforeColon : Gap := []
  beforeValue : Gap := []

namespace Property

def text (p : Property) : List Char :=
  p.key ++ (p.beforeColon.text ++ ':' :: (p.beforeValue.text ++ p.value.written p.mark))

def plain (p : Property) : Property :=
  { p with beforeColon := p.beforeColon.plain, beforeValue := p.beforeValue.plain }

def field (p : Property) : List Char × Value :=
  (p.key, p.value)

end Property

/-- What stands behind an item of a list: the end, a comma and the end, or a comma and more items. -/
inductive Tail (α : Type) where
  | done (after : Gap)
  | comma (after last : Gap)
  | next (after before : Gap) (item : α) (tail : Tail α)

inductive Inside (α : Type) where
  | empty (gap : Gap)
  | items (before : Gap) (item : α) (tail : Tail α)

namespace Tail

variable {α : Type}

def items : Tail α → List α
  | done _ => []
  | comma _ _ => []
  | next _ _ item tail => item :: tail.items

def text (write : α → List Char) : Tail α → List Char
  | done after => after.text
  | comma after last => after.text ++ ',' :: last.text
  | next after before item tail => after.text ++ ',' :: (before.text ++ (write item ++ tail.text write))

def plain (change : α → α) : Tail α → Tail α
  | done after => done after.plain
  | comma after last => comma after.plain last.plain
  | next after before item tail => next after.plain before.plain (change item) (tail.plain change)

end Tail

namespace Inside

variable {α : Type}

def list : Inside α → List α
  | empty _ => []
  | items _ item tail => item :: tail.items

def text (write : α → List Char) : Inside α → List Char
  | empty gap => gap.text
  | items before item tail => before.text ++ (write item ++ tail.text write)

def plain (change : α → α) : Inside α → Inside α
  | empty gap => empty gap.plain
  | items before item tail => items before.plain (change item) (tail.plain change)

end Inside

abbrev Object := Inside Property

def Object.written (o : Object) : List Char :=
  '\x7b' :: (o.text Property.text ++ ['\x7d'])

abbrev ArrayLiteral := Inside Object

def ArrayLiteral.written (a : ArrayLiteral) : List Char :=
  '[' :: (a.text Object.written ++ [']'])

def present (slots : List (String × Option Value)) : List (List Char × Value) :=
  slots.filterMap fun (key, value) => value.map fun v => (key.toList, v)

structure Record where
  routePath : Option String := none
  handlerFile : Option String := none
  functionStem : Option String := none
  customSource : Option String := none
  options : Option String := none
  devOnly : Option Bool := none

namespace Record

def slots (r : Record) : List (String × Option Value) :=
  let text (value : Option String) := value.map fun s => Value.text s.toList
  [("routePath", text r.routePath), ("handlerFile", text r.handlerFile), ("functionStem", text r.functionStem),
    ("customSource", text r.customSource), ("options", text r.options), ("devOnly", r.devOnly.map Value.flag)]

def fields (r : Record) : List (List Char × Value) :=
  present r.slots

/-- The endpoint that the record stands for: an absent route or handler is empty, and an empty stem or
custom source is absent. -/
def entry (r : Record) : Entry where
  route := String.ofList (normalRoute (r.routePath.getD "").toList)
  handler := String.ofList (normalHandler (r.handlerFile.getD "").toList)
  stem := r.functionStem.filter (· ≠ "")
  devOnly := r.devOnly = some true
  customSource := r.customSource.filter (· ≠ "")
  options := r.options

end Record

def Object.Writes (o : Object) (r : Record) : Prop :=
  (o.list.map Property.field).Perm r.fields

def written (gap : Gap) (array : ArrayLiteral) (rest : List Char) : List Char :=
  "export const ENDPOINT_MANIFEST =".toList ++ (gap.text ++ (array.written ++ rest))

end Conformance.Endpoint.Manifest
