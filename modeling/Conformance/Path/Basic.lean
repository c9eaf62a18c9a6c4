import Conformance.Text.Pieces

namespace Conformance

structure Path where
  raw : String
deriving DecidableEq

inductive Component where
  | root
  | here
  | up
  | name (text : String)
deriving DecidableEq

namespace Component

def text : Component → String
  | root => "/"
  | here => "."
  | up => ".."
  | name text => text

def ofSegment? (segment : String) : Option Component :=
  if segment = "" || segment = "." then none
  else if segment = ".." then some up
  else some (name segment)

def rank : Component → Nat
  | root => 0
  | here => 1
  | up => 2
  | name _ => 3

def order : Component → Component → Ordering
  | name a, name b => compare a b
  | a, b => compare a.rank b.rank

def listOrder : List Component → List Component → Ordering
  | [], [] => .eq
  | [], _ :: _ => .lt
  | _ :: _, [] => .gt
  | a :: as, b :: bs => (order a b).then (listOrder as bs)

end Component

namespace Path

instance : ToString Path := ⟨raw⟩

def isAbsolute (p : Path) : Bool :=
  Text.startsWith p.raw.toList "/"

def segments (p : Path) : List String :=
  (Text.split (· == '/') p.raw.toList).map String.ofList

def components (p : Path) : List Component :=
  match p.segments with
  | [] => []
  | first :: rest =>
    let lead :=
      if first = "." then [.here]
      else if p.isAbsolute then [.root]
      else (Component.ofSegment? first).toList
    lead ++ rest.filterMap Component.ofSegment?

def join (base p : Path) : Path :=
  if p.isAbsolute || base.raw = "" then p
  else if Text.endsWith base.raw.toList "/" then ⟨base.raw ++ p.raw⟩
  else ⟨base.raw ++ "/" ++ p.raw⟩

instance : Div Path := ⟨join⟩

instance : Coe String Path := ⟨Path.mk⟩

def isVoid (segment : String) : Bool :=
  segment = "" || segment = "."

def dropVoid : List String → List String
  | [] => []
  | first :: rest => first :: (rest.reverse.dropWhile isVoid).reverse

def parent? (p : Path) : Option Path :=
  match p.components.getLast? with
  | none | some .root => none
  | some _ =>
    match dropVoid (dropVoid p.segments).dropLast with
    | [] => some ""
    | [first] => if p.isAbsolute then some "/" else some first
    | kept => some ⟨"/".intercalate kept⟩

def ancestorsUpTo : Nat → Path → List Path
  | 0, p => [p]
  | limit + 1, p =>
    p :: match p.parent? with
      | none => []
      | some above => ancestorsUpTo limit above

def ancestors (p : Path) : List Path :=
  ancestorsUpTo p.segments.length p

def fileName? (p : Path) : Option String :=
  match p.components.getLast? with
  | some (.name text) => some text
  | _ => none

def fileStem? (p : Path) : Option String :=
  p.fileName?.map fun name =>
    let tail := Text.afterLast (· == '.') name.toList
    match Text.beforeTail? ('.' :: tail) name.toList with
    | none | some [] => name
    | some stem => String.ofList stem

def isBelow (p base : Path) : Bool :=
  (Text.afterLead? base.components p.components).isSome

def written (components : List Component) : String :=
  "/".intercalate (components.map Component.text)

/-- The path as seen from `base`, or the whole path if it is not below, with one slash between
components. -/
def relativeTo (p base : Path) : String :=
  written ((Text.afterLead? base.components p.components).getD p.components)

def le (a b : Path) : Bool :=
  Component.listOrder a.components b.components != .gt

/-- One component taken into a list of components, the last first: a dot changes nothing, and two
dots take back the last name, if there is one. -/
def takeIn (kept : List Component) : Component → List Component
  | .here => kept
  | .up =>
    match kept with
    | .name _ :: rest => rest
    | kept => kept
  | .root => [.root]
  | .name text => .name text :: kept

def resolved (components : List Component) : List Component :=
  (components.foldl takeIn []).reverse

def ofComponents (components : List Component) : Path :=
  components.foldl (fun p c => p / ⟨c.text⟩) ""

def normalize (p : Path) : Path :=
  ofComponents (resolved p.components)

end Path

end Conformance
