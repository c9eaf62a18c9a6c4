import Conformance.FileSystem.Basic

/-!
Walking a directory: the files and directories below it, each directory's entries in the order of
their names and a directory before what it holds.

Symbolic links below the start are neither followed nor seen; a start that is a link to a directory
is followed. Directories can be left out by name, or because their name begins with a dot; that never
concerns the start.
-/

namespace Conformance

/-- Which directories a walk enters, and whether it goes deeper than the start's own entries. -/
structure WalkRules where
  skipped : List String := []
  skipsHidden : Bool := false
  recursive : Bool := true

namespace WalkRules

def shallow : WalkRules :=
  { recursive := false }

def enters (rules : WalkRules) (name : String) : Bool :=
  !rules.skipped.contains name && !(rules.skipsHidden && Text.startsWith name.toList ".")

end WalkRules

structure Visit where
  path : Path
  name : String
  isDir : Bool

namespace FileSystem

mutual

def visitEntry (rules : WalkRules) (base : Path) (name : String) : Node → List Visit
  | .file _ => [⟨base / name, name, false⟩]
  | .link _ => []
  | .dir entries =>
    if rules.enters name then
      ⟨base / name, name, true⟩ ::
        if rules.recursive then visitEntries rules (base / name) entries else []
    else []

def visitEntries (rules : WalkRules) (base : Path) : List (String × Node) → List Visit
  | [] => []
  | (name, node) :: rest => visitEntry rules base name node ++ visitEntries rules base rest

end

def visitBelow (fs : FileSystem) (rules : WalkRules) (start : Path) : List Visit :=
  match fs.node? start with
  | some (.dir entries) => visitEntries rules start entries
  | _ => []

def visitStart (fs : FileSystem) (start : Path) : List Visit :=
  if fs.isFile start && !fs.isLink start then [⟨start, start.fileName?.getD start.raw, false⟩] else []

def collectFiles (fs : FileSystem) (rules : WalkRules) (accepts : String → Bool) (start : Path) :
    List Path :=
  ((fs.visitStart start ++ fs.visitBelow rules start).filter fun v => !v.isDir && accepts v.name).map
    Visit.path

def collectDirs (fs : FileSystem) (rules : WalkRules) (start : Path) : List Path :=
  ((fs.visitBelow rules start).filter Visit.isDir).map Visit.path

def listFiles (fs : FileSystem) (accepts : String → Bool) (start : Path) : List Path :=
  fs.collectFiles .shallow accepts start

end FileSystem

end Conformance
