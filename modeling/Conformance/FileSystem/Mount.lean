import Conformance.FileSystem.Edit
import Conformance.Path.Basic

namespace Conformance.FileSystem

def place (p : Path) : List String :=
  (namesOf? ⟨String.ofList (p.raw.toList.dropWhile (· == '/'))⟩).getD []

def empty : FileSystem :=
  ⟨.dir [], []⟩

def mount? (workingDir dir : List String) (entries : List (String × Node)) : Option FileSystem := do
  let fs ← (empty.makeDirs (pathTo workingDir)).files?
  let fs ← (fs.makeDirs (pathTo dir)).files?
  let fs ← (fs.changeAt dir fun _ => entries).files?
  pure { fs with workingDir }

/-- The file system in which a path as it was written leads to the directory at `dir`: by a link,
unless it leads there already. -/
def reachable? (fs : FileSystem) (written : Path) (dir : List String) : Option FileSystem :=
  if fs.resolve? written = some dir then some fs
  else (fs.makeLink (pathTo fs.workingDir / written).normalize (pathTo dir).raw).files?

end Conformance.FileSystem
