import Conformance.Cli.Run
import Conformance.FileSystem.Mount
import Std.Time.Zoned

namespace Conformance.Main

def unread : List String :=
  [".git", "node_modules"]

partial def entries (contents : Bool) (dir : String) : IO (List (String × Node)) := do
  let here ← IO.currentDir
  let mut found := []
  for item in ← (here / dir).readDir do
    let name := item.fileName
    let path := item.path.toString
    let node? : Option Node ←
      try
        match (← item.path.symlinkMetadata).type with
        | .dir => pure (some (.dir (← entries (contents && !unread.contains name) path)))
        | .file =>
          pure (some (.file (← if contents then IO.FS.readBinFile path else pure .empty)))
        | .symlink => pure (some (.link (← IO.FS.realPath path).toString))
        | .other => pure none
      catch _ => pure none
    if let some node := node? then
      found := Node.putEntry name node found
  pure found

def nearestRoot? (place : List String) : IO (Option (List String)) := do
  let here ← IO.currentDir
  for n in List.range (place.length + 1) do
    let dir := place.take (place.length - n)
    if ← (here / ("/" ++ "/".intercalate dir) / ".git").pathExists then
      return some dir
  return none

def target? (workingDir : List String) (settings : Cli.Settings) :
    IO (Option (Option Path × List String)) := do
  match settings.rootDir with
  | none => return (← nearestRoot? workingDir).map fun dir => (none, dir)
  | some written =>
    let here ← IO.currentDir
    let dir := here / written
    if ← dir.isDir then
      let real ← IO.FS.realPath dir
      return some (some written, FileSystem.place real.toString)
    else return none

def load (settings : Cli.Settings) : IO FileSystem := do
  let real ← IO.FS.realPath (← IO.currentDir)
  let workingDir := FileSystem.place real.toString
  let bare := (FileSystem.mount? workingDir workingDir []).getD FileSystem.empty
  match ← target? workingDir settings with
  | none => return bare
  | some (written, dir) =>
    let inside ← entries true ("/" ++ "/".intercalate dir)
    let mounted := (FileSystem.mount? workingDir dir inside).getD bare
    return match written with
      | some path => (mounted.reachable? path dir).getD mounted
      | none => mounted

def today : IO Date := do
  let date ← Std.Time.PlainDate.now
  return ⟨date.year.toInt, date.month.val.toNat, date.day.val.toNat⟩

def capable : IO Bool := do
  return (← (← IO.getStdout).isTty) && (← IO.getEnv "NO_COLOR").isNone

end Conformance.Main

def main (arguments : List String) : IO UInt32 := do
  let files ← match Conformance.Cli.Settings.ofArguments arguments with
    | .ok settings => Conformance.Main.load settings
    | .error _ => pure Conformance.FileSystem.empty
  let outcome :=
    Conformance.Cli.run files (← Conformance.Main.today) (← Conformance.Main.capable) arguments
  IO.print outcome.stdout
  IO.eprint outcome.stderr
  return outcome.exitCode.toUInt32
