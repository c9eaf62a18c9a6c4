import Conformance.FileSystem.Basic

namespace Conformance

structure Change where
  files : FileSystem
  complete : Bool

namespace Change

def made (files : FileSystem) : Change := ⟨files, true⟩

def refused (files : FileSystem) : Change := ⟨files, false⟩

def andThen (c : Change) (next : FileSystem → Change) : Change :=
  if c.complete then next c.files else c

def files? (c : Change) : Option FileSystem :=
  if c.complete then some c.files else none

end Change

inductive Content where
  | dir
  | file (bytes : ByteArray)
  | link (target : String)

namespace FileSystem

def isEntryName (name : String) : Bool :=
  name.utf8ByteSize ≤ 255 && !name.toList.contains '\x00'

def isUsable (p : Path) : Bool :=
  fits p && !p.raw.toList.contains '\x00'

def namesOf? (p : Path) : Option (List String) :=
  let names := p.components.filterMap fun
    | .name text => some text
    | _ => none
  if names.length = p.components.length ∧ names ≠ [] then some names else none

def changeAt (fs : FileSystem) (place : List String)
    (f : List (String × Node) → List (String × Node)) : Change :=
  match fs.root.changeDir? f place with
  | some root => .made { fs with root }
  | none => .refused fs

def putAt (fs : FileSystem) (t : Trail) (name : String) (node : Node) : Change :=
  if isEntryName name then fs.changeAt t.place (Node.putEntry name node) else .refused fs

def makeDir (fs : FileSystem) (p : Path) : Change :=
  match fs.holder? p with
  | some (t, name) =>
    if (t.node.child? name).isSome then ⟨fs, fs.isDir p⟩ else fs.putAt t name (.dir [])
  | none => ⟨fs, fs.isDir p⟩

def makeDirs (fs : FileSystem) (p : Path) : Change :=
  if isUsable p then
    (p.ancestors.reverse.filter (·.raw ≠ "")).foldl (fun c q => c.andThen (·.makeDir q)) (.made fs)
  else .refused fs

def makeParents (fs : FileSystem) (p : Path) : Change :=
  match p.parent? with
  | some above => fs.makeDirs above
  | none => .made fs

def writeFile (fs : FileSystem) (p : Path) (bytes : ByteArray) : Change :=
  (fs.makeParents p).andThen fun fs =>
    match fs.reach p with
    | .found t =>
      match t.passed with
      | (name, .file _) :: _ => fs.putAt t.up name (.file bytes)
      | _ => .refused fs
    | .vacant t name => fs.putAt t name (.file bytes)
    | .nowhere => .refused fs

def makeLink (fs : FileSystem) (p : Path) (target : String) : Change :=
  (fs.makeParents p).andThen fun fs =>
    match fs.holder? p with
    | some (t, name) =>
      if asksDirectory p || (t.node.child? name).isSome || target = "" || !isUsable target then
        .refused fs
      else fs.putAt t name (.link target)
    | none => .refused fs

/-- Puts content at a path. Content that is not understood is refused after the directories above
have been made. -/
def put (fs : FileSystem) (p : Path) : Option Content → Change
  | some .dir => fs.makeDirs p
  | some (.file bytes) => fs.writeFile p bytes
  | some (.link target) => fs.makeLink p target
  | none => (fs.makeParents p).andThen .refused

/-- Takes out all that is in the directory at the end of a path which cannot be taken out itself.
That is a refusal, unless the path no longer leads there. -/
def clear (fs : FileSystem) (p : Path) : Change :=
  match fs.resolve? p with
  | some place =>
    (fs.changeAt place fun _ => []).andThen fun fs => ⟨fs, !fs.pathExists p⟩
  | none => .refused fs

/-- Takes out what is at a path, with all that is below it. A link is taken out itself, but a link
that is asked for as a directory stays, as does a directory that is named by a dot: only what they
hold is taken out. -/
def remove (fs : FileSystem) (p : Path) : Change :=
  match fs.ownNode? p, fs.holder? p with
  | none, _ => .refused fs
  | some _, none => fs.clear p
  | some _, some (t, name) =>
    match t.node.child? name with
    | some (.link _) =>
      if asksDirectory p then fs.clear p else fs.changeAt t.place (Node.dropEntry name)
    | _ => fs.changeAt t.place (Node.dropEntry name)

def mayReplace : Node → Node → Bool
  | .dir _, .dir entries => entries.isEmpty
  | .dir _, _ => false
  | _, .dir _ => false
  | _, _ => true

/-- Whether a node may be moved from one name to another: a directory not below itself, and onto
nothing but what it may replace. -/
def mayMove (node : Node) (source : List String) (target : Trail) (name : String) : Bool :=
  isEntryName name && !(node.isDir && source.isPrefixOf target.place) &&
    (target.node.child? name).all (mayReplace node)

/-- Moves what is at one path to another, whose directories are made. Only a directory can be asked
for as one. -/
def rename (fs : FileSystem) (source target : Path) : Change :=
  if (fs.ownNode? source).isNone then .refused fs
  else
    (fs.makeParents target).andThen fun fs =>
      match fs.holder? source, fs.holder? target with
      | some (s, old), some (t, new) =>
        match s.node.child? old with
        | none => .refused fs
        | some node =>
          if !node.isDir && (asksDirectory source || asksDirectory target) then .refused fs
          else if s.place = t.place ∧ old = new then .made fs
          else if mayMove node (s.place ++ [old]) t new then
            (fs.changeAt s.place (Node.dropEntry old)).andThen fun fs => fs.putAt t new node
          else .refused fs
      | _, _ => .refused fs

end FileSystem

end Conformance
