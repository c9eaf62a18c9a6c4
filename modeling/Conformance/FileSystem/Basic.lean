import Conformance.FileSystem.Trail
import Conformance.Path.Basic

/-!
A file system and how paths are resolved in it.

A path is resolved segment by segment from the root or the working directory: a name must be an entry
of the directory reached, two dots lead to the directory above the real place, and a symbolic link is
replaced by its target, at most 40 times. An empty segment asks for a directory, so a slash after the
name of a file leads nowhere. A path of 4096 bytes or more leads nowhere either.
-/

namespace Conformance

/-- A tree of directories and the place in it from which relative paths start. A place is the list
of the names that lead to it from the root, none of them a link. -/
structure FileSystem where
  root : Node
  workingDir : List String

inductive ReadError where
  | notFound
  | isDirectory
  | notUtf8
  | tooLong
deriving DecidableEq

def ReadError.message : ReadError → String
  | notFound => "No such file or directory (os error 2)"
  | isDirectory => "Is a directory (os error 21)"
  | notUtf8 => "stream did not contain valid UTF-8"
  | tooLong => "File name too long (os error 36)"

instance : ToString ReadError := ⟨ReadError.message⟩

namespace FileSystem

def pathTo (place : List String) : Path :=
  ⟨"/" ++ "/".intercalate place⟩

/-- How far segments lead before a symbolic link: to a node, to a name that its directory does not
have, nowhere, or to a link, whose target then stands in front of the segments that are left. -/
inductive Step where
  | arrived (trail : Trail)
  | vacant (trail : Trail) (name : String)
  | missing
  | redirected (trail : Trail) (segments : List String)

def advance (t : Trail) : List String → Step
  | [] => .arrived t
  | segment :: rest =>
    match t.node with
    | .dir entries =>
      if segment = "" || segment = "." then advance t rest
      else if segment = ".." then advance t.up rest
      else
        match entries.lookup segment with
        | none => if rest.isEmpty then .vacant t segment else .missing
        | some (.link target) =>
          let from_ := if (Path.mk target).isAbsolute then t.start else t
          .redirected from_ ((Path.mk target).segments ++ rest)
        | some node => advance (t.enter segment node) rest
    | _ => .missing

inductive Reached where
  | found (trail : Trail)
  | vacant (trail : Trail) (name : String)
  | nowhere

def follow : Nat → Trail → List String → Reached
  | links, t, segments =>
    match advance t segments with
    | .arrived reached => .found reached
    | .vacant reached name => .vacant reached name
    | .missing => .nowhere
    | .redirected next more =>
      match links with
      | 0 => .nowhere
      | links + 1 => follow links next more

def linkLimit : Nat := 40

def pathLimit : Nat := 4096

def fits (p : Path) : Bool :=
  p.raw.utf8ByteSize < pathLimit

def origin (fs : FileSystem) (p : Path) : List String :=
  if p.isAbsolute then [] else fs.workingDir

def reachAlong (fs : FileSystem) (p : Path) (segments : List String) : Reached :=
  if p.raw ≠ "" && fits p then follow linkLimit ⟨fs.root, []⟩ (fs.origin p ++ segments) else .nowhere

def reach (fs : FileSystem) (p : Path) : Reached :=
  fs.reachAlong p p.segments

def resolve? (fs : FileSystem) (p : Path) : Option (List String) :=
  match fs.reach p with
  | .found t => some t.place
  | _ => none

def node? (fs : FileSystem) (p : Path) : Option Node :=
  match fs.reach p with
  | .found t => some t.node
  | _ => none

theorem isSound_of_advance {t reached : Trail} {segments : List String} (h : t.IsSound)
    (arrived : advance t segments = .arrived reached) : reached.IsSound ∧ reached.root = t.root := by
  induction segments generalizing t with
  | nil => cases arrived; exact ⟨h, rfl⟩
  | cons segment rest ih =>
    unfold advance at arrived
    split at arrived
    · rename_i entries isDir
      split at arrived
      · exact ih h arrived
      · split at arrived
        · have above := ih h.up arrived
          exact above
        · split at arrived
          · split at arrived <;> cases arrived
          · cases arrived
          · rename_i node _ entered
            have child : t.node.child? segment = some node := by rw [isDir]; exact entered
            have below := ih (h.enter child) arrived
            exact below
    · cases arrived

theorem isSound_of_redirected {t next : Trail} {segments more : List String} (h : t.IsSound)
    (redirected : advance t segments = .redirected next more) :
    next.IsSound ∧ next.root = t.root := by
  induction segments generalizing t with
  | nil => cases redirected
  | cons segment rest ih =>
    unfold advance at redirected
    split at redirected
    · rename_i entries isDir
      split at redirected
      · exact ih h redirected
      · split at redirected
        · have above := ih h.up redirected
          exact above
        · split at redirected
          · split at redirected <;> cases redirected
          · cases redirected
            split
            · exact ⟨h.start, rfl⟩
            · exact ⟨h, rfl⟩
          · rename_i node _ entered
            have child : t.node.child? segment = some node := by rw [isDir]; exact entered
            have below := ih (h.enter child) redirected
            exact below
    · cases redirected

theorem isSound_of_follow {links : Nat} {t reached : Trail} {segments : List String} (h : t.IsSound)
    (found : follow links t segments = .found reached) : reached.IsSound ∧ reached.root = t.root := by
  induction links generalizing t segments with
  | zero =>
    unfold follow at found
    split at found
    · rename_i arrived
      cases found
      exact isSound_of_advance h arrived
    all_goals cases found
  | succ links ih =>
    unfold follow at found
    split at found
    · rename_i arrived
      cases found
      exact isSound_of_advance h arrived
    · cases found
    · cases found
    · rename_i redirected
      have next := isSound_of_redirected h redirected
      have last := ih next.1 found
      exact ⟨last.1, last.2.trans next.2⟩

theorem node?_eq_at?_resolve? (fs : FileSystem) (p : Path) :
    fs.node? p = (fs.resolve? p).bind fs.root.at? := by
  unfold node? resolve?
  split
  · rename_i t found
    unfold reach reachAlong at found
    split at found
    · obtain ⟨sound, same⟩ := isSound_of_follow (Trail.isSound_root fs.root) found
      exact (same ▸ sound.at?_place).symm
    · cases found
  · rfl

/-- The way to the directory that holds the last name of a path, and that name, whether it is there
or not. Slashes behind the name are passed over; a path that ends in dots has no last name. -/
def holder? (fs : FileSystem) (p : Path) : Option (Trail × String) :=
  match p.segments.reverse.dropWhile (· = "") with
  | [] => none
  | last :: above =>
    if last = "." || last = ".." then none
    else
      match fs.reachAlong p above.reverse with
      | .found t => if t.node.isDir then some (t, last) else none
      | _ => none

def asksDirectory (p : Path) : Bool :=
  p.segments.getLast?.any Path.isVoid

def ownNode? (fs : FileSystem) (p : Path) : Option Node :=
  match asksDirectory p, fs.holder? p with
  | false, some (t, name) => t.node.child? name
  | _, _ => fs.node? p

def isLink (fs : FileSystem) (p : Path) : Bool :=
  match fs.ownNode? p with
  | some (.link _) => true
  | _ => false

def pathExists (fs : FileSystem) (p : Path) : Bool :=
  (fs.node? p).isSome

def isFile (fs : FileSystem) (p : Path) : Bool :=
  (fs.node? p).any Node.isFile

def isDir (fs : FileSystem) (p : Path) : Bool :=
  (fs.node? p).any Node.isDir

def read (fs : FileSystem) (p : Path) : Except ReadError (List Char) :=
  match fs.node? p with
  | some (.file content) =>
    match String.fromUTF8? content with
    | some text => .ok text.toList
    | none => .error .notUtf8
  | some (.dir _) => .error .isDirectory
  | _ => .error (if fits p then .notFound else .tooLong)

end FileSystem

end Conformance
