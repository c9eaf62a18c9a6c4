import Conformance.Proofs.Layout.Spelling
import Conformance.Text.Offset

namespace Conformance

namespace Path

theorem segments_ofList (letters : List Char) :
    segments ⟨String.ofList letters⟩ = (Text.split (· == '/') letters).map String.ofList := by
  rw [segments, String.toList_ofList]

theorem isAbsolute_ofList (letters : List Char) : isAbsolute ⟨String.ofList letters⟩ = Text.startsWith letters "/" := by
  rw [isAbsolute, String.toList_ofList]

theorem div_ofList (base letters : List Char) : (⟨String.ofList base⟩ / ⟨String.ofList letters⟩ : Path) =
    ⟨String.ofList (if Text.startsWith letters "/" || base.isEmpty then letters
      else if Text.endsWith base "/" then base ++ letters else base ++ ['/'] ++ letters)⟩ := by
  have slash : "/" = String.ofList ['/'] := rfl
  have empty : decide (String.ofList base = "") = base.isEmpty := by cases base <;> simp
  rw [div_eq_join, join, isAbsolute_ofList, String.toList_ofList, empty]
  split
  · rfl
  · split
    · rw [String.ofList_append]
    · rw [String.ofList_append, String.ofList_append, ← slash]

theorem components_ofList (letters : List Char) : components ⟨String.ofList letters⟩ =
    match (Text.split (· == '/') letters).map String.ofList with
    | [] => []
    | first :: rest =>
      (if first = "." then [.here] else if Text.startsWith letters "/" then [.root]
        else (Component.ofSegment? first).toList) ++ rest.filterMap Component.ofSegment? := by
  rw [← segments_ofList, ← isAbsolute_ofList]
  rfl

end Path

namespace FileSystem

theorem utf8ByteSize_ofList (letters : List Char) : (String.ofList letters).utf8ByteSize = Text.byteLength letters := by
  induction letters with
  | nil => rfl
  | cons c letters ih =>
    rw [String.ofList_cons, String.utf8ByteSize_append, String.utf8ByteSize_singleton, ih, Text.byteLength_cons]

theorem reach_ofList (fs : FileSystem) (letters : List Char) : fs.reach ⟨String.ofList letters⟩ =
    if !letters.isEmpty && Text.byteLength letters < pathLimit then
      follow linkLimit ⟨fs.root, []⟩ ((if Text.startsWith letters "/" then [] else fs.workingDir) ++
        (Text.split (· == '/') letters).map String.ofList)
    else .nowhere := by
  have visible : decide (String.ofList letters ≠ "") = !letters.isEmpty := by cases letters <;> simp
  rw [reach, reachAlong, visible, fits, utf8ByteSize_ofList, origin, Path.segments_ofList, Path.isAbsolute_ofList]

theorem resolve?_ofList (fs : FileSystem) (letters : List Char) : fs.resolve? ⟨String.ofList letters⟩ =
    match if !letters.isEmpty && Text.byteLength letters < pathLimit then
        follow linkLimit ⟨fs.root, []⟩ ((if Text.startsWith letters "/" then [] else fs.workingDir) ++
          (Text.split (· == '/') letters).map String.ofList)
      else .nowhere with
    | .found t => some t.place
    | _ => none := by
  rw [← reach_ofList]
  rfl

theorem node?_of_resolve? {fs : FileSystem} {p : Path} {place : List String} {node : Node}
    (resolved : fs.resolve? p = some place) (held : fs.root.at? place = some node) : fs.node? p = some node := by
  rw [node?_eq_at?_resolve?, resolved, Option.bind_some, held]

theorem isDir_eq_false_of_resolve? {fs : FileSystem} {p : Path} (nowhere : fs.resolve? p = none) : fs.isDir p = false := by
  have missing : fs.node? p = none := by rw [node?_eq_at?_resolve?, nowhere, Option.bind_none]
  simp [isDir, missing]

theorem read_of_resolve? {fs : FileSystem} {p : Path} {place : List String} {text : String}
    (resolved : fs.resolve? p = some place) (held : fs.root.at? place = some (.file text.toUTF8)) :
    fs.read p = .ok text.toList :=
  read_of_toUTF8 (node?_of_resolve? resolved held)

end FileSystem

end Conformance
