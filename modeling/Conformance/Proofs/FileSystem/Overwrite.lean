import Conformance.Proofs.FileSystem.Shape
import Conformance.Proofs.Layout.Spelling

namespace Conformance

namespace Node

/-- The tree with other bytes in the file that the names lead to; a tree that has no file there stays. -/
def overwrite (bytes : ByteArray) : Node → List String → Node
  | .file _, [] => .file bytes
  | .dir entries, name :: names =>
    .dir (entries.map fun e => if e.1 = name then (e.1, e.2.overwrite bytes names) else e)
  | node, _ => node

theorem lookup_map_at {entries : List (String × Node)} (f : Node → Node) (name other : String) :
    (entries.map fun e => if e.1 = name then (e.1, f e.2) else e).lookup other =
      (entries.lookup other).map fun node => if other = name then f node else node := by
  induction entries with
  | nil => rfl
  | cons e rest ih =>
    obtain ⟨own, node⟩ := e
    have head : (if own = name then (own, f node) else (own, node)) = (own, if own = name then f node else node) := by
      split <;> rfl
    rw [List.map_cons, head, List.lookup_cons, List.lookup_cons, ih]
    cases found : other == own with
    | true =>
      obtain rfl := eq_of_beq found
      rfl
    | false => rfl

theorem shapeIn_map_at {entries : List (String × Node)} {f : Node → Node} (kept : ∀ node, (f node).shape = node.shape)
    (name : String) : shapeIn (entries.map fun e => if e.1 = name then (e.1, f e.2) else e) = shapeIn entries := by
  induction entries with
  | nil => rfl
  | cons e rest ih =>
    obtain ⟨own, node⟩ := e
    rw [List.map_cons]
    dsimp only
    split <;> simp only [shapeIn, ih, kept]

theorem shape_overwrite (bytes : ByteArray) (node : Node) (names : List String) :
    (node.overwrite bytes names).shape = node.shape := by
  induction names generalizing node with
  | nil => cases node <;> rfl
  | cons name names ih =>
    cases node with
    | dir entries => exact congrArg Node.dir (shapeIn_map_at ih name)
    | file _ | link _ => rfl

theorem child?_overwrite (bytes : ByteArray) (node : Node) (name other : String) (names : List String) :
    (node.overwrite bytes (name :: names)).child? other =
      (node.child? other).map fun child => if other = name then child.overwrite bytes names else child := by
  cases node with
  | dir entries => exact lookup_map_at (·.overwrite bytes names) name other
  | file _ | link _ => rfl

theorem at?_overwrite_of_ne (bytes : ByteArray) {node : Node} {names place : List String} (apart : place ≠ names)
    {content : ByteArray} (held : node.at? place = some (.file content)) :
    (node.overwrite bytes names).at? place = some (.file content) := by
  induction names generalizing node place with
  | nil =>
    cases node with
    | dir _ | link _ => exact held
    | file _ =>
      obtain ⟨first, rest, rfl⟩ := List.exists_cons_of_ne_nil apart
      simp [at?, child?] at held
  | cons name names ih =>
    cases place with
    | nil =>
      obtain rfl := Option.some.inj held
      rfl
    | cons first rest =>
      obtain ⟨child, entered, below⟩ : ∃ child, node.child? first = some child ∧ child.at? rest = some (.file content) := by
        simpa [at?, Option.bind_eq_some_iff] using held
      rw [at?, child?_overwrite, entered, Option.map_some, Option.bind_some]
      split
      · rename_i same
        exact ih (fun equal => apart (by rw [same, equal])) below
      · exact below

theorem at?_overwrite (bytes : ByteArray) {node : Node} {names : List String} {content : ByteArray}
    (held : node.at? names = some (.file content)) : (node.overwrite bytes names).at? names = some (.file bytes) := by
  induction names generalizing node with
  | nil =>
    obtain rfl := Option.some.inj held
    rfl
  | cons name names ih =>
    obtain ⟨child, entered, below⟩ : ∃ child, node.child? name = some child ∧ child.at? names = some (.file content) := by
      simpa [at?, Option.bind_eq_some_iff] using held
    rw [at?, child?_overwrite, entered, Option.map_some, Option.bind_some, if_pos rfl]
    exact ih below

end Node

namespace FileSystem

def overwrite (fs : FileSystem) (place : List String) (bytes : ByteArray) : FileSystem :=
  { fs with root := fs.root.overwrite bytes place }

theorem alikeOutside_overwrite (fs : FileSystem) (place : List String) (bytes : ByteArray) :
    fs.AlikeOutside (· = place) (fs.overwrite place bytes) where
  shape := by
    unfold shape overwrite
    rw [Node.shape_overwrite]
  content := fun _ apart _ held => Node.at?_overwrite_of_ne bytes apart held

theorem read_overwrite_at {fs : FileSystem} {place : List String} {content : ByteArray} {text : String}
    (held : fs.root.at? place = some (.file content)) (decoded : String.fromUTF8? content = some text) (other : List Char)
    {p : Path} (resolved : fs.resolve? p = some place) :
    fs.read p = .ok text.toList ∧ (fs.overwrite place (String.ofList other).toUTF8).read p = .ok other := by
  have shape := (alikeOutside_overwrite fs place (String.ofList other).toUTF8).shape
  have before := node?_eq_at?_resolve? fs p
  have after := node?_eq_at?_resolve? (fs.overwrite place (String.ofList other).toUTF8) p
  rw [resolved, Option.bind_some, held] at before
  rw [← resolve?_of_shape shape, resolved, Option.bind_some] at after
  have written := after.trans (Node.at?_overwrite _ held)
  constructor
  · simp only [read_of_node? before, textOf, decoded]
  · rw [read_of_node? written, textOf_toUTF8, String.toList_ofList]

theorem read_overwrite {fs : FileSystem} {place : List String} {content : ByteArray} {text : String}
    (held : fs.root.at? place = some (.file content)) (decoded : String.fromUTF8? content = some text) (other : List Char)
    (p : Path) : (fs.overwrite place (String.ofList other).toUTF8).read p = fs.read p ∨
      fs.read p = .ok text.toList ∧ (fs.overwrite place (String.ofList other).toUTF8).read p = .ok other := by
  by_cases resolved : fs.resolve? p = some place
  · exact .inr (read_overwrite_at held decoded other resolved)
  · have alike := alikeOutside_overwrite fs place (String.ofList other).toUTF8
    exact .inl (alike.read_eq fun q leads same => resolved (same ▸ leads)).symm

end FileSystem

theorem isValidUTF8_utf8Encode_append (s : List Char) {bytes : ByteArray} :
    (s.utf8Encode ++ bytes).IsValidUTF8 ↔ bytes.IsValidUTF8 := by
  induction s with
  | nil => simp
  | cons c s ih =>
    rw [List.utf8Encode_cons, ByteArray.append_assoc, ByteArray.isValidUTF8_utf8Encode_singleton_append_iff, ih]

theorem fromUTF8?_append (s : List Char) (bytes : ByteArray) :
    String.fromUTF8? ((String.ofList s).toUTF8 ++ bytes) = (String.fromUTF8? bytes).map (String.ofList s ++ ·) := by
  have valid : ((String.ofList s).toUTF8 ++ bytes).IsValidUTF8 ↔ bytes.IsValidUTF8 := by
    rw [String.toUTF8_eq_toByteArray, String.toByteArray_ofList, isValidUTF8_utf8Encode_append]
  by_cases text : bytes.IsValidUTF8
  · rw [String.fromUTF8?, String.fromUTF8?, dif_pos text, dif_pos (valid.mpr text), Option.map_some, Option.some.injEq,
      ← String.toByteArray_inj, String.toByteArray_append]
    rfl
  · rw [String.fromUTF8?, String.fromUTF8?, dif_neg text, dif_neg fun whole => text (valid.mp whole)]
    rfl

namespace FileSystem

/-- The file system with a text put in front of the file at a place, if there is one. -/
def prepend (fs : FileSystem) (place : List String) (s : List Char) : FileSystem :=
  match fs.root.at? place with
  | some (.file content) => fs.overwrite place ((String.ofList s).toUTF8 ++ content)
  | _ => fs

variable (fs : FileSystem) (place : List String) (s : List Char)

theorem alikeOutside_prepend : fs.AlikeOutside (· = place) (fs.prepend place s) := by
  unfold prepend
  split
  · exact alikeOutside_overwrite fs place _
  · exact ⟨rfl, fun _ _ _ held => held⟩

theorem textOf_prepend (content : ByteArray) :
    textOf (.file ((String.ofList s).toUTF8 ++ content)) = (textOf (.file content)).map (s ++ ·) := by
  unfold textOf
  dsimp only
  rw [fromUTF8?_append]
  cases String.fromUTF8? content with
  | none => rfl
  | some text => exact congrArg Except.ok (by rw [String.toList_append, String.toList_ofList])

variable {fs place} {p : Path}

/-- A path that leads to the file reads the text that was put in front of it. -/
theorem read_prepend (resolved : fs.resolve? p = some place) :
    (fs.prepend place s).read p = (fs.read p).map (s ++ ·) := by
  have first := node?_eq_at?_resolve? fs p
  have second := node?_eq_at?_resolve? (fs.prepend place s) p
  rw [resolved, Option.bind_some] at first
  rw [← resolve?_of_shape (alikeOutside_prepend fs place s).shape, resolved, Option.bind_some] at second
  cases held : fs.root.at? place with
  | none =>
    have same : fs.prepend place s = fs := by rw [prepend, held]
    rw [same, read, first, held]
    rfl
  | some node =>
    cases node with
    | file content =>
      have written : fs.prepend place s = fs.overwrite place ((String.ofList s).toUTF8 ++ content) := by rw [prepend, held]
      rw [written] at second ⊢
      rw [read_of_node? (first.trans held), read_of_node? (second.trans (Node.at?_overwrite _ held)), textOf_prepend]
    | link target | dir entries =>
      have same : fs.prepend place s = fs := by rw [prepend, held]
      rw [same, read, first, held]
      rfl

end FileSystem

end Conformance
