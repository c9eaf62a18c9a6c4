import Conformance.Layout
import Conformance.Proofs.FileSystem.Reach

namespace Conformance

namespace Node

mutual

def shape : Node → Node
  | .file _ => .file .empty
  | .link target => .link target
  | .dir entries => .dir (shapeIn entries)

def shapeIn : List (String × Node) → List (String × Node)
  | [] => []
  | (name, node) :: rest => (name, node.shape) :: shapeIn rest

end

theorem lookup_shapeIn (entries : List (String × Node)) (name : String) :
    (shapeIn entries).lookup name = (entries.lookup name).map shape := by
  induction entries with
  | nil => rfl
  | cons e rest ih =>
    obtain ⟨other, node⟩ := e
    simp only [shapeIn, List.lookup_cons]
    split
    · rfl
    · exact ih

@[simp]
theorem child?_shape (node : Node) (name : String) : node.shape.child? name = (node.child? name).map shape := by
  cases node with
  | dir entries => exact lookup_shapeIn entries name
  | file _ | link _ => rfl

@[simp]
theorem at?_shape (node : Node) (names : List String) : node.shape.at? names = (node.at? names).map shape := by
  induction names generalizing node with
  | nil => rfl
  | cons name names ih =>
    cases entered : node.child? name with
    | none => simp [at?, entered]
    | some child => simp [at?, entered, ih]

@[simp]
theorem isDir_shape (node : Node) : node.shape.isDir = node.isDir := by
  cases node <;> rfl

@[simp]
theorem isFile_shape (node : Node) : node.shape.isFile = node.isFile := by
  cases node <;> rfl

end Node

namespace Trail

def shape (t : Trail) : Trail :=
  ⟨t.root.shape, t.passed.map fun e => (e.1, e.2.shape)⟩

@[simp]
theorem node_shape (t : Trail) : t.shape.node = t.node.shape := by
  obtain ⟨root, passed⟩ := t
  cases passed <;> rfl

@[simp]
theorem place_shape (t : Trail) : t.shape.place = t.place := by
  simp [place, shape, Function.comp_def]

theorem up_shape (t : Trail) : t.up.shape = t.shape.up := by
  simp [up, shape]

end Trail

namespace FileSystem

def Step.shape : Step → Step
  | .arrived t => .arrived t.shape
  | .vacant t name => .vacant t.shape name
  | .missing => .missing
  | .redirected t segments => .redirected t.shape segments

theorem advance_shape (t : Trail) (segments : List String) :
    advance t.shape segments = (advance t segments).shape := by
  induction segments generalizing t with
  | nil => rfl
  | cons segment rest ih =>
    rw [advance.eq_def t.shape, advance.eq_def t, Trail.node_shape]
    cases own : t.node with
    | file _ | link _ => rfl
    | dir entries =>
      simp only [Node.shape, Node.lookup_shapeIn]
      split
      · exact ih t
      · split
        · exact Trail.up_shape t ▸ ih t.up
        · cases entries.lookup segment with
          | none =>
            simp only [Option.map_none]
            split <;> rfl
          | some node =>
            cases node with
            | link target =>
              simp only [Option.map_some, Node.shape]
              split <;> rfl
            | file content => exact ih (t.enter segment (.file content))
            | dir inner => exact ih (t.enter segment (.dir inner))

def Reached.shape : Reached → Reached
  | .found t => .found t.shape
  | .vacant t name => .vacant t.shape name
  | .nowhere => .nowhere

theorem follow_shape (links : Nat) (t : Trail) (segments : List String) :
    follow links t.shape segments = (follow links t segments).shape := by
  induction links generalizing t segments with
  | zero =>
    unfold follow
    rw [advance_shape]
    cases advance t segments <;> rfl
  | succ links ih =>
    unfold follow
    rw [advance_shape]
    cases advance t segments with
    | redirected next more => exact ih next more
    | arrived _ | vacant _ _ | missing => rfl

def shape (fs : FileSystem) : FileSystem :=
  ⟨fs.root.shape, fs.workingDir⟩

variable (fs : FileSystem)

theorem reachAlong_shape (p : Path) (segments : List String) :
    fs.shape.reachAlong p segments = (fs.reachAlong p segments).shape := by
  unfold reachAlong
  split
  · exact follow_shape linkLimit ⟨fs.root, []⟩ _
  · rfl

theorem resolve?_shape (p : Path) : fs.shape.resolve? p = fs.resolve? p := by
  unfold resolve? reach
  rw [reachAlong_shape]
  cases fs.reachAlong p p.segments <;> simp [Reached.shape]

theorem node?_shape (p : Path) : fs.shape.node? p = (fs.node? p).map Node.shape := by
  unfold node? reach
  rw [reachAlong_shape]
  cases fs.reachAlong p p.segments <;> simp [Reached.shape]

theorem pathExists_shape (p : Path) : fs.shape.pathExists p = fs.pathExists p := by
  simp [pathExists, node?_shape]

theorem isFile_shape (p : Path) : fs.shape.isFile p = fs.isFile p := by
  simp [isFile, node?_shape, Option.any_map]

theorem isDir_shape (p : Path) : fs.shape.isDir p = fs.isDir p := by
  simp [isDir, node?_shape, Option.any_map]

theorem holder?_shape (p : Path) : fs.shape.holder? p = (fs.holder? p).map fun (t, name) => (t.shape, name) := by
  unfold holder?
  split
  · rfl
  · split
    · rfl
    · rw [reachAlong_shape]
      cases fs.reachAlong p _ with
      | found t =>
        simp only [Reached.shape, Trail.node_shape, Node.isDir_shape]
        split <;> rfl
      | vacant _ _ | nowhere => rfl

theorem ownNode?_shape (p : Path) : fs.shape.ownNode? p = (fs.ownNode? p).map Node.shape := by
  unfold ownNode?
  rw [holder?_shape, node?_shape]
  cases asksDirectory p with
  | true => rfl
  | false => cases fs.holder? p <;> simp

theorem isLink_shape (p : Path) : fs.shape.isLink p = fs.isLink p := by
  unfold isLink
  rw [ownNode?_shape]
  cases fs.ownNode? p with
  | none => rfl
  | some node => cases node <;> rfl

mutual

theorem visitEntry_shape (rules : WalkRules) (base : Path) (name : String) (node : Node) :
    visitEntry rules base name node.shape = visitEntry rules base name node := by
  match node with
  | .file _ | .link _ => rfl
  | .dir entries =>
    have inner := visitEntries_shapeIn rules (base / (name : Path)) entries
    simp only [Node.shape, visitEntry, inner]

theorem visitEntries_shapeIn (rules : WalkRules) (base : Path) (entries : List (String × Node)) :
    visitEntries rules base (Node.shapeIn entries) = visitEntries rules base entries := by
  match entries with
  | [] => rfl
  | (name, node) :: rest =>
    have first := visitEntry_shape rules base name node
    have others := visitEntries_shapeIn rules base rest
    simp only [Node.shapeIn, visitEntries, first, others]

end

theorem visitBelow_shape (rules : WalkRules) (start : Path) :
    fs.shape.visitBelow rules start = fs.visitBelow rules start := by
  unfold visitBelow
  rw [node?_shape]
  cases fs.node? start with
  | none => rfl
  | some node =>
    cases node with
    | dir entries => exact visitEntries_shapeIn rules start entries
    | file _ | link _ => rfl

theorem collectFiles_shape (rules : WalkRules) (accepts : String → Bool) (start : Path) :
    fs.shape.collectFiles rules accepts start = fs.collectFiles rules accepts start := by
  simp only [collectFiles, visitStart, isFile_shape, isLink_shape, visitBelow_shape]

theorem collectDirs_shape (rules : WalkRules) (start : Path) :
    fs.shape.collectDirs rules start = fs.collectDirs rules start := by
  simp only [collectDirs, visitBelow_shape]

section Alike

variable {fs} {other : FileSystem} (same : fs.shape = other.shape)

include same

theorem resolve?_of_shape (p : Path) : fs.resolve? p = other.resolve? p := by
  rw [← resolve?_shape, same, resolve?_shape]

theorem pathExists_of_shape : fs.pathExists = other.pathExists := by
  funext p
  rw [← pathExists_shape, same, pathExists_shape]

theorem isFile_of_shape : fs.isFile = other.isFile := by
  funext p
  rw [← isFile_shape, same, isFile_shape]

theorem isDir_of_shape : fs.isDir = other.isDir := by
  funext p
  rw [← isDir_shape, same, isDir_shape]

theorem collectFiles_of_shape : fs.collectFiles = other.collectFiles := by
  funext rules accepts start
  rw [← collectFiles_shape, same, collectFiles_shape]

theorem listFiles_of_shape : fs.listFiles = other.listFiles := by
  funext accepts start
  rw [listFiles, listFiles, collectFiles_of_shape same]

theorem collectDirs_of_shape : fs.collectDirs = other.collectDirs := by
  funext rules start
  rw [← collectDirs_shape, same, collectDirs_shape]

end Alike

/-- The two file systems have the same paths, and the same bytes in every file at a place that is not
changed. -/
structure AlikeOutside (changed : List String → Prop) (before after : FileSystem) : Prop where
  shape : before.shape = after.shape
  content : ∀ place, ¬ changed place → ∀ bytes, before.root.at? place = some (.file bytes) →
    after.root.at? place = some (.file bytes)

namespace AlikeOutside

variable {changed : List String → Prop} {before after : FileSystem} (alike : before.AlikeOutside changed after)

include alike

theorem node_at {place : List String} (kept : ¬ changed place) {node other : Node}
    (first : before.root.at? place = some node) (second : after.root.at? place = some other) :
    node.shape = other.shape ∧ ∀ bytes, node = .file bytes → other = .file bytes := by
  refine ⟨?_, fun bytes own => ?_⟩
  · have shapes := congrArg (fun fs => fs.root.at? place) alike.shape
    simpa [FileSystem.shape, first, second] using shapes
  · subst own
    exact Option.some.inj (second.symm.trans (alike.content place kept bytes first))

theorem read_eq {p : Path} (kept : ∀ place, before.resolve? p = some place → ¬ changed place) :
    before.read p = after.read p := by
  have reached := resolve?_of_shape alike.shape p
  have first := node?_eq_at?_resolve? before p
  have second := node?_eq_at?_resolve? after p
  have exist := pathExists_of_shape alike.shape
  unfold read
  cases own : before.node? p with
  | none =>
    have missing : after.node? p = none := by simpa [pathExists, own] using (congrFun exist p).symm
    rw [missing]
  | some node =>
    obtain ⟨other, there⟩ : ∃ other, after.node? p = some other := by
      simpa [pathExists, own, Option.isSome_iff_exists] using (congrFun exist p).symm
    rw [own] at first
    obtain ⟨place, resolved, held⟩ := Option.bind_eq_some_iff.mp first.symm
    rw [there, ← reached, resolved, Option.bind_some] at second
    obtain ⟨shapes, files⟩ := alike.node_at (kept place resolved) held second.symm
    rw [there]
    cases node with
    | file bytes => rw [files bytes rfl]
    | link _ | dir _ => cases other <;> first | rfl | cases shapes

end AlikeOutside

end FileSystem

end Conformance
