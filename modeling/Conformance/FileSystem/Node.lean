namespace Conformance

inductive Node where
  | file (content : ByteArray)
  | link (target : String)
  | dir (entries : List (String × Node))

namespace Node

def putEntry (name : String) (node : Node) : List (String × Node) → List (String × Node)
  | [] => [(name, node)]
  | (other, old) :: rest =>
    if name < other then (name, node) :: (other, old) :: rest
    else if name = other then (name, node) :: rest
    else (other, old) :: putEntry name node rest

def dropEntry (name : String) (entries : List (String × Node)) : List (String × Node) :=
  entries.filter (·.1 != name)

def Ordered (entries : List (String × Node)) : Prop :=
  (entries.map Prod.fst).Pairwise (· < ·)

def child? (node : Node) (name : String) : Option Node :=
  match node with
  | dir entries => entries.lookup name
  | _ => none

def isDir : Node → Bool
  | dir _ => true
  | _ => false

def isFile : Node → Bool
  | file _ => true
  | _ => false

def at? : Node → List String → Option Node
  | node, [] => some node
  | node, name :: names => (node.child? name).bind (·.at? names)

/-- The tree with the entries of the directory reached along the names changed by `f`; fails if
there is no such directory. -/
def changeDir? (f : List (String × Node) → List (String × Node)) : Node → List String → Option Node
  | dir entries, [] => some (dir (f entries))
  | dir entries, name :: names => do
    let child ← entries.lookup name
    let changed ← child.changeDir? f names
    pure (dir (putEntry name changed entries))
  | _, _ => none

theorem at?_concat (node : Node) (names : List String) (name : String) :
    node.at? (names ++ [name]) = (node.at? names).bind (·.child? name) := by
  induction names generalizing node with
  | nil => cases h : node.child? name <;> simp [at?, h]
  | cons first names ih =>
    cases h : node.child? first with
    | none => simp [at?, h]
    | some child => simp [at?, h, ih]

theorem at?_kept {Kept : Node → Prop} (down : ∀ {node child : Node} {name : String},
    Kept node → node.child? name = some child → Kept child) {start node : Node} {names : List String}
    (h : Kept start) (found : start.at? names = some node) : Kept node := by
  induction names generalizing start with
  | nil =>
    cases found
    exact h
  | cons name names ih =>
    obtain ⟨next, entered, below⟩ := Option.bind_eq_some_iff.mp found
    exact ih (down h entered) below

end Node

end Conformance
