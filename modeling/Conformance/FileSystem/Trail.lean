import Conformance.FileSystem.Node

namespace Conformance

/-- The way from the root of a tree to a node: the nodes passed, the last one first, each under its
name. -/
structure Trail where
  root : Node
  passed : List (String × Node)

namespace Trail

def node (t : Trail) : Node :=
  match t.passed with
  | [] => t.root
  | (_, last) :: _ => last

def place (t : Trail) : List String :=
  (t.passed.map Prod.fst).reverse

def enter (t : Trail) (name : String) (node : Node) : Trail :=
  { t with passed := (name, node) :: t.passed }

def up (t : Trail) : Trail :=
  { t with passed := t.passed.tail }

def start (t : Trail) : Trail :=
  { t with passed := [] }

inductive IsSound : Trail → Prop
  | root (n : Node) : IsSound ⟨n, []⟩
  | enter {t : Trail} {name : String} {node : Node} (before : IsSound t)
      (child : t.node.child? name = some node) : IsSound (t.enter name node)

theorem isSound_root (n : Node) : IsSound ⟨n, []⟩ :=
  .root n

theorem IsSound.start {t : Trail} (_ : t.IsSound) : t.start.IsSound :=
  .root t.root

theorem IsSound.up {t : Trail} (h : t.IsSound) : t.up.IsSound := by
  cases h with
  | root n => exact .root n
  | enter before _ => exact before

theorem IsSound.at?_place {t : Trail} (h : t.IsSound) : t.root.at? t.place = some t.node := by
  induction h with
  | root n => rfl
  | @enter t name node before child ih =>
    have names : (t.enter name node).place = t.place ++ [name] := by simp [place, Trail.enter]
    rw [names, Node.at?_concat]
    change (t.root.at? t.place).bind (·.child? name) = some node
    rw [ih]
    exact child

end Trail

end Conformance
