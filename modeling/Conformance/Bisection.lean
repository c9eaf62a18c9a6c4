namespace Conformance

inductive Standing where
  /-- It is the item at this place. -/
  | exactly (place : Nat)
  /-- It is none of them, and belongs in front of the item at this place. -/
  | before (place : Nat)
deriving DecidableEq, Repr

namespace Bisection

/-- Halves the `size` items from `base` on until one is left: the last of them that does not exceed the target, or
the first of all. -/
def narrow (items : List Nat) (target base size : Nat) : Nat :=
  if size ≤ 1 then base
  else
    let half := size / 2
    let middle := base + half
    let next := if items[middle]?.any (target < ·) then base else middle
    narrow items target next (size - half)
termination_by size

def search (items : List Nat) (target : Nat) : Standing :=
  let base := narrow items target 0 items.length
  match items[base]? with
  | none => .before 0
  | some item =>
    if item = target then .exactly base
    else if item < target then .before (base + 1)
    else .before base

end Bisection

end Conformance
