import Conformance.Text.Offset

namespace Conformance

inductive Fault where
  /-- A text was cut at bytes that are no borders of characters in it. -/
  | cut (start stop : Nat)
  /-- The reason in words. -/
  | stated (reason : String)
  /-- No reason was given. -/
  | unstated
deriving DecidableEq

def Fault.message : Fault → String
  | cut start stop => s!"no text between bytes {start} and {stop}"
  | stated reason => reason
  | unstated => "unknown panic"

def cut (text : List Char) (start stop : Nat) : Except Fault (List Char) :=
  match Text.slice? text start stop with
  | some part => .ok part
  | none => .error (.cut start stop)

end Conformance
