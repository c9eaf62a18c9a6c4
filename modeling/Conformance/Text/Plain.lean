/-!
Texts without the control sequences of terminals.

A control sequence begins with an escape character, and how it goes on says where it ends: a command
ends with its final letter, a string with its terminator. Control characters outside of sequences go
too, except for those that set space.
-/

namespace Conformance.Text

inductive Control where
  | ground
  | escape
  | escapeMark
  | command
  | commandParameter
  | commandMark
  | commandIgnored
  | device
  | deviceParameter
  | deviceMark
  | deviceString
  | systemString
  | otherString
deriving DecidableEq

inductive ControlPart where
  | mark
  | parameter
  | privateParameter
  | final
  | other
deriving DecidableEq

def ControlPart.ofChar (c : Char) : ControlPart :=
  let n := c.toNat
  if n < 0x20 then other
  else if n < 0x30 then mark
  else if n < 0x3C then parameter
  else if n < 0x40 then privateParameter
  else if n < 0x7F then final
  else other

def endsString (c : Char) : Bool :=
  (String.utf8EncodeChar c).contains 0x9C

def setsSpace (c : Char) : Bool :=
  c == ' ' || c == '\t' || c == '\n' || c == '\x0c' || c == '\r'

namespace Control

def begun : Char → Control
  | '[' => command
  | ']' => systemString
  | 'P' => device
  | 'X' | '^' | '_' => otherString
  | _ => ground

def next (s : Control) (c : Char) : Control :=
  if c = '\x18' ∨ c = '\x1a' then ground
  else if c = '\x1b' then escape
  else
    match s, ControlPart.ofChar c with
    | systemString, _ => if c = '\x07' then ground else s
    | deviceString, _ | otherString, _ => if endsString c then ground else s
    | _, .other => s
    | ground, _ => ground
    | escape, .mark => escapeMark
    | escape, _ => begun c
    | escapeMark, .mark => escapeMark
    | escapeMark, _ => ground
    | command, .mark | commandParameter, .mark | commandMark, .mark => commandMark
    | command, .parameter | command, .privateParameter => commandParameter
    | commandParameter, .parameter => commandParameter
    | commandParameter, .privateParameter => commandIgnored
    | commandMark, .parameter | commandMark, .privateParameter => commandIgnored
    | commandIgnored, .mark | commandIgnored, .parameter | commandIgnored, .privateParameter =>
      commandIgnored
    | command, .final | commandParameter, .final | commandMark, .final | commandIgnored, .final =>
      ground
    | device, .mark | deviceParameter, .mark | deviceMark, .mark => deviceMark
    | device, .parameter | device, .privateParameter => deviceParameter
    | deviceParameter, .parameter => deviceParameter
    | deviceParameter, .privateParameter => deviceString
    | deviceMark, .parameter | deviceMark, .privateParameter => deviceString
    | device, .final | deviceParameter, .final | deviceMark, .final => deviceString

/-- Whether the character is shown. Inside an escape or a command only what sets space is, and inside
a string nothing. -/
def shows (s : Control) (c : Char) : Bool :=
  match s with
  | ground => 0x80 ≤ c.toNat || ControlPart.ofChar c != .other || setsSpace c
  | escape | escapeMark | command | commandParameter | commandMark | commandIgnored =>
    c != ' ' && setsSpace c
  | device | deviceParameter | deviceMark | deviceString | systemString | otherString => false

end Control

/-- The shown characters of a text behind a part of a control sequence. While a run of characters is
shown, each is taken as if it stood outside of any sequence; a sequence that a shown character
interrupts goes on behind the run. -/
def plainFrom (s : Control) (showing : Bool) : List Char → List Char
  | [] => []
  | c :: rest =>
    if (if showing then Control.ground else s).shows c then
      c :: plainFrom (if 0x80 ≤ c.toNat then .ground else s) true rest
    else plainFrom (s.next c) false rest

def plain (text : List Char) : List Char :=
  plainFrom .ground false text

end Conformance.Text
