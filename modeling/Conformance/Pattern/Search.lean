import Conformance.Pattern.Basic
import Conformance.Text.Blank

namespace Conformance.Pattern

structure Match where
  start : Cursor
  stop : Cursor
  captures : List Capture

namespace Match

def text (m : Match) : List Char :=
  m.start.textTo m.stop

def group? (m : Match) (number : Nat) : Option (List Char) :=
  (m.captures.find? (·.number == number)).map fun c => c.start.textTo c.stop

def resume? (m : Match) : Option Cursor :=
  if m.start.offset < m.stop.offset then some m.stop else m.stop.next?

end Match

def matchAt? (p : Pattern) (place : Cursor) : Option Match :=
  p.run (fun s => some ⟨place, s.place, s.captures⟩) ⟨place, []⟩

def search (p : Pattern) (offset : Nat) (before : Option Char) : List Char → Option Match
  | [] => p.matchAt? ⟨offset, before, []⟩
  | c :: rest =>
    match p.matchAt? ⟨offset, before, c :: rest⟩ with
    | some m => some m
    | none => p.search (offset + c.utf8Size) (some c) rest

def searchFrom (p : Pattern) (place : Cursor) : Option Match :=
  p.search place.offset place.before place.rest

def find? (p : Pattern) (s : List Char) : Option Match :=
  p.searchFrom (.ofText s)

def occursIn (p : Pattern) (s : List Char) : Bool :=
  (p.find? s).isSome

def matchesFrom (p : Pattern) : Nat → Cursor → List Match
  | 0, _ => []
  | limit + 1, place =>
    match p.searchFrom place with
    | none => []
    | some m =>
      m :: match m.resume? with
        | none => []
        | some next => p.matchesFrom limit next

def findAll (p : Pattern) (s : List Char) : List Match :=
  p.matchesFrom (s.length + 1) (.ofText s)

def count (p : Pattern) (s : List Char) : Nat :=
  (p.findAll s).length

def leftOver (place : Cursor) : List Match → List Char
  | [] => place.rest
  | m :: rest => place.textTo m.start ++ leftOver m.stop rest

def removeAll (p : Pattern) (s : List Char) : List Char :=
  leftOver (.ofText s) (p.findAll s)

def chain (parts : List Pattern) : Pattern :=
  parts.foldr seq empty

def exactly (cs : List Char) : Pattern :=
  chain (cs.map fun c => char (· == c))

def text (s : String) : Pattern :=
  exactly s.toList

def anyOf (word : String) : List String → Pattern
  | [] => text word
  | next :: words => either (text word) (anyOf next words)

def optional (p : Pattern) : Pattern :=
  either p empty

def mostOne (accepts : Char → Bool) : Pattern :=
  seq (char accepts) (most accepts)

def among (s : String) (c : Char) : Bool :=
  s.toList.contains c

def outside (s : String) (c : Char) : Bool :=
  !s.toList.contains c

def blanks : Pattern :=
  most Text.isBlank

def someBlanks : Pattern :=
  mostOne Text.isBlank

def quote : Pattern :=
  char (among "'\"")

def quoted (number : Nat) : Pattern :=
  chain [quote, group number (mostOne (outside "'\"")), quote]

end Conformance.Pattern
