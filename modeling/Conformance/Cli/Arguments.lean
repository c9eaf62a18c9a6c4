import Conformance.Report.Style

/-!
The arguments of the command line.

Arguments are read from left to right. The value of an option may follow in the same argument behind
an equals sign, or in the next argument. In the second case it is looked at only when the next option
comes or the arguments end, so an argument that is not known at all is reported first.
-/

namespace Conformance.Cli

inductive ColorChoice where
  | auto
  | always
  | never
deriving DecidableEq

def ColorChoice.ofName? : String → Option ColorChoice
  | "auto" => some auto
  | "always" => some always
  | "never" => some never
  | _ => none

def ColorChoice.enabled (capable : Bool) : ColorChoice → Bool
  | auto => capable
  | always => true
  | never => false

inductive Valued where
  | rootDir
  | only
  | color
deriving DecidableEq

def Valued.shown : Valued → String
  | rootDir => "--root-dir <PATH>"
  | only => "--only <CHECK_ID>"
  | color => "--color <COLOR>"

def Valued.ofName? : String → Option Valued
  | "root-dir" => some rootDir
  | "only" => some only
  | "color" => some color
  | _ => none

inductive Switch where
  | list
  | sequential
  | verbose
  | help
  | version
deriving DecidableEq

def Switch.shown : Switch → String
  | list => "--list"
  | sequential => "--sequential"
  | verbose => "--verbose"
  | help => "--help"
  | version => "--version"

def Switch.ofName? : String → Option Switch
  | "list" => some list
  | "sequential" => some sequential
  | "verbose" => some verbose
  | "help" => some help
  | "version" => some version
  | _ => none

def Switch.ofLetter? : Char → Option Switch
  | 'v' => some verbose
  | 'h' => some help
  | 'V' => some version
  | _ => none

inductive UsageError where
  | valueRequired (option : Valued)
  | invalidValue (option : Valued) (value : String)
  | unexpectedArgument (argument : String)
  | unexpectedValue (switch : Switch) (value : String)
  | repeatedOption (option : Valued)
  | repeatedSwitch (switch : Switch)
deriving DecidableEq

def UsageError.pieces : UsageError → List Piece
  | valueRequired option =>
    [⟨"a value is required for '", none⟩, ⟨option.shown, some .yellow⟩,
      ⟨"' but none was supplied", none⟩]
  | invalidValue option value =>
    [⟨"invalid value '", none⟩, ⟨value, some .yellow⟩, ⟨"' for '", none⟩, ⟨option.shown, some .bold⟩,
      ⟨"'", none⟩]
  | unexpectedArgument argument =>
    [⟨"unexpected argument '", none⟩, ⟨argument, some .yellow⟩, ⟨"' found", none⟩]
  | unexpectedValue switch value =>
    [⟨"unexpected value '", none⟩, ⟨value, some .yellow⟩, ⟨"' for '", none⟩,
      ⟨switch.shown, some .bold⟩, ⟨"' found; no more were expected", none⟩]
  | repeatedOption option =>
    [⟨"the argument '", none⟩, ⟨option.shown, some .yellow⟩,
      ⟨"' cannot be used multiple times", none⟩]
  | repeatedSwitch switch =>
    [⟨"the argument '", none⟩, ⟨switch.shown, some .yellow⟩,
      ⟨"' cannot be used multiple times", none⟩]

inductive Stop where
  | usage (error : UsageError)
  | help
  | version
deriving DecidableEq

structure Settings where
  rootDir : Option String := none
  only : List String := []
  color : Option ColorChoice := none
  list : Bool := false
  sequential : Bool := false
  verbose : Bool := false
deriving DecidableEq

namespace Settings

def assign (s : Settings) (option : Valued) (value : String) : Except Stop Settings :=
  match option with
  | .only => .ok { s with only := s.only ++ [value] }
  | .rootDir =>
    if s.rootDir.isSome then .error (.usage (.repeatedOption option))
    else if value = "" then .error (.usage (.valueRequired option))
    else .ok { s with rootDir := some value }
  | .color =>
    if s.color.isSome then .error (.usage (.repeatedOption option))
    else if value = "" then .error (.usage (.valueRequired option))
    else
      match ColorChoice.ofName? value with
      | some choice => .ok { s with color := some choice }
      | none => .error (.usage (.invalidValue option value))

def turnOn (s : Settings) (switch : Switch) : Except Stop Settings :=
  let once (on : Bool) (changed : Settings) : Except Stop Settings :=
    if on then .error (.usage (.repeatedSwitch switch)) else .ok changed
  match switch with
  | .list => once s.list { s with list := true }
  | .sequential => once s.sequential { s with sequential := true }
  | .verbose => once s.verbose { s with verbose := true }
  | .help => .error .help
  | .version => .error .version

end Settings

/-- The settings so far, and the option whose value stands, or should stand, in an argument of its
own and has not been looked at. -/
structure Progress where
  settings : Settings := {}
  pending : Option (Valued × Option String) := none

namespace Progress

def settle (p : Progress) : Except Stop Settings :=
  match p.pending with
  | none => .ok p.settings
  | some (option, none) => .error (.usage (.valueRequired option))
  | some (option, some value) => p.settings.assign option value

def awaitsValue? (p : Progress) : Option Valued :=
  match p.pending with
  | some (option, none) => some option
  | _ => none

def switchOn (p : Progress) (switch : Switch) : Except Stop Progress := do
  let settings ← (← p.settle).turnOn switch
  pure { settings }

def option (p : Progress) (option : Valued) : Option String → Except Stop Progress
  | some value => do
    let settings ← (← p.settle).assign option value
    pure { settings }
  | none => do
    let settings ← p.settle
    pure { settings, pending := some (option, none) }

def long (p : Progress) (name : String) (value : Option String) : Except Stop Progress :=
  match Valued.ofName? name, Switch.ofName? name with
  | some option, _ => p.option option value
  | none, some switch =>
    match value with
    | some value => .error (.usage (.unexpectedValue switch value))
    | none => p.switchOn switch
  | none, none => .error (.usage (.unexpectedArgument ("--" ++ name)))

def letters (p : Progress) : List Char → Except Stop Progress
  | [] => .ok p
  | c :: rest =>
    match Switch.ofLetter? c with
    | some switch => do
      let p ← p.switchOn switch
      p.letters rest
    | none => .error (.usage (.unexpectedArgument (String.ofList ['-', c])))

def plain (p : Progress) (argument : String) : Except Stop Progress :=
  match p.awaitsValue? with
  | some option => .ok { p with pending := some (option, some argument) }
  | none => .error (.usage (.unexpectedArgument argument))

def argument (p : Progress) (text : String) : Except Stop Progress :=
  match text.toList with
  | '-' :: '-' :: name =>
    let value :=
      match name.dropWhile (· != '=') with
      | [] => none
      | _ :: value => some (String.ofList value)
    p.long (String.ofList (name.takeWhile (· != '='))) value
  | '-' :: c :: rest => p.letters (c :: rest)
  | _ => p.plain text

end Progress

def readArguments (p : Progress) : List String → Except Stop Settings
  | [] => p.settle
  | text :: rest =>
    if text = "--" then
      match rest with
      | [] => p.settle
      | extra :: _ => .error (.usage (.unexpectedArgument extra))
    else do
      let p ← p.argument text
      readArguments p rest

def Settings.ofArguments (arguments : List String) : Except Stop Settings :=
  readArguments {} arguments

end Conformance.Cli
