import Conformance.Check.Freshness
import Conformance.Check.Registry
import Conformance.Cli.Arguments
import Conformance.Report.Render
import Conformance.Text.Plain

namespace Conformance.Cli

structure Outcome where
  stdout : String := ""
  stderr : String := ""
  exitCode : Nat
deriving DecidableEq

namespace Outcome

def refusal (message : List Piece) : List Piece :=
  ⟨"error:", some .alarm⟩ :: ⟨" ", none⟩ :: message ++
    [⟨"\n\n", none⟩, ⟨"Usage:", some .heading⟩, ⟨" ", none⟩, ⟨"arch-guard", some .bold⟩,
      ⟨" [OPTIONS]\n\nFor more information, try '", none⟩, ⟨"--help", some .bold⟩, ⟨"'.\n", none⟩]

/-- The outcome of a command line that asks for something impossible. The text is set in styles and
then freed of control sequences, those in the arguments that it quotes included. -/
def refused (message : List Piece) : Outcome where
  stderr := String.ofList (Text.plain (Piece.renderAll true (refusal message)).toList)
  exitCode := 2

end Outcome

def versionText : String := "arch-guard 0.1.0\n"

def helpText : String :=
  "\n".intercalate
    ["Architecture conformance checks for the monorepo", "", "Usage: arch-guard [OPTIONS]", "",
      "Options:",
      "      --root-dir <PATH>  Repository root; discovered from the current directory when omitted",
      "      --only <CHECK_ID>  Run only these checks (repeatable). See --list for ids",
      "      --list             Print every check id and name in run order, then exit",
      "      --color <COLOR>    [default: auto] [possible values: auto, always, never]",
      "      --sequential       Run checks one at a time",
      "  -v, --verbose          Debug logging on stderr",
      "  -h, --help             Print help",
      "  -V, --version          Print version", ""]

def padded (width : Nat) (text : String) : String :=
  text ++ String.ofList (List.replicate (width - text.length) ' ')

def listing : String :=
  String.join (Check.registry.map fun check => s!"{padded 26 check.id} {check.name}\n")

def unknownCheck (id : String) : String :=
  let valid := ", ".intercalate (Check.registry.map Check.id)
  s!"unknown check id '{id}'. Valid ids: {valid}"

def selected (settings : Settings) : Except Check.Unknown (List Check) :=
  if settings.only.isEmpty then .ok Check.registry else Check.select settings.only

def layout (files : FileSystem) (settings : Settings) : Except RootError Layout :=
  match settings.rootDir with
  | some root => Layout.explicit files root
  | none => Layout.discover files (FileSystem.pathTo files.workingDir)

def report (repo : Repository) (today : Date) (colored : Bool) (checks : List Check) : Outcome :=
  let results := Check.runAll repo checks
  { stdout := Report.render colored results (Freshness.onDay repo today)
    exitCode := CheckResult.exitCode results }

def perform (files : FileSystem) (today : Date) (capable : Bool) (settings : Settings) : Outcome :=
  if settings.list then { stdout := listing, exitCode := 0 }
  else
    match selected settings with
    | .error unknown => .refused [⟨unknownCheck unknown.id, none⟩]
    | .ok checks =>
      match layout files settings with
      | .error e => { stderr := s!"Error: {e.message}\n", exitCode := 1 }
      | .ok layout =>
        report ⟨files, layout⟩ today ((settings.color.getD .auto).enabled capable) checks

def run (files : FileSystem) (today : Date) (capable : Bool) (arguments : List String) : Outcome :=
  match Settings.ofArguments arguments with
  | .ok settings => perform files today capable settings
  | .error .help => { stdout := helpText, exitCode := 0 }
  | .error .version => { stdout := versionText, exitCode := 0 }
  | .error (.usage e) => .refused e.pieces

end Conformance.Cli
