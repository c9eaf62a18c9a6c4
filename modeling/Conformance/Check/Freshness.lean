import Conformance.Calendar
import Conformance.Check.Debt

namespace Conformance.Freshness

def lastUpdated : Pattern :=
  let digit := Pattern.char Text.isDecimal
  let hyphen := Pattern.text "-"
  .chain [.text "Last updated:", .blanks,
    .group 1 (.chain [digit, digit, digit, digit, hyphen, digit, digit, hyphen, digit, digit])]

def maxAge : Int := 7

def hint : String := "Run `npm run update:quality-grades` to refresh."

def ofText (text : List Char) (today : Date) : Freshness :=
  match (lastUpdated.find? text).bind (·.group? 1) with
  | none => outdated s!"{qualityReport} has no \"Last updated\" date. {hint}"
  | some written =>
    let shown := String.ofList written
    match Date.parse written with
    | .error e => outdated s!"Invalid date '{shown}' in {qualityReport}: {e.message}"
    | .ok updated =>
      let age := updated.daysUntil today
      if age > maxAge then
        outdated s!"{qualityReport} was last updated {age} days ago ({shown}). {hint}"
      else fresh

def onDay (repo : Repository) (today : Date) : Freshness :=
  let path := repo.layout.root / qualityReport
  if !repo.files.isFile path then
    outdated s!"{qualityReport} does not exist. Run `npm run update:quality-grades` to generate it."
  else
    match repo.files.read path with
    | .error cause => outdated s!"Failed to read {qualityReport}: {cause}"
    | .ok text => ofText text today

end Conformance.Freshness
