import Conformance.Report.Result
import Conformance.Report.Style

namespace Conformance

namespace Report

def header : List Piece :=
  [⟨"\n=== Architecture Enforcement ===\n", some .bold⟩, ⟨"\n", none⟩]

def result (r : CheckResult) : List Piece :=
  if r.passed then
    [⟨"✓", some .green⟩, ⟨s!" {r.name}: ", none⟩, ⟨"clean", some .green⟩, ⟨"\n", none⟩]
  else
    [⟨"✗", some .red⟩, ⟨s!" {r.name}: ", none⟩,
      ⟨s!"{r.violations.length} violation(s)", some .red⟩, ⟨"\n\n", none⟩] ++
    (r.violations.flatMap fun v => [⟨"  ", none⟩, ⟨v, some .dimmed⟩, ⟨"\n", none⟩]) ++
    [⟨"\n", none⟩]

def warning (f : Freshness) : List Piece :=
  if f.stale then
    [⟨"\n", none⟩, ⟨"⚠", some .yellow⟩, ⟨" Quality grades freshness: ", none⟩,
      ⟨f.message, some .yellow⟩, ⟨"\n", none⟩]
  else []

def summary (results : List CheckResult) : List Piece :=
  let failed := CheckResult.failures results
  let total := results.length
  let verdict : Piece :=
    if failed = 0 then ⟨s!"\nAll {total}/{total} checks passed.\n", some .green⟩
    else
      let violations := CheckResult.totalViolations results
      ⟨s!"\n{failed}/{total} check(s) failed with {violations} total violation(s).\n", some .red⟩
  [⟨"\n--- Summary ---", some .bold⟩, ⟨"\n", none⟩, verdict, ⟨"\n", none⟩]

def pieces (results : List CheckResult) (freshness : Freshness) : List Piece :=
  header ++ results.flatMap result ++ warning freshness ++ summary results

def render (colored : Bool) (results : List CheckResult) (freshness : Freshness) : String :=
  Piece.renderAll colored (pieces results freshness)

end Report

end Conformance
