import Conformance.Report.Violation
import Conformance.Total

namespace Conformance

structure CheckResult where
  name : String
  passed : Bool
  violations : List String
deriving DecidableEq

namespace CheckResult

def ofViolations (name : String) (violations : List String) : CheckResult :=
  ⟨name, violations.isEmpty, violations⟩

def degraded (name reason : String) : CheckResult :=
  ofViolations name [reason]

def failures (results : List CheckResult) : Nat :=
  results.countP (!·.passed)

def totalViolations (results : List CheckResult) : Nat :=
  total (results.map (·.violations.length))

def exitCode (results : List CheckResult) : Nat :=
  if results.any (!·.passed) then 1 else 0

end CheckResult

structure Freshness where
  stale : Bool
  message : String
deriving DecidableEq

namespace Freshness

def fresh : Freshness := ⟨false, ""⟩

def outdated (message : String) : Freshness := ⟨true, message⟩

end Freshness

end Conformance
