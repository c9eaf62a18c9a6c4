import Conformance.Endpoint.Entry
import Conformance.Repeats

namespace Conformance.Endpoint

structure HostingRule where
  source : String
  function : String
deriving DecidableEq

namespace HostingRule

def shown (r : HostingRule) : String :=
  s!"{r.source} -> {r.function}"

def le (a b : HostingRule) : Bool :=
  a.source < b.source || (a.source = b.source && a.function ≤ b.function)

def pair (source function : String) : List HostingRule :=
  [⟨source, function⟩, ⟨source ++ "/**", function⟩]

def sourceOf (stageRoot : String) (e : Entry) : String :=
  e.customSource.getD s!"{stageRoot}/{e.route}"

/-- The rules that a manifest asks for: those of the development stage, then those of the
production stage. -/
def expected (entries : List Entry) : List HostingRule :=
  (entries.flatMap fun e => pair (sourceOf "/api/dev" e) e.devName) ++
    (entries.filter (!·.devOnly)).flatMap fun e => pair (sourceOf "/api/prod" e) e.prodName

def missingFrom (other rules : List HostingRule) : List HostingRule :=
  dropRepeats ((rules.filter (!other.contains ·)).mergeSort le)

def firstDifference? :
    Nat → List HostingRule → List HostingRule → Option (Nat × HostingRule × HostingRule)
  | position, a :: as, b :: bs =>
    if a = b then firstDifference? (position + 1) as bs else some (position, a, b)
  | _, _, _ => none

/-- How the actual rules differ from the expected ones: what is missing, what is extra, and the
first place where those in both lists come in another order. -/
def differences (expected actual : List HostingRule) : List String :=
  let missing := (missingFrom actual expected).map fun r => s!"Missing rewrite: {r.shown}"
  let extra := (missingFrom expected actual).map fun r => s!"Extra rewrite: {r.shown}"
  let shared :=
    firstDifference? 0 (expected.filter actual.contains) (actual.filter expected.contains)
  missing ++ extra ++
    match shared with
    | none => []
    | some (position, want, found) =>
      [s!"Rewrite order mismatch at shared position {position}: expected '{want.shown}', found '{found.shown}'"]

end HostingRule

end Conformance.Endpoint
