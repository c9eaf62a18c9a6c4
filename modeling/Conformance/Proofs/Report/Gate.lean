import Conformance.Cli.Run
import Mathlib.Data.List.Forall2

namespace Conformance

namespace CheckResult

def IsConsistent (r : CheckResult) : Prop :=
  r.passed = true ↔ r.violations = []

theorem isConsistent_ofViolations (name : String) (violations : List String) :
    (ofViolations name violations).IsConsistent :=
  List.isEmpty_iff

theorem isConsistent_degraded (name reason : String) : (degraded name reason).IsConsistent :=
  isConsistent_ofViolations name [reason]

variable {results : List CheckResult} (consistent : ∀ r ∈ results, r.IsConsistent)

theorem exitCode_eq_zero_or_one (results : List CheckResult) : exitCode results = 0 ∨ exitCode results = 1 := by
  unfold exitCode
  split
  · exact Or.inr rfl
  · exact Or.inl rfl

include consistent

theorem exitCode_eq_zero_iff : exitCode results = 0 ↔ ∀ r ∈ results, r.violations = [] := by
  have passing : exitCode results = 0 ↔ ∀ r ∈ results, r.passed = true := by
    unfold exitCode
    by_cases failing : results.any (!·.passed) = true
    · rw [if_pos failing]
      simpa using failing
    · rw [if_neg failing]
      simpa using failing
  rw [passing]
  exact forall₂_congr consistent

theorem failures_eq : failures results = (results.filter (·.violations ≠ [])).length := by
  rw [failures, List.countP_eq_length_filter]
  refine congrArg List.length (List.filter_congr fun r member => ?_)
  have own := consistent r member
  by_cases none : r.violations = []
  · rw [own.mpr none]
    simp [none]
  · have failed : r.passed = false := Bool.eq_false_iff.mpr fun passed => none (own.mp passed)
    simp [failed, none]

theorem failures_eq_zero_iff : failures results = 0 ↔ exitCode results = 0 := by
  rw [exitCode_eq_zero_iff consistent, failures_eq consistent, List.length_eq_zero_iff, List.filter_eq_nil_iff]
  simp

omit consistent in
theorem totalViolations_eq (results : List CheckResult) :
    totalViolations results = (results.flatMap violations).length := by
  induction results with
  | nil => rfl
  | cons r results ih =>
    rw [List.flatMap_cons, List.length_append, ← ih]
    rfl

end CheckResult

namespace Check

/-- The result says what the check finds in the repository, or in which fault it ends there. -/
structure Reports (repo : Repository) (check : Check) (r : CheckResult) : Prop where
  name : r.name = check.name
  found : ∀ violations, check.find repo = .ok violations →
    r.violations = violations.map Violation.render ∧ (r.passed = true ↔ violations = [])
  faulty : ∀ fault, check.find repo = .error fault →
    r.violations = [s!"check panicked: {fault.message}"] ∧ r.passed = false

theorem reports_run (repo : Repository) (check : Check) : Reports repo check (run repo check) := by
  cases own : check.find repo with
  | ok violations =>
    have result : run repo check = .ofViolations check.name (violations.map Violation.render) := by rw [run, own]
    rw [result]
    refine ⟨rfl, fun found same => ?_, fun fault same => ?_⟩
    · obtain rfl : violations = found := Except.ok.inj (own.symm.trans same)
      exact ⟨rfl, List.isEmpty_iff.trans List.map_eq_nil_iff⟩
    · cases own.symm.trans same
  | error cause =>
    have result : run repo check = .degraded check.name s!"check panicked: {cause.message}" := by rw [run, own]
    rw [result]
    refine ⟨rfl, fun found same => ?_, fun fault same => ?_⟩
    · cases own.symm.trans same
    · obtain rfl : cause = fault := Except.error.inj (own.symm.trans same)
      exact ⟨rfl, rfl⟩

theorem forall₂_reports (repo : Repository) (checks : List Check) : List.Forall₂ (Reports repo) checks (runAll repo checks) := by
  rw [runAll, List.forall₂_map_right_iff]
  exact List.forall₂_same.mpr fun check _ => reports_run repo check

theorem isConsistent_run (repo : Repository) (check : Check) : (run repo check).IsConsistent := by
  unfold run
  split
  · exact CheckResult.isConsistent_ofViolations _ _
  · exact CheckResult.isConsistent_degraded _ _

theorem isConsistent_of_mem_runAll {repo : Repository} {checks : List Check} {r : CheckResult}
    (member : r ∈ runAll repo checks) : r.IsConsistent := by
  obtain ⟨check, _, rfl⟩ := List.mem_map.mp member
  exact isConsistent_run repo check

theorem map_name_runAll (repo : Repository) (checks : List Check) :
    (runAll repo checks).map CheckResult.name = checks.map Check.name := by
  rw [runAll, List.map_map]
  exact List.map_congr_left fun check _ => (reports_run repo check).name

end Check

namespace Report

def resultsText (colored : Bool) (results : List CheckResult) : String :=
  Piece.renderAll colored (header ++ results.flatMap result)

def summaryText (colored : Bool) (results : List CheckResult) : String :=
  Piece.renderAll colored (summary results)

/-- The text of the advice on the quality report: an empty line and a warning if it is out of date. -/
def adviceText (colored : Bool) (f : Freshness) : String :=
  if f.stale then
    "\n" ++ Piece.render colored ⟨"⚠", some .yellow⟩ ++ " Quality grades freshness: " ++
      Piece.render colored ⟨f.message, some .yellow⟩ ++ "\n"
  else ""

def closing (colored : Bool) (style : Style) (verdict : String) : String :=
  Piece.render colored ⟨"\n--- Summary ---", some .bold⟩ ++ "\n" ++
    Piece.render colored ⟨"\n" ++ verdict ++ "\n", some style⟩ ++ "\n"

def allPassed (n : Nat) : String :=
  s!"All {n}/{n} checks passed."

def someFailed (failed n violations : Nat) : String :=
  s!"{failed}/{n} check(s) failed with {violations} total violation(s)."

theorem renderAll_append (colored : Bool) (front back : List Piece) :
    Piece.renderAll colored (front ++ back) = Piece.renderAll colored front ++ Piece.renderAll colored back := by
  rw [← String.toList_inj]
  simp [Piece.renderAll]

theorem render_eq (colored : Bool) (results : List CheckResult) (f : Freshness) :
    render colored results f = resultsText colored results ++ adviceText colored f ++ summaryText colored results := by
  have advice : Piece.renderAll colored (warning f) = adviceText colored f := by
    rw [← String.toList_inj]
    unfold warning adviceText
    split
    · simp [Piece.renderAll, Piece.render]
    · simp [Piece.renderAll]
  rw [render, pieces, renderAll_append, renderAll_append, advice]
  rfl

theorem summaryText_of_passed {results : List CheckResult} (passed : CheckResult.failures results = 0)
    (colored : Bool) : summaryText colored results = closing colored .green (allPassed results.length) := by
  rw [← String.toList_inj]
  cases colored <;> simp [summaryText, summary, passed, closing, allPassed, Piece.renderAll, Piece.render, toString]

theorem summaryText_of_failed {results : List CheckResult} (failed : CheckResult.failures results ≠ 0)
    (colored : Bool) : summaryText colored results = closing colored .red
      (someFailed (CheckResult.failures results) results.length (CheckResult.totalViolations results)) := by
  rw [← String.toList_inj]
  cases colored <;> simp [summaryText, summary, failed, closing, someFailed, Piece.renderAll, Piece.render, toString]

theorem allPassed_ne_someFailed (n failed m violations : Nat) : allPassed n ≠ someFailed failed m violations := by
  intro same
  have heads := congrArg (fun s => s.toList.head?) same
  cases digits : Nat.toDigits 10 failed with
  | nil => exact Nat.toDigits_ne_nil digits
  | cons c more =>
    have shown := Nat.isDigit_of_mem_toDigits (b := 10) (by decide) (by decide) (digits ▸ List.mem_cons_self)
    obtain rfl : 'A' = c := by simpa [allPassed, someFailed, toString, digits] using heads
    exact absurd shown (by decide)

theorem closing_ne (colored : Bool) (n failed m violations : Nat) :
    closing colored .green (allPassed n) ≠ closing colored .red (someFailed failed m violations) := by
  rw [ne_eq, ← String.toList_inj]
  cases colored with
  | true => simp [closing, Piece.render, Style.escape]
  | false =>
    have other := allPassed_ne_someFailed n failed m violations
    simpa [closing, Piece.render, ← String.toList_inj] using other

end Report

namespace Check

open CheckResult Report

/-- There is one result for each check, in their order and under their names, which says what that check finds or in which
fault it ends, and it passes exactly if it has no violation. The exit code is 0 exactly if no result has one, and exactly if the last words are that all
checks passed; else it is 1 and the last words count the results with violations and the violations. The
advice on the quality report is a part of its own in what is printed, and the exit code does not depend on it. -/
theorem runAll_gates (repo : Repository) (checks : List Check) (colored : Bool) :
    List.Forall₂ (Reports repo) checks (runAll repo checks) ∧
    (runAll repo checks).map CheckResult.name = checks.map Check.name ∧
    (∀ r ∈ runAll repo checks, r.passed = true ↔ r.violations = []) ∧
    (exitCode (runAll repo checks) = 0 ↔ ∀ r ∈ runAll repo checks, r.violations = []) ∧
    (exitCode (runAll repo checks) = 0 ↔
      summaryText colored (runAll repo checks) = closing colored .green (allPassed checks.length)) ∧
    (exitCode (runAll repo checks) ≠ 0 → exitCode (runAll repo checks) = 1 ∧
      summaryText colored (runAll repo checks) = closing colored .red
        (someFailed ((runAll repo checks).filter (·.violations ≠ [])).length checks.length
          ((runAll repo checks).flatMap CheckResult.violations).length)) ∧
    (∀ f, render colored (runAll repo checks) f =
      resultsText colored (runAll repo checks) ++ adviceText colored f ++ summaryText colored (runAll repo checks)) ∧
    ∀ today, Cli.report repo today colored checks =
      { stdout := render colored (runAll repo checks) (Freshness.onDay repo today)
        exitCode := exitCode (runAll repo checks) } := by
  have consistent : ∀ r ∈ runAll repo checks, r.IsConsistent := fun r member => isConsistent_of_mem_runAll member
  have count : (runAll repo checks).length = checks.length := List.length_map ..
  have zero := failures_eq_zero_iff consistent
  have failed : exitCode (runAll repo checks) ≠ 0 → summaryText colored (runAll repo checks) = closing colored .red
      (someFailed ((runAll repo checks).filter (·.violations ≠ [])).length checks.length
        ((runAll repo checks).flatMap CheckResult.violations).length) := by
    intro bad
    rw [summaryText_of_failed (mt zero.mp bad), failures_eq consistent, totalViolations_eq, count]
  refine ⟨forall₂_reports repo checks, map_name_runAll repo checks, consistent, exitCode_eq_zero_iff consistent, ?_, ?_, render_eq colored _,
    fun _ => rfl⟩
  · constructor
    · intro good
      rw [summaryText_of_passed (zero.mpr good), count]
    · intro reads
      by_contra bad
      exact closing_ne colored _ _ _ _ (reads.symm.trans (failed bad))
  · intro bad
    exact ⟨(exitCode_eq_zero_or_one _).resolve_left bad, failed bad⟩

end Check

end Conformance
