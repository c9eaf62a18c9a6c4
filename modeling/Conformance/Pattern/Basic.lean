import Conformance.Pattern.Cursor

/-!
Patterns of text and the order in which they try their ways to match.

A pattern matches at a place in possibly several ways. They have an order of preference: the first
alternative before the second, the longer repetition before the shorter (or the reverse where a
repetition is asked to be short). `Pattern.run` gives the first way after which a continuation
succeeds, without looking at the others.
-/

namespace Conformance

inductive Pattern where
  /-- Matches without passing a character. -/
  | empty
  /-- Passes one character that the class holds of. -/
  | char (accepts : Char → Bool)
  /-- One pattern and then another. -/
  | seq (first second : Pattern)
  /-- The preferred pattern, or else the other. -/
  | either (preferred other : Pattern)
  /-- The pattern as often as possible. -/
  | many (body : Pattern)
  /-- As many characters of the class as possible. -/
  | most (accepts : Char → Bool)
  /-- As few characters of the class as possible. -/
  | fewest (accepts : Char → Bool)
  /-- The pattern, with the text it matched kept under a number. -/
  | group (number : Nat) (body : Pattern)
  /-- The border of a word. -/
  | wordBorder
  /-- The start of the text. -/
  | textStart
  /-- The end of the text. -/
  | textEnd
  /-- The start of a line. -/
  | lineStart

namespace Pattern

structure Capture where
  number : Nat
  start : Cursor
  stop : Cursor

structure Progress where
  place : Cursor
  captures : List Capture

def Progress.moveTo (s : Progress) (place : Cursor) : Progress :=
  { s with place }

def Progress.keep (s : Progress) (number : Nat) (start : Cursor) : Progress :=
  { s with captures := ⟨number, start, s.place⟩ :: s.captures }

def when {α : Type} (condition : Bool) (k : Progress → Option α) (s : Progress) : Option α :=
  if condition then k s else none

/-- Repeats a step as often as possible, at most `limit` times, and goes on with `k`. A repetition
that passes no character is not taken. -/
def repeatRun {α : Type} (step : (Progress → Option α) → Progress → Option α)
    (k : Progress → Option α) : Nat → Progress → Option α
  | 0, s => k s
  | limit + 1, s =>
    match step (fun t =>
      if s.place.offset < t.place.offset then repeatRun step k limit t else none) s with
    | some found => some found
    | none => k s

def run {α : Type} : Pattern → (Progress → Option α) → Progress → Option α
  | empty, k, s => k s
  | char accepts, k, s =>
    match s.place.rest with
    | [] => none
    | c :: rest => if accepts c then k (s.moveTo (s.place.past c rest)) else none
  | seq first second, k, s => first.run (second.run k) s
  | either preferred other, k, s =>
    match preferred.run k s with
    | some found => some found
    | none => other.run k s
  | many body, k, s => repeatRun body.run k s.place.rest.length s
  | most accepts, k, s =>
    (Cursor.reach accepts s.place.offset s.place.before s.place.rest).reverse.findSome?
      fun place => k (s.moveTo place)
  | fewest accepts, k, s =>
    (Cursor.reach accepts s.place.offset s.place.before s.place.rest).findSome?
      fun place => k (s.moveTo place)
  | group number body, k, s => body.run (fun t => k (t.keep number s.place)) s
  | wordBorder, k, s => when s.place.atWordBorder k s
  | textStart, k, s => when s.place.before.isNone k s
  | textEnd, k, s => when s.place.rest.isEmpty k s
  | lineStart, k, s => when s.place.atLineStart k s

def repeatWays (step : Progress → List Progress) : Nat → Progress → List Progress
  | 0, s => [s]
  | limit + 1, s =>
    ((step s).flatMap fun t =>
      if s.place.offset < t.place.offset then repeatWays step limit t else []) ++ [s]

def ways : Pattern → Progress → List Progress
  | empty, s => [s]
  | char accepts, s =>
    match s.place.rest with
    | [] => []
    | c :: rest => if accepts c then [s.moveTo (s.place.past c rest)] else []
  | seq first second, s => (first.ways s).flatMap second.ways
  | either preferred other, s => preferred.ways s ++ other.ways s
  | many body, s => repeatWays body.ways s.place.rest.length s
  | most accepts, s =>
    (Cursor.reach accepts s.place.offset s.place.before s.place.rest).reverse.map s.moveTo
  | fewest accepts, s =>
    (Cursor.reach accepts s.place.offset s.place.before s.place.rest).map s.moveTo
  | group number body, s => (body.ways s).map (·.keep number s.place)
  | wordBorder, s => if s.place.atWordBorder then [s] else []
  | textStart, s => if s.place.before.isNone then [s] else []
  | textEnd, s => if s.place.rest.isEmpty then [s] else []
  | lineStart, s => if s.place.atLineStart then [s] else []

theorem findSome?_flatMap {α β γ : Type} (xs : List α) (f : α → List β) (k : β → Option γ) :
    (xs.flatMap f).findSome? k = xs.findSome? fun x => (f x).findSome? k := by
  induction xs with
  | nil => rfl
  | cons x xs ih =>
    simp only [List.flatMap_cons, List.findSome?_append, List.findSome?_cons, ih]
    cases (f x).findSome? k <;> rfl

theorem repeatRun_eq_findSome? {α : Type} (step : (Progress → Option α) → Progress → Option α)
    (all : Progress → List Progress)
    (agree : ∀ k s, step k s = (all s).findSome? k) (k : Progress → Option α) (limit : Nat)
    (s : Progress) : repeatRun step k limit s = (repeatWays all limit s).findSome? k := by
  induction limit generalizing s with
  | zero => simp only [repeatRun, repeatWays, List.findSome?_cons, List.findSome?_nil]; cases k s <;> rfl
  | succ limit ih =>
    have inner : (fun t => if s.place.offset < t.place.offset then repeatRun step k limit t else none) =
        fun t => (if s.place.offset < t.place.offset then repeatWays all limit t else []).findSome? k := by
      funext t
      split
      · exact ih t
      · rfl
    rw [repeatRun, repeatWays, List.findSome?_append, findSome?_flatMap, agree, inner]
    cases (all s).findSome? _ <;>
      simp only [List.findSome?_cons, List.findSome?_nil, Option.some_or, Option.none_or]
    cases k s <;> rfl

theorem when_eq_findSome? {α : Type} (condition : Bool) (k : Progress → Option α) (s : Progress) :
    when condition k s = (if condition then [s] else []).findSome? k := by
  cases condition
  · rfl
  · simp only [when, if_true, List.findSome?_cons, List.findSome?_nil]
    cases k s <;> rfl

/-- Running a pattern finds the first of its ways that the continuation accepts. -/
theorem run_eq_findSome?_ways {α : Type} (p : Pattern) (k : Progress → Option α) (s : Progress) :
    p.run k s = (p.ways s).findSome? k := by
  induction p generalizing k s with
  | empty => simp only [run, ways, List.findSome?_cons, List.findSome?_nil]; cases k s <;> rfl
  | char accepts =>
    simp only [run, ways]
    split
    · rfl
    · split
      · simp only [List.findSome?_cons, List.findSome?_nil]
        split <;> simp_all
      · rfl
  | seq first second ih₁ ih₂ =>
    rw [run, ways, findSome?_flatMap, ih₁]
    congr 1
    funext t
    exact ih₂ k t
  | either preferred other ih₁ ih₂ =>
    rw [run, ways, List.findSome?_append, ← ih₁, ← ih₂]
    cases preferred.run k s <;> rfl
  | many body ih => exact repeatRun_eq_findSome? body.run body.ways ih k _ s
  | most accepts => rw [run, ways, List.findSome?_map]; rfl
  | fewest accepts => rw [run, ways, List.findSome?_map]; rfl
  | group number body ih => rw [run, ways, List.findSome?_map, ih]; rfl
  | wordBorder => exact when_eq_findSome? _ k s
  | textStart => exact when_eq_findSome? _ k s
  | textEnd => exact when_eq_findSome? _ k s
  | lineStart => exact when_eq_findSome? _ k s

end Pattern

end Conformance
