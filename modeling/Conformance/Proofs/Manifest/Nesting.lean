import Conformance.Proofs.Check.Faults
import Mathlib.Data.List.Infix

namespace Conformance.Endpoint.Manifest

def codeOf (s : List Char) : List Char :=
  (codeFrom 0 s).map Prod.snd

def depthOf (s : List Char) : Int :=
  s.count '\x7b' - s.count '\x7d'

/-- No brace closes where none is open, and none is left open. -/
structure Balanced (s : List Char) : Prop where
  nonneg : ∀ front, front <+: s → 0 ≤ depthOf front
  zero : depthOf s = 0

def outermost (depth : Int) : List Char → Nat
  | [] => 0
  | c :: s =>
    if c = '\x7b' then (if depth = 0 then 1 else 0) + outermost (depth + 1) s
    else if c = '\x7d' then outermost (depth - 1) s
    else outermost depth s

/-- How many braces are open behind a text, when `depth` are open before it. A closing brace where none is
open is passed over. -/
def leftOpen (depth : Nat) : List Char → Nat
  | [] => depth
  | c :: s =>
    if c = '\x7b' then leftOpen (depth + 1) s
    else if c = '\x7d' then leftOpen (depth - 1) s
    else leftOpen depth s

/-- How many braces open where no other is open, when `depth` are open before the text. -/
def begun (depth : Nat) : List Char → Nat
  | [] => 0
  | c :: s =>
    if c = '\x7b' then (if depth = 0 then 1 else 0) + begun (depth + 1) s
    else if c = '\x7d' then begun (depth - 1) s
    else begun depth s

instance (s : List Char) : Decidable (Balanced s) :=
  decidable_of_iff ((∀ front ∈ s.inits, 0 ≤ depthOf front) ∧ depthOf s = 0)
    ⟨fun ⟨nonneg, zero⟩ => ⟨fun front begins => nonneg front ((List.mem_inits front s).mpr begins), zero⟩,
      fun ⟨nonneg, zero⟩ => ⟨fun front member => nonneg front ((List.mem_inits front s).mp member), zero⟩⟩

/-- The objects that are begun are those that are read and the one that is left open. -/
theorem length_blockBounds (depth start : Nat) (code : List (Nat × Char)) :
    (blockBounds depth start code).length + (if leftOpen depth (code.map Prod.snd) = 0 then 0 else 1) =
      begun depth (code.map Prod.snd) + if depth = 0 then 0 else 1 := by
  induction code generalizing depth start with
  | nil => simp [blockBounds, leftOpen, begun]
  | cons x code ih =>
    obtain ⟨at_, c⟩ := x
    rw [blockBounds.eq_def, List.map_cons, leftOpen, begun]
    dsimp only
    by_cases opens : c = '\x7b'
    · have inner := ih (depth + 1) (if depth = 0 then at_ else start)
      rw [if_neg (Nat.succ_ne_zero depth)] at inner
      rw [if_pos opens, if_pos opens, if_pos opens, inner]
      cases depth with
      | zero => exact Nat.add_comm _ _
      | succ depth => simp
    · rw [if_neg opens, if_neg opens, if_neg opens]
      by_cases closes : c = '\x7d'
      · rw [if_pos closes, if_pos closes, if_pos closes]
        cases depth with
        | zero => exact ih 0 start
        | succ depth =>
          cases depth with
          | zero =>
            have behind := ih 0 start
            rw [if_pos rfl] at behind
            simp only [List.length_cons, Nat.zero_add, Nat.sub_self, if_neg Nat.one_ne_zero]
            omega
          | succ depth => exact ih (depth + 1) start
      · rw [if_neg closes, if_neg closes, if_neg closes]
        exact ih depth start

theorem depthOf_cons (c : Char) (s : List Char) :
    depthOf (c :: s) = (if c = '\x7b' then 1 else if c = '\x7d' then -1 else 0) + depthOf s := by
  by_cases opens : c = '\x7b'
  · subst opens
    simp [depthOf]
    omega
  · by_cases closes : c = '\x7d'
    · subst closes
      simp [depthOf]
      omega
    · simp [depthOf, opens, closes]

/-- As long as no brace closes where none is open, the open braces are counted by the depth. -/
theorem leftOpen_eq (depth : Nat) {s : List Char} (nonneg : ∀ front, front <+: s → 0 ≤ depth + depthOf front) :
    (leftOpen depth s : Int) = depth + depthOf s ∧ begun depth s = outermost depth s := by
  induction s generalizing depth with
  | nil => simp [leftOpen, begun, outermost, depthOf]
  | cons c s ih =>
    have later : ∀ front, front <+: s →
        0 ≤ (depth : Int) + ((if c = '\x7b' then 1 else if c = '\x7d' then -1 else 0) + depthOf front) := by
      intro front begins
      rw [← depthOf_cons]
      exact nonneg (c :: front) (List.cons_prefix_cons.mpr ⟨rfl, begins⟩)
    rw [leftOpen, begun, outermost, depthOf_cons]
    by_cases opens : c = '\x7b'
    · simp only [if_pos opens] at later ⊢
      obtain ⟨left, counts⟩ := ih (depth + 1) fun front begins => by
        have := later front begins
        push_cast
        omega
      rw [left, counts]
      refine ⟨by push_cast; omega, by push_cast; simp⟩
    · simp only [if_neg opens] at later ⊢
      by_cases closes : c = '\x7d'
      · simp only [if_pos closes] at later ⊢
        -- the depth in front of a closing brace is positive
        have here := later [] List.nil_prefix
        rw [show depthOf [] = 0 from rfl] at here
        obtain ⟨n, rfl⟩ : ∃ n, depth = n + 1 := ⟨depth - 1, by omega⟩
        obtain ⟨left, counts⟩ := ih n fun front begins => by
          have := later front begins
          push_cast at this
          omega
        rw [Nat.add_sub_cancel, left, counts]
        push_cast
        refine ⟨by omega, by rw [Int.add_sub_cancel]⟩
      · simp only [if_neg closes] at later ⊢
        obtain ⟨left, counts⟩ := ih depth fun front begins => by
          have := later front begins
          omega
        rw [left, counts]
        exact ⟨by omega, rfl⟩

theorem Balanced.leftOpen_eq_zero {s : List Char} (balanced : Balanced s) : leftOpen 0 s = 0 := by
  have left := (leftOpen_eq 0 fun front begins => by simpa using balanced.nonneg front begins).1
  rw [balanced.zero] at left
  exact_mod_cast left

theorem Balanced.begun_eq {s : List Char} (balanced : Balanced s) : begun 0 s = outermost 0 s :=
  (leftOpen_eq 0 fun front begins => by simpa using balanced.nonneg front begins).2

/-- All the objects of an array are read, but for one that is left open; if there are none, the array counts as
empty. In an array of balanced braces there is one object for each brace that opens at depth zero. -/
theorem parse_objects {text array : List Char} (found : (arrayText text).run = .ok (.ok array)) : ∃ read,
    read + (if leftOpen 0 (codeOf array) = 0 then 0 else 1) = begun 0 (codeOf array) ∧
      (read = 0 → (parse text).run = .ok (.error .empty)) ∧
      (read ≠ 0 → ∃ entries, (parse text).run = .ok (.ok entries) ∧ entries.length = read) ∧
      (Balanced (codeOf array) → read = outermost 0 (codeOf array)) := by
  have counts : (objects array).length + (if leftOpen 0 (codeOf array) = 0 then 0 else 1) = begun 0 (codeOf array) := by
    rw [objects, List.length_map]
    exact length_blockBounds 0 0 (codeFrom 0 array)
  refine ⟨(objects array).length, counts, ?_, ?_, ?_⟩
  · intro none
    rw [run_parse found, List.length_eq_zero_iff.mp none]
    rfl
  · intro some
    have nonempty : (objects array).isEmpty = false := by
      rw [List.isEmpty_eq_false_iff]
      exact fun empty => some (List.length_eq_zero_iff.mpr empty)
    refine ⟨_, by rw [run_parse found, nonempty]; rfl, ?_⟩
    rw [List.length_map]
  · intro balanced
    rw [balanced.leftOpen_eq_zero, if_pos rfl, balanced.begun_eq] at counts
    exact counts

/-- A manifest of two objects, the first with a nested object and a brace in a text. -/
def nestedManifest : List Char :=
  "export const ENDPOINT_MANIFEST = [\x7b a: \x7b b: '\x7d' \x7d \x7d, /* \x7b */ \x7b \x7d];".toList

theorem nestedManifest_objects : Balanced (codeOf "[\x7b a: \x7b b: '\x7d' \x7d \x7d, /* \x7b */ \x7b \x7d]".toList) ∧
    ∃ entries, (parse nestedManifest).run = .ok (.ok entries) ∧ entries.length = 2 := by
  have whole : nestedManifest = _ := String.toList_ofList
  have inner : "[\x7b a: \x7b b: '\x7d' \x7d \x7d, /* \x7b */ \x7b \x7d]".toList = _ := String.toList_ofList
  have found : (arrayText nestedManifest).run =
      .ok (.ok "[\x7b a: \x7b b: '\x7d' \x7d \x7d, /* \x7b */ \x7b \x7d]".toList) := by
    rw [whole, inner]
    decide +kernel
  have balanced : Balanced (codeOf "[\x7b a: \x7b b: '\x7d' \x7d \x7d, /* \x7b */ \x7b \x7d]".toList) := by
    rw [inner]
    decide +kernel
  obtain ⟨read, _, _, some, one⟩ := parse_objects found
  have two : read = 2 := by
    rw [one balanced, inner]
    decide +kernel
  subst two
  exact ⟨balanced, some (by decide)⟩

theorem parse_unclosed :
    let text := "export const ENDPOINT_MANIFEST = [\x7b handlerFile: 'a' \x7d, \x7b handlerFile: 'b' ];".toList
    (parse text).run = .ok (.ok [.of "" "a"]) ∧
      ∃ array, (arrayText text).run = .ok (.ok array) ∧ ¬ Balanced (codeOf array) ∧ outermost 0 (codeOf array) = 2 := by
  intro text
  have whole : text = _ := String.toList_ofList
  have inner : "[\x7b handlerFile: 'a' \x7d, \x7b handlerFile: 'b' ]".toList = _ := String.toList_ofList
  refine ⟨?_, "[\x7b handlerFile: 'a' \x7d, \x7b handlerFile: 'b' ]".toList, ?_⟩
  · rw [whole]
    decide +kernel
  · rw [whole, inner]
    decide +kernel

end Conformance.Endpoint.Manifest
