import Conformance.Proofs.Manifest.Bounds
import Conformance.Proofs.Manifest.Location
import Conformance.Proofs.Pattern.LineInFront
import Conformance.Proofs.Pattern.Sightings

namespace Conformance.Endpoint

open Text

def ManifestError.moved (n : Nat) : ManifestError → ManifestError
  | unbalanced offset => unbalanced (n + offset)
  | other => other

namespace Manifest

section Further

variable (n : Nat) (code : List (Nat × Char))

theorem fromBracket_further : fromBracket (further n code) = further n (fromBracket code) := by
  rw [fromBracket, fromBracket, further, further, List.dropWhile_map, ← List.map_drop, List.dropWhile_map]
  rfl

theorem closingBracket?_further (depth : Nat) :
    closingBracket? depth (further n code) = (closingBracket? depth code).map (n + ·) := by
  induction code generalizing depth with
  | nil => rfl
  | cons x code ih =>
    obtain ⟨at_, c⟩ := x
    rw [further, List.map_cons, ← further, closingBracket?, closingBracket?, ih, ih, ih]
    split
    · rfl
    · split
      · split <;> rfl
      · rfl

end Further

/-- A line in front of a text makes no difference to where the array of a manifest begins. -/
inductive Undisturbed (line text : List Char) : Prop where
  /-- No declaration begins in the line. -/
  | elsewhere (unmentioned : declaration.beginsIn line text = false)
  /-- From the first declaration up to the end of the one in the text there is no equals sign in the code, and no
  literal or comment is left open. -/
  | mentioned {m own : Pattern.Match} {passed left : List Char} (mention : declaration.find? (line ++ text) = some m)
    (declared : declaration.find? text = some own) (passes : m.stop.rest = passed ++ own.stop.rest)
    (inert : Inert (· == '=') passed left)

section Behind

variable {line text : List Char}

theorem declared?_behind (ends : EndsLine line.getLast?) (undisturbed : Undisturbed line text) :
    (declared? (line ++ text)).map fromBracket =
      (declared? text).map fun code => further (byteLength line) (fromBracket code) := by
  cases undisturbed with
  | elsewhere unmentioned =>
    rw [declared?, declared?, Pattern.find?_behind ends (by decide) unmentioned]
    cases declaration.find? text with
    | none => rfl
    | some m => exact congrArg some ((congrArg fromBracket (codeFrom_further ..)).trans (fromBracket_further ..))
  | @mentioned m own passed left mention declared passes inert =>
    have follows := Pattern.follows_of_find? mention
    have follows' := Pattern.follows_of_find? declared
    have total := Cursor.IsAhead.offset_add_byteLength (Cursor.Leads.trans follows.ahead follows.isAhead)
    have total' := Cursor.IsAhead.offset_add_byteLength (Cursor.Leads.trans follows'.ahead follows'.isAhead)
    have behind : m.stop.offset + byteLength passed = byteLength line + own.stop.offset := by
      rw [passes] at total
      simp only [Cursor.ofText, byteLength_append] at total total'
      omega
    obtain ⟨code, free, split⟩ := inert.codeFrom m.stop.offset
    have noEquals : ∀ x ∈ code, (x.2 != '=') = true := fun x member => by simpa using free x member
    rw [declared?, declared?, mention, declared, Option.map_some, Option.map_some, Option.map_some, Option.map_some, passes,
      split, behind, codeFrom_further, ← fromBracket_further, fromBracket, List.dropWhile_append_of_pos noEquals]
    rfl

/-- The array of a text with an undisturbing line in front has its bounds as many bytes further on. -/
theorem arrayBounds_behind (ends : EndsLine line.getLast?) (undisturbed : Undisturbed line text) :
    arrayBounds (line ++ text) = ((arrayBounds text).mapError (ManifestError.moved (byteLength line))).map
      fun bounds => (byteLength line + bounds.1, byteLength line + bounds.2) := by
  have first : ((declared? (line ++ text)).map fromBracket).getD [] =
      further (byteLength line) (((declared? text).map fromBracket).getD []) := by
    rw [declared?_behind ends undisturbed]
    cases declared? text <;> rfl
  rw [arrayBounds_eq, arrayBounds_eq, first]
  cases ((declared? text).map fromBracket).getD [] with
  | nil => rfl
  | cons x rest =>
    obtain ⟨open_, c⟩ := x
    have closing := closingBracket?_further (byteLength line) ((open_, c) :: rest) 0
    rw [further, List.map_cons] at closing ⊢
    rw [bracketBounds, bracketBounds, closing]
    cases closingBracket? 0 ((open_, c) :: rest) <;> rfl

theorem slice?_behind {start stop : Nat} {part : List Char} (line : List Char) (found : slice? text start stop = some part) :
    slice? (line ++ text) (byteLength line + start) (byteLength line + stop) = some part := by
  obtain ⟨front, back, rfl, rfl, rfl⟩ := slice?_eq_some_iff.mp found
  exact slice?_eq_some_iff.mpr ⟨line ++ front, back, by simp, by simp, by simp [Nat.add_assoc]⟩

theorem run_parse_of_error {cause : ManifestError} (found : arrayBounds text = .error cause) :
    (parse text).run = .ok (.error cause) := by
  unfold parse arrayText
  rw [found]
  rfl

theorem parse_behind (ends : EndsLine line.getLast?) (undisturbed : Undisturbed line text) :
    (parse (line ++ text)).run =
      (parse text).run.map (Except.mapError (ManifestError.moved (byteLength line))) := by
  have bounds := arrayBounds_behind ends undisturbed
  cases found : arrayBounds text with
  | error cause =>
    rw [found] at bounds
    rw [run_parse_of_error found, run_parse_of_error bounds]
    rfl
  | ok place =>
    rw [found] at bounds
    obtain ⟨array, part⟩ := exists_array found
    rw [run_parse (run_arrayText_of_slice found part), run_parse (run_arrayText_of_slice bounds (slice?_behind line part))]
    cases (objects array).isEmpty <;> rfl

end Behind

/-- A comment line in front of a manifest makes no difference to what is read, if it leads to no other array: then the
byte at which an open bracket is reported is as many bytes further on. -/
theorem parse_commentLine (body text : List Char) (undisturbed : Undisturbed (commentLine body) text) :
    (parse (commentLine body ++ text)).run =
      (parse text).run.map (Except.mapError (ManifestError.moved (byteLength (commentLine body)))) :=
  parse_behind (endsLine_commentLine body) undisturbed

theorem parse_mentioned :
    let body := " export const ENDPOINT_MANIFEST lists every endpoint".toList
    let text := "export const ENDPOINT_MANIFEST = [\x7b handlerFile: 'a' \x7d;".toList
    Undisturbed (commentLine body) text ∧ (parse text).run = .ok (.error (.unbalanced 33)) ∧
      (parse (commentLine body ++ text)).run = .ok (.error (.unbalanced 88)) := by
  intro body text
  let words := " lists every endpoint\nexport const ENDPOINT_MANIFEST".toList
  have bodyChars : body = _ := String.toList_ofList
  have textChars : text = _ := String.toList_ofList
  have wordsChars : words = _ := String.toList_ofList
  have inert : Inert (· == '=') words words := by
    rw [wordsChars]
    exact .word (by decide) (by decide)
  have undisturbed : Undisturbed (commentLine body) text := by
    rw [wordsChars] at inert
    rw [bodyChars, textChars]
    exact .mentioned rfl rfl rfl inert
  have own : (parse text).run = .ok (.error (.unbalanced 33)) := by
    rw [textChars]
    decide +kernel
  have front : byteLength (commentLine body) = 55 := by
    rw [bodyChars]
    decide +kernel
  refine ⟨undisturbed, own, ?_⟩
  rw [parse_commentLine body text undisturbed, own, front]
  rfl

theorem parse_declaredInComment :
    let body := " export const ENDPOINT_MANIFEST = [];".toList
    let text := "export const ENDPOINT_MANIFEST = [\x7b routePath: 'a', handlerFile: 'a' \x7d];".toList
    (parse text).run = .ok (.ok [.of "a" "a"]) ∧ (parse (commentLine body ++ text)).run = .ok (.error .empty) := by
  intro body text
  have bodyChars : body = _ := String.toList_ofList
  have textChars : text = _ := String.toList_ofList
  rw [bodyChars, textChars]
  decide +kernel

end Manifest

end Conformance.Endpoint
