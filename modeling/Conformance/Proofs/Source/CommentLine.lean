import Conformance.Proofs.Check.Target
import Conformance.Proofs.Repeats
import Conformance.Proofs.Source.OpenClause

namespace Conformance

namespace Text

theorem isPrefixOf_dropLast {lead s : List Char} {c : Char} (leads : lead.isPrefixOf (s ++ [c]) = true)
    (other : lead.getLast? ≠ some c) : lead.isPrefixOf s = true := by
  rw [List.isPrefixOf_iff_prefix] at leads ⊢
  rcases List.prefix_concat_iff.mp leads with same | inner
  · exact absurd (by simp [same]) other
  · exact inner

end Text

namespace Source

theorem isCommentLine_dropReturn {line : List Char} (comment : isCommentLine line = true) :
    isCommentLine (Text.dropReturn line) = true := by
  rw [Text.dropReturn]
  split
  · rename_i ends
    obtain ⟨front, rfl⟩ := List.getLast?_eq_some_iff.mp ends
    rw [List.dropLast_concat]
    simp only [isCommentLine, Bool.or_eq_true, Text.startsWith] at comment ⊢
    rw [Text.trimStart, List.dropWhile_append] at comment
    split at comment
    · rw [List.dropWhile_cons_of_pos (by decide)] at comment
      simp at comment
    · refine comment.imp (Or.imp ?_ ?_) ?_ <;> exact fun leads => Text.isPrefixOf_dropLast leads (by decide)
  · exact comment

namespace Import

def lowered (n : Nat) (i : Import) : Import :=
  if i.line ≤ n then i else { i with line := i.line + 1 }

@[simp]
theorem lowered_specifier (n : Nat) (i : Import) : (lowered n i).specifier = i.specifier := by
  unfold lowered
  split <;> rfl

theorem lowered_line (n : Nat) (i : Import) : (lowered n i).line = if i.line ≤ n then i.line else i.line + 1 := by
  unfold lowered
  split <;> rfl

theorem lowered_injective {n : Nat} {i j : Import} (same : lowered n i = lowered n j) : i = j := by
  have text : i.specifier = j.specifier := by simpa using congrArg Import.specifier same
  have number : i.line = j.line := by
    have moved := congrArg Import.line same
    rw [lowered_line, lowered_line] at moved
    split at moved <;> split at moved <;> omega
  obtain ⟨specifier, line⟩ := i
  rw [Import.mk.injEq]
  exact ⟨text, number⟩

theorem length_inspect_lowered {text text' : List Char} {n : Nat} (same : ofText text' = (ofText text).map (lowered n))
    (functions source : Path) (layer : Layer) (file : String) :
    (Check.Layering.inspect functions source layer file text').length =
      (Check.Layering.inspect functions source layer file text).length := by
  rw [Check.Layering.inspect, Check.Layering.inspect, same, List.filterMap_map, List.length_filterMap_eq_countP,
    List.length_filterMap_eq_countP]
  refine List.countP_congr fun i _ => ?_
  have target : Check.Layering.targetOf? functions source (lowered n i) = Check.Layering.targetOf? functions source i := by
    rw [Check.Layering.targetOf?, Check.Layering.targetOf?, isRelative, isRelative, lowered_specifier]
  simp only [Function.comp, target]
  cases Check.Layering.targetOf? functions source i with
  | none => rfl
  | some target => cases allowed : layer.allows target <;> simp [allowed]

/-- A reference at a place of the text, if its specifier is kept and it does not begin on a comment line. -/
def counted? (text : List Char) (x : Nat × Option (List Char)) : Option (Nat × Import) :=
  x.2.bind fun specifier =>
    let i : Import := ⟨String.ofList specifier, (Text.LineIndex.ofText text).lineOf x.1⟩
    if i.onCodeLine (Text.lines text) then some (x.1, i) else none

def countedOf (text : List Char) (form : Pattern) : List (Nat × Import) :=
  (Pattern.sightings 1 form (.ofText text)).filterMap (counted? text)

theorem ofText_eq (text : List Char) : ofText text =
    dropRepeats ((([fromClause, sideEffect, call].flatMap (countedOf text)).mergeSort fun a b => a.1 ≤ b.1).map Prod.snd) := by
  have each : ∀ form, (found text (.ofText text) form).filter (fun x => x.2.onCodeLine (Text.lines text)) = countedOf text form := by
    intro form
    rw [found, List.filter_filterMap, countedOf, Pattern.sightings, List.filterMap_map]
    refine List.filterMap_congr fun m _ => ?_
    simp only [Function.comp, counted?]
    cases m.group? 1 with
    | none => rfl
    | some specifier => simp [Option.filter]
  simp only [ofText, List.filter_flatMap]
  simp only [each]

section Inserted

variable {above line below : List Char}

open Pattern (outsidePiece behindPiece WithPiece)

theorem lines_inserted (ends : EndsLine above.getLast?) (open_ : '\n' ∉ line) :
    Text.lines (above ++ ((line ++ ['\n']) ++ below)) = Text.lines above ++ (Text.dropReturn line :: Text.lines below) := by
  have feed : EndsLine (line ++ ['\n']).getLast? := by simp [EndsLine]
  rw [Text.lines_append ends, Text.lines_append feed, Text.lines_line open_]
  rfl

theorem counted?_inside (ends : EndsLine above.getLast?) (open_ : '\n' ∉ line) (comment : isCommentLine line = true)
    {x : Nat × Option (List Char)}
    (inside : ¬ outsidePiece (Text.byteLength above) (Text.byteLength (line ++ ['\n'])) x = true) :
    counted? (above ++ ((line ++ ['\n']) ++ below)) x = none := by
  obtain ⟨offset, kept⟩ := x
  obtain ⟨k, rfl, short⟩ : ∃ k, offset = Text.byteLength above + k ∧ k < Text.byteLength (line ++ ['\n']) := by
    simp only [outsidePiece, Bool.or_eq_true, decide_eq_true_eq, not_or] at inside
    exact ⟨offset - Text.byteLength above, by omega, by omega⟩
  have feed : EndsLine (line ++ ['\n']).getLast? := by simp [EndsLine]
  cases kept with
  | none => rfl
  | some specifier =>
    simp only [counted?, Option.bind_some, Text.lineOf_append_add ends, (Text.lineOf_append_of_lt feed short below).1,
      Text.lineOf_line open_ short, onCodeLine, lines_inserted ends open_]
    rw [Nat.add_sub_cancel, List.getElem?_append_right (Nat.le_refl _), Nat.sub_self]
    simp [isCommentLine_dropReturn comment]

theorem counted?_above (ends : EndsLine above.getLast?) (open_ : '\n' ∉ line) {offset : Nat} {kept : Option (List Char)}
    (before : offset < Text.byteLength above) : counted? (above ++ ((line ++ ['\n']) ++ below)) (offset, kept) =
      (counted? (above ++ below) (offset, kept)).map fun y => (y.1, lowered (Text.lines above).length y.2) := by
  cases kept with
  | none => rfl
  | some specifier =>
    have here := Text.lineOf_append_of_lt ends before
    have bound := (here below).2
    have first := Text.one_le_lineOf above offset
    have index : (Text.LineIndex.ofText above).lineOf offset - 1 < (Text.lines above).length := by omega
    simp only [counted?, Option.bind_some, (here _).1, onCodeLine, lines_inserted ends open_, Text.lines_append ends,
      List.getElem?_append_left index]
    split <;> simp [lowered, bound]

/-- A reference below the comment line counts as it did, one line further down. -/
theorem counted?_below (ends : EndsLine above.getLast?) (open_ : '\n' ∉ line) (k : Nat) (kept : Option (List Char)) :
    counted? (above ++ ((line ++ ['\n']) ++ below))
        (Text.byteLength above + (Text.byteLength (line ++ ['\n']) + k), kept) =
      (counted? (above ++ below) (Text.byteLength above + k, kept)).map fun y =>
        (Text.byteLength above + (Text.byteLength (line ++ ['\n']) + k), lowered (Text.lines above).length y.2) := by
  cases kept with
  | none => rfl
  | some specifier =>
    have feed : EndsLine (line ++ ['\n']).getLast? := by simp [EndsLine]
    obtain ⟨n, number⟩ : ∃ n, (Text.LineIndex.ofText below).lineOf k = n + 1 :=
      ⟨_, (Text.lineOf_ofText below k).trans (Nat.add_comm _ _)⟩
    have number' : (Text.LineIndex.ofText ((line ++ ['\n']) ++ below)).lineOf (Text.byteLength (line ++ ['\n']) + k) =
        n + 1 + 1 := by
      rw [Text.lineOf_append_add feed, Text.lines_line open_, number]
      exact Nat.add_comm _ _
    have same : (Text.lines above ++ Text.dropReturn line :: Text.lines below)[(Text.lines above).length + (n + 1)]? =
        (Text.lines above ++ Text.lines below)[(Text.lines above).length + n]? := by
      rw [List.getElem?_append_right (Nat.le_add_right _ _), List.getElem?_append_right (Nat.le_add_right _ _),
        Nat.add_sub_cancel_left, Nat.add_sub_cancel_left, List.getElem?_cons_succ]
    have lower : lowered (Text.lines above).length ⟨String.ofList specifier, (Text.lines above).length + (n + 1)⟩ =
        ⟨String.ofList specifier, (Text.lines above).length + (n + 1 + 1)⟩ := if_neg (by dsimp only; omega)
    have index : (Text.lines above).length + (n + 1 + 1) - 1 = (Text.lines above).length + (n + 1) := rfl
    have index' : (Text.lines above).length + (n + 1) - 1 = (Text.lines above).length + n := rfl
    simp only [counted?, Option.bind_some, Text.lineOf_append_add ends, number, number', onCodeLine,
      lines_inserted ends open_, Text.lines_append ends, index, index', same]
    split
    · rw [Option.map_some, lower]
    · rfl

def movedDown (above line : List Char) (y : Nat × Import) : Nat × Import :=
  ((behindPiece (Text.byteLength above) (Text.byteLength (line ++ ['\n'])) y).1, lowered (Text.lines above).length y.2)

theorem counted?_outside (ends : EndsLine above.getLast?) (open_ : '\n' ∉ line) (x : Nat × Option (List Char)) :
    counted? (above ++ ((line ++ ['\n']) ++ below))
        (behindPiece (Text.byteLength above) (Text.byteLength (line ++ ['\n'])) x) =
      (counted? (above ++ below) x).map (movedDown above line) := by
  obtain ⟨offset, kept⟩ := x
  have own : ∀ y ∈ counted? (above ++ below) (offset, kept), y.1 = offset := by
    intro y counted
    cases kept with
    | none => cases counted
    | some specifier =>
      simp only [counted?, Option.bind_some, Option.mem_def] at counted
      split at counted <;> cases counted
      rfl
  by_cases before : offset < Text.byteLength above
  · rw [behindPiece, if_pos before, counted?_above ends open_ before]
    refine Option.map_congr fun y counted => ?_
    simp [movedDown, behindPiece, own y counted, before]
  · obtain ⟨k, rfl⟩ : ∃ k, offset = Text.byteLength above + k := ⟨offset - Text.byteLength above, by omega⟩
    have behind : Text.byteLength (line ++ ['\n']) + (Text.byteLength above + k) =
        Text.byteLength above + (Text.byteLength (line ++ ['\n']) + k) := by omega
    rw [behindPiece, if_neg before, behind, counted?_below ends open_]
    refine Option.map_congr fun y counted => ?_
    simp only [movedDown, behindPiece, own y counted, if_neg before, behind]

theorem countedOf_inserted (ends : EndsLine above.getLast?) (open_ : '\n' ∉ line) (comment : isCommentLine line = true)
    {form : Pattern} (passes : form.passesSome = true) (floats : form.asksForStart = false)
    (settled : form.Settled (line ++ ['\n'])) (carries : form.Carries above (line ++ ['\n']) below) :
    countedOf (above ++ ((line ++ ['\n']) ++ below)) form = (countedOf (above ++ below) form).map (movedDown above line) := by
  have moved := Pattern.withPiece_inserted 1 passes floats ends (by simp [EndsLine]) settled carries
  have outside : ∀ x, counted? (above ++ ((line ++ ['\n']) ++ below)) x =
      if outsidePiece (Text.byteLength above) (Text.byteLength (line ++ ['\n'])) x then
        counted? (above ++ ((line ++ ['\n']) ++ below)) x else none := by
    intro x
    split
    · rfl
    · rename_i inside
      exact counted?_inside ends open_ comment inside
  calc countedOf (above ++ ((line ++ ['\n']) ++ below)) form
      = ((Pattern.sightings 1 form (.ofText (above ++ ((line ++ ['\n']) ++ below)))).filter
          (outsidePiece (Text.byteLength above) (Text.byteLength (line ++ ['\n'])))).filterMap
            (counted? (above ++ ((line ++ ['\n']) ++ below))) := by
        rw [List.filterMap_filter]
        exact List.filterMap_congr fun x _ => outside x
    _ = (Pattern.sightings 1 form (.ofText (above ++ below))).filterMap fun x =>
          (counted? (above ++ below) x).map (movedDown above line) := by
        rw [moved, List.filterMap_map]
        exact List.filterMap_congr fun x _ => counted?_outside ends open_ x
    _ = (countedOf (above ++ below) form).map (movedDown above line) := List.map_filterMap.symm

/-- No reference that begins above or on a line can go on into the next line, but for a clause that is open above
and can pass the line. -/
structure Bounded (above line : List Char) : Prop where
  within : ∀ form ∈ [fromClause, sideEffect, call], form.Settled (line ++ ['\n'])
  sideEffect : sideEffect.Settled above
  call : call.Settled above
  clause : fromClause.Settled above ∨
    clauseEnd.Settled above ∧ (∀ c ∈ line, inClause c = true) ∧ clauseEnd.Settled (line ++ ['\n'])

theorem Bounded.carries (bounded : Bounded above line) (ends : EndsLine above.getLast?) (below : List Char) :
    ∀ form ∈ [fromClause, Import.sideEffect, Import.call], form.Carries above (line ++ ['\n']) below := by
  intro form member
  simp only [List.mem_cons, List.not_mem_nil, or_false] at member
  rcases member with rfl | rfl | rfl
  · rcases bounded.clause with settled | ⟨settled, free, settled'⟩
    · exact settled.carries _ _
    · refine carries_fromClause ends settled (by simp) ?_ settled'
      intro c inside
      rcases List.mem_append.mp inside with own | feed
      · exact free c own
      · obtain rfl := List.mem_singleton.mp feed
        decide
  · exact bounded.sideEffect.carries _ _
  · exact bounded.call.carries _ _

theorem offset_movedDown_le (above line : List Char) (x y : Nat × Import) :
    (movedDown above line x).1 ≤ (movedDown above line y).1 ↔ x.1 ≤ y.1 := by
  simp only [movedDown, behindPiece]
  split <;> split <;> omega

theorem mergeSort_movedDown (above line : List Char) (l : List (Nat × Import)) :
    (l.map (movedDown above line)).mergeSort (fun a b => a.1 ≤ b.1) =
      (l.mergeSort fun a b => a.1 ≤ b.1).map (movedDown above line) :=
  (List.map_mergeSort fun x _ y _ => decide_eq_decide.mpr (offset_movedDown_le above line x y).symm).symm

theorem ofText_inserted (ends : EndsLine above.getLast?) (open_ : '\n' ∉ line) (comment : isCommentLine line = true)
    (bounded : Bounded above line) (below : List Char) : ofText (above ++ ((line ++ ['\n']) ++ below)) =
      (ofText (above ++ below)).map (lowered (Text.lines above).length) := by
  have shapes : ∀ form ∈ [fromClause, sideEffect, call], form.passesSome = true ∧ form.asksForStart = false := by decide
  have each : ∀ form ∈ [fromClause, sideEffect, call], countedOf (above ++ ((line ++ ['\n']) ++ below)) form =
      (countedOf (above ++ below) form).map (movedDown above line) := fun form member =>
    countedOf_inserted ends open_ comment (shapes form member).1 (shapes form member).2 (bounded.within form member)
      (bounded.carries ends below form member)
  rw [ofText_eq, ofText_eq, List.flatMap_congr each, ← List.map_flatMap, mergeSort_movedDown, List.map_map,
    ← dropRepeats_map fun _ _ _ _ same => lowered_injective same, List.map_map]
  rfl

/-- A comment line between the lines of a source leaves its references as they are and moves those below it by one
line, so it hides no violation of the layers. -/
theorem ofText_commented (ends : EndsLine above.getLast?) (open_ : '\n' ∉ line) (comment : isCommentLine line = true)
    (bounded : Bounded above line) (below : List Char) :
    ofText (above ++ line ++ '\n' :: below) = (ofText (above ++ below)).map (lowered (Text.lines above).length) ∧
      ∀ functions source layer file,
        (Check.Layering.inspect functions source layer file (above ++ line ++ '\n' :: below)).length =
          (Check.Layering.inspect functions source layer file (above ++ below)).length := by
  have whole : above ++ line ++ '\n' :: below = above ++ ((line ++ ['\n']) ++ below) := by simp
  have same := ofText_inserted ends open_ comment bounded below
  rw [whole]
  exact ⟨same, length_inspect_lowered same⟩

end Inserted

def openClause : List Char :=
  "import x from '../types/x.js';\nimport \x7b\n  a,\n".toList

theorem openClause_commented : EndsLine openClause.getLast? ∧ '\n' ∉ "  // from a layer below".toList ∧
    isCommentLine "  // from a layer below".toList = true ∧ Bounded openClause "  // from a layer below".toList ∧
    ∀ below, ofText (openClause ++ "  // from a layer below".toList ++ '\n' :: below) =
        (ofText (openClause ++ below)).map (lowered 3) ∧
      ∀ functions source layer file,
        (Check.Layering.inspect functions source layer file
          (openClause ++ "  // from a layer below".toList ++ '\n' :: below)).length =
          (Check.Layering.inspect functions source layer file (openClause ++ below)).length := by
  have source : openClause = _ := String.toList_ofList
  have line : "  // from a layer below".toList = _ := String.toList_ofList
  have ends : EndsLine openClause.getLast? := by decide
  have bounded : Bounded openClause "  // from a layer below".toList := by
    rw [source, line]
    exact ⟨by decide +kernel, by decide +kernel, by decide +kernel, Or.inr (by decide +kernel)⟩
  have three : (Text.lines openClause).length = 3 := by
    rw [source]
    decide +kernel
  refine ⟨ends, by decide, by decide, bounded, fun below => ?_⟩
  rw [← three]
  exact ofText_commented ends (by decide) (by decide) bounded below

theorem ofText_hidden :
    let line := "// import the handler".toList
    let source := "import \x7b x \x7d from '../handlers/b.js';\n".toList
    isCommentLine line = true ∧ ofText source = [⟨"../handlers/b.js", 1⟩] ∧ ofText (line ++ '\n' :: source) = [] ∧
      (Check.Layering.inspect ⟨"/functions"⟩ ⟨"/functions/services/a.ts"⟩ .services "services/a.ts" source).length = 1 ∧
      (Check.Layering.inspect ⟨"/functions"⟩ ⟨"/functions/services/a.ts"⟩ .services "services/a.ts"
        (line ++ '\n' :: source)).length = 0 := by
  intro line source
  have lineChars : line = _ := String.toList_ofList
  have sourceChars : source = _ := String.toList_ofList
  have own : ofText source = [⟨"../handlers/b.js", 1⟩] := by
    rw [sourceChars]
    decide +kernel
  have hidden : ofText (line ++ '\n' :: source) = [] := by
    rw [lineChars, sourceChars]
    decide +kernel
  have target : Check.Layering.targetOf? ⟨"/functions"⟩ ⟨"/functions/services/a.ts"⟩ ⟨"../handlers/b.js", 1⟩ =
      some .handlers := by
    have place : (⟨"/functions/services/a.ts"⟩ : Path) = Path.below ⟨"/functions"⟩ (["services"] ++ ["a.ts"]) := by
      decide +kernel
    have functions : (⟨"/functions"⟩ : Path).components = [.root] ++ ["functions"].map .name := by decide +kernel
    rw [place, Check.Layering.targetOf?_of_plain (Or.inr rfl) functions (by decide) (by decide) (by decide)]
    decide +kernel
  have forbidden : Layer.services.allows .handlers = false := by decide
  refine ⟨by decide, own, hidden, ?_, ?_⟩
  · simp [Check.Layering.inspect, own, target, forbidden]
  · simp [Check.Layering.inspect, hidden]

end Import

end Source

end Conformance
