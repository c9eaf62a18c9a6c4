import Conformance.Check.App
import Conformance.Proofs.Source.CommentLine
import Conformance.Proofs.Text.Parts

namespace Conformance

namespace Pattern

theorem occursIn_either (p q : Pattern) (s : List Char) : (either p q).occursIn s = (p.occursIn s || q.occursIn s) := by
  apply Bool.eq_iff_iff.mpr
  rw [Bool.or_eq_true, occursIn_iff, occursIn_iff, occursIn_iff]
  simp only [ways, ne_eq, List.append_eq_nil_iff, not_and_or, and_or_left, exists_or]

theorem occursIn_text (word : String) (s : List Char) : (text word).occursIn s = Text.contains s word := by
  apply Bool.eq_iff_iff.mpr
  rw [occursIn_iff, Text.contains_iff]
  constructor
  · rintro ⟨v, u, rfl, way⟩
    obtain ⟨m, member⟩ := List.exists_mem_of_ne_nil _ way
    obtain ⟨back, ahead, _⟩ := mem_ways_text.mp member
    have ahead : u = word.toList ++ back := ahead
    exact ⟨v, back, by rw [ahead, List.append_assoc]⟩
  · rintro ⟨v, back, rfl⟩
    refine ⟨v, word.toList ++ back, List.append_assoc .., ?_⟩
    exact List.ne_nil_of_mem (mem_ways_text.mpr ⟨back, rfl, rfl⟩)

end Pattern

namespace Check.App

open Pattern Text

def namesIn (names : List String) (line : List Char) : List String :=
  if Source.isCommentLine line then [] else names.filter fun name => (wholeWord name).occursIn (codeOf line)

def namedFrom (names : List String) (k : Nat) : List (List Char) → List (Nat × String)
  | [] => []
  | line :: below =>
    if previewLine.occursIn line then []
    else (namesIn names line).map (k + 1, ·) ++ namedFrom names (k + 1) below

def beginsPreviews (lines : List (List Char)) : Bool :=
  lines.any previewLine.occursIn

variable {names : List String} {k : Nat} {front back : List (List Char)} {line : List Char}

theorem beginsPreviews_cons (line : List Char) (below : List (List Char)) :
    beginsPreviews (line :: below) = (previewLine.occursIn line || beginsPreviews below) := rfl

theorem references_eq (names : List String) (text : List Char) : references names text = namedFrom names 0 (lines text) := by
  suffices onward : ∀ (ls : List (List Char)) (k : Nat),
      ((((ls.zipIdx k).map fun x => (x.2 + 1, x.1)).takeWhile fun x => !previewLine.occursIn x.2).filter
        fun x => !Source.isCommentLine x.2).flatMap (fun x =>
          (names.filter fun name => (wholeWord name).occursIn (codeOf x.2)).map fun name => (x.1, name)) =
        namedFrom names k ls from onward (lines text) 0
  intro ls
  induction ls with
  | nil => exact fun _ => rfl
  | cons line below ih =>
    intro k
    have rest := ih (k + 1)
    rw [List.zipIdx_cons, List.map_cons, namedFrom]
    by_cases marked : previewLine.occursIn line = true
    · simp [marked]
    · by_cases comment : Source.isCommentLine line = true
      · simp [marked, comment, namesIn, rest]
      · simp [marked, comment, namesIn, rest]

theorem namedFrom_append (names : List String) (k : Nat) (front back : List (List Char)) :
    namedFrom names k (front ++ back) =
      namedFrom names k front ++ if beginsPreviews front then [] else namedFrom names (k + front.length) back := by
  induction front generalizing k with
  | nil => rfl
  | cons line front ih =>
    rw [List.cons_append, namedFrom, namedFrom, ih, beginsPreviews_cons, List.length_cons]
    by_cases marked : previewLine.occursIn line = true
    · simp [marked]
    · have number : k + 1 + front.length = k + (front.length + 1) := by omega
      simp [marked, number]

theorem namedFrom_succ (names : List String) (k : Nat) (ls : List (List Char)) :
    namedFrom names (k + 1) ls = (namedFrom names k ls).map fun x => (x.1 + 1, x.2) := by
  induction ls generalizing k with
  | nil => rfl
  | cons line below ih =>
    rw [namedFrom, namedFrom, ih]
    split
    · rfl
    · rw [List.map_append, List.map_map]
      rfl

theorem bounds_of_mem_namedFrom {ls : List (List Char)} {x : Nat × String} (member : x ∈ namedFrom names k ls) :
    k < x.1 ∧ x.1 ≤ k + ls.length := by
  induction ls generalizing k with
  | nil => cases member
  | cons line below ih =>
    rw [namedFrom] at member
    rw [List.length_cons]
    split at member
    · cases member
    · rcases List.mem_append.mp member with here | later
      · obtain ⟨name, _, rfl⟩ := List.mem_map.mp here
        dsimp only
        omega
      · have bounds := ih later
        omega

def lowered (n : Nat) (x : Nat × String) : Nat × String :=
  if x.1 ≤ n then x else (x.1 + 1, x.2)

@[simp] theorem lowered_snd (n : Nat) (x : Nat × String) : (lowered n x).2 = x.2 := by
  unfold lowered
  split <;> rfl

/-- A comment among the lines names nothing, but the previews may begin there. -/
theorem namedFrom_insert (names : List String) (front back : List (List Char)) (comment : Source.isCommentLine line = true) :
    namedFrom names 0 (front ++ line :: back) =
      if previewLine.occursIn line && !beginsPreviews front then
        (namedFrom names 0 (front ++ back)).filter (·.1 ≤ front.length)
      else (namedFrom names 0 (front ++ back)).map (lowered front.length) := by
  have above : ∀ x ∈ namedFrom names 0 front, x.1 ≤ front.length := by
    intro x member
    have bounds := bounds_of_mem_namedFrom member
    omega
  have below : ∀ x ∈ namedFrom names front.length back, ¬ x.1 ≤ front.length := by
    intro x member
    have bounds := bounds_of_mem_namedFrom member
    omega
  have kept : (namedFrom names 0 front).map (lowered front.length) = namedFrom names 0 front := by
    refine (List.map_congr_left fun x member => ?_).trans (List.map_id _)
    exact if_pos (above x member)
  have moved : (namedFrom names front.length back).map (lowered front.length) = namedFrom names (front.length + 1) back := by
    rw [namedFrom_succ]
    apply List.map_congr_left
    intro x member
    exact if_neg (below x member)
  have silent : namesIn names line = [] := if_pos comment
  rw [namedFrom_append, namedFrom_append, namedFrom, silent, Nat.zero_add, List.map_nil, List.nil_append]
  cases begun : beginsPreviews front with
  | true => simp [kept]
  | false =>
    cases marked : previewLine.occursIn line with
    | true =>
      have first : (namedFrom names 0 front).filter (·.1 ≤ front.length) = namedFrom names 0 front := by
        apply List.filter_eq_self.mpr
        simpa using above
      have second : (namedFrom names front.length back).filter (·.1 ≤ front.length) = [] := by
        apply List.filter_eq_nil_iff.mpr
        simpa using below
      simp [List.filter_append, first, second]
    | false => simp [kept, moved]

/-- The previews begin on a comment line exactly if it mentions them. -/
theorem occursIn_previewLine (comment : Source.isCommentLine line = true) :
    previewLine.occursIn line = contains line "_Previews:" := by
  have none : (seq textStart (text "#Preview")).occursIn line = false := by
    apply Bool.eq_false_iff.mpr
    intro occurs
    obtain ⟨v, u, rfl, way⟩ := occursIn_iff.mp occurs
    obtain ⟨m, member⟩ := List.exists_mem_of_ne_nil _ way
    obtain ⟨t, start, word⟩ := mem_ways_seq.mp member
    obtain ⟨first, rfl⟩ := mem_ways_textStart.mp start
    obtain ⟨back, ahead, _⟩ := mem_ways_text.mp word
    have first : v = [] := by simpa [Cursor.beyond, Cursor.ofText] using first
    have ahead : u = "#Preview".toList ++ back := ahead
    rw [first, ahead] at comment
    cases comment
  rw [previewLine, occursIn_either, occursIn_text, none, Bool.false_or]

/-- A comment line leaves the types that a source names as they are and moves those below it by one line, unless it is
the first line to mention the previews: then the types below are left out. So all types are still named exactly if the
line does not mention the previews, or they begin above it, or no type is named below it. -/
theorem references_commented (names : List String) {above line : List Char} (ends : EndsLine above.getLast?)
    (open_ : '\n' ∉ line) (comment : Source.isCommentLine line = true) (below : List Char) :
    references names (above ++ line ++ '\n' :: below) =
      (if contains line "_Previews:" && !beginsPreviews (lines above) then
        (references names (above ++ below)).filter (·.1 ≤ (lines above).length)
      else (references names (above ++ below)).map (lowered (lines above).length)) ∧
    ((references names (above ++ line ++ '\n' :: below)).map Prod.snd = (references names (above ++ below)).map Prod.snd ↔
      contains line "_Previews:" = false ∨ beginsPreviews (lines above) = true ∨
        ∀ x ∈ references names (above ++ below), x.1 ≤ (lines above).length) := by
  have whole : above ++ line ++ '\n' :: below = above ++ ((line ++ ['\n']) ++ below) := by simp
  have comment' := Source.isCommentLine_dropReturn comment
  have marked : previewLine.occursIn (dropReturn line) = contains line "_Previews:" := by
    rw [occursIn_previewLine comment', contains_dropReturn (by decide)]
  have inserted := namedFrom_insert names (lines above) (lines below) comment'
  rw [marked, ← Source.Import.lines_inserted ends open_, ← lines_append ends, ← references_eq, ← references_eq,
    ← whole] at inserted
  refine ⟨inserted, ?_⟩
  rw [inserted]
  cases contains line "_Previews:" with
  | false => simp
  | true =>
    cases beginsPreviews (lines above) with
    | true => simp
    | false =>
      simp only [Bool.not_false, Bool.and_self, if_true, Bool.true_eq_false, Bool.false_eq_true, false_or]
      constructor
      · intro same x member
        have count := congrArg List.length same
        rw [List.length_map, List.length_map, List.length_filter_eq_length_iff] at count
        exact of_decide_eq_true (count x member)
      · intro all
        rw [List.filter_eq_self.mpr fun x member => decide_eq_true (all x member)]

theorem commentedView_references : EndsLine "struct HomeView: View \x7b\n".toList.getLast? ∧
    '\n' ∉ "  // shown in Home_Preview".toList ∧ Source.isCommentLine "  // shown in Home_Preview".toList = true ∧
    references ["APIService"] "struct HomeView: View \x7b\n  // shown in Home_Preview\n  let api: APIService\n\x7d\n".toList =
      [(3, "APIService")] := by
  have ends : EndsLine "struct HomeView: View \x7b\n".toList.getLast? := by decide
  have open_ : '\n' ∉ "  // shown in Home_Preview".toList := by decide
  have moved := (references_commented ["APIService"] ends open_ (by decide) "  let api: APIService\n\x7d\n".toList).1
  have front : "struct HomeView: View \x7b\n".toList = _ := String.toList_ofList
  have line : "  // shown in Home_Preview".toList = _ := String.toList_ofList
  have back : "  let api: APIService\n\x7d\n".toList = _ := String.toList_ofList
  have whole : "struct HomeView: View \x7b\n  // shown in Home_Preview\n  let api: APIService\n\x7d\n".toList = _ :=
    String.toList_ofList
  refine ⟨ends, open_, by decide, ?_⟩
  rw [front, line, back] at moved
  rw [whole]
  refine moved.trans ?_
  decide +kernel

theorem references_hidden :
    let line := "// see HomeView_Previews: below".toList
    let view := "let s = APIService()\n".toList
    Text.startsWith (Text.trimStart line) "//" = true ∧ references ["APIService"] view = [(1, "APIService")] ∧
      references ["APIService"] (line ++ '\n' :: view) = [] := by
  intro line view
  have lineChars : line = _ := String.toList_ofList
  have viewChars : view = _ := String.toList_ofList
  rw [lineChars, viewChars]
  decide +kernel

end Check.App

end Conformance
