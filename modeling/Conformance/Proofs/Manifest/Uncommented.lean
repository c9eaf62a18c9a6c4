import Conformance.Endpoint.Manifest
import Mathlib.Data.List.Chain

namespace Conformance.Endpoint

/-- What is left of a character when comments are taken out, with its role: the blank that a comment leaves is
code. -/
def keptRole : Role × Char → Option (Role × Char)
  | (.code, c) => some (.code, c)
  | (.literal, c) => some (.literal, c)
  | (.comment, _) => none
  | (.lineEnd, c) => some (.code, c)
  | (.blockEnd, _) => some (.code, ' ')

theorem map_snd_keptRole (x : Role × Char) : (keptRole x).map Prod.snd = kept x := by
  obtain ⟨role, c⟩ := x
  cases role <;> rfl

theorem filterMap_kept (marks : List (Role × Char)) : marks.filterMap kept = (marks.filterMap keptRole).map Prod.snd := by
  rw [List.map_filterMap]
  exact congrArg (List.filterMap · marks) (funext fun x => (map_snd_keptRole x).symm)

def Mode.uncommented : Mode → Mode
  | .quoted mark => .quoted mark
  | .code | .lineComment | .blockComment => .code

theorem head?_kept_roles {s : List Char} (noSlash : ∀ s', s ≠ '/' :: s') (noStar : ∀ s', s ≠ '*' :: s') :
    ∀ c ∈ ((roles .code s).filterMap kept).head?, c ≠ '/' ∧ c ≠ '*' := by
  cases s with
  | nil => simp [roles]
  | cons d s =>
    have slash : d ≠ '/' := fun same => noSlash s (by rw [same])
    have star : d ≠ '*' := fun same => noStar s (by rw [same])
    rw [roles.eq_4 _ _ (by simp [slash]) (by simp [slash])]
    split
    · simp [kept, slash, star]
    · simp [kept, slash, star]

/-- Without its comments a text is cut into code and literals as it was with them. -/
theorem roles_filterMap_kept (mode : Mode) (s : List Char) :
    roles mode.uncommented ((roles mode s).filterMap kept) = (roles mode s).filterMap keptRole := by
  fun_induction roles mode s with
  | case1 mode => cases mode <;> rfl
  | case2 s ih => exact ih
  | case3 s ih => exact ih
  | case4 c s noLine noBlock quote ih =>
    have noSlash : c ≠ '/' := by
      rintro rfl
      simp [isQuote] at quote
    change roles .code (c :: (roles (.quoted c) s).filterMap kept) = (.literal, c) :: _
    rw [roles.eq_4 _ _ (by simp [noSlash]) (by simp [noSlash]), if_pos quote]
    exact congrArg ((Role.literal, c) :: ·) ih
  | case5 c s noLine noBlock noQuote ih =>
    change roles .code (c :: (roles .code s).filterMap kept) = (.code, c) :: _
    have alone : ∀ d rest, (roles .code s).filterMap kept = d :: rest → c = '/' → d ≠ '/' ∧ d ≠ '*' := by
      rintro d rest ahead rfl
      refine head?_kept_roles (fun s' same => noLine s' rfl same) (fun s' same => noBlock s' rfl same) d ?_
      rw [ahead]
      rfl
    rw [roles.eq_4, if_neg noQuote]
    · exact congrArg ((Role.code, c) :: ·) ih
    · exact fun rest slash ahead => (alone '/' rest ahead slash).1 rfl
    · exact fun rest slash ahead => (alone '*' rest ahead slash).2 rfl
  | case6 mark c s ih =>
    change roles (.quoted mark) ('\\' :: c :: (roles (.quoted mark) s).filterMap kept) = (.literal, '\\') :: (.literal, c) :: _
    rw [roles]
    exact congrArg (fun l => (Role.literal, '\\') :: (Role.literal, c) :: l) ih
  | case7 mark c s noEscape ih =>
    change roles (.quoted mark) (c :: (roles (if c = mark then .code else .quoted mark) s).filterMap kept) =
      (.literal, c) :: _
    have alone : ∀ d rest, (roles (if c = mark then .code else .quoted mark) s).filterMap kept = d :: rest → c = '\\' → False := by
      rintro d rest ahead rfl
      cases s with
      | nil => simp [roles] at ahead
      | cons d s => exact noEscape d s rfl rfl
    have onward : (if c = mark then Mode.code else .quoted mark).uncommented = if c = mark then .code else .quoted mark := by
      split <;> rfl
    rw [onward] at ih
    rw [roles.eq_6 _ _ _ fun d rest slash ahead => alone d rest ahead slash]
    exact congrArg ((Role.literal, c) :: ·) ih
  | case8 s ih =>
    change roles .code ('\n' :: (roles .code s).filterMap kept) = (.code, '\n') :: _
    rw [roles.eq_4 _ _ (by simp) (by simp), if_neg (by decide)]
    exact congrArg ((Role.code, '\n') :: ·) ih
  | case9 c s inside ih => exact ih
  | case10 s ih =>
    change roles .code (' ' :: (roles .code s).filterMap kept) = (.code, ' ') :: _
    rw [roles.eq_4 _ _ (by simp) (by simp), if_neg (by decide)]
    exact congrArg ((Role.code, ' ') :: ·) ih
  | case11 c s inside ih => exact ih

theorem roles_withoutComments (s : List Char) :
    roles .code (withoutComments s) = (roles .code s).filterMap keptRole :=
  roles_filterMap_kept .code s

theorem code_or_literal_of_mem {s : List Char} {x : Role × Char} (member : x ∈ roles .code (withoutComments s)) :
    x.1 = .code ∨ x.1 = .literal := by
  rw [roles_withoutComments, List.mem_filterMap] at member
  obtain ⟨⟨role, c⟩, _, left⟩ := member
  cases role <;> cases left <;> simp

def CommentGoesOn (x y : Role × Char) : Prop :=
  x.1 = .comment → y.1 ≠ .code ∧ y.1 ≠ .literal

theorem head?_roles_comment {s : List Char} :
    (∀ y ∈ (roles .lineComment s).head?, y.1 ≠ .code ∧ y.1 ≠ .literal) ∧
      ∀ y ∈ (roles .blockComment s).head?, y.1 ≠ .code ∧ y.1 ≠ .literal := by
  cases s with
  | nil => simp [roles]
  | cons c s =>
    constructor
    · rw [roles]
      split <;> simp
    · rw [roles.eq_def]
      split <;> simp_all

theorem isChain_roles (mode : Mode) (s : List Char) : (roles mode s).IsChain CommentGoesOn := by
  have after : ∀ {role : Role} {c : Char} {more : List (Role × Char)}, role ≠ .comment → more.IsChain CommentGoesOn →
      ((role, c) :: more).IsChain CommentGoesOn := by
    intro role c more other chain
    exact List.isChain_cons.mpr ⟨fun y _ same => absurd same other, chain⟩
  fun_induction roles mode s with
  | case1 mode => exact .nil
  | case2 s ih =>
    refine List.isChain_cons.mpr ⟨by simp [CommentGoesOn], List.isChain_cons.mpr ⟨fun y first _ => ?_, ih⟩⟩
    exact head?_roles_comment.1 y first
  | case3 s ih =>
    refine List.isChain_cons.mpr ⟨by simp [CommentGoesOn], List.isChain_cons.mpr ⟨fun y first _ => ?_, ih⟩⟩
    exact head?_roles_comment.2 y first
  | case4 | case5 | case7 | case8 => exact after (by decide) ‹_›
  | case6 mark c s ih => exact after (by decide) (after (by decide) ih)
  | case9 c s inside ih => exact List.isChain_cons.mpr ⟨fun y first _ => head?_roles_comment.1 y first, ih⟩
  | case10 s ih => exact List.isChain_cons.mpr ⟨by simp [CommentGoesOn], after (by decide) ih⟩
  | case11 c s inside ih => exact List.isChain_cons.mpr ⟨fun y first _ => head?_roles_comment.2 y first, ih⟩

theorem eq_newline_of_lineEnd {mode : Mode} {s : List Char} {c : Char} (member : (Role.lineEnd, c) ∈ roles mode s) :
    c = '\n' := by
  fun_induction roles mode s with
  | case8 s ih => exact (List.mem_cons.mp member).elim (fun same => (Prod.mk.inj same).2) ih
  | _ => simp_all

/-- In a text with its roles a key stands behind `before`: a whole word of the code, and behind it a colon, with
nothing between them but blanks and comments. -/
structure KeyAt (marks before : List (Role × Char)) (key : List Char) : Prop where
  named : key ≠ [] ∧ ∀ c ∈ key, Text.isWord c = true
  border : ∀ x ∈ before.getLast?, x.1 = .code → Text.isWord x.2 = false
  spelled : ∃ gap after, marks = before ++ (key.map (fun c => (.code, c)) ++ (gap ++ (.code, ':') :: after)) ∧
    ∀ x ∈ gap, x.1 ≠ .literal ∧ (x.1 = .code → Text.isBlank x.2 = true)

section Kept

variable {marks left : List (Role × Char)} {c : Char}

theorem comment_of_keptRole {x : Role × Char} (gone : keptRole x = none) : x.1 = .comment := by
  obtain ⟨role, c⟩ := x
  cases role <;> first | rfl | cases gone

theorem eq_of_keptRole {x : Role × Char} (ends : x.1 = .lineEnd → x.2 = '\n') (kept : keptRole x = some (.code, c))
    (solid : c ≠ ' ' ∧ c ≠ '\n') : x = (.code, c) := by
  obtain ⟨role, d⟩ := x
  cases role with
  | code => simpa [keptRole] using kept
  | literal | comment => simp [keptRole] at kept
  | lineEnd =>
    obtain rfl : d = c := by simpa [keptRole] using kept
    exact absurd (ends rfl) solid.2
  | blockEnd =>
    obtain rfl : ' ' = c := by simpa [keptRole] using kept
    exact absurd rfl solid.1

theorem split_kept (ends : ∀ x ∈ marks, x.1 = .lineEnd → x.2 = '\n') (kept : marks.filterMap keptRole = (.code, c) :: left)
    (solid : c ≠ ' ' ∧ c ≠ '\n') : ∃ gone more, marks = gone ++ (.code, c) :: more ∧ (∀ x ∈ gone, x.1 = .comment) ∧
      more.filterMap keptRole = left := by
  obtain ⟨gone, x, more, rfl, none, same, rest⟩ := List.filterMap_eq_cons_iff.mp kept
  obtain rfl := eq_of_keptRole (ends x (by simp)) same solid
  exact ⟨gone, more, rfl, fun y member => comment_of_keptRole (none y member), rest⟩

theorem split_word (chain : marks.IsChain CommentGoesOn) (ends : ∀ x ∈ marks, x.1 = .lineEnd → x.2 = '\n')
    {word : List Char} (isWord : ∀ c ∈ word, Text.isWord c = true)
    (kept : marks.filterMap keptRole = word.map (fun c => (.code, c)) ++ left) :
    ∃ more, marks = word.map (fun c => (.code, c)) ++ more ∧ more.filterMap keptRole = left := by
  induction word generalizing marks with
  | nil => exact ⟨marks, rfl, kept⟩
  | cons c word ih =>
    have own := isWord c (by simp)
    have solid : c ≠ ' ' ∧ c ≠ '\n' := by
      constructor <;> rintro rfl <;> simp [Text.isWord] at own
    obtain ⟨gone, more, rfl, comments, kept'⟩ := split_kept ends kept solid
    -- a comment does not end in front of a letter
    obtain rfl : gone = [] := by
      rcases List.eq_nil_or_concat gone with none | ⟨front, y, rfl⟩
      · exact none
      · have meet := (List.isChain_append.mp chain).2.2 y (by simp) (.code, c) (by simp)
        exact absurd rfl (meet (comments y (by simp))).1
    obtain ⟨behind, rfl, left⟩ := ih chain.tail (fun x member => ends x (List.mem_cons_of_mem _ member))
      (fun d member => isWord d (List.mem_cons_of_mem _ member)) kept'
    exact ⟨behind, rfl, left⟩

theorem KeyAt.of_filterMap {before : List (Role × Char)} {key : List Char} (chain : marks.IsChain CommentGoesOn)
    (ends : ∀ x ∈ marks, x.1 = .lineEnd → x.2 = '\n') (stands : KeyAt (marks.filterMap keptRole) before key) :
    ∃ front, KeyAt marks front key ∧ front.filterMap keptRole = before := by
  obtain ⟨named, border, gap, after, spelled, blank⟩ := stands
  obtain ⟨front, more, rfl, rfl, inKey⟩ := List.filterMap_eq_append_iff.mp spelled
  obtain ⟨behind, rfl, inGap⟩ := split_word (List.isChain_append.mp chain).2.1 (fun x member => ends x (by simp [member]))
    named.2 inKey
  obtain ⟨between, more, rfl, rfl, inRest⟩ := List.filterMap_eq_append_iff.mp inGap
  obtain ⟨gone, more, rfl, comments, _⟩ := split_kept (fun x member => ends x (by simp [member])) inRest (by decide)
  refine ⟨front, ⟨named, ?_, between ++ gone, more, by simp, ?_⟩, rfl⟩
  · rintro ⟨role, c⟩ last rfl
    obtain ⟨front, rfl⟩ := List.getLast?_eq_some_iff.mp last
    exact border (.code, c) (by simp [keptRole]) rfl
  · rintro ⟨role, c⟩ member
    rcases List.mem_append.mp member with member | member
    · constructor
      · rintro rfl
        exact (blank (.literal, c) (List.mem_filterMap.mpr ⟨_, member, rfl⟩)).1 rfl
      · rintro rfl
        exact (blank (.code, c) (List.mem_filterMap.mpr ⟨_, member, rfl⟩)).2 rfl
    · have comment : role = .comment := comments _ member
      simp [comment]

end Kept

theorem KeyAt.of_withoutComments {s key : List Char} {before : List (Role × Char)}
    (stands : KeyAt (roles .code (withoutComments s)) before key) :
    ∃ front, KeyAt (roles .code s) front key ∧ front.filterMap keptRole = before := by
  rw [roles_withoutComments] at stands
  refine stands.of_filterMap (isChain_roles .code s) ?_
  rintro ⟨role, c⟩ member rfl
  exact eq_newline_of_lineEnd member

end Conformance.Endpoint
