import Conformance.Proofs.Manifest.Written

namespace Conformance.Endpoint

def Closed (text : List Char) (marked : List (Role × Char)) : Prop :=
  ∀ rest, roles .code (text ++ rest) = marked ++ roles .code rest

theorem closed_nil : Closed [] [] := fun _ => rfl

theorem Closed.append {a b : List Char} {x y : List (Role × Char)} (first : Closed a x) (second : Closed b y) :
    Closed (a ++ b) (x ++ y) := by
  intro rest
  rw [List.append_assoc, first, second, List.append_assoc]

theorem Closed.map_snd {text : List Char} {marked : List (Role × Char)} (closed : Closed text marked) :
    marked.map Prod.snd = text := by
  have whole := closed []
  rw [List.append_nil, roles, List.append_nil] at whole
  rw [← whole, map_snd_roles]

theorem closed_char {c : Char} (noQuote : isQuote c = false) (noSlash : c ≠ '/') : Closed [c] [(.code, c)] := by
  intro rest
  rw [List.singleton_append, roles.eq_4]
  · rw [noQuote]
    rfl
  all_goals simp [noSlash]

theorem closed_word {w : List Char} (plain : ∀ c ∈ w, isQuote c = false ∧ c ≠ '/') :
    Closed w (w.map fun c => (.code, c)) := by
  induction w with
  | nil => exact closed_nil
  | cons c w ih =>
    obtain ⟨noQuote, noSlash⟩ := plain c (by simp)
    exact (closed_char noQuote noSlash).append (ih fun d member => plain d (by simp [member]))

theorem roles_line {body : List Char} (open_ : '\n' ∉ body) (rest : List Char) :
    roles .lineComment (body ++ '\n' :: rest) =
      body.map (fun c => (.comment, c)) ++ (.lineEnd, '\n') :: roles .code rest := by
  induction body with
  | nil => simp [roles]
  | cons c body ih =>
    have other : c ≠ '\n' := fun same => open_ (by simp [same])
    rw [List.cons_append, roles, if_neg other, ih fun member => open_ (by simp [member])]
    rfl

theorem roles_block {body : List Char} (open_ : ¬ ['*', '/'] <:+: body) (rest : List Char) :
    roles .blockComment (body ++ '*' :: '/' :: rest) =
      body.map (fun c => (.comment, c)) ++ (.comment, '*') :: (.blockEnd, '/') :: roles .code rest := by
  induction body with
  | nil => simp [roles]
  | cons c body ih =>
    have inner := ih fun infix_ => open_ (infix_.trans (List.suffix_cons c body).isInfix)
    rw [List.cons_append, roles.eq_9, inner]
    · rfl
    · intro s star slash
      apply open_
      cases body with
      | nil => simp at slash
      | cons d body =>
        obtain ⟨rfl, _⟩ : d = '/' ∧ _ := by simpa using slash
        rw [star]
        exact ⟨[], body, rfl⟩

/-- The text stands inside a literal in this mark: it neither has the mark nor ends within an escape, and the
characters that a backslash takes along are of a kind. -/
inductive InLiteral (mark : Char) (kind : Char → Prop) : List Char → Prop
  | nil : InLiteral mark kind []
  | plain {c : Char} {s : List Char} (other : c ≠ mark) (solid : c ≠ '\\') (rest : InLiteral mark kind s) :
    InLiteral mark kind (c :: s)
  | escaped {c : Char} {s : List Char} (own : kind c) (rest : InLiteral mark kind s) :
    InLiteral mark kind ('\\' :: c :: s)

theorem ne_backslash_of_isQuote {mark : Char} (isMark : isQuote mark = true) : mark ≠ '\\' := by
  rintro rfl
  simp [isQuote] at isMark

namespace InLiteral

variable {mark : Char} {kind : Char → Prop} {s t : List Char}

theorem append (first : InLiteral mark kind s) (second : InLiteral mark kind t) : InLiteral mark kind (s ++ t) := by
  induction first with
  | nil => exact second
  | plain other solid _ ih => exact .plain other solid ih
  | escaped own _ ih => exact .escaped own ih

theorem of_plain (plain : ∀ c ∈ s, c ≠ mark ∧ c ≠ '\\') : InLiteral mark kind s := by
  induction s with
  | nil => exact .nil
  | cons c s ih =>
    obtain ⟨other, solid⟩ := plain c (by simp)
    exact .plain other solid (ih fun d member => plain d (by simp [member]))

theorem of_escape {chars : List Char} (isMark : isQuote mark = true) :
    InLiteral mark (· ≠ '\n') (Manifest.escape mark chars) := by
  induction chars with
  | nil => exact .nil
  | cons c chars ih =>
    unfold Manifest.escape
    split
    · rename_i special
      refine .escaped ?_ ih
      rcases special with rfl | rfl
      · rintro rfl
        simp [isQuote] at isMark
      · decide
    · rename_i plain
      rw [not_or] at plain
      exact .plain plain.1 plain.2 ih

theorem unique {kind' : Char → Prop} {rest rest' : List Char} (solid : mark ≠ '\\') (first : InLiteral mark kind s)
    (second : InLiteral mark kind' t) (same : s ++ mark :: rest = t ++ mark :: rest') : s = t ∧ rest = rest' := by
  induction first generalizing t with
  | nil =>
    cases second with
    | nil => exact ⟨rfl, (List.cons.inj same).2⟩
    | plain other _ _ => exact absurd (List.cons.inj same).1.symm other
    | escaped _ _ => exact absurd (List.cons.inj same).1 solid
  | plain other plain _ ih =>
    cases second with
    | nil => exact absurd (List.cons.inj same).1 other
    | plain _ _ inner =>
      obtain ⟨rfl, onward⟩ := List.cons.inj same
      obtain ⟨rfl, ends⟩ := ih inner onward
      exact ⟨rfl, ends⟩
    | escaped _ _ => exact absurd (List.cons.inj same).1 plain
  | escaped _ _ ih =>
    cases second with
    | nil => exact absurd (List.cons.inj same).1.symm solid
    | plain _ plain _ => exact absurd (List.cons.inj same).1.symm plain
    | escaped _ inner =>
      obtain ⟨rfl, onward⟩ := List.cons.inj (List.cons.inj same).2
      obtain ⟨rfl, ends⟩ := ih inner onward
      exact ⟨rfl, ends⟩

end InLiteral

theorem roles_quoted {mark : Char} {kind : Char → Prop} {body : List Char} (isMark : isQuote mark = true)
    (inside : InLiteral mark kind body) (rest : List Char) :
    roles (.quoted mark) (body ++ mark :: rest) = (body ++ [mark]).map (fun c => (.literal, c)) ++ roles .code rest := by
  induction inside with
  | nil =>
    rw [List.nil_append, roles.eq_6 _ _ _ (by simp [ne_backslash_of_isQuote isMark]), if_pos rfl]
    rfl
  | plain other solid _ ih =>
    rw [List.cons_append, roles.eq_6 _ _ _ (by simp [solid]), if_neg other, ih]
    rfl
  | escaped _ _ ih =>
    rw [List.cons_append, List.cons_append, roles, ih]
    rfl

theorem closed_literal {mark : Char} {kind : Char → Prop} {body : List Char} (isMark : isQuote mark = true)
    (inside : InLiteral mark kind body) :
    Closed (mark :: (body ++ [mark])) ((mark :: (body ++ [mark])).map fun c => (.literal, c)) := by
  intro rest
  have noSlash : mark ≠ '/' := by
    rintro rfl
    simp [isQuote] at isMark
  simp only [List.cons_append, List.append_assoc, List.nil_append, List.map_cons]
  rw [roles.eq_4 _ _ (by simp [noSlash]) (by simp [noSlash]), isMark, if_pos rfl, roles_quoted isMark inside]

namespace Manifest

def Filler.marked : Filler → List (Role × Char)
  | .blank c _ => [(.code, c)]
  | .line body _ => (.comment, '/') :: (.comment, '/') :: (body.map (fun c => (.comment, c)) ++ [(.lineEnd, '\n')])
  | .block body _ =>
    (.comment, '/') :: (.comment, '*') ::
      (body.map (fun c => (.comment, c)) ++ [(.comment, '*'), (.blockEnd, '/')])

theorem closed_filler (f : Filler) : Closed f.text f.marked := by
  cases f with
  | blank c isBlank =>
    refine closed_char ?_ ?_
    · rw [Bool.eq_false_iff]
      intro quote
      simp only [isQuote, Bool.or_eq_true, beq_iff_eq] at quote
      rcases quote with (rfl | rfl) | rfl <;> simp [isAsciiBlank] at isBlank
    · rintro rfl
      simp [isAsciiBlank] at isBlank
  | line body open_ =>
    intro rest
    simp only [Filler.text, Filler.marked, List.cons_append, List.append_assoc, List.nil_append, roles,
      roles_line open_]
  | block body open_ =>
    intro rest
    simp only [Filler.text, Filler.marked, List.cons_append, List.append_assoc, List.nil_append, roles,
      roles_block open_]

theorem Mark.isQuote_char (mark : Mark) : isQuote mark.char = true := by
  cases mark <;> rfl

def Value.role : Value → Role
  | .text _ => .literal
  | .flag _ => .code

theorem closed_value (mark : Mark) (value : Value) :
    Closed (value.written mark) ((value.written mark).map fun c => (value.role, c)) := by
  cases value with
  | text chars => exact closed_literal mark.isQuote_char (.of_escape mark.isQuote_char)
  | flag value =>
    cases value with
    | true => exact closed_word (w := "true".toList) (by decide)
    | false => exact closed_word (w := "false".toList) (by decide)

def Inert (avoids : Char → Bool) (text left : List Char) : Prop :=
  ∃ marked, Closed text marked ∧ marked.filterMap kept = left ∧ ∀ x ∈ marked, x.1 = .code → avoids x.2 = false

namespace Inert

variable {avoids : Char → Bool} {a b x y : List Char}

theorem append (first : Inert avoids a x) (second : Inert avoids b y) : Inert avoids (a ++ b) (x ++ y) := by
  obtain ⟨marks, closed, left, free⟩ := first
  obtain ⟨marks', closed', left', free'⟩ := second
  refine ⟨marks ++ marks', closed.append closed', by rw [List.filterMap_append, left, left'], ?_⟩
  intro item member
  rcases List.mem_append.mp member with member | member
  · exact free item member
  · exact free' item member

theorem word {w : List Char} (plain : ∀ c ∈ w, isQuote c = false ∧ c ≠ '/') (free : ∀ c ∈ w, avoids c = false) :
    Inert avoids w w := by
  refine ⟨_, closed_word plain, ?_, ?_⟩
  · rw [List.filterMap_map]
    exact List.filterMap_some
  · intro item member _
    obtain ⟨c, inside, rfl⟩ := List.mem_map.mp member
    exact free c inside

theorem cons {c : Char} (noQuote : isQuote c = false) (noSlash : c ≠ '/') (free : avoids c = false)
    (inner : Inert avoids a x) : Inert avoids (c :: a) (c :: x) :=
  (word (w := [c]) (by simp [noQuote, noSlash]) (by simp [free])).append inner

theorem filler (blanks : ∀ c, isAsciiBlank c = true → avoids c = false) (f : Filler) :
    Inert avoids f.text f.plain.text := by
  refine ⟨_, closed_filler f, ?_, ?_⟩
  · cases f with
    | blank c isBlank => rfl
    | line body open_ | block body open_ =>
      have gone : (body.map fun c => (Role.comment, c)).filterMap kept = [] := by
        rw [List.filterMap_map]
        exact List.filterMap_eq_nil_iff.mpr fun _ _ => rfl
      simp only [Filler.marked, List.filterMap_cons, List.filterMap_append, gone]
      rfl
  · cases f with
    | blank c isBlank => simpa [Filler.marked] using blanks c isBlank
    | line body open_ | block body open_ =>
      intro item member
      simp only [Filler.marked, List.mem_cons, List.mem_append, List.mem_map, List.not_mem_nil, or_false] at member
      rintro code
      rcases item with ⟨role, c⟩
      simp_all

theorem gap (blanks : ∀ c, isAsciiBlank c = true → avoids c = false) (g : Gap) :
    Inert avoids g.text g.plain.text := by
  induction g with
  | nil => exact ⟨[], closed_nil, rfl, by simp⟩
  | cons f g ih => exact (filler blanks f).append ih

theorem value (letters : ∀ c ∈ "truefalse".toList, avoids c = false) (mark : Mark) (v : Value) :
    Inert avoids (v.written mark) (v.written mark) := by
  refine ⟨_, closed_value mark v, ?_, ?_⟩
  · rw [List.filterMap_map]
    cases v <;> exact List.filterMap_some
  · intro item member code
    obtain ⟨c, inside, rfl⟩ := List.mem_map.mp member
    cases v with
    | text chars => cases code
    | flag value =>
      apply letters
      cases value with
      | true => exact (by decide : ∀ c ∈ "true".toList, c ∈ "truefalse".toList) c inside
      | false => exact (by decide : ∀ c ∈ "false".toList, c ∈ "truefalse".toList) c inside

end Inert

def Property.Named (p : Property) : Prop :=
  p.key ≠ [] ∧ ∀ c ∈ p.key, Text.isWord c = true

/-- The class has no character that occurs in the code of a property, or between properties. -/
structure Apart (avoids : Char → Bool) : Prop where
  blank : ∀ c, isAsciiBlank c = true → avoids c = false
  word : ∀ c, Text.isWord c = true → avoids c = false
  comma : avoids ',' = false
  colon : avoids ':' = false

theorem ne_of_isWord {c d : Char} (word : Text.isWord c = true) (other : Text.isWord d = false) : c ≠ d := by
  rintro rfl
  rw [word] at other
  cases other

theorem isQuote_of_isWord {c : Char} (word : Text.isWord c = true) : isQuote c = false := by
  have single := ne_of_isWord word (d := '\'') (by decide)
  have double := ne_of_isWord word (d := '"') (by decide)
  have back := ne_of_isWord word (d := '`') (by decide)
  simp [isQuote, single, double, back]

section Apart

variable {avoids : Char → Bool} (apart : Apart avoids)

include apart

theorem inert_property {p : Property} (named : p.Named) : Inert avoids p.text p.plain.text := by
  have letters : ∀ c ∈ "truefalse".toList, avoids c = false := fun c member =>
    apart.word c ((by decide : ∀ c ∈ "truefalse".toList, Text.isWord c = true) c member)
  have key : Inert avoids p.key p.key := by
    refine Inert.word ?_ fun c member => apart.word c (named.2 c member)
    intro c member
    have word := named.2 c member
    exact ⟨isQuote_of_isWord word, ne_of_isWord word (by decide)⟩
  exact key.append ((Inert.gap apart.blank _).append (.cons rfl (by decide) apart.colon
    ((Inert.gap apart.blank _).append (.value letters _ _))))

variable {α : Type} {write : α → List Char} {change : α → α}

theorem inert_tail {t : Tail α} (inner : ∀ item ∈ t.items, Inert avoids (write item) (write (change item))) :
    Inert avoids (t.text write) ((t.plain change).text write) := by
  have gap := Inert.gap apart.blank
  induction t with
  | done after => exact gap after
  | comma after last => exact (gap after).append (.cons rfl (by decide) apart.comma (gap last))
  | next after before item tail ih =>
    have first := inner item (by simp [Tail.items])
    have others := ih fun other member => inner other (by simp [Tail.items, member])
    exact (gap after).append (.cons rfl (by decide) apart.comma ((gap before).append (first.append others)))

theorem inert_inside {i : Inside α} (inner : ∀ item ∈ i.list, Inert avoids (write item) (write (change item))) :
    Inert avoids (i.text write) ((i.plain change).text write) := by
  cases i with
  | empty gap => exact Inert.gap apart.blank gap
  | items before item tail =>
    have first := inner item (by simp [Inside.list])
    have others := inert_tail apart (t := tail) fun other member => inner other (by simp [Inside.list, member])
    exact (Inert.gap apart.blank before).append (first.append others)

end Apart

def isSquare (c : Char) : Bool :=
  c == '[' || c == ']'

def isBrace (c : Char) : Bool :=
  c == '\x7b' || c == '\x7d'

/-- Two characters that are no part of a property keep apart from it. -/
theorem apart_of_pair {a b : Char} (blank : isAsciiBlank a = false ∧ isAsciiBlank b = false)
    (word : Text.isWord a = false ∧ Text.isWord b = false) (free : ∀ c ∈ [',', ':'], c ≠ a ∧ c ≠ b) :
    Apart fun c => c == a || c == b where
  blank c isBlank := by
    have first : c ≠ a := by
      rintro rfl
      simp [isBlank] at blank
    have second : c ≠ b := by
      rintro rfl
      simp [isBlank] at blank
    simp [first, second]
  word c isWord := by
    simp [ne_of_isWord isWord word.1, ne_of_isWord isWord word.2]
  comma := by simpa using free ',' (by simp)
  colon := by simpa using free ':' (by simp)

theorem apart_isSquare : Apart isSquare :=
  apart_of_pair (by decide) (by decide) (by decide)

theorem apart_isBrace : Apart isBrace :=
  apart_of_pair (by decide) (by decide) (by decide)

def Object.Named (o : Object) : Prop :=
  ∀ p ∈ o.list, p.Named

def Object.plain (o : Object) : Object :=
  Inside.plain Property.plain o

theorem inert_object_inside {avoids : Char → Bool} (apart : Apart avoids) {o : Object} (named : o.Named) :
    Inert avoids (o.text Property.text) (o.plain.text Property.text) :=
  inert_inside apart fun p member => inert_property apart (named p member)

theorem inert_object {o : Object} (named : o.Named) : Inert isSquare o.written o.plain.written := by
  have inner := inert_object_inside apart_isSquare named
  have close : Inert isSquare ['\x7d'] ['\x7d'] := .word (by decide) (by decide)
  exact .cons (by decide) (by decide) (by decide) (inner.append close)

theorem withoutComments_object {o : Object} (named : o.Named) : withoutComments o.written = o.plain.written := by
  obtain ⟨marked, closed, left, _⟩ := inert_object named
  have whole := closed []
  rw [List.append_nil, roles, List.append_nil] at whole
  rw [withoutComments, whole, left]

end Manifest

end Conformance.Endpoint
