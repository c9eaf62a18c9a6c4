import Conformance.Document.Reference
import Conformance.Proofs.Check.Faults
import Conformance.Proofs.Text.OneLine
import Conformance.Proofs.Text.Parts
import Conformance.Proofs.Text.Trim
import Mathlib.Data.List.TakeWhile

namespace Conformance

namespace Text

variable {x : Char} {s t front : List Char}

theorem startsWith_append_stop {lead : String} (free : x ∉ lead.toList) :
    startsWith (s ++ x :: t) lead = startsWith s lead := by
  apply Bool.eq_iff_iff.mpr
  rw [startsWith, startsWith, List.isPrefixOf_iff_prefix, List.isPrefixOf_iff_prefix, prefix_append_stop free]

theorem takeWhile_ne_append_stop (s t : List Char) : (s ++ x :: t).takeWhile (· != x) = s.takeWhile (· != x) := by
  induction s with
  | nil => simp
  | cons c s ih => simp only [List.cons_append, List.takeWhile_cons, ih]

theorem beforeFirst?_of_free {w rest : List Char} (free : x ∉ front) :
    beforeFirst? (x :: w) (front ++ (x :: w ++ rest)) = some front := by
  induction front with
  | nil => simp [beforeFirst?]
  | cons c front ih =>
    obtain ⟨other, free⟩ : x ≠ c ∧ x ∉ front := by simpa using free
    have differs : (x :: w).isPrefixOf (c :: (front ++ (x :: w ++ rest))) = false := by
      simp [List.isPrefixOf, other]
    rw [List.cons_append, beforeFirst?, differs, if_neg Bool.false_ne_true, ih free]
    rfl

theorem beforeFirst?_eq_none (part : String) (apart : ¬ part.toList <:+: s) : beforeFirst? part.toList s = none := by
  have absent := mt contains_iff.mp apart
  rwa [contains, Bool.not_eq_true, Option.isSome_eq_false_iff, Option.isNone_iff_eq_none] at absent

end Text

namespace Document

open Text

/-- A target that is a path and nothing else: without blanks, fragment, placeholder and wildcard, and in this
repository. -/
structure IsPlain (p : List Char) : Prop where
  visible : p ≠ []
  solid : ∀ c ∈ p, isBlank c = false ∧ c ∉ ['#', '<', '*']
  here : ∀ scheme ∈ ["http://", "https://", "mailto:"], startsWith p scheme = false

def titled (mark : Char) (title : List Char) : List Char :=
  ' ' :: mark :: (title ++ [mark])

theorem titled_free {mark : Char} (quoted : mark ∈ ['"', '\'']) {title : List Char}
    (clean : ∀ c ∈ title, c ∉ ['"', '\'', '<', '*']) : ∀ c ∈ ['<', '*'], c ∉ titled mark title := by
  intro c sign
  have inside : c ∉ title := fun inside => clean c inside (List.mem_append_right ['"', '\''] sign)
  simp only [List.mem_cons, List.not_mem_nil, or_false] at sign quoted
  rcases sign with rfl | rfl <;> rcases quoted with rfl | rfl <;> simp [titled, inside]

variable {x : Char} {t f p : List Char}

/-- What stands behind a character that no scheme has does not lead a target elsewhere, unless it is a placeholder or a
wildcard. -/
theorem isElsewhere_append_stop (some : t ≠ []) (apart : ∀ scheme ∈ ["http://", "https://", "mailto:"], x ∉ scheme.toList)
    (named : '<' ∉ x :: f) (single : '*' ∉ x :: f) : isElsewhere (t ++ x :: f) = isElsewhere t := by
  have anchor : startsWith (t ++ x :: f) "#" = startsWith t "#" := by
    obtain ⟨c, t, rfl⟩ := List.exists_cons_of_ne_nil some
    simp [startsWith, List.isPrefixOf]
  have schemes : (["http://", "https://", "mailto:", "#"].any fun lead => startsWith (t ++ x :: f) lead) =
      ["http://", "https://", "mailto:", "#"].any fun lead => startsWith t lead := by
    simp only [List.any_cons, List.any_nil, anchor, startsWith_append_stop (apart "http://" (by simp)),
      startsWith_append_stop (apart "https://" (by simp)), startsWith_append_stop (apart "mailto:" (by simp))]
  have placeholder : (t ++ x :: f).contains '<' = t.contains '<' := by
    apply Bool.eq_iff_iff.mpr
    rw [List.contains_iff_mem, List.contains_iff_mem, List.mem_append, or_iff_left named]
  have wildcard : (t ++ x :: f).contains '*' = t.contains '*' := by
    apply Bool.eq_iff_iff.mpr
    rw [List.contains_iff_mem, List.contains_iff_mem, List.mem_append, or_iff_left single]
  rw [isElsewhere, isElsewhere, isWildcard, isWildcard, schemes, placeholder, wildcard]

theorem localPath?_fragment (t : List Char) (named : '<' ∉ f) (single : '*' ∉ f) :
    localPath? (t ++ '#' :: f) = localPath? t := by
  by_cases some : t = []
  · subst some
    have elsewhere : isElsewhere ('#' :: f) = true := by simp [isElsewhere, startsWith, List.isPrefixOf]
    rw [List.nil_append, localPath?, if_pos elsewhere]
    decide
  · have same : isElsewhere (t ++ '#' :: f) = isElsewhere t :=
      isElsewhere_append_stop some (by decide) (by simp [named]) (by simp [single])
    rw [localPath?, localPath?, same, takeWhile_ne_append_stop]

/-- The path of a target is a part of it without fragment, placeholder or wildcard, and has no blanks at its ends. -/
theorem localPath?_eq_some (found : localPath? t = some p) :
    p ≠ [] ∧ trim p = p ∧ ∀ c ∈ p, c ∉ ['#', '<', '*'] := by
  rw [localPath?] at found
  split at found
  · cases found
  rename_i here
  simp only [isElsewhere, isWildcard, Bool.or_eq_true, List.contains_iff_mem, not_or] at here
  dsimp only at found
  split at found
  · cases found
  rename_i some
  obtain rfl := Option.some.inj found
  refine ⟨by simpa using some, trim_trim _, fun c member => ?_⟩
  obtain ⟨back, front⟩ := front_withoutTitle (t.takeWhile (· != '#'))
  have inside : c ∈ t.takeWhile (· != '#') := by
    rw [front]
    exact List.mem_append_left _ (trim_subset _ member)
  have within : c ∈ t := (List.takeWhile_sublist _).subset inside
  have open_ : c ≠ '#' := by simpa using List.mem_takeWhile_imp inside
  simp only [List.mem_cons, List.not_mem_nil, or_false, not_or]
  exact ⟨open_, fun same => here.1.2 (same ▸ within), fun same => here.2 (same ▸ within)⟩

section Titles

variable {rest : List Char}

theorem withoutTitle_double (blank : ' ' ∉ p) (rest : List Char) : withoutTitle (p ++ ' ' :: '"' :: rest) = p := by
  have found : beforeFirst? " \"".toList (p ++ ' ' :: '"' :: rest) = some p := beforeFirst?_of_free (w := ['"']) blank
  rw [withoutTitle, found]

/-- Behind a path without blanks, a mark that no other stands behind a blank before is the first of its kind. -/
theorem not_infix_titled {c mark : Char} (blank : ' ' ∉ p) (other : c ≠ mark) (free : c ∉ rest) :
    ¬ [' ', c] <:+: p ++ ' ' :: mark :: rest := by
  induction p with
  | nil =>
    rw [List.nil_append, List.infix_cons_iff]
    rintro (here | later)
    · simp [List.cons_prefix_cons, other] at here
    · have inside : c ∈ mark :: rest := later.subset (by simp)
      simp [other, free] at inside
  | cons d p ih =>
    obtain ⟨solid, blank⟩ : ' ' ≠ d ∧ ' ' ∉ p := by simpa using blank
    rw [List.cons_append, List.infix_cons_iff]
    rintro (here | later)
    · simp [List.cons_prefix_cons, solid] at here
    · exact ih blank later

theorem withoutTitle_single (blank : ' ' ∉ p) (free : '"' ∉ rest) : withoutTitle (p ++ ' ' :: '\'' :: rest) = p := by
  have none : beforeFirst? " \"".toList (p ++ ' ' :: '\'' :: rest) = none :=
    beforeFirst?_eq_none " \"" (not_infix_titled blank (by decide) free)
  have found : beforeFirst? " '".toList (p ++ ' ' :: '\'' :: rest) = some p := beforeFirst?_of_free (w := ['\'']) blank
  rw [withoutTitle, none, found]
  rfl

theorem withoutTitle_self (blank : ' ' ∉ p) : withoutTitle p = p := by
  have single (c : Char) : ¬ [' ', c] <:+: p := fun inside => blank (inside.subset List.mem_cons_self)
  rw [withoutTitle, beforeFirst?_eq_none " \"" (single '"'), beforeFirst?_eq_none " '" (single '\'')]
  rfl

end Titles

namespace IsPlain

variable (plain : IsPlain p)

include plain

theorem free {c : Char} (mark : isBlank c = true ∨ c ∈ ['#', '<', '*']) : c ∉ p := by
  intro member
  obtain ⟨solid, other⟩ := plain.solid c member
  rcases mark with blank | listed
  · rw [blank] at solid
    cases solid
  · exact other listed

theorem isElsewhere_eq : isElsewhere p = false := by
  obtain ⟨c, rest, rfl⟩ := List.exists_cons_of_ne_nil plain.visible
  have fragment : c ≠ '#' := fun same => plain.free (c := '#') (.inr (by simp)) (by simp [same])
  have placeholder := plain.free (c := '<') (.inr (by simp))
  have wildcard := plain.free (c := '*') (.inr (by simp))
  have anchor : startsWith (c :: rest) "#" = false := by simpa [startsWith, List.isPrefixOf] using fragment.symm
  simp only [isElsewhere, isWildcard, List.any_cons, List.any_nil, anchor, plain.here "http://" (by simp),
    plain.here "https://" (by simp), plain.here "mailto:" (by simp), Bool.or_false, Bool.false_or, Bool.or_eq_false_iff]
  exact ⟨by simpa using placeholder, by simpa using wildcard⟩

theorem localPath?_eq {back : List Char} (elsewhere : isElsewhere (p ++ back) = false)
    (title : withoutTitle ((p ++ back).takeWhile (· != '#')) = p) : localPath? (p ++ back) = some p := by
  have solid : trim p = p := trim_of_solid fun c member => (plain.solid c member).1
  have visible : p.isEmpty = false := by simpa using plain.visible
  rw [localPath?, elsewhere, if_neg Bool.false_ne_true, title, solid]
  simp only [visible, Bool.false_eq_true, if_false]

theorem open_ : ∀ c ∈ p, (c != '#') = true := by
  intro c member
  have other : c ≠ '#' := fun same => plain.free (c := '#') (.inr (by simp)) (same ▸ member)
  simpa using other

theorem localPath?_self : localPath? p = some p := by
  have own : localPath? (p ++ []) = some p := by
    refine plain.localPath?_eq ?_ ?_
    · rw [List.append_nil, plain.isElsewhere_eq]
    · rw [List.append_nil, List.takeWhile_eq_self_iff.mpr plain.open_, withoutTitle_self (plain.free (.inl (by decide)))]
  rwa [List.append_nil] at own

theorem takeWhile_titled {mark : Char} (other : mark ≠ '#') (title : List Char) : ∃ rest, rest ⊆ title ++ [mark] ∧
    (p ++ titled mark title).takeWhile (· != '#') = p ++ ' ' :: mark :: rest := by
  refine ⟨(title ++ [mark]).takeWhile (· != '#'), (List.takeWhile_sublist _).subset, ?_⟩
  have sign : (mark != '#') = true := by simpa using other
  rw [List.takeWhile_append_of_pos plain.open_, titled, List.takeWhile_cons_of_pos (by decide),
    List.takeWhile_cons_of_pos (p := (· != '#')) sign]

theorem localPath?_titled {mark : Char} (quoted : mark ∈ ['"', '\'']) {title : List Char}
    (clean : ∀ c ∈ title, c ∉ ['"', '\'', '<', '*']) : localPath? (p ++ titled mark title) = some p := by
  have outside := titled_free quoted clean
  have blank : ' ' ∉ p := plain.free (.inl (by decide))
  have other : mark ≠ '#' := by
    rintro rfl
    simp at quoted
  obtain ⟨rest, within, whole⟩ := plain.takeWhile_titled other title
  refine plain.localPath?_eq ?_ ?_
  · rw [titled, isElsewhere_append_stop plain.visible (by decide) (outside '<' (by simp)) (outside '*' (by simp)),
      plain.isElsewhere_eq]
  · rw [whole]
    simp only [List.mem_cons, List.not_mem_nil, or_false] at quoted
    rcases quoted with rfl | rfl
    · exact withoutTitle_double blank rest
    · refine withoutTitle_single blank fun inside => ?_
      have double : '"' ∈ title := by simpa using within inside
      exact clean '"' double (by simp)

end IsPlain

/-- A fragment is lost, whatever stands in front of it. What is given as a path is never empty, has no blanks at its ends
and no fragment, placeholder or wildcard in it. A plain path is given by itself, and with a fragment or a title behind
it or both. -/
theorem localPath?_exact :
    (∀ t f : List Char, '<' ∉ f → '*' ∉ f → localPath? (t ++ '#' :: f) = localPath? t) ∧
    (∀ t p : List Char, localPath? t = some p → p ≠ [] ∧ trim p = p ∧ ∀ c ∈ p, c ∉ ['#', '<', '*']) ∧
    ∀ p : List Char, IsPlain p → ∀ title : List Char, (∀ c ∈ title, c ∉ ['"', '\'', '<', '*']) →
      ∀ back ∈ [[], titled '"' title, titled '\'' title], localPath? (p ++ back) = some p ∧
        ∀ f : List Char, '<' ∉ f → '*' ∉ f → localPath? (p ++ '#' :: f ++ back) = some p := by
  refine ⟨fun t f => localPath?_fragment t, fun t p => localPath?_eq_some, fun p plain title clean back listed => ?_⟩
  simp only [List.mem_cons, List.not_mem_nil, or_false] at listed
  have outside : ∀ c ∈ ['<', '*'], c ∉ back := by
    rcases listed with rfl | rfl | rfl
    · exact fun _ _ => List.not_mem_nil
    · exact titled_free (by simp) clean
    · exact titled_free (by simp) clean
  constructor
  · rcases listed with rfl | rfl | rfl
    · rw [List.append_nil, plain.localPath?_self]
    · exact plain.localPath?_titled (by simp) clean
    · exact plain.localPath?_titled (by simp) clean
  · intro f named single
    have named : '<' ∉ f ++ back := by simp [named, outside]
    have single : '*' ∉ f ++ back := by simp [single, outside]
    rw [List.append_assoc, List.cons_append, localPath?_fragment p named single, plain.localPath?_self]

theorem titledTarget_path : '<' ∉ "a \"b".toList ∧ '*' ∉ "a \"b".toList ∧ IsPlain "docs/a.md".toList ∧
    (∀ c ∈ "No. #1".toList, c ∉ ['"', '\'', '<', '*']) ∧
    localPath? ("docs/a.md".toList ++ titled '\'' "No. #1".toList) = some "docs/a.md".toList ∧
    localPath? ("docs/a.md".toList ++ '#' :: "a \"b".toList ++ titled '\'' "No. #1".toList) = some "docs/a.md".toList := by
  have plain : IsPlain "docs/a.md".toList := ⟨by decide, by decide, by decide⟩
  have clean : ∀ c ∈ "No. #1".toList, c ∉ ['"', '\'', '<', '*'] := by decide
  obtain ⟨own, fragment⟩ := localPath?_exact.2.2 _ plain _ clean (titled '\'' "No. #1".toList) (by simp)
  exact ⟨by decide, by decide, plain, clean, own, fragment _ (by decide) (by decide)⟩

end Document

end Conformance
