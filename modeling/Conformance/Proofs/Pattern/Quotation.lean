import Conformance.Proofs.Pattern.Members

namespace Conformance

namespace Text

theorem append_cons_inj_of_free {α : Type} {p : α → Bool} {a b r s : List α} {x y : α} (freeA : ∀ c ∈ a, p c = false)
    (freeB : ∀ c ∈ b, p c = false) (hx : p x = true) (hy : p y = true) (same : a ++ x :: r = b ++ y :: s) :
    a = b ∧ x = y ∧ r = s := by
  induction a generalizing b with
  | nil =>
    cases b with
    | nil => simpa using same
    | cons c b =>
      obtain ⟨rfl, _⟩ : x = c ∧ r = b ++ y :: s := by simpa using same
      rw [freeB x (by simp)] at hx
      cases hx
  | cons c a ih =>
    cases b with
    | nil =>
      obtain ⟨rfl, _⟩ : c = y ∧ a ++ x :: r = s := by simpa using same
      rw [freeA c (by simp)] at hy
      cases hy
    | cons d b =>
      obtain ⟨rfl, rest⟩ : c = d ∧ a ++ x :: r = b ++ y :: s := by simpa using same
      obtain ⟨rfl, more⟩ := ih (fun e member => freeA e (by simp [member])) (fun e member => freeB e (by simp [member])) rest
      exact ⟨rfl, more⟩

theorem append_blanks_inj {a b v w : List Char} {x y : Char} (hx : isBlank x = false) (hy : isBlank y = false)
    (hv : ∀ c ∈ v, isBlank c = true) (hw : ∀ c ∈ w, isBlank c = true) (same : a ++ x :: v = b ++ y :: w) :
    a = b ∧ x = y := by
  have turned : v.reverse ++ x :: a.reverse = w.reverse ++ y :: b.reverse := by
    have both := congrArg List.reverse same
    simpa using both
  have solid : ∀ c, isBlank c = true → (!isBlank c) = false := by
    intro c blank
    rw [blank]
    rfl
  obtain ⟨_, last, front⟩ := append_cons_inj_of_free (p := fun c => !isBlank c)
    (fun c member => solid c (hv c (by simpa using member))) (fun c member => solid c (hw c (by simpa using member)))
    (by simp [hx]) (by simp [hy]) turned
  exact ⟨List.reverse_injective front, last⟩

end Text

namespace Pattern

def isMark (c : Char) : Bool :=
  among "'\"" c

/-- The text ahead begins with `lead` and then the text `w` in quotation marks, with `u` behind it. -/
structure Quotes (ahead lead : List Char) (a : Char) (w : List Char) (b : Char) (u : List Char) : Prop where
  whole : ahead = lead ++ a :: (w ++ b :: u)
  opens : isMark a = true
  closes : isMark b = true
  inside : ∀ c ∈ w, isMark c = false

def behind (s : Progress) (lead : List Char) (a : Char) (w : List Char) (b : Char) (u : List Char) : Progress :=
  ⟨s.place.beyond (lead ++ a :: (w ++ [b])) u,
    ⟨1, s.place.beyond (lead ++ [a]) (w ++ b :: u), s.place.beyond (lead ++ a :: w) (b :: u)⟩ :: s.captures⟩

theorem group?_behind (start stop : Cursor) (s : Progress) (lead : List Char) (a : Char) (w : List Char) (b : Char)
    (u : List Char) : (Match.mk start stop (behind s lead a w b u).captures).group? 1 = some w := by
  simp [Match.group?, behind, Cursor.textTo]

theorem isMark_eq_true_iff {c : Char} : isMark c = true ↔ c = '\'' ∨ c = '"' := by
  simp [isMark, among]

theorem mem_ways_quoted_after {s m : Progress} {lead v : List Char} (ahead : s.place.rest = lead ++ v) :
    m ∈ (quoted 1).ways (s.beyond lead v) ↔
      ∃ a w b u, Quotes s.place.rest lead a w b u ∧ w ≠ [] ∧ m = behind s lead a w b u := by
  have free : ∀ w : List Char, (∀ c ∈ w, outside "'\"" c = true) ↔ ∀ c ∈ w, isMark c = false := by
    intro w
    simp [isMark, outside, among]
  simp only [mem_ways_quoted, Progress.beyond_place, Cursor.beyond_rest, free]
  constructor
  · rintro ⟨a, w, b, u, rfl, opens, closes, some, inside, rfl⟩
    exact ⟨a, w, b, u, ⟨ahead, opens, closes, inside⟩, some, by simp [behind]⟩
  · rintro ⟨a, w, b, u, ⟨whole, opens, closes, inside⟩, some, rfl⟩
    rw [whole, List.append_cancel_left_eq] at ahead
    exact ⟨a, w, b, u, ahead.symm, opens, closes, some, inside, by simp [behind]⟩

/-- A text with two marks quotes nothing but what stands between them. -/
theorem Quotes.unique {v ahead front lead spec back w u : List Char} {x y a b : Char}
    (only : Quotes (v ++ ahead) front x spec y back) (frontFree : ∀ c ∈ front, isMark c = false)
    (backFree : ∀ c ∈ back, isMark c = false) (quotes : Quotes ahead lead a w b u) :
    v ++ lead = front ∧ a = x ∧ w = spec ∧ b = y ∧ u = back := by
  have same : v ++ lead ++ a :: (w ++ b :: u) = front ++ x :: (spec ++ y :: back) := by
    rw [← only.whole, quotes.whole, List.append_assoc]
  -- no mark is left for what stands in front of the quoted text
  have marks := congrArg (List.countP isMark) same
  have none : ∀ l : List Char, (∀ c ∈ l, isMark c = false) → l.countP isMark = 0 := by
    intro l free
    rw [List.countP_eq_zero]
    intro c member
    rw [free c member]
    decide
  simp only [List.countP_append, List.countP_cons, quotes.opens, quotes.closes, only.opens, only.closes, if_true,
    none w quotes.inside, none spec only.inside, none front frontFree, none back backFree] at marks
  have leadFree : ∀ c ∈ v ++ lead, isMark c = false := by
    have zero : (v ++ lead).countP isMark = 0 := by
      rw [List.countP_append]
      omega
    intro c member
    simpa using List.countP_eq_zero.mp zero c member
  obtain ⟨first, opens, rest⟩ := Text.append_cons_inj_of_free leadFree frontFree quotes.opens only.opens same
  obtain ⟨second, closes, last⟩ := Text.append_cons_inj_of_free quotes.inside only.inside quotes.closes only.closes rest
  exact ⟨first, opens, second, closes, last⟩

end Pattern

end Conformance
