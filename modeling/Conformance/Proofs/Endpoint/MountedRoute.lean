import Conformance.Endpoint.Manifest
import Conformance.Proofs.Pattern.Quotation

namespace Conformance.Endpoint

open Pattern

def Unquoted (text : List Char) : Prop :=
  ∀ c ∈ text, isMark c = false

def Blank (text : List Char) : Prop :=
  ∀ c ∈ text, Text.isBlank c = true

inductive Mounts (route : List Char) : List Char → Prop
  | call {callee : String} {lead z z' tail : List Char} {a b : Char}
      (known : callee = "createBaseApp" ∨ callee = "stripPathPrefix") (opens : isMark a = true)
      (closes : isMark b = true) (front : Unquoted lead) (back : Unquoted tail) (blank : Blank z) (blank' : Blank z') :
      Mounts route (lead ++ (callee.toList ++ ("(".toList ++ (z ++ a :: (route ++ b :: (z' ++ (")".toList ++ tail)))))))
  | router {lead z middle z' tail : List Char} {a b : Char} (opens : isMark a = true) (closes : isMark b = true)
      (front : Unquoted lead) (inner : Unquoted middle) (back : Unquoted tail) (blank : Blank z) (blank' : Blank z') :
      Mounts route (lead ++ ("createResourceRouter(".toList ++ (z ++ ("\x7b".toList ++ (middle ++
        ("resourceName:".toList ++ (z' ++ a :: (route ++ b :: tail))))))))

def forms : List Pattern :=
  [literalCall "createBaseApp", resourceRouter, literalCall "stripPathPrefix"]

theorem mountedRoute?_eq (source : List Char) :
    mountedRoute? source = ((forms.findSome? (·.find? source)).bind (·.group? 1)).map normalRoute := rfl

section Forms

variable {s m : Progress}

theorem literalCall_cases {callee : String} (member : m ∈ (literalCall callee).ways s) :
    ∃ lead a w b u, Quotes s.place.rest lead a w b u ∧ m.captures = (behind s lead a w b u).captures := by
  simp only [literalCall, blanks, mem_ways_chain_cons, mem_ways_chain_nil, mem_ways_text, mem_ways_most] at member
  obtain ⟨_, ⟨r₁, ahead, rfl⟩, _, ⟨r₂, cut₁, rfl⟩, _, ⟨z, r₃, cut₂, _, rfl⟩, t, inner, _, ⟨z', r₄, _, _, rfl⟩, _,
    ⟨r₅, _, rfl⟩, rfl⟩ := member
  simp only [Progress.beyond_beyond, Progress.beyond_place, Cursor.beyond_rest] at cut₁ cut₂ inner
  subst cut₁ cut₂
  have whole : s.place.rest = callee.toList ++ "(".toList ++ z ++ r₃ := by
    rw [ahead]
    simp only [List.append_assoc]
  obtain ⟨a, w, b, u, quotes, _, rfl⟩ := (mem_ways_quoted_after whole).mp inner
  exact ⟨_, a, w, b, u, quotes, rfl⟩

theorem resourceRouter_cases (member : m ∈ resourceRouter.ways s) :
    ∃ lead a w b u, Quotes s.place.rest lead a w b u ∧ m.captures = (behind s lead a w b u).captures := by
  simp only [resourceRouter, blanks, mem_ways_chain_cons, mem_ways_chain_nil, mem_ways_text, mem_ways_most,
    mem_ways_fewest] at member
  obtain ⟨_, ⟨r₁, ahead, rfl⟩, _, ⟨z, r₂, cut₁, _, rfl⟩, _, ⟨r₃, cut₂, rfl⟩, _, ⟨x, r₄, cut₃, _, rfl⟩, _,
    ⟨r₅, cut₄, rfl⟩, _, ⟨z', r₆, cut₅, _, rfl⟩, t, inner, rfl⟩ := member
  simp only [Progress.beyond_beyond, Progress.beyond_place, Cursor.beyond_rest] at cut₁ cut₂ cut₃ cut₄ cut₅ inner
  subst cut₁ cut₂ cut₃ cut₄ cut₅
  have whole : s.place.rest = "createResourceRouter(".toList ++ z ++ "\x7b".toList ++ x ++ "resourceName:".toList ++ z' ++
      r₆ := by
    rw [ahead]
    simp only [List.append_assoc]
  obtain ⟨a, w, b, u, quotes, _, rfl⟩ := (mem_ways_quoted_after whole).mp inner
  exact ⟨_, a, w, b, u, quotes, rfl⟩

theorem forms_cases {form : Pattern} (known : form ∈ forms) (member : m ∈ form.ways s) :
    ∃ lead a w b u, Quotes s.place.rest lead a w b u ∧ m.captures = (behind s lead a w b u).captures := by
  simp only [forms, List.mem_cons, List.not_mem_nil, or_false] at known
  rcases known with rfl | rfl | rfl
  · exact literalCall_cases member
  · exact resourceRouter_cases member
  · exact literalCall_cases member

end Forms

theorem Unquoted.append {v w : List Char} (front : Unquoted v) (back : Unquoted w) : Unquoted (v ++ w) := by
  intro c member
  rcases List.mem_append.mp member with early | late
  · exact front c early
  · exact back c late

theorem Blank.unquoted {z : List Char} (blank : Blank z) : Unquoted z := by
  intro c member
  have isBlank := blank c member
  rw [Bool.eq_false_iff]
  intro mark
  rcases isMark_eq_true_iff.mp mark with rfl | rfl <;> revert isBlank <;> decide

theorem unquoted_of_word {word : String} (free : word.toList.all (!isMark ·) = true) : Unquoted word.toList := by
  intro c member
  simpa using List.all_eq_true.mp free c member

namespace Mounts

variable {route source : List Char}

theorem quotes (h : Mounts route source) (plain : Unquoted route) :
    ∃ front a b back, Quotes source front a route b back ∧ Unquoted front ∧ Unquoted back := by
  cases h with
  | call known opens closes front back blank blank' =>
    rename_i callee lead z z' tail a b
    have word : Unquoted callee.toList := by
      rcases known with rfl | rfl <;> exact unquoted_of_word (by decide)
    refine ⟨lead ++ (callee.toList ++ ("(".toList ++ z)), a, b, z' ++ (")".toList ++ tail), ⟨?_, opens, closes, plain⟩, ?_, ?_⟩
    · simp only [List.append_assoc]
    · exact front.append (word.append ((unquoted_of_word (by decide)).append blank.unquoted))
    · exact blank'.unquoted.append ((unquoted_of_word (by decide)).append back)
  | router opens closes front inner back blank blank' =>
    rename_i lead z middle z' tail a b
    refine ⟨lead ++ ("createResourceRouter(".toList ++ (z ++ ("\x7b".toList ++ (middle ++
      ("resourceName:".toList ++ z'))))), a, b, tail, ⟨?_, opens, closes, plain⟩, ?_, back⟩
    · simp only [List.append_assoc]
    · exact front.append ((unquoted_of_word (by decide)).append (blank.unquoted.append
        ((unquoted_of_word (by decide)).append (inner.append ((unquoted_of_word (by decide)).append blank'.unquoted)))))

/-- The form of the call has a way where the call stands. -/
theorem occurs (h : Mounts route source) (plain : Unquoted route) (present : route ≠ []) :
    ∃ form ∈ forms, form.occursIn source = true := by
  have inside : ∀ c ∈ route, outside "'\"" c = true := by
    intro c member
    have free := plain c member
    simpa [isMark, outside, among] using free
  cases h with
  | call known opens closes front back blank blank' =>
    rename_i callee lead z z' tail a b
    refine ⟨literalCall callee, by rcases known with rfl | rfl <;> simp [forms], ?_⟩
    refine occursIn_iff.mpr ⟨lead, _, rfl, ?_⟩
    apply ways_chain_ne_nil (mem_ways_text.mpr ⟨_, rfl, rfl⟩)
    apply ways_chain_ne_nil (mem_ways_text.mpr ⟨_, rfl, rfl⟩)
    apply ways_chain_ne_nil (mem_ways_most.mpr ⟨z, _, rfl, blank, rfl⟩)
    apply ways_chain_ne_nil (mem_ways_quoted.mpr ⟨a, route, b, _, rfl, opens, closes, present, inside, rfl⟩)
    apply ways_chain_ne_nil (mem_ways_most.mpr ⟨z', _, rfl, blank', rfl⟩)
    exact ways_chain_ne_nil (mem_ways_text.mpr ⟨_, rfl, rfl⟩) ways_chain_nil_ne_nil
  | router opens closes front inner back blank blank' =>
    rename_i lead z middle z' tail a b
    refine ⟨resourceRouter, by simp [forms], occursIn_iff.mpr ⟨lead, _, rfl, ?_⟩⟩
    apply ways_chain_ne_nil (mem_ways_text.mpr ⟨_, rfl, rfl⟩)
    apply ways_chain_ne_nil (mem_ways_most.mpr ⟨z, _, rfl, blank, rfl⟩)
    apply ways_chain_ne_nil (mem_ways_text.mpr ⟨_, rfl, rfl⟩)
    apply ways_chain_ne_nil (mem_ways_fewest.mpr ⟨middle, _, rfl, fun _ _ => rfl, rfl⟩)
    apply ways_chain_ne_nil (mem_ways_text.mpr ⟨_, rfl, rfl⟩)
    apply ways_chain_ne_nil (mem_ways_most.mpr ⟨z', _, rfl, blank', rfl⟩)
    exact ways_chain_ne_nil (mem_ways_quoted.mpr ⟨a, route, b, _, rfl, opens, closes, present, inside, rfl⟩)
      ways_chain_nil_ne_nil

end Mounts

theorem mountedRoute?_of_mounts {route source : List Char} (h : Mounts route source) (plain : Unquoted route)
    (present : route ≠ []) : mountedRoute? source = some (normalRoute route) := by
  obtain ⟨front, a, b, back, only, frontFree, backFree⟩ := h.quotes plain
  obtain ⟨form, known, occurs⟩ := h.occurs plain present
  have found : (forms.findSome? (·.find? source)).isSome = true := by
    rw [List.isSome_findSome?, List.any_eq_true]
    exact ⟨form, known, occurs⟩
  obtain ⟨m, first⟩ := Option.isSome_iff_exists.mp found
  obtain ⟨form', known', match_⟩ := List.exists_of_findSome?_eq_some first
  have kept : m.group? 1 = some route := by
    obtain ⟨v, u, s, cut, member, rfl⟩ := searchFrom_eq_some match_
    obtain ⟨lead, a', w, b', u', quotes, captures⟩ := forms_cases known' member
    have cut : source = v ++ u := cut
    obtain ⟨_, _, same, _⟩ := (cut ▸ only).unique frontFree backFree quotes
    rw [captures, group?_behind, same]
  rw [mountedRoute?_eq, first, Option.bind_some, kept, Option.map_some]

end Conformance.Endpoint
