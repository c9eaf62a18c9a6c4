import Conformance.Proofs.Pattern.Members
import Conformance.Proofs.Pattern.Sightings
import Conformance.Proofs.Pattern.Surroundings

namespace Conformance.Pattern

section Dependence

variable {p : Pattern} {parts : List Pattern} {more : List Char} {s : Progress} {x : Char}

theorem dependsOn_chain_cons : (chain (p :: parts)).dependsOn more s = false ↔
    p.dependsOn more s = false ∧ ∀ t ∈ p.ways s, (chain parts).dependsOn more t = false := by
  rw [chain_cons, dependsOn, Bool.or_eq_false_iff, List.any_eq_false]
  simp only [Bool.not_eq_true]

theorem dependsOn_chain_append (front : List Pattern) (out : ∀ p ∈ front, p.refuses x = true ∧ p.repeats = false)
    (ahead : x ∈ s.place.rest) (back : ∀ t ∈ (chain front).ways s, x ∈ t.place.rest → (chain parts).dependsOn more t = false) :
    (chain (front ++ parts)).dependsOn more s = false := by
  induction front generalizing s with
  | nil => exact back s (List.mem_singleton_self s) ahead
  | cons p front ih =>
    obtain ⟨own, others⟩ := List.forall_mem_cons.mp out
    apply dependsOn_chain_cons.mpr
    refine ⟨dependsOn_of_looksBeyond more (looksBeyond_of_refuses own.1 own.2 ahead), ?_⟩
    intro t member
    apply ih others (mem_rest_of_refuses own.1 ahead member)
    intro t' further
    exact back t' (mem_ways_chain_cons.mpr ⟨t, member, further⟩)

section Stops

variable {accepts : Char → Bool} (stops : Stops accepts more)

include stops

theorem any_head?_of_stops : more.head?.any accepts = false := by
  cases more with
  | nil => rfl
  | cons c more => simpa using stops

theorem dependsOn_char : (char accepts).dependsOn more s = false := by
  rw [dependsOn, any_head?_of_stops stops, Bool.and_false]

theorem dependsOn_most : (most accepts).dependsOn more s = false := by
  rw [dependsOn, any_head?_of_stops stops, Bool.and_false]

end Stops

theorem dependsOn_exactly {cs : List Char} (other : ∀ d ∈ more.head?, d ∉ cs) : (exactly cs).dependsOn more s = false := by
  induction cs generalizing s with
  | nil => rfl
  | cons c cs ih =>
    have stops : Stops (· == c) more := by
      intro d first
      have absent := other d first
      simp only [List.mem_cons, not_or] at absent
      simpa using absent.1
    refine dependsOn_chain_cons.mpr ⟨dependsOn_char stops, fun t _ => ih fun d first inside => ?_⟩
    exact other d first (List.mem_cons_of_mem c inside)

theorem dependsOn_mostOne {accepts : Char → Bool} (closes : s.place.rest.all accepts = false) :
    (mostOne accepts).dependsOn more s = false := by
  have goesOn : s.place.rest.isEmpty = false := by
    cases ahead : s.place.rest with
    | nil => simp [ahead] at closes
    | cons c rest => rfl
  rw [mostOne, dependsOn, dependsOn, goesOn, Bool.false_and, Bool.false_or, List.any_eq_false]
  intro t member
  obtain ⟨c, u, ahead, accepted, rfl⟩ := mem_ways_char.mp member
  have further : u.all accepts = false := by simpa [ahead, accepted] using closes
  simp [dependsOn, further]

end Dependence

section Lasting

def isBorder : Pattern → Bool
  | wordBorder => true
  | _ => false

/-- Whether every way of the pattern is one when the text goes on. A repetition of a pattern is taken not to be so. -/
def lasts : Pattern → Bool
  | seq first second => (first.lasts || first.isBorder && second.passesSome) && second.lasts
  | either preferred other => preferred.lasts && other.lasts
  | group _ body => body.lasts
  | empty | char _ | most _ | fewest _ | textStart | lineStart => true
  | many _ | wordBorder | textEnd => false

variable {p : Pattern} {s t : Progress} {text : List Char}

theorem atWordBorder_extend {place : Cursor} (more : List Char) (ahead : place.rest ≠ []) :
    (place.extend more).atWordBorder = place.atWordBorder := by
  obtain ⟨c, rest, ahead⟩ := List.exists_cons_of_ne_nil ahead
  rw [Cursor.atWordBorder, Cursor.atWordBorder, Cursor.extend_rest, ahead]
  rfl

theorem extend_mem_ways (lasting : p.lasts = true) (more : List Char) (member : t ∈ p.ways s) :
    t.extend more ∈ p.ways (s.extend more) := by
  induction p generalizing s t with
  | empty =>
    obtain rfl := List.mem_singleton.mp member
    exact List.mem_singleton_self _
  | char accepts =>
    obtain ⟨c, u, ahead, accepted, rfl⟩ := mem_ways_char.mp member
    refine mem_ways_char.mpr ⟨c, u ++ more, ?_, accepted, rfl⟩
    rw [Progress.extend_place, Cursor.extend_rest, ahead, List.cons_append]
  | seq first second ihFirst ihSecond =>
    obtain ⟨begins, ends⟩ := Bool.and_eq_true_iff.mp lasting
    obtain ⟨m, front, back⟩ := mem_ways_seq.mp member
    refine mem_ways_seq.mpr ⟨m.extend more, ?_, ihSecond ends back⟩
    rcases Bool.or_eq_true_iff.mp begins with lasting | border
    · exact ihFirst lasting front
    · -- behind the border the second pattern passes a character, so the border has one on its right
      obtain ⟨border, passes⟩ := Bool.and_eq_true_iff.mp border
      cases first with
      | wordBorder =>
        obtain ⟨here, rfl⟩ := mem_ways_wordBorder.mp front
        have goesOn : m.place.rest ≠ [] := fun ended => by
          rw [ways_eq_nil_of_rest passes ended] at back
          cases back
        exact mem_ways_wordBorder.mpr ⟨(atWordBorder_extend more goesOn).trans here, rfl⟩
      | _ => cases border
  | either preferred other ihPreferred ihOther =>
    obtain ⟨own, own'⟩ := Bool.and_eq_true_iff.mp lasting
    rw [mem_ways_either] at member ⊢
    exact member.imp (ihPreferred own) (ihOther own')
  | most accepts =>
    obtain ⟨w, u, cut, inside, rfl⟩ := mem_ways_most.mp member
    refine mem_ways_most.mpr ⟨w, u ++ more, ?_, inside, rfl⟩
    rw [Progress.extend_place, Cursor.extend_rest, cut, List.append_assoc]
  | fewest accepts =>
    obtain ⟨w, u, cut, inside, rfl⟩ := mem_ways_fewest.mp member
    refine mem_ways_fewest.mpr ⟨w, u ++ more, ?_, inside, rfl⟩
    rw [Progress.extend_place, Cursor.extend_rest, cut, List.append_assoc]
  | group number body ih =>
    obtain ⟨m, inner, rfl⟩ := mem_ways_group.mp member
    exact mem_ways_group.mpr ⟨m.extend more, ih lasting inner, rfl⟩
  | textStart =>
    obtain ⟨here, rfl⟩ := mem_ways_textStart.mp member
    exact mem_ways_textStart.mpr ⟨here, rfl⟩
  | lineStart =>
    obtain ⟨here, rfl⟩ := mem_ways_lineStart.mp member
    exact mem_ways_lineStart.mpr ⟨here, rfl⟩
  | many | wordBorder | textEnd => cases lasting

theorem occursIn_append_of_lasts (lasting : p.lasts = true) (occurs : p.occursIn text = true) (more : List Char) :
    p.occursIn (text ++ more) = true := by
  obtain ⟨v, u, rfl, some⟩ := occursIn_iff.mp occurs
  obtain ⟨t, member⟩ := List.exists_mem_of_ne_nil _ some
  have grown := extend_mem_ways lasting more member
  exact occursIn_iff.mpr ⟨v, u ++ more, List.append_assoc .., List.ne_nil_of_mem grown⟩

end Lasting

end Conformance.Pattern
