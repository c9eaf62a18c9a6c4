import Conformance.Proofs.Pattern.Matches
import Conformance.Text.Offset

namespace Conformance

namespace Cursor

def Leads (kind : Char → Prop) (start stop : Cursor) : Prop :=
  ∃ v u, start.rest = v ++ u ∧ (∀ c ∈ v, kind c) ∧ stop = start.beyond v u

def IsAhead (start stop : Cursor) : Prop :=
  Leads (fun _ => True) start stop

namespace Leads

variable {kind : Char → Prop} {start middle stop : Cursor}

theorem refl (start : Cursor) : Leads kind start start :=
  ⟨[], start.rest, rfl, by simp, rfl⟩

theorem trans (first : Leads kind start middle) (second : Leads kind middle stop) : Leads kind start stop := by
  obtain ⟨v, u, cut, own, rfl⟩ := first
  obtain ⟨w, u', cut', own', rfl⟩ := second
  refine ⟨v ++ w, u', ?_, ?_, beyond_beyond start v w u u'⟩
  · have further : u = w ++ u' := cut'
    rw [cut, further, List.append_assoc]
  · intro c inside
    exact (List.mem_append.mp inside).elim (own c) (own' c)

theorem past {c : Char} {rest : List Char} (ahead : start.rest = c :: rest) (own : kind c) :
    Leads kind start (start.past c rest) :=
  ⟨[c], rest, ahead, by simpa using own, past_eq_beyond start c rest⟩

theorem mem_textTo {c : Char} (leads : Leads kind start stop) (member : c ∈ start.textTo stop) :
    kind c ∧ c ∈ start.rest := by
  obtain ⟨v, u, cut, own, rfl⟩ := leads
  rw [textTo_beyond cut] at member
  exact ⟨own c member, by simp [cut, member]⟩

end Leads

namespace IsAhead

variable {start stop : Cursor}

theorem offset_le (ahead : IsAhead start stop) : start.offset ≤ stop.offset := by
  obtain ⟨v, u, _, _, rfl⟩ := ahead
  exact Nat.le_add_right _ _

theorem rest_subset (ahead : IsAhead start stop) : stop.rest ⊆ start.rest := by
  obtain ⟨v, u, cut, _, rfl⟩ := ahead
  intro c inside
  have behind : c ∈ u := inside
  simp [cut, behind]

theorem isBorder {s : List Char} (ahead : IsAhead (.ofText s) stop) : Text.IsBorder s stop.offset := by
  obtain ⟨v, u, cut, _, rfl⟩ := ahead
  have whole : s = v ++ u := cut
  have count : ((Cursor.ofText s).beyond v u).offset = Text.byteLength v := Nat.zero_add _
  rw [count, whole]
  exact Text.isBorder_byteLength v u

end IsAhead

theorem leads_of_mem_reach {kind : Char → Prop} {accepts : Char → Bool} (own : ∀ c, accepts c = true → kind c)
    {offset : Nat} {before : Option Char} {rest : List Char} {place : Cursor}
    (member : place ∈ reach accepts offset before rest) : Leads kind ⟨offset, before, rest⟩ place := by
  induction rest generalizing offset before with
  | nil =>
    obtain rfl := List.mem_singleton.mp member
    exact .refl _
  | cons c rest ih =>
    rw [reach, List.mem_cons] at member
    rcases member with rfl | further
    · exact .refl _
    · split at further
      · rename_i accepted
        have first : Leads kind ⟨offset, before, c :: rest⟩ (Cursor.past ⟨offset, before, c :: rest⟩ c rest) :=
          .past rfl (own c accepted)
        exact first.trans (ih further)
      · cases further

end Cursor

namespace Pattern

open Cursor (Leads IsAhead)

def Passes (kind : Char → Prop) : Pattern → Prop
  | char accepts | most accepts | fewest accepts => ∀ c, accepts c = true → kind c
  | seq first second => first.Passes kind ∧ second.Passes kind
  | either preferred other => preferred.Passes kind ∧ other.Passes kind
  | many body | group _ body => body.Passes kind
  | empty | wordBorder | textStart | textEnd | lineStart => True

def Keeps (number : Nat) (kind : Char → Prop) : Pattern → Prop
  | seq first second => first.Keeps number kind ∧ second.Keeps number kind
  | either preferred other => preferred.Keeps number kind ∧ other.Keeps number kind
  | many body => body.Keeps number kind
  | group n body => body.Keeps number kind ∧ (n = number → body.Passes kind)
  | empty | char _ | most _ | fewest _ | wordBorder | textStart | textEnd | lineStart => True

theorem passes_any (p : Pattern) : p.Passes fun _ => True := by
  induction p with
  | seq _ _ ih₁ ih₂ => exact ⟨ih₁, ih₂⟩
  | either _ _ ih₁ ih₂ => exact ⟨ih₁, ih₂⟩
  | many _ ih => exact ih
  | group _ _ ih => exact ih
  | char | most | fewest => exact fun _ _ => trivial
  | empty | wordBorder | textStart | textEnd | lineStart => trivial

theorem keeps_any (number : Nat) (p : Pattern) : p.Keeps number fun _ => True := by
  induction p with
  | seq _ _ ih₁ ih₂ => exact ⟨ih₁, ih₂⟩
  | either _ _ ih₁ ih₂ => exact ⟨ih₁, ih₂⟩
  | many _ ih => exact ih
  | group _ body ih => exact ⟨ih, fun _ => passes_any body⟩
  | char | most | fewest | empty | wordBorder | textStart | textEnd | lineStart => trivial

def refuses (x : Char) : Pattern → Bool
  | char accepts | most accepts | fewest accepts => !accepts x
  | seq first second => first.refuses x && second.refuses x
  | either preferred other => preferred.refuses x && other.refuses x
  | many body | group _ body => body.refuses x
  | empty | wordBorder | textStart | textEnd | lineStart => true

def keepsOut (number : Nat) (x : Char) : Pattern → Bool
  | seq first second => first.keepsOut number x && second.keepsOut number x
  | either preferred other => preferred.keepsOut number x && other.keepsOut number x
  | many body => body.keepsOut number x
  | group n body => body.keepsOut number x && (n != number || body.refuses x)
  | empty | char _ | most _ | fewest _ | wordBorder | textStart | textEnd | lineStart => true

theorem passes_of_refuses {x : Char} {p : Pattern} (out : p.refuses x = true) : p.Passes (· ≠ x) := by
  induction p with
  | seq _ _ ih₁ ih₂ =>
    obtain ⟨first, second⟩ := Bool.and_eq_true_iff.mp out
    exact ⟨ih₁ first, ih₂ second⟩
  | either _ _ ih₁ ih₂ =>
    obtain ⟨first, second⟩ := Bool.and_eq_true_iff.mp out
    exact ⟨ih₁ first, ih₂ second⟩
  | many _ ih => exact ih out
  | group _ _ ih => exact ih out
  | char accepts | most accepts | fewest accepts =>
    rintro c accepted rfl
    simp [refuses, accepted] at out
  | empty | wordBorder | textStart | textEnd | lineStart => trivial

theorem keeps_of_keepsOut {number : Nat} {x : Char} {p : Pattern} (out : p.keepsOut number x = true) :
    p.Keeps number (· ≠ x) := by
  induction p with
  | seq _ _ ih₁ ih₂ =>
    obtain ⟨first, second⟩ := Bool.and_eq_true_iff.mp out
    exact ⟨ih₁ first, ih₂ second⟩
  | either _ _ ih₁ ih₂ =>
    obtain ⟨first, second⟩ := Bool.and_eq_true_iff.mp out
    exact ⟨ih₁ first, ih₂ second⟩
  | many _ ih => exact ih out
  | group n body ih =>
    obtain ⟨inner, own⟩ := Bool.and_eq_true_iff.mp out
    refine ⟨ih inner, fun same => ?_⟩
    simp only [same, bne_self_eq_false, Bool.false_or] at own
    exact passes_of_refuses own
  | char | most | fewest | empty | wordBorder | textStart | textEnd | lineStart => trivial

theorem mem_guard {condition : Bool} {s t : Progress} (member : t ∈ if condition then [s] else []) : t = s := by
  cases condition with
  | true => exact List.mem_singleton.mp member
  | false => cases member

/-- What holds of every step and from place to place holds of a repetition. -/
theorem repeatWays_induction {f : Progress → List Progress} {R : Progress → Progress → Prop}
    (refl : ∀ s, R s s) (trans : ∀ s t u, R s t → R t u → R s u)
    (own : ∀ s, ∀ t ∈ f s, R s t) (limit : Nat) {s t : Progress} (member : t ∈ repeatWays f limit s) :
    R s t := by
  induction limit generalizing s with
  | zero =>
    obtain rfl := List.mem_singleton.mp member
    exact refl _
  | succ limit ih =>
    rw [repeatWays, List.mem_append, List.mem_flatMap] at member
    rcases member with ⟨t', first, further⟩ | last
    · split at further
      · exact trans _ _ _ (own s t' first) (ih further)
      · cases further
    · obtain rfl := List.mem_singleton.mp last
      exact refl _

/-- A pattern passes a part of the text ahead, of characters of its kind, whatever way it takes. -/
theorem leads_of_mem_ways {kind : Char → Prop} {p : Pattern} (passes : p.Passes kind) {s t : Progress}
    (member : t ∈ p.ways s) : Leads kind s.place t.place := by
  induction p generalizing s t with
  | empty =>
    obtain rfl := List.mem_singleton.mp member
    exact .refl _
  | char accepts =>
    rw [ways] at member
    split at member
    · cases member
    · rename_i c rest ahead
      split at member
      · rename_i accepted
        obtain rfl := List.mem_singleton.mp member
        exact .past ahead (passes c accepted)
      · cases member
  | seq first second ih₁ ih₂ =>
    rw [ways, List.mem_flatMap] at member
    obtain ⟨t', inner, member⟩ := member
    exact (ih₁ passes.1 inner).trans (ih₂ passes.2 member)
  | either preferred other ih₁ ih₂ =>
    rw [ways, List.mem_append] at member
    exact member.elim (ih₁ passes.1) (ih₂ passes.2)
  | many body ih =>
    exact repeatWays_induction (R := fun s t => Leads kind s.place t.place) (fun _ => .refl _)
      (fun _ _ _ first second => first.trans second) (fun _ _ => ih passes) _ member
  | most accepts =>
    obtain ⟨place, inside, rfl⟩ := List.mem_map.mp member
    exact Cursor.leads_of_mem_reach passes (List.mem_reverse.mp inside)
  | fewest accepts =>
    obtain ⟨place, inside, rfl⟩ := List.mem_map.mp member
    exact Cursor.leads_of_mem_reach passes inside
  | group number body ih =>
    rw [ways, List.mem_map] at member
    obtain ⟨t', inner, rfl⟩ := member
    have passed : Leads kind s.place t'.place := ih passes inner
    exact passed
  | wordBorder => exact mem_guard member ▸ .refl _
  | textStart => exact mem_guard member ▸ .refl _
  | textEnd => exact mem_guard member ▸ .refl _
  | lineStart => exact mem_guard member ▸ .refl _

theorem isAhead_of_mem_ways {p : Pattern} {s t : Progress} (member : t ∈ p.ways s) : IsAhead s.place t.place :=
  leads_of_mem_ways p.passes_any member

/-- The groups kept from one progress to another are of a kind if their number is the given one. -/
def Adds (number : Nat) (kind : Char → Prop) (s t : Progress) : Prop :=
  ∀ x ∈ t.captures, x ∈ s.captures ∨
    IsAhead s.place x.start ∧ IsAhead x.start x.stop ∧ (x.number = number → Leads kind x.start x.stop)

theorem Adds.trans {number : Nat} {kind : Char → Prop} {s t u : Progress} (ahead : IsAhead s.place t.place)
    (first : Adds number kind s t) (second : Adds number kind t u) : Adds number kind s u := by
  intro x member
  rcases second x member with before | ⟨start, stop, own⟩
  · exact first x before
  · exact Or.inr ⟨Leads.trans ahead start, stop, own⟩

theorem adds_of_mem_ways {number : Nat} {kind : Char → Prop} {p : Pattern} (keeps : p.Keeps number kind)
    {s t : Progress} (member : t ∈ p.ways s) : Adds number kind s t := by
  induction p generalizing s t with
  | empty =>
    obtain rfl := List.mem_singleton.mp member
    exact fun _ => Or.inl
  | char accepts =>
    rw [ways] at member
    split at member
    · cases member
    · split at member
      · obtain rfl := List.mem_singleton.mp member
        exact fun _ => Or.inl
      · cases member
  | seq first second ih₁ ih₂ =>
    rw [ways, List.mem_flatMap] at member
    obtain ⟨t', inner, member⟩ := member
    exact (ih₁ keeps.1 inner).trans (isAhead_of_mem_ways inner) (ih₂ keeps.2 member)
  | either preferred other ih₁ ih₂ =>
    rw [ways, List.mem_append] at member
    exact member.elim (ih₁ keeps.1) (ih₂ keeps.2)
  | many body ih =>
    have both := repeatWays_induction (f := body.ways)
      (R := fun s t => IsAhead s.place t.place ∧ Adds number kind s t)
      (fun _ => ⟨.refl _, fun _ => Or.inl⟩)
      (fun _ _ _ first second => ⟨Leads.trans first.1 second.1, first.2.trans first.1 second.2⟩)
      (fun _ _ inner => ⟨isAhead_of_mem_ways inner, ih keeps inner⟩) _ member
    exact both.2
  | most accepts =>
    obtain ⟨place, _, rfl⟩ := List.mem_map.mp member
    exact fun _ => Or.inl
  | fewest accepts =>
    obtain ⟨place, _, rfl⟩ := List.mem_map.mp member
    exact fun _ => Or.inl
  | group n body ih =>
    rw [ways, List.mem_map] at member
    obtain ⟨t', inner, rfl⟩ := member
    intro x inside
    rcases List.mem_cons.mp inside with rfl | before
    · exact Or.inr ⟨.refl _, isAhead_of_mem_ways inner, fun same => leads_of_mem_ways (keeps.2 same) inner⟩
    · exact ih keeps.1 inner x before
  | wordBorder => exact mem_guard member ▸ fun _ => Or.inl
  | textStart => exact mem_guard member ▸ fun _ => Or.inl
  | textEnd => exact mem_guard member ▸ fun _ => Or.inl
  | lineStart => exact mem_guard member ▸ fun _ => Or.inl

/-- The match is a way of the pattern from a place ahead. -/
structure Match.Follows (m : Match) (p : Pattern) (place : Cursor) : Prop where
  ahead : IsAhead place m.start
  way : ∃ t ∈ p.ways ⟨m.start, []⟩, t.place = m.stop ∧ t.captures = m.captures

variable {p : Pattern} {place : Cursor} {m : Match}

theorem follows_of_searchFrom (found : p.searchFrom place = some m) : m.Follows p place := by
  obtain ⟨v, u, s, cut, member, rfl⟩ := searchFrom_eq_some found
  exact ⟨⟨v, u, cut, fun _ _ => trivial, rfl⟩, s, member, rfl, rfl⟩

namespace Match.Follows

theorem isAhead (follows : m.Follows p place) : IsAhead m.start m.stop := by
  obtain ⟨t, member, stop, _⟩ := follows.way
  exact stop ▸ isAhead_of_mem_ways member

theorem later {earlier : Cursor} (ahead : IsAhead earlier place) (follows : m.Follows p place) : m.Follows p earlier :=
  ⟨Leads.trans ahead follows.ahead, follows.way⟩

theorem mem_group? {number : Nat} {kind : Char → Prop} {kept : List Char} (follows : m.Follows p place)
    (keeps : p.Keeps number kind) (found : m.group? number = some kept) : ∀ c ∈ kept, kind c ∧ c ∈ place.rest := by
  obtain ⟨t, member, _, captures⟩ := follows.way
  obtain ⟨x, first, rfl⟩ := Option.map_eq_some_iff.mp found
  have inside := List.mem_of_find?_eq_some first
  have same : x.number = number := by simpa using List.find?_some first
  rw [← captures] at inside
  rcases adds_of_mem_ways keeps member x inside with none | ⟨start, _, own⟩
  · cases none
  · intro c within
    obtain ⟨ofKind, ahead⟩ := (own same).mem_textTo within
    exact ⟨ofKind, follows.ahead.rest_subset (start.rest_subset ahead)⟩

theorem mem_text {c : Char} (follows : m.Follows p place) (member : c ∈ m.text) : c ∈ place.rest :=
  follows.ahead.rest_subset (Leads.mem_textTo follows.isAhead member).2

end Match.Follows

theorem isAhead_of_resume? {next : Cursor} (further : m.resume? = some next) : IsAhead m.stop next := by
  rw [Match.resume?] at further
  split at further
  · cases further
    exact .refl _
  · rw [Cursor.next?] at further
    split at further
    · cases further
    · rename_i c rest ahead
      cases further
      exact .past ahead trivial

theorem follows_of_mem_matchesFrom {limit : Nat} (member : m ∈ p.matchesFrom limit place) : m.Follows p place := by
  induction limit generalizing place with
  | zero => cases member
  | succ limit ih =>
    rw [matchesFrom] at member
    split at member
    · cases member
    · rename_i first found
      have own := follows_of_searchFrom found
      rcases List.mem_cons.mp member with rfl | member
      · exact own
      · split at member
        · cases member
        · rename_i next further
          have passed := Leads.trans own.ahead own.isAhead
          exact (ih member).later (Leads.trans passed (isAhead_of_resume? further))

theorem pairwise_matchesFrom (limit : Nat) (p : Pattern) (place : Cursor) :
    (p.matchesFrom limit place).Pairwise fun a b => a.start.offset ≤ b.start.offset := by
  induction limit generalizing place with
  | zero => exact .nil
  | succ limit ih =>
    rw [matchesFrom]
    split
    · exact .nil
    · rename_i first found
      split
      · exact List.pairwise_singleton _ _
      · rename_i next further
        refine List.pairwise_cons.mpr ⟨?_, ih next⟩
        intro m member
        have own := (follows_of_searchFrom found).isAhead
        have behind := (follows_of_mem_matchesFrom member).ahead
        exact IsAhead.offset_le (Leads.trans own (Leads.trans (isAhead_of_resume? further) behind))

theorem follows_of_find? {s : List Char} (found : p.find? s = some m) : m.Follows p (.ofText s) :=
  follows_of_searchFrom found

theorem follows_of_mem_findAll {s : List Char} (member : m ∈ p.findAll s) : m.Follows p (.ofText s) :=
  follows_of_mem_matchesFrom member

/-- What is left of a text without its matches is a part of the text. -/
theorem removeAll_subset (p : Pattern) (s : List Char) : p.removeAll s ⊆ s := by
  have left : ∀ (matches_ : List Match) (place : Cursor), (∀ m ∈ matches_, m.start.rest ⊆ s ∧ m.stop.rest ⊆ s) →
      place.rest ⊆ s → leftOver place matches_ ⊆ s := by
    intro matches_
    induction matches_ with
    | nil => exact fun place _ inside => inside
    | cons m matches_ ih =>
      intro place each inside c member
      rw [leftOver, List.mem_append] at member
      rcases member with before | behind
      · exact inside (List.mem_of_mem_take before)
      · exact ih m.stop (fun m' member' => each m' (by simp [member'])) (each m (by simp)).2 behind
  refine left _ _ ?_ (List.Subset.refl s)
  intro m member
  have follows := follows_of_mem_findAll member
  exact ⟨follows.ahead.rest_subset, fun c inside => follows.ahead.rest_subset (follows.isAhead.rest_subset inside)⟩

end Pattern

end Conformance
