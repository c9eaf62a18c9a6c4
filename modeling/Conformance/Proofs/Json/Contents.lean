import Conformance.Proofs.Json.Records
import Mathlib.Data.List.Forall2

namespace Conformance.Json

section Depth

mutual

def Value.depth : Value → Nat
  | .list vs => depthOfItems vs + 1
  | .object ms => depthOfMembers ms + 1
  | _ => 0

def depthOfItems : List Value → Nat
  | [] => 0
  | v :: vs => max v.depth (depthOfItems vs)

def depthOfMembers : List (List Char × Value) → Nat
  | [] => 0
  | (_, v) :: ms => max v.depth (depthOfMembers ms)

end

def Phrase.depth : Phrase → Nat
  | .value v => v.depth
  | .items vs => depthOfItems vs
  | .members ms => depthOfMembers ms

/-- No more depth is needed to write a phrase than it has. -/
theorem Written.at_depth {number : List Char → List Char → Prop} {d e : Nat} {phrase : Phrase} {l t : List Char}
    (h : Written number d phrase l t) (deep : phrase.depth ≤ e) : Written number e phrase l t := by
  induction h generalizing e with
  | null => exact .null
  | yes => exact .yes
  | no => exact .no
  | string spelled => exact .string spelled
  | number spelled => exact .number spelled
  | emptyList ends =>
    obtain ⟨e, rfl⟩ := Nat.exists_eq_add_of_lt deep
    exact .emptyList ends
  | list _ ih =>
    obtain ⟨e, rfl⟩ := Nat.exists_eq_add_of_lt deep
    exact .list (ih (by simp only [Phrase.depth]; omega))
  | emptyObject ends =>
    obtain ⟨e, rfl⟩ := Nat.exists_eq_add_of_lt deep
    exact .emptyObject ends
  | object _ ih =>
    obtain ⟨e, rfl⟩ := Nat.exists_eq_add_of_lt deep
    exact .object (ih (by simp only [Phrase.depth]; omega))
  | lastItem start _ ends ih => exact .lastItem start (ih (le_trans (le_max_left _ _) deep)) ends
  | item start _ ends _ ih ih' =>
    exact .item start (ih (le_trans (le_max_left _ _) deep)) ends (ih' (le_trans (le_max_right _ _) deep))
  | lastMember start name colon gap _ ends ih =>
    exact .lastMember start name colon gap (ih (le_trans (le_max_left _ _) deep)) ends
  | member start name colon gap _ ends _ ih ih' =>
    exact .member start name colon gap (ih (le_trans (le_max_left _ _) deep)) ends
      (ih' (le_trans (le_max_right _ _) deep))

end Depth

section Means

variable {α : Type}

def IsString (s : String) (v : Value) : Prop :=
  v = .string s.toList

def ListOf (Means : α → Value → Prop) (as : List α) (v : Value) : Prop :=
  ∃ vs, v = .list vs ∧ List.Forall₂ Means as vs

inductive Optionally (Means : α → Value → Prop) : Option α → Option Value → Prop
  | absent : Optionally Means none none
  | null : Optionally Means none (some .null)
  | value {a : α} {v : Value} (means : Means a v) : Optionally Means (some a) (some v)

def Once (keys : List String) (ms : List (List Char × Value)) : Prop :=
  ms.Pairwise fun m m' => m.1 = m'.1 → ∀ key ∈ keys, key.toList ≠ m.1

instance (keys : List String) (ms : List (List Char × Value)) : Decidable (Once keys ms) :=
  inferInstanceAs (Decidable (ms.Pairwise fun m m' => m.1 = m'.1 → ∀ key ∈ keys, key.toList ≠ m.1))

inductive HasMember (key : String) (Means : α → Value → Prop) (a : α) : Value → Prop
  | mk {ms : List (List Char × Value)} {v : Value} (once : Once [key] ms) (found : ms.lookup key.toList = some v)
      (means : Means a v) : HasMember key Means a (.object ms)

/-- The text is a way to write the value, with white space around it. No number in it is too large. -/
def TextOf (v : Value) (text : List Char) : Prop :=
  ∃ d l t, Spaces text l ∧ Written InRange d (.value v) l t ∧ Spaces t []

def Stands (Means : α → Value → Prop) (a : α) (l t : List Char) : Prop :=
  ∃ d v, Means a v ∧ Written InRange d (.value v) l t

variable {Means : α → Value → Prop} {a : α} {as : List α} {v : Value} {vs : List Value}
  {ms done rest : List (List Char × Value)} {keys : List String} {key : String} {d : Nat} {l t : List Char}

theorem Stands.opens (h : Stands Means a l t) : Opens l t := by
  obtain ⟨d, v, _, own⟩ := h
  have signed : ∀ l t, InRange l t → SignedNumeral l t := fun _ _ numeral => numeral.signed
  exact ⟨own.length_lt signed, own.opens signed⟩

theorem Stands.head?_ne (h : Stands Means a l t) (proper : ∀ a, ¬ Means a .null) : l.head? ≠ some 'n' := by
  obtain ⟨d, v, means, own⟩ := h
  cases own with
  | null => exact absurd means (proper a)
  | number numeral =>
    obtain ⟨_, c, rest, rfl, known⟩ := numeral.signed.facts
    intro same
    obtain rfl := Option.some.inj same
    exact absurd known (by decide)
  | _ => simp

theorem Stands.textSpelled {s : String} (h : Stands IsString s l t) : TextSpelled s l t := by
  obtain ⟨d, v, rfl, own⟩ := h
  cases own with
  | string spelled => simpa using TextSpelled.mk spelled

theorem optionalSpelled_of_written {o : Option α} (given : Optionally Means o (some v))
    (h : Written InRange d (.value v) l t) : OptionalSpelled (Stands Means) o l t := by
  cases given with
  | null =>
    cases h with
    | null => exact .null
  | value means => exact .some ⟨d, v, means, h⟩

theorem rows_of_written (means : List.Forall₂ Means as vs) (h : Written InRange d (.items vs) l t) :
    Rows (Stands Means) as l t := by
  induction means generalizing l with
  | nil => cases h
  | cons own others ih =>
    cases h with
    | lastItem start written ends =>
      cases others
      exact .last start ⟨d, _, own, written⟩ ends
    | item start written ends more => exact .more start ⟨d, _, own, written⟩ ends (ih more)

theorem Stands.listSpelled (h : Stands (ListOf Means) as l t) : ListSpelled (Stands Means) as l t := by
  obtain ⟨d, _, ⟨vs, rfl, means⟩, own⟩ := h
  cases own with
  | emptyList ends =>
    cases means
    exact .empty ends
  | list inner => exact .items (rows_of_written means inner)

end Means

section Members

variable {keys : List String} {key : String} {v : Value} {ms done rest : List (List Char × Value)}

theorem Once.notMem (once : Once keys (done ++ (key.toList, v) :: rest)) (known : key ∈ keys) :
    key.toList ∉ done.map Prod.fst := by
  intro member
  obtain ⟨m, before, same⟩ := List.mem_map.mp member
  exact (List.pairwise_append.mp once).2.2 m before _ List.mem_cons_self same key known same.symm

theorem lookup_eq_none (fresh : key.toList ∉ ms.map Prod.fst) : ms.lookup key.toList = none := by
  rw [List.lookup_eq_none_iff]
  intro m member
  have other : key.toList ≠ m.1 := fun same => fresh (same ▸ List.mem_map_of_mem member)
  simpa using other

theorem lookup_of_notMem (fresh : key.toList ∉ done.map Prod.fst) :
    (done ++ (key.toList, v) :: rest).lookup key.toList = some v := by
  rw [List.lookup_append, lookup_eq_none fresh, Option.none_or, List.lookup_cons_self]

theorem Once.filter_eq (once : Once keys ms) (known : key ∈ keys) (found : ms.lookup key.toList = some v) :
    ms.filter (·.1 == key.toList) = [(key.toList, v)] := by
  obtain ⟨done, rest, rfl, before⟩ := List.lookup_eq_some_iff.mp found
  have others := (List.pairwise_append.mp once).2.1
  have front : done.filter (·.1 == key.toList) = [] := by
    rw [List.filter_eq_nil_iff]
    intro m member same
    have other := before m member
    rw [(beq_iff_eq.mp same), bne_self_eq_false] at other
    cases other
  have back : rest.filter (·.1 == key.toList) = [] := by
    rw [List.filter_eq_nil_iff]
    intro m member same
    exact (List.pairwise_cons.mp others).1 m member (beq_iff_eq.mp same).symm key known rfl
  simp [front, back]

variable {α : Type} {Spelled : String → α → α → List Char → List Char → Prop} {fill : List String → α}
  {all : List (List Char × Value)} {seen : List String} {k : List Char} {d : Nat} {l l₁ l₂ t : List Char}

def Covers (keys seen : List String) (ms : List (List Char × Value)) : Prop :=
  ∀ key ∈ keys, key ∈ seen ↔ key.toList ∈ ms.map Prod.fst

def Fills (keys : List String) (Spelled : String → α → α → List Char → List Char → Prop) (fill : List String → α)
    (all : List (List Char × Value)) : Prop :=
  ∀ seen, ∀ key ∈ keys, key ∉ seen → ∀ v, all.lookup key.toList = some v → ∀ d l t,
    Written InRange d (.value v) l t → Spelled key (fill seen) (fill (key :: seen)) l t

theorem memberSpelled_of_written (once : Once keys all) (fills : Fills keys Spelled fill all)
    (cut : all = done ++ (k, v) :: rest) (covers : Covers keys seen done) (colon : Spaces l (':' :: l₁))
    (gap : Spaces l₁ l₂) (own : Written InRange d (.value v) l₂ t) :
    ∃ seen', Covers keys seen' (done ++ [(k, v)]) ∧
      MemberSpelled keys Spelled (seen, fill seen) k (seen', fill seen') l t := by
  by_cases known : ∃ key ∈ keys, key.toList = k
  · obtain ⟨key, known, rfl⟩ := known
    have fresh := Once.notMem (cut ▸ once) known
    have new : key ∉ seen := fun member => fresh ((covers key known).mp member)
    refine ⟨key :: seen, ?_, .field known new colon gap (fills seen key known new v ?_ d l₂ t own)⟩
    · intro other known
      have same := covers other known
      simp [same, String.toList_inj, or_comm]
    · rw [cut]
      exact lookup_of_notMem fresh
  · push Not at known
    refine ⟨seen, ?_, .other known colon gap (own.imp fun _ _ numeral => numeral.signed)⟩
    intro other among
    have same := covers other among
    simp [same, known other among]

theorem keyRows_of_written (once : Once keys all) (fills : Fills keys Spelled fill all) (cut : all = done ++ ms)
    (covers : Covers keys seen done) (h : Written InRange d (.members ms) l t) :
    ∃ seen', Covers keys seen' all ∧ KeyRows (MemberSpelled keys Spelled) (seen, fill seen) (seen', fill seen') l t := by
  -- on the members that are left; the keys of those before are in `seen`
  induction ms generalizing done seen l with
  | nil => cases h
  | cons m ms ih =>
    cases h with
    | lastMember start name colon gap own ends =>
      obtain ⟨seen', covers', member⟩ := memberSpelled_of_written once fills cut covers colon gap own
      exact ⟨seen', cut ▸ covers', .last start name member ends⟩
    | member start name colon gap own ends more =>
      obtain ⟨seen', covers', member⟩ := memberSpelled_of_written once fills cut covers colon gap own
      obtain ⟨seen'', covers'', others⟩ := ih (by rw [cut, List.append_assoc, List.singleton_append]) covers' more
      exact ⟨seen'', covers'', .more start name member ends others⟩

theorem Optionally.ite_eq {β : Type} {Means : β → Value → Prop} {o : Option β}
    (h : Optionally Means o (all.lookup key.toList)) (covers : Covers keys seen all) (known : key ∈ keys) :
    (if key ∈ seen then o else none) = o := by
  by_cases present : key ∈ seen
  · exact if_pos present
  · rw [lookup_eq_none fun member => present ((covers key known).mpr member)] at h
    cases h
    exact if_neg present

theorem recordSpelled_of_written (fill : List String → α) {a : α} (once : Once keys all) (fills : Fills keys Spelled fill all)
    (full : ∀ seen, Covers keys seen all → fill seen = a) (h : Written InRange d (.value (.object all)) l t) :
    RecordSpelled keys Spelled (fill []) a l t := by
  have start : Covers keys [] [] := by simp [Covers]
  cases h with
  | emptyObject ends =>
    rw [full [] start]
    exact .empty ends
  | object inner =>
    obtain ⟨seen, covers, rows⟩ := keyRows_of_written once fills (List.nil_append _).symm start inner
    exact .members (full seen covers ▸ rows)

theorem Stands.recordSpelled {β : Type} {Means : β → Value → Prop} {b : β} {start a : α}
    (h : Stands (HasMember key Means) b l t)
    (own : ∀ v, Means b v → ∀ d l t, Written InRange d (.value v) l t → Spelled key start a l t) :
    RecordSpelled [key] Spelled start a l t := by
  obtain ⟨d, _, ⟨once, found, means⟩, written⟩ := h
  refine recordSpelled_of_written (fun seen => if key ∈ seen then a else start) once ?_ ?_ written
  · intro seen other known new v' found' d l t own'
    obtain rfl := List.mem_singleton.mp known
    obtain rfl := Option.some.inj (found.symm.trans found')
    simpa [new] using own _ means d l t own'
  · intro seen covers
    have present : key ∈ seen := by
      rw [covers key (List.mem_singleton_self key)]
      obtain ⟨before, after, rfl, _⟩ := List.lookup_eq_some_iff.mp found
      simp
    exact if_pos present

end Members

end Conformance.Json
