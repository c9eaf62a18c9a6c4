import Conformance.Endpoint.HostingRule
import Conformance.Proofs.Endpoint.Names
import Conformance.Proofs.Repeats

namespace Conformance

namespace Endpoint.HostingRule

theorem mem_missingFrom {other rules : List HostingRule} {r : HostingRule} :
    r ∈ missingFrom other rules ↔ r ∈ rules ∧ r ∉ other := by
  rw [missingFrom, mem_dropRepeats, List.mem_mergeSort, List.mem_filter]
  simp

theorem firstDifference?_self (position : Nat) (rules : List HostingRule) : firstDifference? position rules rules = none := by
  induction rules generalizing position with
  | nil => rfl
  | cons r rules ih => rw [firstDifference?, if_pos rfl, ih]

theorem differences_self (rules : List HostingRule) : differences rules rules = [] := by
  have none : missingFrom rules rules = [] := by
    rw [List.eq_nil_iff_forall_not_mem]
    intro r member
    exact (mem_missingFrom.mp member).2 (mem_missingFrom.mp member).1
  simp [differences, none, firstDifference?_self]

def Before (a b : HostingRule) : Prop :=
  a.source < b.source ∨ a.source = b.source ∧ a.function < b.function

structure FirstDiffer (a b : List HostingRule) (position : Nat) (want found : HostingRule) : Prop where
  front : a.take position = b.take position
  first : a[position]? = some want
  second : b[position]? = some found
  differ : want ≠ found

structure Difference where
  missing : List HostingRule
  extra : List HostingRule
  /-- The position where the rules of both lists come in another order, with those that stand there. -/
  disorder : Option (Nat × HostingRule × HostingRule)

namespace Difference

def lines (d : Difference) : List String :=
  d.missing.map (fun r => s!"Missing rewrite: {r.shown}") ++ d.extra.map (fun r => s!"Extra rewrite: {r.shown}") ++
    match d.disorder with
    | none => []
    | some (position, want, found) =>
      [s!"Rewrite order mismatch at shared position {position}: expected '{want.shown}', found '{found.shown}'"]

def exchanged (d : Difference) : Difference where
  missing := d.extra
  extra := d.missing
  disorder := d.disorder.map fun (position, want, found) => (position, found, want)

/-- The report says how the actual rules differ from the expected ones. -/
structure Describes (d : Difference) (expected actual : List HostingRule) : Prop where
  missing : ∀ r, r ∈ d.missing ↔ r ∈ expected ∧ r ∉ actual
  missingOrder : d.missing.Pairwise Before
  extra : ∀ r, r ∈ d.extra ↔ r ∈ actual ∧ r ∉ expected
  extraOrder : d.extra.Pairwise Before
  disorder : ∀ position want found, d.disorder = some (position, want, found) ↔
    FirstDiffer (expected.filter (· ∈ actual)) (actual.filter (· ∈ expected)) position want found

end Difference

section Order

theorem le_iff {a b : HostingRule} : le a b = true ↔ a = b ∨ Before a b := by
  obtain ⟨s, f⟩ := a
  obtain ⟨t, g⟩ := b
  simp only [le, Before, Bool.or_eq_true, Bool.and_eq_true, decide_eq_true_eq, HostingRule.mk.injEq]
  constructor
  · rintro (smaller | ⟨rfl, atMost⟩)
    · exact Or.inr (Or.inl smaller)
    · by_cases same : f = g
      · exact Or.inl ⟨rfl, same⟩
      · refine Or.inr (Or.inr ⟨rfl, ?_⟩)
        exact Decidable.by_contra fun above => same (String.le_antisymm atMost above)
  · rintro (⟨rfl, rfl⟩ | smaller | ⟨rfl, smaller⟩)
    · exact Or.inr ⟨rfl, String.le_refl _⟩
    · exact Or.inl smaller
    · exact Or.inr ⟨rfl, String.lt_asymm smaller⟩

theorem Before.trans {a b c : HostingRule} (first : Before a b) (second : Before b c) : Before a c := by
  unfold Before at *
  rcases first with first | ⟨same, first⟩
  · rcases second with second | ⟨same', _⟩
    · exact Or.inl (String.lt_trans first second)
    · exact Or.inl (same' ▸ first)
  · rcases second with second | ⟨same', second⟩
    · exact Or.inl (same ▸ second)
    · exact Or.inr ⟨same.trans same', String.lt_trans first second⟩

theorem Before.irrefl (a : HostingRule) : ¬ Before a a := by
  rintro (smaller | ⟨_, smaller⟩)
  · exact String.lt_irrefl _ smaller
  · exact String.lt_irrefl _ smaller

theorem before_or_before {a b : HostingRule} (differ : a ≠ b) : Before a b ∨ Before b a := by
  obtain ⟨s, f⟩ := a
  obtain ⟨t, g⟩ := b
  unfold Before
  dsimp only
  have trichotomy : ∀ x y : String, x < y ∨ x = y ∨ y < x := by
    intro x y
    by_cases below : x < y
    · exact Or.inl below
    · by_cases above : y < x
      · exact Or.inr (Or.inr above)
      · exact Or.inr (Or.inl (String.le_antisymm above below))
  rcases trichotomy s t with below | rfl | above
  · exact Or.inl (Or.inl below)
  · rcases trichotomy f g with below | rfl | above
    · exact Or.inl (Or.inr ⟨rfl, below⟩)
    · exact absurd rfl differ
    · exact Or.inr (Or.inr ⟨rfl, above⟩)
  · exact Or.inr (Or.inl above)

/-- The rules that another list lacks are listed in order, each once. -/
theorem pairwise_missingFrom (other rules : List HostingRule) : (missingFrom other rules).Pairwise Before := by
  have trans : ∀ a b c : HostingRule, le a b = true → le b c = true → le a c = true := by
    intro a b c first second
    rw [le_iff] at *
    rcases first with rfl | first
    · exact second
    · rcases second with rfl | second
      · exact Or.inr first
      · exact Or.inr (first.trans second)
  have total : ∀ a b : HostingRule, (le a b || le b a) = true := by
    intro a b
    rw [Bool.or_eq_true, le_iff, le_iff]
    by_cases same : a = b
    · exact Or.inl (Or.inl same)
    · exact (before_or_before same).imp Or.inr Or.inr
  have antisymm : ∀ a b : HostingRule, le a b = true → le b a = true → a = b := by
    intro a b first second
    rw [le_iff] at first second
    rcases first with same | first
    · exact same
    · rcases second with same | second
      · exact same.symm
      · exact absurd (first.trans second) (Before.irrefl a)
  refine (pairwise_dropRepeats antisymm (List.pairwise_mergeSort trans total (rules.filter (!other.contains ·)))).imp ?_
  rintro a b ⟨atMost, differ⟩
  exact (le_iff.mp atMost).resolve_left differ

end Order

section FirstDifference

variable {a b : List HostingRule} {position : Nat} {want found : HostingRule}

theorem FirstDiffer.exchanged (here : FirstDiffer a b position want found) : FirstDiffer b a position found want :=
  ⟨here.front.symm, here.second, here.first, here.differ.symm⟩

theorem firstDiffer_cons {r : HostingRule} :
    FirstDiffer (r :: a) (r :: b) (position + 1) want found ↔ FirstDiffer a b position want found := by
  constructor
  · rintro ⟨front, first, second, differ⟩
    exact ⟨by simpa using front, by simpa using first, by simpa using second, differ⟩
  · rintro ⟨front, first, second, differ⟩
    exact ⟨by simpa using front, by simpa using first, by simpa using second, differ⟩

theorem firstDifference?_eq_some_iff {start : Nat} :
    firstDifference? start a b = some (position, want, found) ↔
      ∃ n, position = start + n ∧ FirstDiffer a b n want found := by
  fun_induction firstDifference? start a b with
  | case1 start a r b ih =>
    rw [ih]
    constructor
    · rintro ⟨n, rfl, here⟩
      exact ⟨n + 1, by omega, firstDiffer_cons.mpr here⟩
    · rintro ⟨n, rfl, here⟩
      cases n with
      | zero =>
        have same : r = want ∧ r = found := ⟨by simpa using here.first, by simpa using here.second⟩
        exact absurd (same.1.symm.trans same.2) here.differ
      | succ n => exact ⟨n, by omega, firstDiffer_cons.mp here⟩
  | case2 start x a y b differ =>
    constructor
    · rintro same
      cases same
      exact ⟨0, rfl, by simp, by simp, by simp, differ⟩
    · rintro ⟨n, rfl, here⟩
      cases n with
      | zero =>
        have same : x = want ∧ y = found := ⟨by simpa using here.first, by simpa using here.second⟩
        rw [same.1, same.2, Nat.add_zero]
      | succ n =>
        have front := here.front
        rw [List.take_succ_cons, List.take_succ_cons] at front
        exact absurd (List.cons.inj front).1 differ
  | case3 a start b ended =>
    constructor
    · intro none
      cases none
    · rintro ⟨n, _, here⟩
      cases a with
      | nil => exact absurd here.first (by simp)
      | cons x a =>
        cases b with
        | nil => exact absurd here.second (by simp)
        | cons y b => exact (ended x a y b rfl rfl).elim

theorem firstDifference?_eq_none_iff {start : Nat} : firstDifference? start a b = none ↔ a <+: b ∨ b <+: a := by
  fun_induction firstDifference? start a b with
  | case1 start a r b ih => rw [ih, List.prefix_cons_inj, List.prefix_cons_inj]
  | case2 start x a y b differ => simp [List.cons_prefix_cons, differ, Ne.symm differ]
  | case3 a start b ended =>
    cases a with
    | nil => simp
    | cons x a =>
      cases b with
      | nil => simp
      | cons y b => exact (ended x a y b rfl rfl).elim

end FirstDifference

variable {expected actual : List HostingRule}

def difference (expected actual : List HostingRule) : Difference where
  missing := missingFrom actual expected
  extra := missingFrom expected actual
  disorder := firstDifference? 0 (expected.filter (· ∈ actual)) (actual.filter (· ∈ expected))

theorem filter_contains_eq (rules other : List HostingRule) : rules.filter other.contains = rules.filter (· ∈ other) :=
  List.filter_congr fun _ _ => by rw [List.contains_eq_mem]

theorem differences_eq (expected actual : List HostingRule) :
    differences expected actual = (difference expected actual).lines := by
  rw [differences, filter_contains_eq, filter_contains_eq]
  rfl

theorem describes_difference (expected actual : List HostingRule) :
    (difference expected actual).Describes expected actual where
  missing _ := mem_missingFrom
  missingOrder := pairwise_missingFrom _ _
  extra _ := mem_missingFrom
  extraOrder := pairwise_missingFrom _ _
  disorder position want found := by simp [difference, firstDifference?_eq_some_iff]

theorem firstDifference?_exchanged (a b : List HostingRule) (start : Nat) :
    firstDifference? start b a =
      (firstDifference? start a b).map fun (position, want, found) => (position, found, want) := by
  cases first : firstDifference? start a b with
  | none => rw [Option.map_none, firstDifference?_eq_none_iff, or_comm, ← firstDifference?_eq_none_iff, first]
  | some place =>
    obtain ⟨position, want, found⟩ := place
    obtain ⟨n, rfl, differ⟩ := firstDifference?_eq_some_iff.mp first
    exact firstDifference?_eq_some_iff.mpr ⟨n, rfl, differ.exchanged⟩

theorem difference_exchanged (expected actual : List HostingRule) :
    difference actual expected = (difference expected actual).exchanged := by
  unfold difference Difference.exchanged
  rw [firstDifference?_exchanged]

theorem missingFrom_eq_nil_iff {other rules : List HostingRule} : missingFrom other rules = [] ↔ rules ⊆ other := by
  rw [List.eq_nil_iff_forall_not_mem]
  constructor
  · intro none r member
    exact Decidable.by_contra fun absent => none r (mem_missingFrom.mpr ⟨member, absent⟩)
  · intro inside r member
    exact (mem_missingFrom.mp member).2 (inside (mem_missingFrom.mp member).1)

theorem filter_mem_eq_self {rules other : List HostingRule} (inside : rules ⊆ other) : rules.filter (· ∈ other) = rules :=
  List.filter_eq_self.mpr fun _ member => decide_eq_true (inside member)

/-- Nothing is reported on lists of the same rules of which one begins with the other, and on no others. -/
theorem lines_difference_eq_nil_iff : (difference expected actual).lines = [] ↔
    (∀ r, r ∈ expected ↔ r ∈ actual) ∧ (expected <+: actual ∨ actual <+: expected) := by
  have parts : (difference expected actual).lines = [] ↔
      (missingFrom actual expected = [] ∧ missingFrom expected actual = []) ∧
        firstDifference? 0 (expected.filter (· ∈ actual)) (actual.filter (· ∈ expected)) = none := by
    simp only [Difference.lines, difference, List.append_eq_nil_iff, List.map_eq_nil_iff]
    cases firstDifference? 0 (expected.filter (· ∈ actual)) (actual.filter (· ∈ expected)) <;> simp
  rw [parts, missingFrom_eq_nil_iff, missingFrom_eq_nil_iff, firstDifference?_eq_none_iff]
  constructor
  · rintro ⟨⟨inside, inside'⟩, begins⟩
    rw [filter_mem_eq_self inside, filter_mem_eq_self inside'] at begins
    exact ⟨fun r => ⟨fun member => inside member, fun member => inside' member⟩, begins⟩
  · rintro ⟨same, begins⟩
    have inside : expected ⊆ actual := fun r member => (same r).mp member
    have inside' : actual ⊆ expected := fun r member => (same r).mpr member
    rw [filter_mem_eq_self inside, filter_mem_eq_self inside']
    exact ⟨⟨inside, inside'⟩, begins⟩

theorem prefix_or_prefix_iff_eq {a b : List HostingRule} (nodup : a.Nodup) (nodup' : b.Nodup)
    (same : ∀ r, r ∈ a ↔ r ∈ b) : a <+: b ∨ b <+: a ↔ a = b := by
  have long : a.length = b.length := ((List.perm_ext_iff_of_nodup nodup nodup').mpr same).length_eq
  constructor
  · rintro (begins | begins)
    · exact begins.eq_of_length long
    · exact (begins.eq_of_length long.symm).symm
  · rintro rfl
    exact Or.inl List.prefix_rfl

/-- The report on two lists names what only one of them has and the first place where the order of the rest
differs, and nothing else. It is empty on lists of the same rules of which one begins with the other;
exchanging the lists exchanges its parts. -/
theorem differences_exact (expected actual : List HostingRule) : ∃ d : Difference,
    d.Describes expected actual ∧ differences expected actual = d.lines ∧
      differences actual expected = d.exchanged.lines ∧
      (differences expected actual = [] ↔
        (∀ r, r ∈ expected ↔ r ∈ actual) ∧ (expected <+: actual ∨ actual <+: expected)) ∧
      (expected.Nodup → actual.Nodup →
        (d.disorder.isSome ↔ expected.filter (· ∈ actual) ≠ actual.filter (· ∈ expected)) ∧
          (differences expected actual = [] ↔ expected = actual)) := by
  refine ⟨difference expected actual, describes_difference expected actual, differences_eq expected actual, ?_, ?_, ?_⟩
  · rw [differences_eq, difference_exchanged]
  · rw [differences_eq, lines_difference_eq_nil_iff]
  · intro nodup nodup'
    constructor
    · have shared : ∀ r, r ∈ expected.filter (· ∈ actual) ↔ r ∈ actual.filter (· ∈ expected) := by
        intro r
        simp [and_comm]
      rw [Option.isSome_iff_ne_none, ne_eq, ne_eq, not_iff_not, difference, firstDifference?_eq_none_iff,
        prefix_or_prefix_iff_eq (nodup.filter _) (nodup'.filter _) shared]
    · rw [differences_eq, lines_difference_eq_nil_iff]
      constructor
      · rintro ⟨same, begins⟩
        exact (prefix_or_prefix_iff_eq nodup nodup' same).mp begins
      · rintro rfl
        exact ⟨fun _ => Iff.rfl, Or.inl List.prefix_rfl⟩

end Endpoint.HostingRule

end Conformance
