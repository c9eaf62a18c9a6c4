import Conformance.Proofs.Endpoint.HostingRules
import Mathlib.Data.List.Infix

namespace Conformance.Endpoint

inductive Stage where
  | dev
  | prod
deriving DecidableEq

namespace Stage

def root : Stage → String
  | dev => "/api/dev"
  | prod => "/api/prod"

def function : Stage → Entry → String
  | dev, e => e.devName
  | prod, e => e.prodName

def runs : Stage → Entry → Bool
  | dev, _ => true
  | prod, e => !e.devOnly

def rules (stage : Stage) (entries : List Entry) : List HostingRule :=
  (entries.filter stage.runs).flatMap fun e => HostingRule.pair (HostingRule.sourceOf stage.root e) (stage.function e)

end Stage

/-- What an entry says about its source: the route below the root of a stage, or a source of its own. -/
inductive Source where
  | route (path : String)
  | custom (source : String)
deriving DecidableEq

def Entry.ownSource (e : Entry) : Source :=
  match e.customSource with
  | some source => .custom source
  | none => .route e.route

namespace Source

def below (root : String) : Source → List Char
  | route path => root.toList ++ '/' :: path.toList
  | custom source => source.toList

def Plain : Source → Prop
  | route path => ¬ "/**".toList <:+ path.toList
  | custom source => ¬ "/**".toList <:+ source.toList ∧ ¬ "/api/".toList <+: source.toList

instance (x : Source) : Decidable x.Plain := by
  unfold Plain
  split <;> infer_instance

end Source

/-- Entries with plain sources, no two of which are the same. -/
structure Unambiguous (entries : List Entry) : Prop where
  plain : ∀ e ∈ entries, e.ownSource.Plain
  distinct : (entries.map Entry.ownSource).Nodup

namespace HostingRule

theorem toList_sourceOf (root : String) (e : Entry) : (sourceOf root e).toList = e.ownSource.below root := by
  unfold sourceOf Entry.ownSource
  cases e.customSource with
  | some source => rfl
  | none => simp [Source.below, toString, String.toList_append]

theorem expected_eq (entries : List Entry) :
    expected entries = Stage.dev.rules entries ++ Stage.prod.rules entries := by
  have all : entries.filter Stage.dev.runs = entries := List.filter_eq_self.mpr fun _ _ => rfl
  rw [expected, Stage.rules, Stage.rules, all]
  rfl

def tails : List String :=
  ["", "/**"]

theorem mem_pair {source function : String} {r : HostingRule} :
    r ∈ pair source function ↔ ∃ tail ∈ tails, r = ⟨source ++ tail, function⟩ := by
  simp [pair, tails]

theorem mem_rules {stage : Stage} {entries : List Entry} {r : HostingRule} : r ∈ stage.rules entries ↔
    ∃ e ∈ entries, stage.runs e = true ∧ ∃ tail ∈ tails, r = ⟨sourceOf stage.root e ++ tail, stage.function e⟩ := by
  simp only [Stage.rules, List.mem_flatMap, List.mem_filter, mem_pair, and_assoc]

theorem mem_expected {entries : List Entry} {r : HostingRule} : r ∈ expected entries ↔ ∃ stage : Stage, r ∈ stage.rules entries := by
  rw [expected_eq, List.mem_append]
  constructor
  · rintro (dev | prod)
    · exact ⟨.dev, dev⟩
    · exact ⟨.prod, prod⟩
  · rintro ⟨stage, member⟩
    cases stage with
    | dev => exact Or.inl member
    | prod => exact Or.inr member

section Sources

variable {s s' : List Char} {tail tail' : String}

theorem append_tail_inj (solid : ¬ "/**".toList <:+ s) (solid' : ¬ "/**".toList <:+ s') (listed : tail ∈ tails)
    (listed' : tail' ∈ tails) (same : s ++ tail.toList = s' ++ tail'.toList) : s = s' ∧ tail = tail' := by
  simp only [tails, List.mem_cons, List.not_mem_nil, or_false] at listed listed'
  rcases listed with rfl | rfl <;> rcases listed' with rfl | rfl
  · exact ⟨by simpa using same, rfl⟩
  · exact absurd ⟨s', by simpa using same.symm⟩ solid
  · exact absurd ⟨s, by simpa using same⟩ solid'
  · exact ⟨List.append_cancel_right same, rfl⟩

theorem root_append_inj {stage stage' : Stage} {rest rest' : List Char}
    (same : stage.root.toList ++ '/' :: rest = stage'.root.toList ++ '/' :: rest') : stage = stage' ∧ rest = rest' := by
  cases stage <;> cases stage' <;> simp [Stage.root] at same ⊢ <;> exact same

theorem custom_ne_derived {stage : Stage} {rest : List Char} (underived : ¬ "/api/".toList <+: s) (listed : tail ∈ tails) :
    s ++ tail.toList ≠ stage.root.toList ++ '/' :: rest := by
  intro same
  have front : "/api/".toList <+: stage.root.toList ++ '/' :: rest := by
    cases stage
    · exact ⟨"dev".toList ++ '/' :: rest, rfl⟩
    · exact ⟨"prod".toList ++ '/' :: rest, rfl⟩
  -- the source would be a shorter beginning of `/api/`, and its tail would go on as a stage does
  have short : s <+: "/api/".toList :=
    (List.prefix_or_prefix_of_prefix (same ▸ List.prefix_append s _) front).resolve_right underived
  rw [← List.mem_inits] at short
  simp only [tails, List.mem_cons, List.not_mem_nil, or_false] at listed
  rw [show "/api/".toList.inits = [[], ['/'], ['/', 'a'], ['/', 'a', 'p'], ['/', 'a', 'p', 'i'], ['/', 'a', 'p', 'i', '/']] from rfl]
    at short
  simp only [List.mem_cons, List.not_mem_nil, or_false] at short
  cases stage <;> rcases listed with rfl | rfl <;> rcases short with rfl | rfl | rfl | rfl | rfl | rfl <;>
    simp [Stage.root] at same

/-- The sources of two rules are the same only if they come from one source, in one stage or an entry's own. -/
theorem below_inj {x y : Source} {stage stage' : Stage} (plain : x.Plain) (plain' : y.Plain) (listed : tail ∈ tails)
    (listed' : tail' ∈ tails) (same : x.below stage.root ++ tail.toList = y.below stage'.root ++ tail'.toList) :
    x = y ∧ tail = tail' ∧ (stage = stage' ∨ ∃ source, x = .custom source) := by
  cases x with
  | route path =>
    rw [Source.below, List.append_assoc, List.cons_append] at same
    cases y with
    | route path' =>
      rw [Source.below, List.append_assoc, List.cons_append] at same
      obtain ⟨stages, rest⟩ := root_append_inj same
      obtain ⟨paths, tails⟩ := append_tail_inj plain plain' listed listed' rest
      exact ⟨by rw [String.toList_inj.mp paths], tails, Or.inl stages⟩
    | custom source => exact absurd same.symm (custom_ne_derived plain'.2 listed')
  | custom source =>
    cases y with
    | route path' =>
      rw [Source.below.eq_1, List.append_assoc, List.cons_append] at same
      exact absurd same (custom_ne_derived plain.2 listed)
    | custom source' =>
      obtain ⟨sources, tails⟩ := append_tail_inj plain.1 plain'.1 listed listed' same
      exact ⟨by rw [String.toList_inj.mp sources], tails, Or.inr ⟨source, rfl⟩⟩

end Sources

section Entries

variable {entries : List Entry} {e e' : Entry} {stage stage' : Stage} {tail tail' : String}

theorem sourceOf_append_inj (unambiguous : Unambiguous entries) (member : e ∈ entries) (member' : e' ∈ entries)
    (listed : tail ∈ tails) (listed' : tail' ∈ tails)
    (same : sourceOf stage.root e ++ tail = sourceOf stage'.root e' ++ tail') :
    e = e' ∧ tail = tail' ∧ (stage = stage' ∨ e.customSource ≠ none) := by
  have text := congrArg String.toList same
  rw [String.toList_append, String.toList_append, toList_sourceOf, toList_sourceOf] at text
  obtain ⟨sources, tails, stages⟩ :=
    below_inj (unambiguous.plain e member) (unambiguous.plain e' member') listed listed' text
  refine ⟨List.inj_on_of_nodup_map unambiguous.distinct member member' sources, tails, stages.imp id ?_⟩
  rintro ⟨source, own⟩ none
  rw [Entry.ownSource, none] at own
  cases own

/-- Rules that send one source to two functions are those of the two stages of an entry with a source of its own. -/
theorem stages_of_same_source (unambiguous : Unambiguous entries) {r r' : HostingRule} (member : r ∈ expected entries)
    (member' : r' ∈ expected entries) (same : r.source = r'.source) (differ : r.function ≠ r'.function) :
    ∃ e ∈ entries, e.customSource ≠ none ∧ e.devOnly = false ∧
      (r.function = e.devName ∧ r'.function = e.prodName ∨ r.function = e.prodName ∧ r'.function = e.devName) := by
  obtain ⟨stage, inside⟩ := mem_expected.mp member
  obtain ⟨stage', inside'⟩ := mem_expected.mp member'
  obtain ⟨e, own, runs, tail, listed, rfl⟩ := mem_rules.mp inside
  obtain ⟨e', own', runs', tail', listed', rfl⟩ := mem_rules.mp inside'
  obtain ⟨rfl, _, stages⟩ := sourceOf_append_inj unambiguous own own' listed listed' same
  have apart : stage ≠ stage' := fun equal => differ (by rw [equal])
  have custom := stages.resolve_left apart
  cases stage <;> cases stage'
  · exact absurd rfl apart
  · exact ⟨e, own, custom, by simpa [Stage.runs] using runs', Or.inl ⟨rfl, rfl⟩⟩
  · exact ⟨e, own, custom, by simpa [Stage.runs] using runs, Or.inr ⟨rfl, rfl⟩⟩
  · exact absurd rfl apart

theorem findSome?_of_mem {α β : Type} {f : α → Option β} {l : List α} {x : α} {y : β} (member : x ∈ l) (own : f x = some y)
    (others : ∀ x' ∈ l, x' ≠ x → f x' = none) : l.findSome? f = some y := by
  induction l with
  | nil => cases member
  | cons z l ih =>
    by_cases same : z = x
    · rw [List.findSome?_cons, same, own]
    · rw [List.findSome?_cons, others z List.mem_cons_self same]
      exact ih ((List.mem_cons.mp member).resolve_left (Ne.symm same)) fun x' later =>
        others x' (List.mem_cons_of_mem _ later)

section Search

variable {p : HostingRule → Bool} {r : HostingRule}

theorem find?_rules (member : e ∈ entries) (runs : stage.runs e = true)
    (own : (pair (sourceOf stage.root e) (stage.function e)).find? p = some r)
    (others : ∀ e' ∈ entries, e' ≠ e → ∀ tail ∈ tails, p ⟨sourceOf stage.root e' ++ tail, stage.function e'⟩ = false) :
    (stage.rules entries).find? p = some r := by
  rw [Stage.rules, List.find?_flatMap]
  refine findSome?_of_mem (List.mem_filter.mpr ⟨member, runs⟩) own fun e' inside different => ?_
  refine List.find?_eq_none.mpr fun r' listed => ?_
  obtain ⟨tail, tailed, rfl⟩ := mem_pair.mp listed
  rw [others e' (List.mem_of_mem_filter inside) different tail tailed]
  exact Bool.false_ne_true

/-- The first rule that fits is that of an entry in a stage, if no rule of another entry fits, nor one of the entry in
the other stage. -/
theorem find?_expected (member : e ∈ entries) (runs : stage.runs e = true) (first : stage = .dev ∨ e.customSource = none)
    (own : (pair (sourceOf stage.root e) (stage.function e)).find? p = some r)
    (others : ∀ e' ∈ entries, ∀ stage' : Stage, e' ≠ e ∨ stage' ≠ stage ∧ e.customSource = none →
      ∀ tail ∈ tails, p ⟨sourceOf stage'.root e' ++ tail, stage'.function e'⟩ = false) :
    (expected entries).find? p = some r := by
  have found : (stage.rules entries).find? p = some r :=
    find?_rules member runs own fun e' member' different => others e' member' stage (Or.inl different)
  rw [expected_eq, List.find?_append]
  cases stage with
  | dev => rw [found, Option.some_or]
  | prod =>
    have derived : e.customSource = none := first.resolve_left (by decide)
    have before : (Stage.dev.rules entries).find? p = none := by
      refine List.find?_eq_none.mpr fun r' listed => ?_
      obtain ⟨e', member', _, tail, tailed, rfl⟩ := mem_rules.mp listed
      rw [others e' member' .dev (Or.inr ⟨by decide, derived⟩) tail tailed]
      exact Bool.false_ne_true
    rw [before, Option.none_or, found]

end Search

/-- The first rule with a source goes to the function of the entry whose source it is. -/
theorem find?_source (unambiguous : Unambiguous entries) (member : e ∈ entries) (runs : stage.runs e = true)
    (first : stage = .dev ∨ e.customSource = none) (listed : tail ∈ tails) :
    (expected entries).find? (·.source == sourceOf stage.root e ++ tail) =
      some ⟨sourceOf stage.root e ++ tail, stage.function e⟩ := by
  refine find?_expected member runs first ?_ fun e' member' stage' other tail' listed' => ?_
  · have longer : sourceOf stage.root e ≠ sourceOf stage.root e ++ "/**" := fun same => by
      simpa using congrArg String.length same
    simp only [tails, List.mem_cons, List.not_mem_nil, or_false] at listed
    rcases listed with rfl | rfl
    · simp [pair]
    · simp [pair, longer]
  · refine beq_eq_false_iff_ne.mpr fun same => ?_
    obtain ⟨rfl, _, stages⟩ := sourceOf_append_inj unambiguous member member' listed listed' same.symm
    rcases other with different | ⟨apart, derived⟩
    · exact different rfl
    · exact stages.elim (fun equal => apart equal.symm) fun custom => custom derived

end Entries

def Literal (source : String) : Prop :=
  ∀ c ∈ source.toList, isRouteChar c = true

/-- What is relied on when sources are compared with the paths of requests: a literal source fits itself only, and
with `/**` behind it what is below it, and perhaps itself. -/
structure Matching (fits : String → String → Bool) : Prop where
  itself : ∀ source path, Literal source → (fits source path = true ↔ path = source)
  below : ∀ source path, Literal source → (source ++ "/").toList <+: path.toList → fits (source ++ "/**") path = true
  within : ∀ source path, Literal source → fits (source ++ "/**") path = true →
    path = source ∨ (source ++ "/").toList <+: path.toList

/-- The sources of the entries are literal, and none is below another. -/
structure Separate (entries : List Entry) : Prop where
  literal : ∀ e ∈ entries, ∀ stage : Stage, Literal (sourceOf stage.root e)
  apart : ∀ e ∈ entries, ∀ e' ∈ entries, ∀ stage stage' : Stage,
    ¬ (sourceOf stage.root e ++ "/").toList <+: (sourceOf stage'.root e').toList

theorem find?_path {entries : List Entry} {e : Entry} {stage : Stage} (unambiguous : Unambiguous entries)
    (member : e ∈ entries) (runs : stage.runs e = true) (first : stage = .dev ∨ e.customSource = none)
    {fits : String → String → Bool} (matching : Matching fits) (separate : Separate entries) :
    (expected entries).find? (fits ·.source (sourceOf stage.root e)) =
      some ⟨sourceOf stage.root e, stage.function e⟩ := by
  refine find?_expected member runs first ?_ fun e' member' stage' other tail listed => ?_
  · have own := (matching.itself _ _ (separate.literal e member stage)).mpr rfl
    exact List.find?_cons_of_pos own
  · have differ : sourceOf stage.root e ≠ sourceOf stage'.root e' := by
      intro same
      have alike : sourceOf stage.root e ++ "" = sourceOf stage'.root e' ++ "" := by rw [same]
      obtain ⟨rfl, _, stages⟩ := sourceOf_append_inj unambiguous member member' (by decide) (by decide) alike
      rcases other with different | ⟨apart, derived⟩
      · exact different rfl
      · exact stages.elim (fun equal => apart equal.symm) fun custom => custom derived
    have literal := separate.literal e' member' stage'
    refine Bool.eq_false_iff.mpr fun fit => ?_
    dsimp only at fit
    simp only [tails, List.mem_cons, List.not_mem_nil, or_false] at listed
    rcases listed with rfl | rfl
    · rw [String.append_empty] at fit
      exact differ ((matching.itself _ _ literal).mp fit)
    · exact (matching.within _ _ literal fit).elim differ (separate.apart e' member' e member stage' stage)

/-- Of entries with different plain sources, two rules send one source to different functions only if they belong to
the two stages of one entry with a source of its own. The first rule with a source goes to the function of its entry,
in the development stage if the source is the entry's own; and if no source is below another, a request for the source
goes there. -/
theorem expected_unambiguous {entries : List Entry} (unambiguous : Unambiguous entries) :
    (∀ r ∈ expected entries, ∀ r' ∈ expected entries, r.source = r'.source → r.function ≠ r'.function →
      ∃ e ∈ entries, e.customSource ≠ none ∧ e.devOnly = false ∧
        (r.function = e.devName ∧ r'.function = e.prodName ∨ r.function = e.prodName ∧ r'.function = e.devName)) ∧
    ∀ e ∈ entries, ∀ stage : Stage, stage.runs e = true → (stage = .dev ∨ e.customSource = none) →
      (∀ tail ∈ tails, (expected entries).find? (·.source == sourceOf stage.root e ++ tail) =
        some ⟨sourceOf stage.root e ++ tail, stage.function e⟩) ∧
      ∀ fits, Matching fits → Separate entries → (expected entries).find? (fits ·.source (sourceOf stage.root e)) =
        some ⟨sourceOf stage.root e, stage.function e⟩ := by
  refine ⟨fun r member r' member' same differ => stages_of_same_source unambiguous member member' same differ, ?_⟩
  intro e member stage runs first
  exact ⟨fun tail listed => find?_source unambiguous member runs first listed,
    fun fits matching separate => find?_path unambiguous member runs first matching separate⟩

/-- Whether a source fits a path, if nothing but `/**` at its end stands for more than itself. -/
def fitsPlainly (source path : String) : Bool :=
  match Text.beforeTail? "/**".toList source.toList with
  | some base => path.toList == base || (base ++ "/".toList).isPrefixOf path.toList
  | none => path == source

theorem matching_fitsPlainly : Matching fitsPlainly where
  itself := by
    intro source path literal
    have unended : Text.beforeTail? "/**".toList source.toList = none := by
      refine Option.eq_none_iff_forall_ne_some.mpr fun base found => ?_
      have star : '*' ∈ source.toList := by simp [Text.beforeTail?_eq_some_iff.mp found]
      exact absurd (literal '*' star) (by decide)
    rw [fitsPlainly, unended]
    exact beq_iff_eq
  below := by
    intro source path _ above
    rw [fitsPlainly, Text.beforeTail?_eq_some_iff.mpr (String.toList_append ..)]
    rw [String.toList_append] at above
    exact Bool.or_eq_true_iff.mpr (Or.inr (List.isPrefixOf_iff_prefix.mpr above))
  within := by
    intro source path _ fit
    rw [fitsPlainly, Text.beforeTail?_eq_some_iff.mpr (String.toList_append ..)] at fit
    rw [String.toList_append]
    exact (Bool.or_eq_true_iff.mp fit).imp (fun same => String.toList_inj.mp (beq_iff_eq.mp same))
      List.isPrefixOf_iff_prefix.mp

/-- Two entries with routes, of which one begins as the other, and one with a source of its own in both stages. -/
def hookedEntries : List Entry :=
  [{ route := "health", handler := "health" }, { route := "health-sync", handler := "health-sync" },
    { handler := "hook", customSource := some "/hook" }]

theorem hookedEntries_reached : Unambiguous hookedEntries ∧ Separate hookedEntries ∧
    (expected hookedEntries).find? (fitsPlainly ·.source "/api/prod/health-sync") =
      some ⟨"/api/prod/health-sync", "prodHealthSync"⟩ := by
  have unambiguous : Unambiguous hookedEntries := ⟨by decide, by decide⟩
  have separate : Separate hookedEntries := by
    constructor
    · intro e member stage
      simp only [hookedEntries, List.mem_cons, List.not_mem_nil, or_false] at member
      unfold Literal
      rcases member with rfl | rfl | rfl <;> cases stage <;> decide
    · intro e member e' member' stage stage'
      simp only [hookedEntries, List.mem_cons, List.not_mem_nil, or_false] at member member'
      rcases member with rfl | rfl | rfl <;> rcases member' with rfl | rfl | rfl <;> cases stage <;> cases stage' <;> decide
  have reached := (expected_unambiguous unambiguous).2 { route := "health-sync", handler := "health-sync" } (by decide) .prod
    rfl (Or.inr rfl)
  exact ⟨unambiguous, separate, reached.2 fitsPlainly matching_fitsPlainly separate⟩

def nestedEntries : List Entry :=
  [{ route := "a", handler := "a" }, { route := "a/b", handler := "b" }]

/-- Every request for the route below goes to the function of the route above it, which is listed before. -/
theorem nestedEntries_unreached {fits : String → String → Bool} (matching : Matching fits) {path : String} {r : HostingRule}
    (found : (expected nestedEntries).find? (fits ·.source path) = some r) : r.function ≠ "devAB" := by
  intro below
  have rules : expected nestedEntries = [⟨"/api/dev/a", "devA"⟩, ⟨"/api/dev/a" ++ "/**", "devA"⟩, ⟨"/api/dev/a/b", "devAB"⟩,
      ⟨"/api/dev/a/b" ++ "/**", "devAB"⟩, ⟨"/api/prod/a", "prodA"⟩, ⟨"/api/prod/a" ++ "/**", "prodA"⟩,
      ⟨"/api/prod/a/b", "prodAB"⟩, ⟨"/api/prod/a/b" ++ "/**", "prodAB"⟩] := by decide +kernel
  have literal : Literal "/api/dev/a/b" := by unfold Literal; decide
  have literal' : Literal "/api/dev/a" := by unfold Literal; decide
  rw [rules] at found
  have member := List.mem_of_find?_eq_some found
  have fit := List.find?_some found
  have above : ("/api/dev/a" ++ "/").toList <+: path.toList := by
    have own : ("/api/dev/a" ++ "/").toList <+: "/api/dev/a/b".toList := by decide
    have own' : ("/api/dev/a" ++ "/").toList <+: ("/api/dev/a/b" ++ "/").toList := by decide
    simp only [List.mem_cons, List.not_mem_nil, or_false] at member
    rcases member with rfl | rfl | rfl | rfl | rfl | rfl | rfl | rfl
    · exact absurd below (by decide)
    · exact absurd below (by decide)
    · rwa [(matching.itself _ _ literal).mp fit]
    · rcases matching.within _ _ literal fit with rfl | inside
      · exact own
      · exact own'.trans inside
    · exact absurd below (by decide)
    · exact absurd below (by decide)
    · exact absurd below (by decide)
    · exact absurd below (by decide)
  have caught : fits ("/api/dev/a" ++ "/**") path = true := matching.below _ _ literal' above
  rw [List.find?_cons] at found
  split at found
  · cases found
    exact absurd below (by decide)
  · rw [List.find?_cons] at found
    split at found
    · cases found
      exact absurd below (by decide)
    · rename_i missed
      exact Bool.false_ne_true (missed.symm.trans caught)

theorem expected_shadowed :
    (Unambiguous [{ handler := "hook", customSource := some "/hook" }] ∧
      ⟨"/hook", "devHook"⟩ ∈ expected [{ handler := "hook", customSource := some "/hook" }] ∧
      ⟨"/hook", "prodHook"⟩ ∈ expected [{ handler := "hook", customSource := some "/hook" }]) ∧
    Unambiguous nestedEntries ∧ ⟨"/api/dev/a/b", "devAB"⟩ ∈ expected nestedEntries ∧
      ∀ fits, Matching fits → ∀ path r, (expected nestedEntries).find? (fits ·.source path) = some r →
        r.function ≠ "devAB" :=
  ⟨⟨⟨by decide, by decide⟩, by decide +kernel, by decide +kernel⟩, ⟨by decide, by decide⟩, by decide +kernel,
    fun _ matching _ _ found => nestedEntries_unreached matching found⟩

end HostingRule

end Conformance.Endpoint
