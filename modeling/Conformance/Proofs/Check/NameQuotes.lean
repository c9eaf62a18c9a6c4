import Conformance.Check.Freshness
import Conformance.Check.Coverage
import Conformance.Check.Features
import Conformance.Check.Scripts
import Conformance.Check.TestBodies
import Conformance.Check.Tests
import Conformance.Check.Tidiness
import Conformance.Proofs.Check.Plain

namespace Conformance

namespace Check

variable {repo : Repository}

namespace Tidiness

theorem isPlain_printing {file : String} (free : OneLine file) {hit : Hit} (matched : OneLine hit.matched) :
    (printing file hit).IsPlain := by
  unfold printing
  simp [free, matched]
  and_intros
  all_goals exact .literal (by decide)

theorem allPlain_consoleCalls (names : repo.NamesOneLine) : AllPlain (consoleCalls repo) := by
  refine Repository.allPlain_inspectFiles (names.collectFiles names.functions) fun file text free => .map fun hit member => ?_
  exact isPlain_printing free (oneLine_matched member)

theorem isPlain_strayPlan {file name : String} (free : OneLine file) (nameFree : OneLine name) :
    (strayPlan file name).IsPlain := by
  unfold strayPlan
  simp [free, nameFree]
  and_intros
  all_goals exact .literal (by decide)

theorem allPlain_strayPlans (names : repo.NamesOneLine) : AllPlain (strayPlans repo) := by
  refine .map fun p member => ?_
  have plans : OneLine repo.layout.plans.raw := names.below (.literal (by decide))
  have free := names.collectFiles plans p member
  exact isPlain_strayPlan (Repository.oneLine_relative free) (Path.oneLine_fileName free)

theorem isPlain_archive {dir : String} (free : OneLine dir) : (archive dir).IsPlain := by
  unfold archive
  simp [free]
  and_intros
  all_goals exact .literal (by decide)

theorem allPlain_archives (names : repo.NamesOneLine) : AllPlain (archives repo) := by
  refine .map fun dir member => ?_
  have free := FileSystem.oneLine_of_mem_collectDirs names.tree names.root (List.mem_of_mem_filter member)
  exact isPlain_archive (Repository.oneLine_relative free)

end Tidiness

namespace Tests

theorem isPlain_skipped {file : String} (free : OneLine file) {hit : Hit} (matched : OneLine hit.matched) :
    (skipped file hit).IsPlain := by
  unfold skipped
  simp [free, matched]
  and_intros
  all_goals exact .literal (by decide)

theorem isPlain_focused {file : String} (free : OneLine file) {hit : Hit} (matched : OneLine hit.matched) :
    (focused file hit).IsPlain := by
  unfold focused
  simp [free, matched]
  and_intros
  all_goals exact .literal (by decide)

theorem allPlain_inspectTests (names : repo.NamesOneLine) (pattern : Pattern) {violation : String → Hit → Violation}
    (own : ∀ file hit, OneLine file → OneLine hit.matched → (violation file hit).IsPlain) :
    AllPlain (inspectTests repo pattern violation) := by
  refine Repository.allPlain_inspectFiles (names.collectFiles names.root) fun file text free => .map fun hit member => ?_
  exact own file hit free (oneLine_matched member)

theorem oneLine_of_ownFactory? {text : List Char} {name : String} (found : ownFactory? text = some name) : OneLine name := by
  have keeps : factory.Keeps 1 (· ≠ '\n') := Pattern.keeps_of_keepsOut (by decide)
  unfold ownFactory? at found
  split at found
  · cases found
  · obtain ⟨kept, group, rfl⟩ := Option.map_eq_some_iff.mp found
    obtain ⟨m, matched, group⟩ := Option.bind_eq_some_iff.mp group
    refine OneLine.ofList_iff.mpr fun feed => ?_
    exact ((Pattern.follows_of_find? matched).mem_group? keeps group _ feed).1 rfl

theorem isPlain_unshared {file factory : String} (free : OneLine file) (factoryFree : OneLine factory) :
    (unshared file factory).IsPlain := by
  unfold unshared
  simp [free, factoryFree]
  and_intros
  all_goals exact .literal (by decide)

theorem oneLine_of_mem_testDirs (names : repo.NamesOneLine) (more : List String) (free : ∀ d ∈ more, OneLine d) :
    ∀ dir ∈ (["handlers", "services", "repositories"] ++ more).map repo.layout.layer, OneLine dir.raw := by
  intro dir member
  obtain ⟨layer, inside, rfl⟩ := List.mem_map.mp member
  refine names.layer ?_
  rcases List.mem_append.mp inside with inside | inside
  · simp only [List.mem_cons, List.not_mem_nil, or_false] at inside
    rcases inside with rfl | rfl | rfl <;> exact .literal (by decide)
  · exact free layer inside

theorem allPlain_unsharedFactories (names : repo.NamesOneLine) : AllPlain (unsharedFactories repo) := by
  have dirs := oneLine_of_mem_testDirs names [] (by simp)
  refine Repository.allPlain_inspectFiles (names.testsInside dirs) fun file text free => ?_
  intro v member
  obtain ⟨name, found, rfl⟩ := Option.map_eq_some_iff.mp (Option.mem_toList.mp member)
  exact isPlain_unshared free (oneLine_of_ownFactory? found)

theorem isPlain_ownResponseType {file : String} (free : OneLine file) (line : Nat) : (ownResponseType file line).IsPlain := by
  unfold ownResponseType
  simp [free]
  and_intros
  all_goals exact .literal (by decide)

theorem allPlain_ownResponseTypes (names : repo.NamesOneLine) : AllPlain (ownResponseTypes repo) := by
  have dirs := oneLine_of_mem_testDirs names ["__tests__/integration"] (by
    rintro d member
    obtain rfl := List.mem_singleton.mp member
    exact .literal (by decide))
  refine Repository.allPlain_inspectFiles (names.testsInside dirs) fun file text free => ?_
  intro v member
  obtain ⟨m, found, rfl⟩ := Option.map_eq_some_iff.mp (Option.mem_toList.mp member)
  exact isPlain_ownResponseType free _

end Tests

namespace TestBodies

theorem isPlain_emptyViolation {file : String} (free : OneLine file) (body : EmptyBody) : (emptyViolation file body).IsPlain := by
  unfold emptyViolation
  cases body.overLines <;>
  · simp [free]
    and_intros
    all_goals exact .literal (by decide)

theorem isPlain_fewViolation {file : String} (free : OneLine file) (tests assertions : Nat) :
    (fewViolation file tests assertions).IsPlain := by
  unfold fewViolation
  simp [free]
  and_intros
  all_goals exact .literal (by decide)

theorem allPlain_inspect {file : String} (free : OneLine file) (text : List Char) : AllPlain (inspect file text) := by
  unfold inspect
  refine .append (.map fun body _ => isPlain_emptyViolation free body) ?_
  split
  · exact .single (isPlain_fewViolation free _ _)
  · exact .nil

end TestBodies

namespace Coverage

theorem oneLine_stemOf {name : String} (free : OneLine name) : OneLine (stemOf name) :=
  OneLine.ofList_iff.mpr fun feed => free (Text.dropTails_subset _ _ feed)

theorem isPlain_untestedRepository {file test : String} (free : OneLine file) (testFree : OneLine test) :
    (untestedRepository file test).IsPlain := by
  unfold untestedRepository
  simp [free, testFree]
  and_intros
  all_goals exact .literal (by decide)

theorem isPlain_riskyViolation {file kind test : String} (free : OneLine file) (kindFree : OneLine kind) (testFree : OneLine test)
    {risks : List String} (listed : ∀ risk ∈ risks, OneLine risk) : (riskyViolation file kind test risks).IsPlain := by
  have all : OneLine (", ".intercalate risks) := .intercalate (.literal (by decide)) listed
  unfold riskyViolation
  simp [free, kindFree, testFree, all]
  and_intros
  all_goals exact .literal (by decide)

theorem oneLine_testName {p : Path} {name : String} (free : OneLine p.raw) (named : p.fileName? = some name) :
    OneLine s!"{stemOf name}.test.ts" :=
  OneLine.append_iff.mpr ⟨oneLine_stemOf (Path.oneLine_of_fileName? free named), .literal (by decide)⟩

theorem allPlain_untestedRepositories (names : repo.NamesOneLine) : AllPlain (untestedRepositories repo) := by
  have dir : OneLine (repo.layout.layer "repositories").raw := names.layer (.literal (by decide))
  refine .filterMap fun p member v given => ?_
  have free := names.collectFiles dir p member
  dsimp only at given
  cases named : p.fileName? with
  | none => simp [named] at given
  | some name =>
    have test := oneLine_testName free named
    simp only [named, bind, Option.bind_some, pure, Option.ite_none_left_eq_some, Option.some.injEq] at given
    obtain ⟨_, rfl⟩ := given
    exact isPlain_untestedRepository (Repository.oneLine_relative free)
      (Repository.oneLine_relative (Path.oneLine_join dir test))

theorem allPlain_untestedRisks (names : repo.NamesOneLine) {layer kind : String} (layerFree : OneLine layer)
    (kindFree : OneLine kind) : AllPlain (untestedRisks repo layer kind) := by
  have dir : OneLine (repo.layout.layer layer).raw := names.layer layerFree
  refine .filterMap fun p member v given => ?_
  have free := names.collectFiles dir p member
  dsimp only at given
  cases named : p.fileName? with
  | none => simp [named] at given
  | some name =>
    have test := oneLine_testName free named
    simp only [named, bind, Option.bind_some, pure, Option.ite_none_left_eq_some, Option.some.injEq] at given
    obtain ⟨_, rfl⟩ := given
    refine isPlain_riskyViolation (Repository.oneLine_relative free) kindFree
      (Repository.oneLine_relative (Path.oneLine_join dir test)) fun risk inside => ?_
    have listed := List.mem_of_mem_filter inside
    simp only [riskWords, List.mem_cons, List.not_mem_nil, or_false] at listed
    rcases listed with rfl | rfl | rfl | rfl <;> exact .literal (by decide)

end Coverage

namespace Scripts

theorem isPlain_violation {file : String} (free : OneLine file) (size : Source.Script.Complexity) (kind : Class) (limit : Nat) :
    (violation file size kind limit).IsPlain := by
  have shown : OneLine kind.shown := by cases kind <;> exact .literal (by decide)
  unfold violation
  simp [free, shown]
  and_intros
  all_goals exact .literal (by decide)

theorem allPlain_inspect {file : String} (free : OneLine file) (text : List Char) : AllPlain (inspect file text) := by
  unfold inspect
  dsimp only
  split
  · exact .nil
  · split
    · exact .nil
    · exact .single (isPlain_violation free _ _ _)

theorem oneLine_of_mem_scripts (names : repo.NamesOneLine) :
    ∀ p ∈ scripts repo.files repo.layout.root, OneLine p.raw := by
  intro p member
  rcases List.mem_append.mp (List.mem_mergeSort.mp member) with named | marked
  · exact names.collectFiles names.root p named
  · obtain ⟨dir, inside, own⟩ := List.mem_flatMap.mp marked
    refine names.collectFiles (names.below ?_) p (List.mem_of_mem_filter own)
    simp only [List.mem_cons, List.not_mem_nil, or_false] at inside
    rcases inside with rfl | rfl <;> exact .literal (by decide)

end Scripts

namespace Features

theorem oneLine_of_featureOf? {handler feature : String} (found : featureOf? handler = some feature) : OneLine feature := by
  have all : ∀ x ∈ handlerFeatures, OneLine x.2 := by
    simp only [handlerFeatures, List.forall_mem_cons]
    and_intros
    all_goals first | exact .literal (by decide) | exact fun _ none => absurd none List.not_mem_nil
  obtain ⟨front, back, whole, _⟩ := List.lookup_eq_some_iff.mp found
  exact all (handler, feature) (by simp [whole])

theorem isPlain_unmapped {file handlerFile handler : String} (free : OneLine file) (fileFree : OneLine handlerFile)
    (handlerFree : OneLine handler) : (unmapped file handlerFile handler).IsPlain := by
  unfold unmapped outline
  simp [free, fileFree, handlerFree]
  and_intros
  all_goals exact .literal (by decide)

theorem isPlain_undocumented {file handlerFile feature : String} (free : OneLine file) (fileFree : OneLine handlerFile)
    (featureFree : OneLine feature) : (undocumented file handlerFile feature).IsPlain := by
  have title : '\n' ∉ Text.capitalize feature.toList := Text.newline_not_mem_capitalize featureFree
  unfold undocumented outline
  simp [free, fileFree, featureFree, title]
  and_intros
  all_goals exact .literal (by decide)

theorem allPlain_find (names : repo.NamesOneLine) : AllPlain (find repo) := by
  refine .flatMap fun p member => ?_
  have free := names.collectFiles names.handlers p member
  have name := Path.oneLine_fileName free
  refine Repository.allPlain_inspectFile free fun text _ => ?_
  unfold inspect
  split
  · exact .nil
  · have handler : OneLine (String.ofList (Text.dropTails ".ts".toList (p.fileName?.getD "").toList)) :=
      OneLine.ofList_iff.mpr fun feed => name (Text.dropTails_subset _ _ feed)
    dsimp only
    split
    · exact .single (isPlain_unmapped (Repository.oneLine_relative free) name handler)
    · rename_i feature found
      split
      · exact .nil
      · exact .single (isPlain_undocumented (Repository.oneLine_relative free) name (oneLine_of_featureOf? found))

end Features

namespace Debt

theorem oneLine_of_mem_rules {rule : Rule} (member : rule ∈ rules) :
    OneLine rule.label ∧ ∀ e ∈ rule.evidence, OneLine e.shown := by
  simp only [rules, List.mem_cons, List.not_mem_nil, or_false] at member
  rcases member with rfl | rfl | rfl
  all_goals simp [Evidence.shown]
  all_goals and_intros
  all_goals exact .literal (by decide)

theorem isPlain_violation (line : Nat) {rule : Rule} (member : rule ∈ rules) : (violation line rule).IsPlain := by
  obtain ⟨label, evidence⟩ := oneLine_of_mem_rules member
  have report : OneLine qualityReport := .literal (by decide)
  have listed : ∀ shown ∈ rule.evidence.map Evidence.shown, OneLine shown := by
    intro shown inside
    obtain ⟨e, own, rfl⟩ := List.mem_map.mp inside
    exact evidence e own
  refine Violation.isPlain_see_iff.mpr ⟨Violation.isPlain_addSection_iff.mpr ⟨?_, .literal (by decide), listed⟩,
    .literal (by decide)⟩
  simp [report, label]
  and_intros
  all_goals exact .literal (by decide)

theorem allPlain_find : AllPlain (find repo) := by
  have report : OneLine qualityReport := .literal (by decide)
  unfold find
  dsimp only
  split
  · exact .nil
  · split
    · exact .single (Repository.isPlain_unreadable report _)
    · refine .filterMap fun item member v given => ?_
      cases found : rules.find? (·.label == item.2) with
      | none => simp [found] at given
      | some rule =>
        simp only [found, bind, Option.bind_some, pure, Option.ite_none_right_eq_some, Option.some.injEq] at given
        obtain ⟨_, rfl⟩ := given
        exact isPlain_violation _ (List.mem_of_find?_eq_some found)

end Debt

end Check

namespace Freshness

theorem oneLine_hint : OneLine hint :=
  .literal (by decide)

theorem oneLine_ofText (text : List Char) (today : Date) : OneLine (ofText text today).message := by
  have report : OneLine qualityReport := .literal (by decide)
  have keeps : lastUpdated.Keeps 1 (· ≠ '\n') := Pattern.keeps_of_keepsOut (by decide)
  unfold ofText
  split
  · simp [outdated, report, oneLine_hint]
    exact .literal (by decide)
  · rename_i written found
    obtain ⟨m, matched, group⟩ := Option.bind_eq_some_iff.mp found
    have shown : '\n' ∉ written :=
      fun feed => ((Pattern.follows_of_find? matched).mem_group? keeps group _ feed).1 rfl
    dsimp only
    split
    · rename_i e _
      have message : OneLine e.message := by cases e <;> exact .literal (by decide)
      simp [outdated, report, shown, message]
      and_intros
      all_goals exact .literal (by decide)
    · split
      · simp [outdated, report, shown, oneLine_hint]
        exact ⟨⟨⟨.literal (by decide), .int _⟩, .literal (by decide)⟩, .literal (by decide)⟩
      · exact .empty

theorem oneLine_onDay (repo : Repository) (today : Date) : OneLine (onDay repo today).message := by
  have report : OneLine qualityReport := .literal (by decide)
  unfold onDay
  dsimp only
  split
  · simp [outdated, report]
    exact .literal (by decide)
  · split
    · rename_i cause _
      have shown : OneLine cause.message := by cases cause <;> exact .literal (by decide)
      refine OneLine.append_iff.mpr ⟨OneLine.append_iff.mpr ⟨OneLine.append_iff.mpr ⟨?_, report⟩, ?_⟩, shown⟩
      all_goals exact .literal (by decide)
    · exact oneLine_ofText _ today

end Freshness

end Conformance
