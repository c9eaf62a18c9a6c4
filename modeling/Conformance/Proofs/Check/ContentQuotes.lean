import Conformance.Check.Registry
import Conformance.Proofs.Check.Faults
import Conformance.Proofs.Check.LineQuotes
import Conformance.Proofs.Check.NameQuotes
import Conformance.Proofs.Json.Failures

namespace Conformance

namespace Check

variable {repo : Repository}

namespace Layering

def scanned (repo : Repository) : List Path :=
  repo.files.sourceFiles (skipping ["__tests__", "test-utils"]) repo.layout.functions

theorem oneLine_dir (layer : Layer) : OneLine layer.dir := by
  cases layer <;> exact .literal (by decide)

theorem oneLine_allowedList (layer : Layer) : OneLine layer.allowedList := by
  unfold Layer.allowedList
  split
  · exact .literal (by decide)
  · refine .intercalate (.literal (by decide)) fun name member => ?_
    obtain ⟨other, _, rfl⟩ := List.mem_map.mp (mem_sortedTexts.mp member)
    exact oneLine_dir other

theorem isPlain_violation {file : String} (free : OneLine file) (layer target : Layer) {i : Source.Import}
    (specifier : OneLine i.specifier) : (violation file layer target i).IsPlain := by
  unfold violation
  simp [free, specifier, oneLine_dir, oneLine_allowedList]
  and_intros
  all_goals exact .literal (by decide)

theorem allPlain_find (names : repo.NamesOneLine)
    (imports : ∀ source ∈ scanned repo, ∀ text, repo.files.read source = .ok text →
      ∀ i ∈ Source.Import.ofText text, OneLine i.specifier) : AllPlain (find repo) := by
  refine .flatMap fun source member => ?_
  split
  · exact .nil
  · have free := names.collectFiles names.functions source member
    refine Repository.allPlain_inspectFile free fun text read => .filterMap fun i inside v given => ?_
    split at given
    · split at given
      · cases given
      · obtain rfl := Option.some.inj given
        exact isPlain_violation (Repository.oneLine_relative free) _ _ (imports source member text read i inside)
    · cases given

end Layering

namespace Validation

set_option maxRecDepth 10000 in
theorem isPlain_violation {file : String} (free : OneLine file) {route : Source.Route} (path : OneLine route.path) :
    (violation file route).IsPlain := by
  have shown : OneLine route.method.shown := by cases route.method <;> exact .literal (by decide)
  have verb : OneLine route.method.verb := by cases route.method <;> exact .literal (by decide)
  have dir : OneLine schemaDir := .literal (by decide)
  unfold violation
  simp [free, path, shown, verb, dir]
  and_intros
  all_goals exact .literal (by decide)

theorem allPlain_of_find (names : repo.NamesOneLine)
    (paths : ∀ p ∈ modules repo, ∀ text, repo.files.read p = .ok text →
      ∀ route ∈ Source.Route.ofText text Source.Method.isWrite, OneLine route.path)
    {violations : List Violation} (found : find repo = .ok violations) : AllPlain violations := by
  rw [find_eq] at found
  cases found
  refine .flatMap fun p member => ?_
  have free := names.collectFiles names.handlers p member
  refine Repository.allPlain_inspectFile free fun text read => .map fun route inside => ?_
  exact isPlain_violation (Repository.oneLine_relative free) (paths p member text read route (lacking_subset text inside))

end Validation

end Check

namespace Endpoint

structure Entry.NamesOneLine (e : Entry) : Prop where
  route : OneLine e.route
  handler : OneLine e.handler
  stem : ∀ stem ∈ e.stem, OneLine stem
  customSource : ∀ source ∈ e.customSource, OneLine source

theorem newline_not_mem_pascalCase {name : List Char} (free : '\n' ∉ name) : '\n' ∉ pascalCase name := by
  intro inside
  obtain ⟨word, listed, feed⟩ := List.mem_flatMap.mp inside
  have own : '\n' ∉ word := fun feed => free (Text.mem_of_mem_split (List.mem_of_mem_filter listed) feed)
  exact Text.newline_not_mem_capitalize own feed

namespace Entry.NamesOneLine

variable {e : Entry} (plain : e.NamesOneLine)

include plain

theorem functionStem : OneLine e.functionStem := by
  unfold Entry.functionStem
  cases given : e.stem with
  | some stem => exact plain.stem stem given
  | none =>
    refine OneLine.ofList_iff.mpr (newline_not_mem_pascalCase ?_)
    split
    · exact plain.handler
    · exact plain.route

theorem devName : OneLine e.devName :=
  OneLine.append_iff.mpr ⟨.literal (by decide), plain.functionStem⟩

theorem prodName : OneLine e.prodName :=
  OneLine.append_iff.mpr ⟨.literal (by decide), plain.functionStem⟩

theorem functionNames : ∀ name ∈ e.functionNames, OneLine name := by
  intro name member
  unfold Entry.functionNames at member
  split at member
  · obtain rfl := List.mem_singleton.mp member
    exact plain.devName
  · simp only [List.mem_cons, List.not_mem_nil, or_false] at member
    rcases member with rfl | rfl
    · exact plain.devName
    · exact plain.prodName

theorem appName : OneLine e.appName := by
  refine OneLine.append_iff.mpr ⟨OneLine.ofList_iff.mpr ?_, .literal (by decide)⟩
  exact Text.newline_not_mem_decapitalize (newline_not_mem_pascalCase plain.handler)

theorem label : OneLine e.label := by
  have mark : OneLine "'" := .literal (by decide)
  unfold Entry.label
  split
  · simp [mark, plain.route]
  · split
    · rename_i source given
      simp [mark, plain.customSource source given]
      exact .literal (by decide)
    · simp [mark, plain.handler]
      exact .literal (by decide)

end Entry.NamesOneLine

def HostingRule.NamesOneLine (r : HostingRule) : Prop :=
  OneLine r.source ∧ OneLine r.function

namespace HostingRule

theorem namesOneLine_of_mem_pair {source function : String} (free : OneLine source) (functionFree : OneLine function) :
    ∀ r ∈ pair source function, r.NamesOneLine := by
  intro r member
  simp only [pair, List.mem_cons, List.not_mem_nil, or_false] at member
  rcases member with rfl | rfl
  · exact ⟨free, functionFree⟩
  · exact ⟨OneLine.append_iff.mpr ⟨free, .literal (by decide)⟩, functionFree⟩

theorem oneLine_sourceOf {stageRoot : String} (free : OneLine stageRoot) {e : Entry} (plain : e.NamesOneLine) :
    OneLine (sourceOf stageRoot e) := by
  unfold sourceOf
  cases given : e.customSource with
  | some source => exact plain.customSource source given
  | none => exact OneLine.append_iff.mpr ⟨OneLine.append_iff.mpr ⟨free, .literal (by decide)⟩, plain.route⟩

theorem namesOneLine_of_mem_expected {entries : List Entry} (plain : ∀ e ∈ entries, e.NamesOneLine) :
    ∀ r ∈ expected entries, r.NamesOneLine := by
  intro r member
  rcases List.mem_append.mp member with dev | prod
  · obtain ⟨e, inside, own⟩ := List.mem_flatMap.mp dev
    have each := plain e inside
    exact namesOneLine_of_mem_pair (oneLine_sourceOf (.literal (by decide)) each) each.devName r own
  · obtain ⟨e, inside, own⟩ := List.mem_flatMap.mp prod
    have each := plain e (List.mem_of_mem_filter inside)
    exact namesOneLine_of_mem_pair (oneLine_sourceOf (.literal (by decide)) each) each.prodName r own

theorem oneLine_shown {r : HostingRule} (plain : r.NamesOneLine) : OneLine r.shown :=
  OneLine.append_iff.mpr ⟨OneLine.append_iff.mpr ⟨plain.1, .literal (by decide)⟩, plain.2⟩

theorem mem_of_firstDifference? {position at_ : Nat} {a b : List HostingRule} {x y : HostingRule}
    (found : firstDifference? position a b = some (at_, x, y)) : x ∈ a ∧ y ∈ b := by
  induction a generalizing position b with
  | nil => simp [firstDifference?] at found
  | cons first a ih =>
    cases b with
    | nil => simp [firstDifference?] at found
    | cons first' b =>
      rw [firstDifference?] at found
      split at found
      · obtain ⟨left, right⟩ := ih found
        exact ⟨List.mem_cons_of_mem _ left, List.mem_cons_of_mem _ right⟩
      · cases found
        exact ⟨List.mem_cons_self, List.mem_cons_self⟩

theorem oneLine_of_mem_differences {want actual : List HostingRule} (wantPlain : ∀ r ∈ want, r.NamesOneLine)
    (actualPlain : ∀ r ∈ actual, r.NamesOneLine) : ∀ difference ∈ differences want actual, OneLine difference := by
  have listed : ∀ {other rules : List HostingRule} {r : HostingRule}, r ∈ missingFrom other rules → r ∈ rules := by
    intro other rules r member
    rw [missingFrom, mem_dropRepeats, List.mem_mergeSort] at member
    exact List.mem_of_mem_filter member
  intro difference member
  simp only [differences, List.mem_append, List.mem_map] at member
  rcases member with (⟨r, missing, rfl⟩ | ⟨r, extra, rfl⟩) | other
  · exact OneLine.append_iff.mpr ⟨.literal (by decide), oneLine_shown (wantPlain r (listed missing))⟩
  · exact OneLine.append_iff.mpr ⟨.literal (by decide), oneLine_shown (actualPlain r (listed extra))⟩
  · split at other
    · cases other
    · rename_i position a b found
      obtain ⟨left, right⟩ := mem_of_firstDifference? found
      obtain rfl := List.mem_singleton.mp other
      simp [oneLine_shown (wantPlain a (List.mem_of_mem_filter left)), oneLine_shown (actualPlain b (List.mem_of_mem_filter right))]
      and_intros
      all_goals exact .literal (by decide)

end HostingRule

theorem ManifestError.oneLine_of_arrayBounds {text : List Char} {cause : ManifestError}
    (fails : Manifest.arrayBounds text = .error cause) : OneLine cause.message := by
  have missing : OneLine missingDeclaration.message := .literal (by decide)
  have open_ : ∀ offset, OneLine (unbalanced offset).message :=
    fun offset => OneLine.append_iff.mpr ⟨.literal (by decide), .nat offset⟩
  unfold Manifest.arrayBounds at fails
  split at fails
  · cases fails
    exact missing
  · split at fails
    · cases fails
      exact missing
    · split at fails
      · cases fails
      · cases fails
        exact open_ _

theorem ManifestError.oneLine_of_read {repo : Repository} (names : repo.NamesOneLine) {cause : ManifestError}
    (fails : (Manifest.read repo.files repo.layout).run = .ok (.error cause)) : OneLine cause.message := by
  obtain ⟨result, own, causes⟩ := Manifest.exists_read repo.files repo.layout
  rw [own] at fails
  cases fails
  rcases causes cause rfl with rfl | ⟨reason, rfl⟩ | rfl | ⟨text, found⟩
  · have path : OneLine (repo.layout.functions / (Manifest.fileName : Path)).raw :=
      Path.oneLine_join names.functions (.literal (by decide))
    exact OneLine.append_iff.mpr ⟨.literal (by decide), path⟩
  · have shown : OneLine reason.message := by cases reason <;> exact .literal (by decide)
    exact OneLine.append_iff.mpr ⟨.literal (by decide), shown⟩
  · exact .literal (by decide)
  · exact oneLine_of_arrayBounds found

end Endpoint

namespace Check.Endpoints

open Endpoint

variable {repo : Repository}

theorem isPlain_plain {headline : String} (free : OneLine headline) : (plain headline).IsPlain :=
  Violation.isPlain_mk_iff.mpr free

theorem allPlain_malformed {entries : List Entry} (each : ∀ e ∈ entries, e.NamesOneLine) :
    AllPlain (malformed entries) := by
  refine .flatMap ?_
  rintro ⟨e, i⟩ member
  have own := each e (List.fst_mem_of_mem_zipIdx member)
  refine .append ?_ ?_
  · split
    · refine .single (isPlain_plain ?_)
      simp [own.label]
      and_intros
      all_goals exact .literal (by decide)
    · exact .nil
  · split
    · refine .single (isPlain_plain ?_)
      simp [own.handler]
      and_intros
      all_goals exact .literal (by decide)
    · exact .nil

theorem allPlain_routeViolations {e : Entry} (own : e.NamesOneLine) {source : List Char}
    (mounted : ∀ route ∈ mountedRoute? source, '\n' ∉ route) : AllPlain (routeViolations e source) := by
  unfold routeViolations
  split
  · refine .single (Violation.isPlain_fix_iff.mpr ⟨isPlain_plain ?_, ?_⟩)
    · simp [own.handler]
      and_intros
      all_goals exact .literal (by decide)
    · simp [own.route]
      and_intros
      all_goals exact .literal (by decide)
  · rename_i route found
    have free := mounted route found
    dsimp only
    split
    · exact .nil
    · refine .single (Violation.isPlain_fix_iff.mpr ⟨isPlain_plain ?_, .literal (by decide)⟩)
      simp [own.handler, own.route, free]
      and_intros
      all_goals exact .literal (by decide)

theorem allPlain_handlerViolations {e : Entry} (own : e.NamesOneLine)
    (mounted : ∀ text, repo.files.read (repo.layout.handlers / (s!"{e.handler}.ts" : Path)) = .ok text →
      ∀ route ∈ mountedRoute? text, '\n' ∉ route) : AllPlain (handlerViolations repo e) := by
  have file : OneLine s!"packages/functions/src/handlers/{e.handler}.ts" :=
    OneLine.append_iff.mpr ⟨OneLine.append_iff.mpr ⟨.literal (by decide), own.handler⟩, .literal (by decide)⟩
  have manifest : OneLine Manifest.fileName := .literal (by decide)
  unfold handlerViolations
  dsimp only
  split
  · refine .single (Violation.isPlain_fix_iff.mpr ⟨isPlain_plain ?_, ?_⟩)
    · refine OneLine.append_iff.mpr ⟨OneLine.append_iff.mpr ⟨OneLine.append_iff.mpr ⟨OneLine.append_iff.mpr
        ⟨.literal (by decide), file⟩, .literal (by decide)⟩, own.label⟩, .literal (by decide)⟩
    · refine OneLine.append_iff.mpr ⟨OneLine.append_iff.mpr ⟨OneLine.append_iff.mpr ⟨OneLine.append_iff.mpr
        ⟨.literal (by decide), file⟩, .literal (by decide)⟩, manifest⟩, .literal (by decide)⟩
  · split
    · exact .nil
    · split
      · exact .single (Repository.isPlain_unreadable file _)
      · exact allPlain_routeViolations own (mounted _ ‹_›)

theorem allPlain_hostingViolations (names : repo.NamesOneLine) {entries : List Entry} (each : ∀ e ∈ entries, e.NamesOneLine)
    (configured : ∀ text, repo.files.read (repo.layout.root / (configurationName : Path)) = .ok text →
      ∀ rules, Hosting.rules text = .ok rules → ∀ r ∈ rules, r.NamesOneLine) :
    AllPlain (hostingViolations repo entries) := by
  have configuration : OneLine configurationName := .literal (by decide)
  unfold hostingViolations
  dsimp only
  split
  · refine .single (isPlain_plain (OneLine.append_iff.mpr ⟨OneLine.append_iff.mpr ⟨configuration, .literal (by decide)⟩, ?_⟩))
    exact names.below configuration
  · split
    · exact .single (Repository.isPlain_unreadable configuration _)
    · rename_i text read
      split
      · rename_i failure fails
        refine .single (isPlain_plain (OneLine.append_iff.mpr ⟨OneLine.append_iff.mpr ⟨configuration, .literal (by decide)⟩, ?_⟩))
        exact Hosting.oneLine_of_rules fails
      · rename_i actual found
        refine .map fun difference member => isPlain_plain ?_
        refine OneLine.append_iff.mpr ⟨OneLine.append_iff.mpr ⟨configuration, .literal (by decide)⟩, ?_⟩
        exact HostingRule.oneLine_of_mem_differences (HostingRule.namesOneLine_of_mem_expected each)
          (configured text read actual found) difference member

theorem allPlain_entryPointLacks (entryPoint : List Char) {e : Entry} (own : e.NamesOneLine) :
    AllPlain (entryPointLacks entryPoint e) := by
  have index : OneLine entryPointName := .literal (by decide)
  unfold entryPointLacks
  refine .append ?_ (.map fun name member => isPlain_plain ?_)
  · split
    · exact .nil
    · refine .single (isPlain_plain ?_)
      simp [own.appName, own.handler, index]
      and_intros
      all_goals exact .literal (by decide)
  · have free := own.functionNames name (List.mem_of_mem_filter member)
    simp [free, own.label, index]
    and_intros
    all_goals exact .literal (by decide)

theorem allPlain_entryPointViolations (names : repo.NamesOneLine) {entries : List Entry}
    (each : ∀ e ∈ entries, e.NamesOneLine) : AllPlain (entryPointViolations repo entries) := by
  have index : OneLine entryPointName := .literal (by decide)
  unfold entryPointViolations
  dsimp only
  split
  · refine .single (isPlain_plain (OneLine.append_iff.mpr ⟨OneLine.append_iff.mpr ⟨index, .literal (by decide)⟩, ?_⟩))
    exact Path.oneLine_join names.functions index
  · split
    · exact .single (Repository.isPlain_unreadable index _)
    · exact .flatMap fun e member => allPlain_entryPointLacks _ (each e member)

theorem allPlain_ofEntries (names : repo.NamesOneLine) {entries : List Entry} (each : ∀ e ∈ entries, e.NamesOneLine)
    (mounted : ∀ e ∈ entries, ∀ text, repo.files.read (repo.layout.handlers / (s!"{e.handler}.ts" : Path)) = .ok text →
      ∀ route ∈ mountedRoute? text, '\n' ∉ route)
    (configured : ∀ text, repo.files.read (repo.layout.root / (configurationName : Path)) = .ok text →
      ∀ rules, Hosting.rules text = .ok rules → ∀ r ∈ rules, r.NamesOneLine) :
    AllPlain (ofEntries repo entries) := by
  unfold ofEntries
  split
  · exact .single (isPlain_plain (.literal (by decide)))
  · have handled : ∀ e ∈ entries.filter (·.handler ≠ ""), e ∈ entries := fun _ => List.mem_of_mem_filter
    refine .append (.append (.append (allPlain_malformed each) (.flatMap fun e member => ?_))
      (allPlain_hostingViolations names each configured)) (allPlain_entryPointViolations names fun e member => each e (handled e member))
    exact allPlain_handlerViolations (each e (handled e member)) (mounted e (handled e member))

end Check.Endpoints

end Conformance
