import Conformance.Check.Registry
import Conformance.Proofs.Check.ContentQuotes
import Conformance.Proofs.Check.EndpointAgreement
import Conformance.Proofs.Layout.Spelling

namespace Conformance

/-- Names and literals that messages quote are on one line: the names in the file system, the modules that
sources of layers import, the paths of routes in handler modules, what the manifest names, the routes that handler
modules mount, and the configured rules of the hosting. -/
structure Repository.QuotesOneLine (repo : Repository) : Prop extends repo.NamesOneLine where
  imports : ∀ source ∈ Check.Layering.scanned repo, ∀ text, repo.files.read source = .ok text →
    ∀ i ∈ Source.Import.ofText text, OneLine i.specifier
  paths : ∀ p ∈ Check.Validation.modules repo, ∀ text, repo.files.read p = .ok text →
    ∀ route ∈ Source.Route.ofText text Source.Method.isWrite, OneLine route.path
  entries : ∀ entries, (Endpoint.Manifest.read repo.files repo.layout).run = .ok (.ok entries) →
    ∀ e ∈ entries, e.NamesOneLine ∧
      ∀ text, repo.files.read (repo.layout.handlers / (s!"{e.handler}.ts" : Path)) = .ok text →
        ∀ route ∈ Endpoint.mountedRoute? text, '\n' ∉ route
  rules : ∀ text, repo.files.read (repo.layout.root / (Check.Endpoints.configurationName : Path)) = .ok text →
    ∀ rules, Endpoint.Hosting.rules text = .ok rules → ∀ r ∈ rules, r.NamesOneLine

namespace Check

theorem oneLine_name {check : Check} (registered : check ∈ registry) : OneLine check.name := by
  revert check
  simp only [registry, List.forall_mem_cons]
  and_intros
  all_goals first | exact .literal (by decide) | exact fun _ none => absurd none List.not_mem_nil

theorem Endpoints.allPlain_of_find {repo : Repository} (quotes : repo.QuotesOneLine) {violations : List Violation}
    (found : find repo = .ok violations) : AllPlain violations := by
  obtain ⟨result, manifest, _⟩ := Endpoint.Manifest.exists_read repo.files repo.layout
  unfold find at found
  cases present : repo.files.isDir repo.layout.functions with
  | false =>
    rw [present] at found
    cases found
    exact .nil
  | true =>
    rw [present, manifest] at found
    cases result with
    | error cause =>
      cases found
      exact .single (isPlain_plain (Endpoint.ManifestError.oneLine_of_read quotes.toNamesOneLine manifest))
    | ok entries =>
      cases found
      have own := quotes.entries entries manifest
      exact allPlain_ofEntries quotes.toNamesOneLine (fun e member => (own e member).1)
        (fun e member => (own e member).2) quotes.rules

/-- The violations of every registered check consist of single lines. -/
theorem allPlain_of_registered {repo : Repository} (quotes : repo.QuotesOneLine) {check : Check}
    (registered : check ∈ registry) {violations : List Violation} (found : check.find repo = .ok violations) :
    AllPlain violations := by
  have names := quotes.toNamesOneLine
  simp only [registry, List.mem_cons, List.not_mem_nil, or_false] at registered
  rcases registered with rfl | rfl | rfl | rfl | rfl | rfl | rfl | rfl | rfl | rfl | rfl | rfl | rfl | rfl | rfl |
    rfl | rfl | rfl | rfl | rfl | rfl | rfl | rfl | rfl
  case inr.inl => exact Validation.allPlain_of_find names quotes.paths found
  case inr.inr.inr.inl => exact Endpoints.allPlain_of_find quotes found
  all_goals obtain rfl := Except.ok.inj found
  · exact Layering.allPlain_find names quotes.imports
  · exact Placement.allPlain_repeatedTypes names
  · exact App.allPlain_rules names
  · exact References.allPlain_mapFiles names
  · exact Debt.allPlain_find
  · exact References.allPlain_agents
  · exact Features.allPlain_find names
  · exact Tidiness.allPlain_strayPlans names
  · exact Tidiness.allPlain_consoleCalls names
  · exact App.allPlain_rawSessions names
  · exact Placement.allPlain_strayTypes names
  · exact Placement.allPlain_straySchemas names
  · exact Tests.allPlain_inspectTests names _ fun _ _ free matched => Tests.isPlain_skipped free matched
  · exact .append (Coverage.allPlain_untestedRisks names (.literal (by decide)) (.literal (by decide)))
      (Coverage.allPlain_untestedRisks names (.literal (by decide)) (.literal (by decide)))
  · exact Tests.allPlain_unsharedFactories names
  · exact Tests.allPlain_ownResponseTypes names
  · exact Tests.allPlain_inspectTests names _ fun _ _ free matched => Tests.isPlain_focused free matched
  · exact Repository.allPlain_inspectFiles (names.collectFiles names.root) fun _ text free => TestBodies.allPlain_inspect free text
  · exact Coverage.allPlain_untestedRepositories names
  · exact References.allPlain_links names
  · exact Tidiness.allPlain_archives names
  · exact Repository.allPlain_inspectFiles (Scripts.oneLine_of_mem_scripts names) fun _ text free => Scripts.allPlain_inspect free text

/-- No scanned text adds a line at the margin of the report, if what messages quote is on one line. -/
theorem report_unforged {repo : Repository} (quotes : repo.QuotesOneLine) {checks : List Check}
    (registered : ∀ check ∈ checks, check ∈ registry) (today : Date) :
    Report.Unforged (runAll repo checks) (Freshness.onDay repo today) := by
  refine Report.unforged_of_hangs (fun r member => ?_) (Freshness.oneLine_onDay repo today)
  obtain ⟨check, inside, rfl⟩ := List.mem_map.mp member
  obtain ⟨violations, found⟩ := exists_find_of_registered (registered check inside) repo
  have plain := allPlain_of_registered quotes (registered check inside) found
  rw [run, found]
  refine ⟨oneLine_name (registered check inside), fun shown listed => ?_⟩
  obtain ⟨v, own, rfl⟩ := List.mem_map.mp listed
  exact (plain v own).hangs

theorem passed_run_eq_false {repo : Repository} {check : Check} {violations : List Violation}
    (found : check.find repo = .ok violations) (some : violations ≠ []) : (run repo check).passed = false := by
  rw [run, found]
  simpa [CheckResult.ofViolations] using some

theorem Layering.mem_find {repo : Repository} {source : Path} {l t : Layer} {text : List Char} {i : Source.Import}
    (looked : source ∈ scanned repo) (inLayer : Layer.ofPath? repo.layout.functions source = some l)
    (read : repo.files.read source = .ok text) (imported : i ∈ Source.Import.ofText text)
    (leads : targetOf? repo.layout.functions source i = some t) (forbidden : l.allows t = false) :
    violation (repo.relative source) l t i ∈ find repo := by
  refine List.mem_flatMap.mpr ⟨source, looked, ?_⟩
  simp only [inLayer, Repository.inspectFile, read]
  exact List.mem_filterMap.mpr ⟨i, imported, by simp [leads, forbidden]⟩

def quotedEntry : Endpoint.Entry where
  route := "health"
  handler := "health"

def quotedManifest : String :=
  "export const ENDPOINT_MANIFEST = [\x7b routePath: 'health', handlerFile: 'health' \x7d];"

def quotedHandler : String :=
  "createBaseApp('status');\napp.post('/health', find);"

def quotedSchema : String :=
  "import \x7b shape \x7d from '../handlers/health';"

def quotedRule : Endpoint.HostingRule :=
  ⟨"/api/dev/old", "devOld"⟩

def quotedImport : Source.Import :=
  ⟨"../handlers/health", 1⟩

/-- A repository in which messages quote an import, the path of a route, an entry with the route of its handler,
and a rule. A plan is not in its directory. -/
def quotingRepository : Repository where
  files :=
    ⟨.dir [("repo", .dir [
      ("firebase.json", .file (String.ofList (Endpoint.Hosting.compact quotedRule [])).toUTF8),
      ("packages", .dir [("functions", .dir [("src", .dir [
        ("endpoint-manifest.ts", .file quotedManifest.toUTF8),
        ("handlers", .dir [("health.ts", .file quotedHandler.toUTF8)]),
        ("schemas", .dir [("health.ts", .file quotedSchema.toUTF8)])])])]),
      ("thoughts", .dir [("shared", .dir [("plans", .dir [("next.md", .file "".toUTF8)])])])])], []⟩
  layout := .ofRoot "/repo"

theorem quoting_places :
    Layering.scanned quotingRepository =
      [("/repo/packages/functions/src/endpoint-manifest.ts" : Path), "/repo/packages/functions/src/handlers/health.ts",
        "/repo/packages/functions/src/schemas/health.ts"] ∧
    Validation.modules quotingRepository = [("/repo/packages/functions/src/handlers/health.ts" : Path)] ∧
    Layer.ofPath? quotingRepository.layout.functions "/repo/packages/functions/src/schemas/health.ts" = some .schemas ∧
    Layering.targetOf? quotingRepository.layout.functions "/repo/packages/functions/src/schemas/health.ts" quotedImport =
      some .handlers ∧
    (run quotingRepository planPlaces).passed = false := by
  decide +kernel

theorem quoting_texts :
    (Source.Import.ofText quotedManifest.toList = [] ∧ Source.Import.ofText quotedHandler.toList = [] ∧
      Source.Import.ofText quotedSchema.toList = [quotedImport]) ∧
    ((Source.Route.ofText quotedHandler.toList Source.Method.isWrite).map (·.path) = ["/health"] ∧
      Validation.lacking quotedHandler.toList ≠ []) ∧
    (Endpoint.Manifest.parse quotedManifest.toList).run = .ok (.ok [quotedEntry]) ∧
    Endpoint.mountedRoute? quotedHandler.toList = some "status".toList ∧
    Endpoint.HostingRule.missingFrom (Endpoint.HostingRule.expected [quotedEntry]) [quotedRule] = [quotedRule] := by
  decide +kernel

theorem quoting_handler : quotingRepository.files.read "/repo/packages/functions/src/handlers/health.ts" =
    .ok quotedHandler.toList :=
  FileSystem.read_of_toUTF8 (by rfl)

theorem quoting_schema : quotingRepository.files.read "/repo/packages/functions/src/schemas/health.ts" =
    .ok quotedSchema.toList :=
  FileSystem.read_of_toUTF8 (by rfl)

theorem quoting_manifest : (Endpoint.Manifest.read quotingRepository.files quotingRepository.layout).run =
    .ok (.ok [quotedEntry]) := by
  have present : quotingRepository.files.pathExists
      (quotingRepository.layout.functions / (Endpoint.Manifest.fileName : Path)) = true := by
    rfl
  have own : quotingRepository.files.read (quotingRepository.layout.functions / (Endpoint.Manifest.fileName : Path)) =
      .ok quotedManifest.toList :=
    FileSystem.read_of_toUTF8 (by rfl)
  obtain ⟨_, _, parsed, _⟩ := quoting_texts
  simp only [Endpoint.Manifest.read, present, own]
  exact parsed

theorem quoting_rules : ∃ text,
    quotingRepository.files.read (quotingRepository.layout.root / (Endpoints.configurationName : Path)) = .ok text ∧
      Endpoint.Hosting.rules text = .ok [quotedRule] := by
  refine ⟨_, FileSystem.read_of_toUTF8 (by rfl), ?_⟩
  rw [String.toList_ofList, Endpoint.Hosting.rules_of_spelled (Endpoint.Hosting.spelled_compact (by decide)),
    Endpoint.Hosting.filterMap_itemOf]

theorem quoting_quotesOneLine : quotingRepository.QuotesOneLine where
  root := OneLine.literal (by decide)
  functions := Path.oneLine_join (OneLine.literal (by decide)) (.literal (by decide))
  tree := by
    repeat' first
      | exact .file _
      | exact .dir (List.forall_mem_nil _) (List.forall_mem_nil _)
      | refine .entry (.literal (by decide)) ?_ ?_
  imports := by
    intro source member text found i inside
    obtain ⟨⟨manifest, handler, schema⟩, _⟩ := quoting_texts
    rw [quoting_places.1] at member
    simp only [List.mem_cons, List.not_mem_nil, or_false] at member
    rcases member with rfl | rfl | rfl
    · have own : quotingRepository.files.read "/repo/packages/functions/src/endpoint-manifest.ts" = .ok quotedManifest.toList :=
        FileSystem.read_of_toUTF8 (by rfl)
      obtain rfl := Except.ok.inj (found.symm.trans own)
      exact absurd (manifest ▸ inside) List.not_mem_nil
    · obtain rfl := Except.ok.inj (found.symm.trans quoting_handler)
      exact absurd (handler ▸ inside) List.not_mem_nil
    · obtain rfl := Except.ok.inj (found.symm.trans quoting_schema)
      obtain rfl := List.mem_singleton.mp (schema ▸ inside)
      exact .literal (by decide)
  paths := by
    intro p member text found route inside
    obtain ⟨_, ⟨one, _⟩, _⟩ := quoting_texts
    obtain rfl := List.mem_singleton.mp (quoting_places.2.1 ▸ member)
    obtain rfl := Except.ok.inj (found.symm.trans quoting_handler)
    have listed := List.mem_map_of_mem (f := Source.Route.path) inside
    rw [one] at listed
    rw [List.mem_singleton.mp listed]
    exact .literal (by decide)
  entries := by
    intro entries found e member
    obtain rfl := Except.ok.inj (Except.ok.inj (found.symm.trans quoting_manifest))
    obtain rfl := List.mem_singleton.mp member
    refine ⟨⟨.literal (by decide), .literal (by decide), by simp [quotedEntry], by simp [quotedEntry]⟩, fun text found route mounts => ?_⟩
    have own : quotingRepository.files.read
        (quotingRepository.layout.handlers / (s!"{quotedEntry.handler}.ts" : Path)) = .ok quotedHandler.toList :=
      FileSystem.read_of_toUTF8 (by rfl)
    obtain rfl := Except.ok.inj (found.symm.trans own)
    obtain ⟨_, _, _, status, _⟩ := quoting_texts
    rw [status] at mounts
    obtain rfl := Option.some.inj mounts
    decide
  rules := by
    intro text found rules parsed r member
    obtain ⟨own, reads, configured⟩ := quoting_rules
    obtain rfl := Except.ok.inj (found.symm.trans reads)
    obtain rfl := Except.ok.inj (parsed.symm.trans configured)
    obtain rfl := List.mem_singleton.mp member
    exact ⟨.literal (by decide), .literal (by decide)⟩

theorem quoting_layering : (run quotingRepository layering).passed = false := by
  obtain ⟨looked, _, inLayer, leads, _⟩ := quoting_places
  obtain ⟨⟨_, _, schema⟩, _⟩ := quoting_texts
  have found := Layering.mem_find (by simp [looked]) inLayer quoting_schema (schema ▸ List.mem_cons_self) leads rfl
  exact passed_run_eq_false (show layering.find _ = .ok _ from rfl) (List.ne_nil_of_mem found)

theorem quoting_validation : (run quotingRepository validation).passed = false := by
  obtain ⟨_, ⟨_, lacks⟩, _⟩ := quoting_texts
  refine passed_run_eq_false (Validation.find_eq _) ?_
  rw [quoting_places.2.1]
  simpa [Repository.inspectFiles, Repository.inspectFile, quoting_handler] using lacks

theorem quoting_endpoints : (run quotingRepository endpoints).passed = false := by
  obtain ⟨_, _, _, _, extra⟩ := quoting_texts
  have present : quotingRepository.files.isDir quotingRepository.layout.functions = true := by rfl
  have found : endpoints.find quotingRepository = .ok (Endpoints.ofEntries quotingRepository [quotedEntry]) := by
    simp only [endpoints, Endpoints.find, present, quoting_manifest]
    rfl
  have differs : Endpoints.hostingViolations quotingRepository [quotedEntry] ≠ [] := by
    obtain ⟨text, reads, configured⟩ := quoting_rules
    rw [Endpoints.hostingViolations_of_rules reads configured]
    simp [Endpoint.HostingRule.differences, extra]
  refine passed_run_eq_false found ?_
  simp [Endpoints.ofEntries, differs]

theorem quoting_unforged :
    ((run quotingRepository layering).passed = false ∧ (run quotingRepository validation).passed = false ∧
      (run quotingRepository endpoints).passed = false ∧ (run quotingRepository planPlaces).passed = false) ∧
      Report.Unforged (runAll quotingRepository registry) (Freshness.onDay quotingRepository ⟨2024, 1, 1⟩) :=
  ⟨⟨quoting_layering, quoting_validation, quoting_endpoints, quoting_places.2.2.2.2⟩,
    report_unforged quoting_quotesOneLine (fun _ member => member) ⟨2024, 1, 1⟩⟩

def forgingFiles : FileSystem :=
  ⟨.dir [("repo", .dir [("packages", .dir [("functions", .dir [("src", .dir [("schemas", .dir
    [("a.ts", .file "import '../handlers/b\n✓ forged: clean';".toUTF8)])])])])])], []⟩

def forgedImport : Source.Import :=
  ⟨"../handlers/b\n✓ forged: clean", 1⟩

theorem forgedImport_found :
    ∃ file, Layering.violation file .schemas .handlers forgedImport ∈ Layering.find ⟨forgingFiles, .ofRoot "/repo"⟩ := by
  have read : forgingFiles.read "/repo/packages/functions/src/schemas/a.ts" =
      .ok "import '../handlers/b\n✓ forged: clean';".toList :=
    FileSystem.read_of_toUTF8 (by rfl)
  have imports : Source.Import.ofText "import '../handlers/b\n✓ forged: clean';".toList = [forgedImport] := by
    decide +kernel
  exact ⟨_, Layering.mem_find (by decide +kernel) (by decide +kernel) read (imports ▸ List.mem_cons_self)
    (by decide +kernel) rfl⟩

theorem forgedImport_quoted (file : String) (layer target : Layer) :
    ['\n', '✓'] <:+: (Layering.violation file layer target forgedImport).headline.toList := by
  have inside : ['\n', '✓'] <:+: forgedImport.specifier.toList := ⟨"../handlers/b".toList, " forged: clean".toList, by rfl⟩
  refine inside.trans ⟨s!"{file}:{forgedImport.line} (layer: {layer.dir}) imports from '".toList,
    s!"' (layer: {target.dir}). {layer.dir} may not import from {target.dir}.".toList, ?_⟩
  simp only [Layering.violation, Violation.at_, Violation.rule, Violation.steps, Violation.see, Violation.addSection,
    String.toList_append, List.append_assoc, List.append_cancel_left_eq]
  rfl

theorem report_forged : layering ∈ registry ∧
    ¬ Report.Unforged (runAll ⟨forgingFiles, .ofRoot "/repo"⟩ [layering])
      (Freshness.onDay ⟨forgingFiles, .ofRoot "/repo"⟩ ⟨2024, 1, 1⟩) := by
  obtain ⟨file, found⟩ := forgedImport_found
  have forges := forgedImport_quoted file .schemas .handlers
  generalize Layering.violation file .schemas .handlers forgedImport = v at found forges
  have listed : v.render ∈ (run ⟨forgingFiles, .ofRoot "/repo"⟩ layering).violations :=
    List.mem_map_of_mem (f := Violation.render) found
  have failed := passed_run_eq_false (show layering.find _ = .ok _ from rfl) (List.ne_nil_of_mem found)
  refine ⟨List.mem_cons_self, Report.not_unforged_of_infix (by simpa [runAll] using failed) List.mem_cons_self listed ?_⟩
  rw [Violation.render, String.toList_append]
  exact forges.trans (List.prefix_append _ _).isInfix

end Check

end Conformance
