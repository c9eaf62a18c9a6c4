import Conformance.Proofs.Check.EntryPointReading
import Conformance.Proofs.Endpoint.Configuration
import Conformance.Proofs.Endpoint.HostingRules
import Conformance.Proofs.Layout.Spelling

namespace Conformance.Check.Endpoints

open Endpoint

def handlerFile (repo : Repository) (e : Entry) : Path :=
  repo.layout.handlers / s!"{e.handler}.ts"

/-- The hosting configuration lists the rules, in this order, and perhaps items that are no rules. -/
def Configures (repo : Repository) (rules : List HostingRule) : Prop :=
  ∃ text items, repo.files.read (repo.layout.root / configurationName) = .ok text ∧ Hosting.Spelled items text ∧
    items.filterMap Hosting.Item.rule? = rules

def Enters (repo : Repository) (pieces : List Endpoint.Piece) : Prop :=
  ∃ lines, repo.files.read (repo.layout.functions / entryPointName) = .ok (entryPoint lines) ∧
    (∀ line ∈ lines, line.Proper) ∧ (lines.map Line.piece).Perm pieces

/-- The repository holds what the entries of its manifest ask for, and nothing else of that kind. -/
structure Follows (repo : Repository) (entries : List Entry) : Prop where
  handlers : ∀ e ∈ entries, repo.files.pathExists (handlerFile repo e) = true
  mounted : ∀ e ∈ entries, e.route ≠ "" →
    ∃ source, repo.files.read (handlerFile repo e) = .ok source ∧ Mounts e.route.toList source
  configured : Configures repo (HostingRule.expected entries)
  entered : Enters repo (required entries)

theorem pathExists_of_read {fs : FileSystem} {p : Path} {text : List Char} (h : fs.read p = .ok text) :
    fs.pathExists p = true := by
  unfold FileSystem.read at h
  unfold FileSystem.pathExists
  cases leads : fs.node? p with
  | none =>
    rw [leads] at h
    cases h
  | some node => rfl

theorem hostingViolations_of_rules {repo : Repository} {text : List Char} {rules : List HostingRule}
    (reads : repo.files.read (repo.layout.root / configurationName) = .ok text) (parsed : Hosting.rules text = .ok rules)
    (entries : List Entry) :
    hostingViolations repo entries = (HostingRule.differences (HostingRule.expected entries) rules).map
      fun difference => plain s!"{configurationName} rewrite parity failed: {difference}" := by
  simp only [hostingViolations, pathExists_of_read reads, Bool.not_true, Bool.false_eq_true, if_false, reads, parsed]

theorem hostingViolations_eq {repo : Repository} {rules : List HostingRule} (h : Configures repo rules)
    (entries : List Entry) :
    hostingViolations repo entries = (HostingRule.differences (HostingRule.expected entries) rules).map
      fun difference => plain s!"{configurationName} rewrite parity failed: {difference}" := by
  obtain ⟨text, items, reads, spelled, rfl⟩ := h
  exact hostingViolations_of_rules reads (Hosting.rules_of_spelled spelled) entries

theorem entryPointViolations_eq {repo : Repository} {lines : List Line}
    (reads : repo.files.read (repo.layout.functions / entryPointName) = .ok (entryPoint lines)) (entries : List Entry) :
    entryPointViolations repo entries = entries.flatMap (entryPointLacks (entryPoint lines)) := by
  simp only [entryPointViolations, pathExists_of_read reads, Bool.not_true, Bool.false_eq_true, if_false, reads]

theorem filter_handled {entries : List Entry} (regular : Regular entries) :
    entries.filter (·.handler ≠ "") = entries := by
  rw [List.filter_eq_self]
  intro e member
  obtain ⟨c, rest, whole, _⟩ := (regular.each e member).handler
  have present : e.handler ≠ "" := by
    intro empty
    rw [empty] at whole
    cases whole
  simpa using present

theorem ofEntries_eq {entries : List Entry} (regular : Regular entries) (repo : Repository) :
    ofEntries repo entries = malformed entries ++ entries.flatMap (handlerViolations repo) ++
      hostingViolations repo entries ++ entryPointViolations repo entries := by
  have present : entries.isEmpty = false := by simpa using regular.nonempty
  rw [ofEntries, present, filter_handled regular]
  rfl

theorem malformed_eq_nil {entries : List Entry} (regular : Regular entries) : malformed entries = [] := by
  rw [malformed, List.flatMap_eq_nil_iff]
  rintro ⟨e, i⟩ member
  have own : e ∈ entries := List.fst_mem_of_mem_zipIdx member
  obtain ⟨c, rest, whole, _⟩ := (regular.each e own).handler
  have present : e.handler ≠ "" := by
    intro empty
    rw [empty] at whole
    cases whole
  have sourced : ¬ (e.route = "" ∧ e.customSource.isNone = true) := by
    rintro ⟨empty, absent⟩
    obtain ⟨source, given, _⟩ := (regular.each e own).source empty
    rw [given] at absent
    cases absent
  simp only [lacks, if_neg present, if_neg sourced, List.append_nil]

theorem unquoted_of_route {e : Entry} (regular : e.Regular) (present : e.route ≠ "") : Unquoted e.route.toList := by
  intro c member
  rw [Bool.eq_false_iff]
  intro mark
  have inRoute := (regular.route present).1 c member
  rcases Pattern.isMark_eq_true_iff.mp mark with rfl | rfl <;> revert inRoute <;> decide

theorem handlerViolations_eq_nil {repo : Repository} {entries : List Entry} (h : Follows repo entries) {e : Entry}
    (member : e ∈ entries) (regular : e.Regular) : handlerViolations repo e = [] := by
  have found : repo.files.pathExists (repo.layout.handlers / s!"{e.handler}.ts") = true := h.handlers e member
  by_cases unrouted : e.route = ""
  · simp only [handlerViolations, found, unrouted, Bool.not_true, Bool.false_eq_true, if_false, if_true]
  · obtain ⟨source, reads, mounts⟩ := h.mounted e member unrouted
    have reads : repo.files.read (repo.layout.handlers / s!"{e.handler}.ts") = .ok source := reads
    have route : mountedRoute? source = some e.route.toList := by
      rw [mountedRoute?_of_mounts mounts (unquoted_of_route regular unrouted) (by simpa using unrouted),
        normalRoute_of_regular regular unrouted]
    simp only [handlerViolations, found, Bool.not_true, Bool.false_eq_true, if_false, if_neg unrouted, reads,
      routeViolations, route, String.ofList_toList, if_true]

theorem mem_pieces {lines : List Line} {pieces : List Endpoint.Piece} (same : (lines.map Line.piece).Perm pieces)
    {piece : Endpoint.Piece} : piece ∈ pieces ↔ ∃ line ∈ lines, line.piece = piece := by
  rw [← same.mem_iff, List.mem_map]

theorem exists_importing {lines : List Line} {e : Entry} :
    (∃ line ∈ lines, line.piece = .importing e) ↔ Line.importing e ∈ lines := by
  constructor
  · rintro ⟨line, member, same⟩
    cases line with
    | importing e' =>
      cases same
      exact member
    | exporting name value => cases same
  · intro member
    exact ⟨_, member, rfl⟩

theorem exists_exporting {lines : List Line} {name : String} :
    (∃ line ∈ lines, line.piece = .exporting name) ↔ ∃ value, Line.exporting name value ∈ lines := by
  constructor
  · rintro ⟨line, member, same⟩
    cases line with
    | importing e => cases same
    | exporting name' value =>
      cases same
      exact ⟨value, member⟩
  · rintro ⟨value, member⟩
    exact ⟨_, member, rfl⟩

theorem entryPointLacks_eq_nil {lines : List Line} {entries : List Entry} {e : Entry} (member : e ∈ entries)
    (regular : e.Regular) (same : (lines.map Line.piece).Perm (required entries)) :
    entryPointLacks (entryPoint lines) e = [] := by
  have imported : Line.importing e ∈ lines :=
    exists_importing.mp ((mem_pieces same).mp (mem_required.mpr ⟨e, member, Or.inl rfl⟩))
  have exported : e.functionNames.filter (!isExported (entryPoint lines) ·) = [] := by
    rw [List.filter_eq_nil_iff]
    intro name listed
    obtain ⟨value, line⟩ :=
      exists_exporting.mp ((mem_pieces same).mp (mem_required.mpr ⟨e, member, Or.inr ⟨name, listed, rfl⟩⟩))
    simp [isExported_of_exporting regular listed line]
  simp only [entryPointLacks, occursIn_of_importing regular imported, if_true, exported, List.map_nil, List.append_nil]

def missingImport (e : Entry) : Violation :=
  plain s!"Missing import for {e.appName} from './handlers/{e.handler}.js' in {entryPointName}."

section Missing

variable {repo : Repository} {entries : List Entry} {e : Entry}

end Missing

theorem ofEntries_eq_nil {repo : Repository} {entries : List Entry} (regular : Regular entries)
    (follows : Follows repo entries) : ofEntries repo entries = [] := by
  obtain ⟨lines, reads, _, same⟩ := follows.entered
  have handlers : entries.flatMap (handlerViolations repo) = [] := by
    rw [List.flatMap_eq_nil_iff]
    intro e member
    exact handlerViolations_eq_nil follows member (regular.each e member)
  have entered : entries.flatMap (entryPointLacks (entryPoint lines)) = [] := by
    rw [List.flatMap_eq_nil_iff]
    intro e member
    exact entryPointLacks_eq_nil member (regular.each e member) same
  rw [ofEntries_eq regular, malformed_eq_nil regular, handlers, hostingViolations_eq follows.configured,
    HostingRule.differences_self, entryPointViolations_eq reads, entered]
  rfl

theorem run_endpointsOf (repo : Repository) (entries : List Entry) :
    Check.run repo (Check.endpointsOf entries) =
      .ofViolations title ((ofEntries repo entries).map Violation.render) := rfl

theorem violations_endpointsOf (repo : Repository) (entries : List Entry) :
    (Check.run repo (Check.endpointsOf entries)).violations = (ofEntries repo entries).map Violation.render := rfl

def sampleEntries : List Entry :=
  [{ route := "health", handler := "health-sync" },
    { handler := "hook", stem := some "Hook", customSource := some "/hook", devOnly := true }]

def sampleLines : List Line :=
  [.importing { route := "health", handler := "health-sync" }, .exporting "devHealth" "run;".toList,
    .exporting "prodHealth" "run;".toList,
    .importing { handler := "hook", stem := some "Hook", customSource := some "/hook", devOnly := true },
    .exporting "devHook" "run;".toList]

def sampleConfiguration : List Char :=
  match HostingRule.expected sampleEntries with
  | [] => []
  | first :: rules => Hosting.compact first rules

def sampleRepository : Repository where
  files :=
    ⟨.dir [("firebase.json", .file (String.ofList sampleConfiguration).toUTF8),
      ("packages", .dir [("functions", .dir [("src", .dir [
        ("handlers", .dir [("health-sync.ts", .file "createBaseApp('health');".toUTF8), ("hook.ts", .file "".toUTF8)]),
        ("index.ts", .file (String.ofList (entryPoint sampleLines)).toUTF8)])])])], []⟩
  layout := .ofRoot "/"

theorem sample_regular : Regular sampleEntries where
  nonempty := by decide
  each := by
    intro e member
    simp only [sampleEntries, List.mem_cons, List.not_mem_nil, or_false] at member
    rcases member with rfl | rfl
    · exact ⟨⟨'h', "ealth-sync".toList, by decide, by decide, by decide⟩, fun _ => by decide, fun empty => absurd empty (by decide),
        by decide⟩
    · exact ⟨⟨'h', "ook".toList, by decide, by decide, by decide⟩, fun present => absurd rfl present,
        fun _ => ⟨"/hook", rfl, by decide⟩, by decide⟩
  handlers := by decide
  stems := by decide

theorem sample_read {p : Path} {text : List Char}
    (found : sampleRepository.files.node? p = some (.file (String.ofList text).toUTF8)) :
    sampleRepository.files.read p = .ok text := by
  rw [FileSystem.read_of_toUTF8 found, String.toList_ofList]

theorem sample_follows : Follows sampleRepository sampleEntries where
  handlers := by decide +kernel
  mounted := by
    intro e member present
    simp only [sampleEntries, List.mem_cons, List.not_mem_nil, or_false] at member
    rcases member with rfl | rfl
    · have blank : Blank [] := by simp [Blank]
      have front : Unquoted [] := by simp [Unquoted]
      have back : Unquoted [';'] := by unfold Unquoted; decide
      exact ⟨"createBaseApp('health');".toList, sample_read (by rfl),
        .call (Or.inl rfl) (by decide) (by decide) front back blank blank⟩
    · exact absurd rfl present
  configured := by
    refine ⟨sampleConfiguration, (HostingRule.expected sampleEntries).map Hosting.itemOf, sample_read (by rfl), ?_,
      Hosting.filterMap_itemOf _⟩
    exact Hosting.spelled_compact (by decide +kernel)
  entered := by
    refine ⟨sampleLines, sample_read (by rfl), ?_, by decide +kernel⟩
    have regular := sample_regular.each
    have quiet : Quiet "run;".toList := by
      refine ⟨by decide, ?_⟩
      intro word listed v u same
      have long : word.toList.length = 6 := by
        simp only [List.mem_cons, List.not_mem_nil, or_false] at listed
        rcases listed with rfl | rfl <;> decide
      have size := congrArg List.length same
      have short : "run;".toList.length = 4 := by decide
      rw [List.length_append, List.length_append] at size
      omega
    intro line member
    simp only [sampleLines, List.mem_cons, List.not_mem_nil, or_false] at member
    rcases member with rfl | rfl | rfl | rfl | rfl
    · exact .importing (regular _ (by simp [sampleEntries]))
    · exact .exporting (regular { route := "health", handler := "health-sync" } (by simp [sampleEntries])) (by decide +kernel) quiet
    · exact .exporting (regular { route := "health", handler := "health-sync" } (by simp [sampleEntries])) (by decide +kernel) quiet
    · exact .importing (regular _ (by simp [sampleEntries]))
    · exact .exporting (regular _ (List.mem_cons_of_mem _ (List.mem_singleton.mpr rfl))) (by decide +kernel) quiet

end Conformance.Check.Endpoints
