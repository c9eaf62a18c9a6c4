import Conformance.Proofs.Check.EndpointAgreement
import Conformance.Proofs.FileSystem.Overwrite
import Conformance.Proofs.Pattern.LineInFront

namespace Conformance.Check.Endpoints

open Endpoint Text

def mountingForms : List Pattern :=
  [literalCall "createBaseApp", resourceRouter, literalCall "stripPathPrefix"]

def mountingCall? (source : List Char) : Option Pattern.Match :=
  mountingForms.findSome? (·.find? source)

theorem mountedRoute?_eq (source : List Char) :
    mountedRoute? source = ((mountingCall? source).bind (·.group? 1)).map normalRoute := rfl

def LeavesRoute (line source : List Char) : Prop :=
  ∀ m, mountingCall? (line ++ source) = some m → byteLength line ≤ m.start.offset

/-- What a line in front of the entry point imports or exports for an entry, with what follows it, is imported or
exported there without the line. -/
structure LeavesNames (line entryPoint : List Char) (e : Entry) : Prop where
  imported : (handlerImport e.appName e.handler).beginsIn line entryPoint = true →
    (handlerImport e.appName e.handler).occursIn entryPoint = true
  exported : ∀ name ∈ e.functionNames,
    ((exportedDeclaration name).beginsIn line entryPoint || (exportList name).beginsIn line entryPoint) = true →
      isExported entryPoint name = true

section Texts

variable {line text : List Char} (ends : EndsLine line.getLast?)

include ends

theorem mountedRoute?_behind (leaves : LeavesRoute line text) : mountedRoute? (line ++ text) = mountedRoute? text := by
  have calls : mountingCall? (line ++ text) = (mountingCall? text).map (Pattern.Match.move (byteLength line) line.getLast?) :=
    Pattern.findSome?_behind ends (by decide) leaves
  rw [mountedRoute?_eq, mountedRoute?_eq, calls]
  cases mountingCall? text with
  | none => rfl
  | some m => exact congrArg (Option.map normalRoute) (m.group?_move 1 _ _)

theorem occursIn_handlerImport_behind {e : Entry} (leaves : LeavesNames line text e) :
    (handlerImport e.appName e.handler).occursIn (line ++ text) = (handlerImport e.appName e.handler).occursIn text := by
  have free : (handlerImport e.appName e.handler).asksForStart = false := by
    simp [handlerImport, listed, Pattern.asksForStart_chain, Pattern.blanks, Pattern.quote, Pattern.asksForStart]
  rw [Pattern.occursIn_behind ends free]
  cases begins : (handlerImport e.appName e.handler).beginsIn line text with
  | false => rfl
  | true => exact (leaves.imported begins).symm

theorem isExported_behind {e : Entry} (leaves : LeavesNames line text e) {name : String} (own : name ∈ e.functionNames) :
    isExported (line ++ text) name = isExported text name := by
  have free : (exportedDeclaration name).asksForStart = false := by
    simp [exportedDeclaration, Pattern.asksForStart_chain, Pattern.someBlanks, Pattern.mostOne, Pattern.anyOf,
      Pattern.asksForStart]
  have free' : (exportList name).asksForStart = false := by
    simp [exportList, listed, Pattern.asksForStart_chain, Pattern.blanks, Pattern.asksForStart]
  have kept := leaves.exported name own
  rw [isExported, Pattern.occursIn_behind ends free, Pattern.occursIn_behind ends free']
  rw [isExported] at kept ⊢
  revert kept
  cases (exportedDeclaration name).beginsIn line text <;> cases (exportList name).beginsIn line text <;> simp

theorem entryPointLacks_behind {e : Entry} (leaves : LeavesNames line text e) :
    entryPointLacks (line ++ text) e = entryPointLacks text e := by
  have exported : e.functionNames.filter (!isExported (line ++ text) ·) = e.functionNames.filter (!isExported text ·) :=
    List.filter_congr fun name own => by rw [isExported_behind ends leaves own]
  rw [entryPointLacks, entryPointLacks, occursIn_handlerImport_behind ends leaves, exported]

end Texts

/-- A line in front of the file at a place is nothing to the check of these entries, whatever the file is to them. -/
structure Idle (repo : Repository) (entries : List Entry) (place : List String) (line : List Char) : Prop where
  configuration : repo.files.resolve? (repo.layout.root / configurationName) ≠ some place
  handler : ∀ e ∈ entries, e.handler ≠ "" → e.route ≠ "" → repo.files.resolve? (handlerFile repo e) = some place →
    ∀ source, repo.files.read (handlerFile repo e) = .ok source → LeavesRoute line source
  entryPoint : repo.files.resolve? (repo.layout.functions / entryPointName) = some place →
    ∀ text, repo.files.read (repo.layout.functions / entryPointName) = .ok text →
      ∀ e ∈ entries, e.handler ≠ "" → LeavesNames line text e

section Files

variable {repo : Repository} {entries : List Entry} {place : List String} {line : List Char} (ends : EndsLine line.getLast?)

include ends

theorem handlerViolations_prepend (idle : Idle repo entries place line) {e : Entry} (member : e ∈ entries)
    (handled : e.handler ≠ "") :
    handlerViolations ⟨repo.files.prepend place line, repo.layout⟩ e = handlerViolations repo e := by
  have alike := FileSystem.alikeOutside_prepend repo.files place line
  simp only [handlerViolations]
  rw [← FileSystem.pathExists_of_shape alike.shape]
  by_cases unrouted : e.route = ""
  · simp only [unrouted, if_true]
  · by_cases leads : repo.files.resolve? (handlerFile repo e) = some place
    · have reads : (repo.files.prepend place line).read _ = _ := FileSystem.read_prepend line leads
      unfold handlerFile at reads
      rw [reads]
      cases source : repo.files.read (repo.layout.handlers / s!"{e.handler}.ts") with
      | error cause => rfl
      | ok text =>
        have same := mountedRoute?_behind ends (idle.handler e member handled unrouted leads text source)
        simp only [Except.map, routeViolations, same]
    · have reads : repo.files.read (handlerFile repo e) = _ := alike.read_eq fun reached found same => leads (same ▸ found)
      unfold handlerFile at reads
      rw [reads]

omit ends in
theorem hostingViolations_prepend (idle : Idle repo entries place line) (all : List Entry) :
    hostingViolations ⟨repo.files.prepend place line, repo.layout⟩ all = hostingViolations repo all := by
  have alike := FileSystem.alikeOutside_prepend repo.files place line
  have reads : repo.files.read (repo.layout.root / configurationName) = _ :=
    alike.read_eq fun reached found same => idle.configuration (same ▸ found)
  simp only [hostingViolations]
  rw [← FileSystem.pathExists_of_shape alike.shape, reads]

theorem entryPointViolations_prepend (idle : Idle repo entries place line) {handled : List Entry}
    (members : ∀ e ∈ handled, e ∈ entries ∧ e.handler ≠ "") :
    entryPointViolations ⟨repo.files.prepend place line, repo.layout⟩ handled = entryPointViolations repo handled := by
  have alike := FileSystem.alikeOutside_prepend repo.files place line
  simp only [entryPointViolations]
  rw [← FileSystem.pathExists_of_shape alike.shape]
  by_cases leads : repo.files.resolve? (repo.layout.functions / entryPointName) = some place
  · rw [FileSystem.read_prepend line leads]
    cases source : repo.files.read (repo.layout.functions / entryPointName) with
    | error cause => rfl
    | ok text =>
      have same : handled.flatMap (entryPointLacks (line ++ text)) = handled.flatMap (entryPointLacks text) :=
        List.flatMap_congr fun e member => entryPointLacks_behind ends
          (idle.entryPoint leads text source e (members e member).1 (members e member).2)
      simp only [Except.map, same]
  · have reads : repo.files.read (repo.layout.functions / entryPointName) = _ :=
      alike.read_eq fun reached found same => leads (same ▸ found)
    rw [reads]

theorem ofEntries_prepend (idle : Idle repo entries place line) :
    ofEntries ⟨repo.files.prepend place line, repo.layout⟩ entries = ofEntries repo entries := by
  have members : ∀ e ∈ entries.filter (·.handler ≠ ""), e ∈ entries ∧ e.handler ≠ "" := fun e member => by
    simpa using List.mem_filter.mp member
  have handlers : (entries.filter (·.handler ≠ "")).flatMap (handlerViolations ⟨repo.files.prepend place line, repo.layout⟩) =
      (entries.filter (·.handler ≠ "")).flatMap (handlerViolations repo) :=
    List.flatMap_congr fun e member => handlerViolations_prepend ends idle (members e member).1 (members e member).2
  simp only [ofEntries]
  rw [handlers, hostingViolations_prepend idle, entryPointViolations_prepend ends idle members]

end Files

/-- A comment line in front of a file changes nothing in what the check of entries finds, if the line is idle: the file
is not the hosting configuration, no route is taken from the line, and no name is imported or exported in it alone. -/
theorem endpointsOf_commentLine (repo : Repository) (entries : List Entry) (place : List String) (body : List Char)
    (idle : Idle repo entries place (commentLine body)) :
    Check.run ⟨repo.files.prepend place (commentLine body), repo.layout⟩ (Check.endpointsOf entries) =
      Check.run repo (Check.endpointsOf entries) := by
  rw [run_endpointsOf, run_endpointsOf, ofEntries_prepend (endsLine_commentLine body) idle]

def sampleEntry : Entry :=
  { route := "health", handler := "health-sync" }

def samplePlace : List String :=
  ["packages", "functions", "src", "handlers", "health-sync.ts"]

def laterCall : List Char :=
  commentLine " stripPathPrefix('old') is gone".toList

def ownCall : List Char :=
  commentLine " createBaseApp('health')".toList

theorem sample_idle : Idle sampleRepository sampleEntries samplePlace laterCall where
  configuration := by decide +kernel
  handler := by
    intro e member _ routed _ source reads m found
    simp only [sampleEntries, List.mem_cons, List.not_mem_nil, or_false] at member
    rcases member with rfl | rfl
    · have own : sampleRepository.files.read (handlerFile sampleRepository sampleEntry) =
          .ok "createBaseApp('health');".toList := sample_read (by rfl)
      obtain rfl := Except.ok.inj (reads.symm.trans own)
      have behind : (mountingCall? (laterCall ++ "createBaseApp('health');".toList)).all
          (fun m => byteLength laterCall ≤ m.start.offset) = true := by
        decide +kernel
      rw [found] at behind
      exact of_decide_eq_true behind
    · exact absurd rfl routed
  entryPoint := fun leads => absurd leads (by decide +kernel)

theorem sample_commented :
    Idle sampleRepository sampleEntries samplePlace laterCall ∧
      Check.run ⟨sampleRepository.files.prepend samplePlace laterCall, sampleRepository.layout⟩ (Check.endpointsOf sampleEntries) =
        Check.run sampleRepository (Check.endpointsOf sampleEntries) :=
  ⟨sample_idle, endpointsOf_commentLine sampleRepository sampleEntries samplePlace _ sample_idle⟩

/-- A repository follows a manifest if it has the same layout, configuration and entry point as one that does, and
handler modules of its own. -/
theorem Follows.of_reads {repo : Repository} {entries : List Entry} {files : FileSystem} (follows : Follows repo entries)
    (handlers : ∀ e ∈ entries, files.pathExists (handlerFile repo e) = true)
    (mounted : ∀ e ∈ entries, e.route ≠ "" →
      ∃ source, files.read (handlerFile repo e) = .ok source ∧ Mounts e.route.toList source)
    (configuration : files.read (repo.layout.root / configurationName) = repo.files.read (repo.layout.root / configurationName))
    (entryPoint : files.read (repo.layout.functions / entryPointName) = repo.files.read (repo.layout.functions / entryPointName)) :
    Follows ⟨files, repo.layout⟩ entries where
  handlers := handlers
  mounted := mounted
  configured := by
    obtain ⟨text, items, reads, spelled⟩ := follows.configured
    exact ⟨text, items, configuration.trans reads, spelled⟩
  entered := by
    obtain ⟨lines, reads, proper⟩ := follows.entered
    exact ⟨lines, entryPoint.trans reads, proper⟩

def bareFiles : FileSystem :=
  sampleRepository.files.overwrite samplePlace "run();".toUTF8

def commentedFiles : FileSystem :=
  bareFiles.prepend samplePlace ownCall

theorem bareFiles_alike : sampleRepository.files.AlikeOutside (· = samplePlace) bareFiles :=
  FileSystem.alikeOutside_overwrite _ _ _

theorem commentedFiles_alike : bareFiles.AlikeOutside (· = samplePlace) commentedFiles :=
  FileSystem.alikeOutside_prepend _ _ _

theorem commentedFiles_read_of_ne {p : Path} (apart : sampleRepository.files.resolve? p ≠ some samplePlace) :
    commentedFiles.read p = sampleRepository.files.read p := by
  have apart' : bareFiles.resolve? p ≠ some samplePlace := FileSystem.resolve?_of_shape bareFiles_alike.shape p ▸ apart
  exact ((bareFiles_alike.read_eq fun place found same => apart (same ▸ found)).trans
    (commentedFiles_alike.read_eq fun place found same => apart' (same ▸ found))).symm

theorem commentedFiles_read :
    commentedFiles.read (handlerFile sampleRepository sampleEntry) = .ok (ownCall ++ "run();".toList) := by
  have leads : bareFiles.resolve? (handlerFile sampleRepository sampleEntry) = some samplePlace := by rfl
  have own : bareFiles.read (handlerFile sampleRepository sampleEntry) = .ok "run();".toList := by
    have held : bareFiles.node? (handlerFile sampleRepository sampleEntry) = some (.file "run();".toUTF8) := by rfl
    exact FileSystem.read_of_toUTF8 held
  rw [commentedFiles, FileSystem.read_prepend _ leads, own]
  rfl

theorem commented_follows : Follows ⟨commentedFiles, sampleRepository.layout⟩ sampleEntries := by
  refine sample_follows.of_reads (fun e member => ?_) (fun e member routed => ?_)
    (commentedFiles_read_of_ne (by decide +kernel)) (commentedFiles_read_of_ne (by decide +kernel))
  · have found := sample_follows.handlers e member
    rwa [FileSystem.pathExists_of_shape bareFiles_alike.shape, FileSystem.pathExists_of_shape commentedFiles_alike.shape] at found
  · simp only [sampleEntries, List.mem_cons, List.not_mem_nil, or_false] at member
    rcases member with rfl | rfl
    · have blank : Blank [] := by simp [Blank]
      have front : Unquoted "// ".toList := by unfold Unquoted; decide
      have back : Unquoted "\nrun();".toList := by unfold Unquoted; decide
      exact ⟨_, commentedFiles_read, .call (Or.inl rfl) (by decide) (by decide) front back blank blank⟩
    · exact absurd rfl routed

theorem endpointsOf_callInComment :
    (unmounted sampleEntry).render ∈
      (Check.run ⟨bareFiles, sampleRepository.layout⟩ (Check.endpointsOf sampleEntries)).violations ∧
    Check.run ⟨bareFiles.prepend samplePlace ownCall, sampleRepository.layout⟩ (Check.endpointsOf sampleEntries) =
      ⟨title, true, []⟩ := by
  have unmounts : handlerViolations ⟨bareFiles, sampleRepository.layout⟩ sampleEntry = [unmounted sampleEntry] := by
    decide +kernel
  refine ⟨?_, ?_⟩
  · rw [violations_endpointsOf, ofEntries_eq sample_regular]
    refine List.mem_map_of_mem (List.mem_append_left _ (List.mem_append_left _ (List.mem_append_right _ ?_)))
    exact List.mem_flatMap.mpr ⟨sampleEntry, List.mem_cons_self, by simp [unmounts]⟩
  · rw [← commentedFiles, run_endpointsOf, ofEntries_eq_nil sample_regular commented_follows]
    rfl

end Conformance.Check.Endpoints
