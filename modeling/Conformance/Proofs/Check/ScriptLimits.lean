import Conformance.Check.Scripts
import Conformance.Proofs.FileSystem.SortedPaths
import Conformance.Proofs.Layout.Distinct
import Conformance.Proofs.Layout.Inspection
import Conformance.Proofs.Source.Shebang
import Conformance.Proofs.Text.Parts

namespace Conformance

namespace Check.Scripts

open Path FileSystem

variable {files : FileSystem} {root : Path}

def Stands (files : FileSystem) (start : Path) (above : List String) (name : String) : Prop :=
  ∃ entries content, files.node? start = some (.dir entries) ∧
    (Node.dir entries).at? (above ++ [name]) = some (.file content) ∧ ∀ dir ∈ above, dir ∉ skipping ["ios", "public"]

def AsksForShell (files : FileSystem) (p : Path) : Prop :=
  ∃ text, files.read p = .ok text ∧ Source.Script.Shebang ((Text.lines text).headD [])

/-- The scripts of a repository: the files that end with `.sh`, and the other ones among the hooks and scripts that
begin as a shell script. -/
inductive IsScript (files : FileSystem) (root : Path) : Path → Prop
  | named {above : List String} {name : String} (stands : Stands files root above name)
      (ends : ".sh".toList <:+ name.toList) : IsScript files root (root.below (above ++ [name]))
  | marked {dir : String} {above : List String} {name : String} (among : dir ∈ ["hooks", "scripts"])
      (stands : Stands files (root / dir) above name) (other : ¬ ".sh".toList <:+ name.toList)
      (asks : AsksForShell files ((root / dir).below (above ++ [name]))) :
      IsScript files root ((root / dir).below (above ++ [name]))

def IsShim (file : String) : Prop :=
  ∃ shim ∈ shimPaths, file = shim ∨ ∃ front, file = front ++ "/" ++ shim

theorem isShim_iff {file : String} :
    IsShim file ↔ ∃ shim ∈ shimPaths, file = shim ∨ '/' :: shim.toList <:+ file.toList := by
  have behind : ∀ shim, (∃ front, file = front ++ "/" ++ shim) ↔ '/' :: shim.toList <:+ file.toList := by
    intro shim
    constructor
    · rintro ⟨front, rfl⟩
      exact ⟨front.toList, by simp⟩
    · rintro ⟨front, whole⟩
      exact ⟨String.ofList front, String.toList_inj.mp (by simp [← whole])⟩
  simp only [IsShim, behind]

instance (file : String) : Decidable (IsShim file) :=
  decidable_of_iff _ isShim_iff.symm

structure Wraps (name : String) (text : List Char) : Prop where
  named : name ∈ wrapperNames
  builds : "cargo build".toList <:+: text
  finds : "target/release/".toList <:+: text
  runs : ∃ line ∈ Text.lines text, "exec ".toList <+: Text.trimStart line

def held (name : String) : Class × Nat :=
  if name ∈ transitionalNames then (.transitional, 20) else (.ordinary, 10)

structure Oversized (file name : String) (text : List Char) : Prop where
  notShim : ¬ IsShim file
  notWrapper : ¬ Wraps name text
  exceeds : (held name).2 < (Source.Script.Complexity.ofText text).estimate

def report (file name : String) (text : List Char) : Violation :=
  violation file (Source.Script.Complexity.ofText text) (held name).1 (held name).2

theorem isWrapper_iff {name : String} {text : List Char} : isWrapper name.toList text = true ↔ Wraps name text := by
  simp only [isWrapper, String.ofList_toList, Bool.and_eq_true, List.contains_iff_mem, Text.contains_iff,
    List.any_eq_true, Text.startsWith, List.isPrefixOf_iff_prefix]
  constructor
  · rintro ⟨⟨⟨named, finds⟩, builds⟩, runs⟩
    exact ⟨named, builds, finds, runs⟩
  · rintro ⟨named, builds, finds, runs⟩
    exact ⟨⟨⟨named, finds⟩, builds⟩, runs⟩

instance (name : String) (text : List Char) : Decidable (Wraps name text) :=
  decidable_of_iff _ isWrapper_iff

theorem oversized_iff {file name : String} {text : List Char} : Oversized file name text ↔
    ¬ IsShim file ∧ ¬ Wraps name text ∧ (held name).2 < (Source.Script.Complexity.ofText text).estimate :=
  ⟨fun big => ⟨big.notShim, big.notWrapper, big.exceeds⟩, fun ⟨notShim, notWrapper, exceeds⟩ => ⟨notShim, notWrapper, exceeds⟩⟩

instance (file name : String) (text : List Char) : Decidable (Oversized file name text) :=
  decidable_of_iff _ oversized_iff.symm

def WholeEnds (file : String) : Prop :=
  ∀ shim ∈ shimPaths, shim.toList <:+ file.toList → IsShim file

instance (file : String) : Decidable (WholeEnds file) :=
  inferInstanceAs (Decidable (∀ shim ∈ shimPaths, shim.toList <:+ file.toList → IsShim file))

theorem any_endsWith_iff {file : String} (whole : WholeEnds file) :
    shimPaths.any (Text.endsWith file.toList) = true ↔ IsShim file := by
  simp only [List.any_eq_true, Text.endsWith, List.isSuffixOf_iff_suffix]
  constructor
  · rintro ⟨shim, listed, ends⟩
    exact whole shim listed ends
  · rintro ⟨shim, listed, rfl | ⟨front, rfl⟩⟩
    · exact ⟨_, listed, List.suffix_rfl⟩
    · exact ⟨shim, listed, by rw [String.toList_append]; exact List.suffix_append _ _⟩

theorem limit?_held (name : String) : (held name).1.limit? = some (held name).2 := by
  unfold held
  split <;> rfl

theorem inspect_of_held {file name : String} {text : List Char} (kind : classOf file text = (held name).1) :
    inspect file text =
      if (Source.Script.Complexity.ofText text).estimate ≤ (held name).2 then [] else [report file name text] := by
  simp only [inspect, kind, limit?_held, report]

section Class

variable {file name : String} (last : Text.afterLast (· == '/') file.toList = name.toList) (text : List Char)

include last

theorem classOf_eq : classOf file text =
    if shimPaths.any (Text.endsWith file.toList) = true ∨ Wraps name text then .shim else (held name).1 := by
  simp only [classOf, last, Bool.or_eq_true, isWrapper_iff, String.ofList_toList, List.contains_iff_mem, held]
  split_ifs <;> rfl

theorem inspect_cases : inspect file text = [] ∨ inspect file text = [report file name text] := by
  by_cases exempt : shimPaths.any (Text.endsWith file.toList) = true ∨ Wraps name text
  · have kind : classOf file text = .shim := (classOf_eq last text).trans (if_pos exempt)
    simp [inspect, kind, Class.limit?]
  · rw [inspect_of_held ((classOf_eq last text).trans (if_neg exempt))]
    split
    · exact .inl rfl
    · exact .inr rfl

theorem inspect_eq_nil_iff (whole : WholeEnds file) : inspect file text = [] ↔ ¬ Oversized file name text := by
  by_cases exempt : shimPaths.any (Text.endsWith file.toList) = true ∨ Wraps name text
  · have kind : classOf file text = .shim := (classOf_eq last text).trans (if_pos exempt)
    rw [any_endsWith_iff whole] at exempt
    refine iff_of_true (by simp [inspect, kind, Class.limit?]) fun big => ?_
    exact exempt.elim big.notShim big.notWrapper
  · rw [inspect_of_held ((classOf_eq last text).trans (if_neg exempt))]
    rw [any_endsWith_iff whole, not_or] at exempt
    constructor
    · intro none big
      simp [Nat.not_le.mpr big.exceeds] at none
    · intro small
      exact if_pos (Nat.le_of_not_lt fun exceeds => small ⟨exempt.1, exempt.2, exceeds⟩)

end Class

theorem startsAsScript_iff {p : Path} : startsAsScript files p = true ↔ AsksForShell files p := by
  unfold startsAsScript AsksForShell
  cases read : files.read p with
  | error cause => simp
  | ok text => simp [Source.Script.startsAsScript, Source.Script.isShebang_iff]

theorem endsWith_iff {name tail : String} : Text.endsWith name.toList tail = true ↔ tail.toList <:+ name.toList :=
  List.isSuffixOf_iff_suffix

theorem exists_intercalate_concat (above : List String) (name : String) : ∃ front,
    ("/".intercalate (above ++ [name])).toList = front ++ name.toList ∧ ∀ c ∈ front.getLast?, c = '/' := by
  by_cases alone : above = []
  · exact ⟨[], by simp [alone], by simp⟩
  · refine ⟨("/".intercalate above).toList ++ ['/'], ?_, by simp⟩
    rw [String.intercalate_append_of_ne_nil alone (by simp), String.intercalate_singleton]
    simp

theorem isName_of_among {dir : String} (among : dir ∈ ["hooks", "scripts"]) : IsName dir := by
  have each : ∀ d ∈ ["hooks", "scripts"], IsName d := by decide
  exact each dir among

section Search

variable (wellFormed : files.root.WellFormed)

include wellFormed

theorem Stands.isName {start : Path} {above : List String} {name : String} (stands : Stands files start above name) :
    start.raw ≠ "" ∧ ∀ n ∈ above ++ [name], IsName n := by
  obtain ⟨entries, content, leads, found, _⟩ := stands
  exact ⟨(reach_of_node? leads).choose_spec.1, (wellFormed_of_node? wellFormed leads).isName found⟩

/-- A search from a place where no file stands collects what stands below it, in the order of the paths. -/
theorem search_exact {start : Path} (noFile : files.isFile start = true → files.isLink start = true)
    (accepts : String → Bool) :
    (∀ p, p ∈ files.collectFiles walkRules accepts start ↔
      ∃ above name, p = start.below (above ++ [name]) ∧ Stands files start above name ∧ accepts name = true) ∧
    (files.collectFiles walkRules accepts start).Pairwise Precedes := by
  by_cases leads : ∃ entries, files.node? start = some (.dir entries)
  · obtain ⟨entries, leads⟩ := leads
    obtain ⟨members, ordered, _⟩ := walk_exact leads (wellFormed_of_node? wellFormed leads) walkRules accepts
    refine ⟨fun p => ?_, ordered⟩
    rw [members]
    constructor
    · rintro ⟨above, name, rfl, ⟨content, found⟩, accepted, entered, _⟩
      exact ⟨above, name, rfl, ⟨entries, content, leads, found, fun dir member => (entered dir member).1⟩, accepted⟩
    · rintro ⟨above, name, rfl, ⟨entries', content, leads', found, entered⟩, accepted⟩
      obtain rfl : entries' = entries := by simpa [leads] using leads'.symm
      exact ⟨above, name, rfl, ⟨content, found⟩, accepted, fun dir member => ⟨entered dir member, nofun⟩, .inr rfl⟩
  · have unmet : files.visitStart start = [] := by
      unfold visitStart
      by_cases isFile : files.isFile start = true <;> simp_all
    have nothing : files.visitBelow walkRules start = [] := by
      unfold visitBelow
      split
      · exact absurd ⟨_, ‹_›⟩ leads
      · rfl
    have none : files.collectFiles walkRules accepts start = [] := by simp [collectFiles, unmet, nothing]
    rw [none]
    refine ⟨fun p => iff_of_false List.not_mem_nil ?_, .nil⟩
    rintro ⟨_, _, _, ⟨entries, _, leads', _⟩, _⟩
    exact leads ⟨entries, leads'⟩

theorem of_mem_search {start : Path} (noFile : files.isFile start = true → files.isLink start = true)
    {accepts : String → Bool} {p : Path} (met : p ∈ files.collectFiles walkRules accepts start) :
    start.components <+: p.components ∧ ∃ name, p.fileName? = some name ∧ accepts name = true := by
  obtain ⟨above, name, rfl, stands, accepted⟩ := ((search_exact wellFormed noFile accepts).1 p).mp met
  obtain ⟨nonempty, proper⟩ := stands.isName wellFormed
  refine ⟨?_, name, fileName?_below nonempty proper, accepted⟩
  rw [components_below nonempty proper]
  exact List.prefix_append _ _

theorem IsScript.exists_names {p : Path} (script : IsScript files root p) : ∃ above name,
    p = root.below (above ++ [name]) ∧ ∀ n ∈ above ++ [name], IsName n := by
  cases script with
  | named stands _ => exact ⟨_, _, rfl, (stands.isName wellFormed).2⟩
  | @marked dir above name among stands _ _ =>
    exact ⟨dir :: above, name, rfl, List.forall_mem_cons.mpr ⟨isName_of_among among, (stands.isName wellFormed).2⟩⟩

variable {entries : List (String × Node)} (leads : files.node? root = some (.dir entries))

include leads

theorem IsScript.last_name {p : Path} (script : IsScript files root p) :
    Text.afterLast (· == '/') (p.relativeTo root).toList = (p.fileName?.getD "").toList := by
  obtain ⟨above, name, rfl, proper⟩ := script.exists_names wellFormed
  obtain ⟨_, nonempty, _⟩ := reach_of_node? leads
  rw [fileName?_below nonempty proper, relativeTo_below nonempty proper, Option.getD_some, Text.afterLast_eq_iff]
  obtain ⟨front, whole, edge⟩ := exists_intercalate_concat above name
  refine ⟨fun c member => ?_, front, whole, fun c last => beq_iff_eq.mpr (edge c last)⟩
  rw [beq_eq_false_iff_ne]
  rintro rfl
  exact (proper name (by simp)).2.2.2 member

variable (noFile : ∀ dir ∈ ["hooks", "scripts"],
  files.isFile (root / (dir : Path)) = true → files.isLink (root / (dir : Path)) = true)

include noFile

theorem mem_scripts_iff {p : Path} : p ∈ scripts files root ↔ IsScript files root p := by
  have top : files.isFile root = true → files.isLink root = true := by simp [isFile, leads, Node.isFile]
  simp only [scripts, List.mem_mergeSort, List.mem_append, List.mem_flatMap, List.mem_filter, startsAsScript_iff,
    (search_exact wellFormed top _).1]
  constructor
  · rintro (⟨above, name, rfl, stands, ends⟩ | ⟨dir, among, met, asks⟩)
    · exact .named stands (endsWith_iff.mp ends)
    · obtain ⟨above, name, rfl, stands, other⟩ := ((search_exact wellFormed (noFile dir among) _).1 p).mp met
      exact .marked among stands (by rwa [Bool.not_eq_true', ← Bool.not_eq_true, endsWith_iff] at other) asks
  · rintro (⟨stands, ends⟩ | ⟨among, stands, other, asks⟩)
    · exact .inl ⟨_, _, rfl, stands, endsWith_iff.mpr ends⟩
    · refine .inr ⟨_, among, ((search_exact wellFormed (noFile _ among) _).1 _).mpr ⟨_, _, rfl, stands, ?_⟩, asks⟩
      rwa [Bool.not_eq_true', ← Bool.not_eq_true, endsWith_iff]

/-- No script is found twice: the two searches differ in the ends of the names, and those among hooks and scripts in
the first name below the root. -/
theorem pairwise_scripts : (scripts files root).Pairwise Precedes := by
  have top : files.isFile root = true → files.isLink root = true := by simp [isFile, leads, Node.isFile]
  obtain ⟨_, nonempty, _⟩ := reach_of_node? leads
  apply pairwise_mergeSort
  refine List.pairwise_append.mpr ⟨?_, List.pairwise_flatMap.mpr ⟨fun dir among => ?_, ?_⟩, fun p named q marked => ?_⟩
  · exact (search_exact wellFormed top _).2.imp components_ne_of_precedes
  · exact ((search_exact wellFormed (noFile dir among) _).2.filter _).imp components_ne_of_precedes
  · have apart : ["hooks", "scripts"].Pairwise (· ≠ ·) := by decide
    refine apart.imp_of_mem fun {dir other} among among' differ p met q met' same => differ ?_
    obtain ⟨front, _⟩ := of_mem_search wellFormed (noFile dir among) (List.mem_of_mem_filter met)
    obtain ⟨front', _⟩ := of_mem_search wellFormed (noFile other among') (List.mem_of_mem_filter met')
    rw [components_join nonempty (isName_of_among among).relative, isName_parts (isName_of_among among)] at front
    rw [components_join nonempty (isName_of_among among').relative, isName_parts (isName_of_among among'), ← same] at front'
    simpa using (List.prefix_of_prefix_length_le front front' (by simp)).eq_of_length (by simp)
  · obtain ⟨dir, among, met⟩ := List.mem_flatMap.mp marked
    obtain ⟨_, name, last, ends⟩ := of_mem_search wellFormed top named
    obtain ⟨_, name', last', other⟩ := of_mem_search wellFormed (noFile dir among) (List.mem_of_mem_filter met)
    intro same
    rw [fileName?, same] at last
    obtain rfl : name' = name := Option.some.inj (last'.symm.trans last)
    simp [ends] at other

end Search

def found? (repo : Repository) (p : Path) : Option (Path × List Char) :=
  match repo.files.read p with
  | .ok text => if (inspect (repo.relative p) text).isEmpty then none else some (p, text)
  | .error _ => none

def reportOf (repo : Repository) (script : Path × List Char) : Violation :=
  report (repo.relative script.1) (script.1.fileName?.getD "") script.2

/-- A script of the repository with its text that is over its limit and not exempt. -/
structure OverLimit (repo : Repository) (p : Path) (text : List Char) : Prop where
  script : IsScript repo.files repo.layout.root p
  read : repo.files.read p = .ok text
  oversized : Oversized (repo.relative p) (p.fileName?.getD "") text

theorem fst_of_found? {repo : Repository} {p : Path} {script : Path × List Char} (found : found? repo p = some script) :
    script.1 = p := by
  unfold found? at found
  split at found
  · split at found
    · cases found
    · rw [← Option.some.inj found]
  · cases found

section Inspection

variable {repo : Repository} {p : Path}
  (last : Text.afterLast (· == '/') (repo.relative p).toList = (p.fileName?.getD "").toList)

include last

theorem inspectFile_eq {text : List Char} (read : repo.files.read p = .ok text) :
    repo.inspectFile inspect p = (found? repo p).toList.map (reportOf repo) := by
  unfold Repository.inspectFile found?
  rw [read]
  rcases inspect_cases last text with none | one
  · simp [none]
  · simp [one, reportOf]

theorem found?_eq_some_iff (whole : WholeEnds (repo.relative p)) {script : Path × List Char} :
    found? repo p = some script ↔ p = script.1 ∧ repo.files.read p = .ok script.2 ∧
      Oversized (repo.relative p) (p.fileName?.getD "") script.2 := by
  obtain ⟨q, other⟩ := script
  unfold found?
  cases read : repo.files.read p with
  | error cause => simp
  | ok text =>
    simp only [List.isEmpty_iff, inspect_eq_nil_iff last _ whole, Option.ite_none_left_eq_some, not_not,
      Option.some.injEq, Prod.mk.injEq, Except.ok.injEq]
    constructor
    · rintro ⟨big, rfl, rfl⟩
      exact ⟨rfl, rfl, big⟩
    · rintro ⟨rfl, rfl, big⟩
      exact ⟨big, rfl, rfl⟩

end Inspection

end Check.Scripts

namespace Check

open Path Scripts

/-- Where every script can be read and no file stands in the place of the hooks or the scripts themselves, what is
reported comes in the order of the paths, each script once. Of the scripts whose path ends with that of a wrapper only as
a whole, exactly those are reported that are over their limit and not exempt. -/
theorem find_scriptSizes (repo : Repository) {entries : List (String × Node)}
    (leads : repo.files.node? repo.layout.root = some (.dir entries)) (wellFormed : repo.files.root.WellFormed)
    (readable : ∀ p, IsScript repo.files repo.layout.root p → ∃ text, repo.files.read p = .ok text)
    (noFile : ∀ dir ∈ ["hooks", "scripts"], repo.files.isFile (repo.layout.root / (dir : Path)) = true →
      repo.files.isLink (repo.layout.root / (dir : Path)) = true) :
    ∃ reported : List (Path × List Char), scriptSizes.find repo = .ok (reported.map (reportOf repo)) ∧
      (reported.map Prod.fst).Pairwise Precedes ∧ (reported.map Prod.fst).Nodup ∧
      ∀ p text, WholeEnds (repo.relative p) → ((p, text) ∈ reported ↔ OverLimit repo p text) := by
  have members : ∀ p, p ∈ scripts repo.files repo.layout.root ↔ IsScript repo.files repo.layout.root p :=
    fun p => mem_scripts_iff wellFormed leads noFile
  have last : ∀ p, IsScript repo.files repo.layout.root p →
      Text.afterLast (· == '/') (repo.relative p).toList = (p.fileName?.getD "").toList :=
    fun p script => script.last_name wellFormed leads
  have ordered : (((scripts repo.files repo.layout.root).filterMap (found? repo)).map Prod.fst).Pairwise Precedes := by
    rw [List.pairwise_map]
    refine (pairwise_scripts wellFormed leads noFile).filterMap _ fun p q before s own t own' => ?_
    rwa [fst_of_found? own, fst_of_found? own']
  refine ⟨(scripts repo.files repo.layout.root).filterMap (found? repo), ?_, ordered,
    FileSystem.nodup_of_precedes ordered, ?_⟩
  · refine congrArg Except.ok ?_
    rw [List.filterMap_eq_flatMap_toList, List.map_flatMap]
    refine List.flatMap_congr fun p member => ?_
    have script := (members p).mp member
    obtain ⟨text, read⟩ := readable p script
    exact inspectFile_eq (last p script) read
  · intro p text whole
    rw [List.mem_filterMap]
    constructor
    · rintro ⟨q, member, found⟩
      obtain rfl : p = q := fst_of_found? found
      have script := (members p).mp member
      obtain ⟨_, read, big⟩ := (found?_eq_some_iff (last p script) whole).mp found
      exact ⟨script, read, big⟩
    · rintro ⟨script, read, big⟩
      exact ⟨p, (members p).mpr script, (found?_eq_some_iff (last p script) whole).mpr ⟨rfl, read, big⟩⟩

def tangle : String :=
  "#!/usr/bin/env bash\n&&||&&||&&||&&||&&||\n"

def hookEntries : List (String × Node) :=
  [("hooks", .dir [("scan", .file tangle.toUTF8)]), ("scripts", .dir [("validate.sh", .file tangle.toUTF8)])]

def hookRepository : Repository :=
  ⟨⟨.dir [("repo", .dir hookEntries)], []⟩, .ofRoot "/repo"⟩

theorem hookRepository_wellFormed : hookRepository.files.root.WellFormed := by
  decide

theorem hookRepository_reported :
    ∃ reported : List (Path × List Char), scriptSizes.find hookRepository = .ok (reported.map (reportOf hookRepository)) ∧
      (⟨"/repo/hooks/scan"⟩, tangle.toList) ∈ reported ∧ (⟨"/repo/scripts/validate.sh"⟩, tangle.toList) ∉ reported := by
  have leads : hookRepository.files.node? "/repo" = some (.dir hookEntries) := by rfl
  have noFile : ∀ dir ∈ ["hooks", "scripts"], hookRepository.files.isFile ("/repo" / (dir : Path)) = true →
      hookRepository.files.isLink ("/repo" / (dir : Path)) = true := by decide +kernel
  have each : ∀ p, IsScript hookRepository.files "/repo" p ↔
      p = "/repo/scripts/validate.sh" ∨ p = "/repo/hooks/scan" := by
    intro p
    rw [← mem_scripts_iff hookRepository_wellFormed leads noFile, ← List.mem_pair]
    exact List.mem_mergeSort.trans (Eq.to_iff (congrArg (p ∈ ·) (by decide +kernel)))
  have hook : hookRepository.files.read "/repo/hooks/scan" = .ok tangle.toList := FileSystem.read_of_toUTF8 (by rfl)
  have wrapper : hookRepository.files.read "/repo/scripts/validate.sh" = .ok tangle.toList :=
    FileSystem.read_of_toUTF8 (by rfl)
  have readable : ∀ p, IsScript hookRepository.files "/repo" p → ∃ text, hookRepository.files.read p = .ok text := by
    intro p script
    rcases (each p).mp script with rfl | rfl
    · exact ⟨_, wrapper⟩
    · exact ⟨_, hook⟩
  obtain ⟨reported, found, _, _, members⟩ :=
    find_scriptSizes hookRepository leads hookRepository_wellFormed readable noFile
  refine ⟨reported, found, ?_, fun member => ?_⟩
  · exact (members _ _ (by decide +kernel)).mpr ⟨(each _).mpr (.inr rfl), hook, by decide +kernel⟩
  · exact ((members _ _ (by decide +kernel)).mp member).oversized.notShim (by decide +kernel)

theorem otherDirectory_unreported :
    let repo : Repository :=
      ⟨⟨.dir [("repo", .dir [("my-scripts", .dir [("validate.sh", .file tangle.toUTF8)])])], []⟩, .ofRoot "/repo"⟩
    OverLimit repo "/repo/my-scripts/validate.sh" tangle.toList ∧ scriptSizes.find repo = .ok [] := by
  intro repo
  have place : ("/repo/my-scripts/validate.sh" : Path) = Path.below "/repo" (["my-scripts"] ++ ["validate.sh"]) := by
    decide
  have stands : Stands repo.files "/repo" ["my-scripts"] "validate.sh" := ⟨_, _, by rfl, by rfl, by decide⟩
  refine ⟨⟨?_, FileSystem.read_of_toUTF8 (by rfl), by decide +kernel⟩, ?_⟩
  · rw [place]
    exact .named stands (by decide)
  · have alone : scripts repo.files "/repo" = ["/repo/my-scripts/validate.sh"] := by
      refine (congrArg (List.mergeSort · Path.le) ?_).trans (List.mergeSort_singleton _)
      decide +kernel
    refine congrArg Except.ok ?_
    change repo.inspectFiles (scripts repo.files "/repo") inspect = []
    rw [alone]
    exact List.isEmpty_iff.mp (by decide +kernel)

end Check

end Conformance
