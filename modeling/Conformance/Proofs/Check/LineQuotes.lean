import Conformance.Proofs.Check.Faults
import Conformance.Proofs.Check.Plain

namespace Conformance

namespace Source

theorem ExportedType.oneLine_name {text : List Char} {t : ExportedType} (member : t ∈ ofText text) : OneLine t.name := by
  obtain ⟨⟨number, line⟩, inside, found⟩ := List.mem_filterMap.mp member
  obtain ⟨⟨name, kind⟩, own, rfl⟩ := Option.map_eq_some_iff.mp found
  have free := Text.newline_not_mem_of_mem_numberedLines inside
  have named : ∀ p name, ((Pattern.find? p line).bind (·.group? 1)).map String.ofList = some name → OneLine name := by
    intro p name found
    obtain ⟨kept, group, rfl⟩ := Option.map_eq_some_iff.mp found
    obtain ⟨m, own, group⟩ := Option.bind_eq_some_iff.mp group
    exact OneLine.ofList_iff.mpr (Pattern.newline_not_mem_group? free (Pattern.follows_of_find? own) group)
  unfold ofLine? at own
  split at own
  · cases own
  · dsimp only at own
    split at own
    · rename_i declared
      cases own
      exact named _ _ declared
    · obtain ⟨name', declared, same⟩ := Option.map_eq_some_iff.mp own
      cases same
      exact named _ _ declared

theorem AppType.oneLine_of_mem_declaredNames {fs : FileSystem} {kinds : List Kind} {dir : Path} {name : String}
    (member : name ∈ declaredNames fs kinds dir) : OneLine name := by
  obtain ⟨path, _, own⟩ := List.mem_flatMap.mp (mem_sortedTexts.mp member)
  split at own
  · obtain ⟨line, inside, found⟩ := List.mem_filterMap.mp own
    have free := Text.newline_not_mem_of_mem_lines inside
    unfold nameOfLine? at found
    simp only [bind, Option.bind_eq_some_iff] at found
    obtain ⟨m, matched, keyword, _, kept, group, given⟩ := found
    simp only [Option.ite_none_right_eq_some, pure, Option.some.injEq] at given
    obtain ⟨_, rfl⟩ := given
    exact OneLine.ofList_iff.mpr (Pattern.newline_not_mem_group? free (Pattern.follows_of_find? matched) group)
  · cases own

end Source

namespace Check

variable {repo : Repository}

namespace Placement

theorem isPlain_strayType {file : String} (free : OneLine file) {t : Source.ExportedType} (name : OneLine t.name) :
    (strayType file t).IsPlain := by
  have keyword : OneLine t.kind.keyword := by cases t.kind <;> exact .literal (by decide)
  simp [strayType, free, name, keyword]
  and_intros
  all_goals exact .literal (by decide)

theorem allPlain_strayTypes (names : repo.NamesOneLine) : AllPlain (strayTypes repo) := by
  have layers : ∀ layer ∈ scannedLayers, OneLine layer := by
    intro layer member
    simp only [scannedLayers, List.mem_cons, List.not_mem_nil, or_false] at member
    rcases member with rfl | rfl | rfl <;> exact .literal (by decide)
  refine Repository.allPlain_inspectFiles (names.layerSources layers) fun file text free => .map fun t member => ?_
  exact isPlain_strayType free (Source.ExportedType.oneLine_name member)

theorem isPlain_straySchema {file : String} (free : OneLine file) {hit : Hit} (matched : OneLine hit.matched) :
    (straySchema file hit).IsPlain := by
  simp [straySchema, free, matched]
  and_intros
  all_goals exact .literal (by decide)

theorem allPlain_straySchemas (names : repo.NamesOneLine) : AllPlain (straySchemas repo) := by
  have layers : ∀ layer ∈ scannedLayers, OneLine layer := by
    intro layer member
    simp only [scannedLayers, List.mem_cons, List.not_mem_nil, or_false] at member
    rcases member with rfl | rfl | rfl <;> exact .literal (by decide)
  refine Repository.allPlain_inspectFiles (names.layerSources layers) fun file text free => .map fun hit member => ?_
  exact isPlain_straySchema free (oneLine_matched (List.mem_of_mem_filter member))

theorem isPlain_repeatedType {name : String} (free : OneLine name) {sites : List (String × Nat)}
    (files : ∀ site ∈ sites, OneLine site.1) : (repeatedType name sites).IsPlain := by
  have dir : OneLine typesDir := .literal (by decide)
  have canonical : OneLine (((sites.map Prod.fst).find? (Text.startsWith ·.toList typesDir)).getD
      s!"{typesDir}<resource>.ts") := by
    cases found : (sites.map Prod.fst).find? (Text.startsWith ·.toList typesDir) with
    | none => exact OneLine.append_iff.mpr ⟨dir, OneLine.literal (by decide)⟩
    | some file =>
      obtain ⟨site, member, rfl⟩ := List.mem_map.mp (List.mem_of_find?_eq_some found)
      exact files site member
  refine Violation.isPlain_see_iff.mpr ⟨Violation.isPlain_steps_iff.mpr ⟨Violation.isPlain_rule_iff.mpr
    ⟨Violation.isPlain_addSection_iff.mpr ⟨Violation.isPlain_mk_iff.mpr ?_, ?_, ?_⟩, ?_⟩, ?_⟩, ?_⟩
  case refine_3 =>
    intro line member
    obtain ⟨⟨file, number⟩, inside, rfl⟩ := List.mem_map.mp member
    exact OneLine.append_iff.mpr ⟨OneLine.append_iff.mpr ⟨files _ inside, .literal (by decide)⟩, .nat _⟩
  case refine_1 => exact OneLine.append_iff.mpr ⟨OneLine.append_iff.mpr ⟨.literal (by decide), free⟩, .literal (by decide)⟩
  case refine_4 => exact OneLine.append_iff.mpr ⟨OneLine.append_iff.mpr ⟨.literal (by decide), dir⟩, .literal (by decide)⟩
  case refine_5 =>
    simp only [List.forall_mem_cons, OneLine.append_iff, OneLine.toString_iff, free, canonical]
    and_intros
    all_goals first | exact .literal (by decide) | simp
  all_goals exact .literal (by decide)

theorem oneLine_of_mem_sitesOf {sites : List Site} (files : ∀ site ∈ sites, OneLine site.file) {name : String}
    {site : String × Nat} (member : site ∈ sitesOf sites name) : OneLine site.1 := by
  obtain ⟨file, inside, found⟩ := List.mem_filterMap.mp member
  obtain ⟨first, _, rfl⟩ := Option.map_eq_some_iff.mp found
  obtain ⟨own, listed, rfl⟩ := List.mem_map.mp (mem_sortedTexts.mp inside)
  exact files own (List.mem_of_mem_filter listed)

theorem allPlain_repeatedTypes (names : repo.NamesOneLine) : AllPlain (repeatedTypes repo) := by
  have sources : ∀ p ∈ typeSources repo, OneLine p.raw := names.collectFiles names.functions
  have sites : ∀ site ∈ (typeSources repo).flatMap (sitesIn repo), OneLine site.name ∧ OneLine site.file := by
    intro site member
    obtain ⟨p, inside, own⟩ := List.mem_flatMap.mp member
    unfold sitesIn at own
    split at own
    · obtain ⟨t, declared, rfl⟩ := List.mem_map.mp own
      exact ⟨Source.ExportedType.oneLine_name declared, Repository.oneLine_relative (sources p inside)⟩
    · cases own
  refine .append (Repository.allPlain_inspectFiles sources fun _ _ _ => .nil) (.filterMap fun name member v given => ?_)
  obtain ⟨site, inside, rfl⟩ := List.mem_map.mp (mem_sortedTexts.mp member)
  dsimp only at given
  split at given
  · cases given
    exact isPlain_repeatedType (sites site inside).1 fun _ own => oneLine_of_mem_sitesOf (fun s l => (sites s l).2) own
  · cases given

end Placement

namespace App

theorem isPlain_viewNamesService {location type : String} (at_ : OneLine location) (free : OneLine type) :
    (viewNamesService location type).IsPlain := by
  simp [viewNamesService, at_, free]
  and_intros
  all_goals exact .literal (by decide)

set_option maxRecDepth 10000 in
theorem isPlain_componentNamesModel {location type : String} (at_ : OneLine location) (free : OneLine type) :
    (componentNamesModel location type).IsPlain := by
  simp [componentNamesModel, at_, free]
  and_intros
  all_goals exact .literal (by decide)

theorem allPlain_rules (names : repo.NamesOneLine) : AllPlain (rules.flatMap (inspectRule repo)) := by
  refine .flatMap fun rule member => ?_
  have plain : OneLine rule.scanned ∧ ∀ location type, OneLine location → OneLine type → (rule.violation location type).IsPlain := by
    simp only [rules, List.mem_cons, List.not_mem_nil, or_false] at member
    rcases member with rfl | rfl
    · exact ⟨.literal (by decide), fun _ _ => isPlain_viewNamesService⟩
    · exact ⟨.literal (by decide), fun _ _ => isPlain_componentNamesModel⟩
  unfold inspectRule
  dsimp only
  split
  · exact .nil
  · split
    · exact .nil
    · have scanned : OneLine (repo.layout.app / (rule.scanned : Path)).raw := Path.oneLine_join names.app plain.1
      refine Repository.allPlain_inspectFiles (names.collectFiles scanned) fun file text free => .map ?_
      rintro ⟨line, name⟩ inside
      obtain ⟨_, _, own⟩ := List.mem_flatMap.mp inside
      obtain ⟨name', listed, same⟩ := List.mem_map.mp own
      cases same
      refine plain.2 _ _ ?_ (Source.AppType.oneLine_of_mem_declaredNames (List.mem_of_mem_filter listed))
      exact OneLine.append_iff.mpr ⟨OneLine.append_iff.mpr ⟨free, .literal (by decide)⟩, .nat _⟩

theorem isPlain_rawSession {file : String} (free : OneLine file) (hit : Hit) : (rawSession file hit).IsPlain := by
  simp [rawSession, free]
  and_intros
  all_goals exact .literal (by decide)

theorem allPlain_rawSessions (names : repo.NamesOneLine) : AllPlain (rawSessions repo) := by
  refine Repository.allPlain_inspectFiles (fun p member => ?_) fun file text free => .map fun hit _ => isPlain_rawSession free hit
  exact names.collectFiles names.app p (List.mem_of_mem_filter member)

end App

namespace References

theorem oneLine_renameHint {path : String} (free : OneLine path) : OneLine (renameHint path) :=
  OneLine.append_iff.mpr ⟨OneLine.append_iff.mpr ⟨.literal (by decide), free⟩, .literal (by decide)⟩

theorem isPlain_danglingFile {file path : String} (line : Nat) (free : OneLine file) (pathFree : OneLine path) :
    (danglingFile file line path).IsPlain := by
  unfold danglingFile
  simp [free, pathFree, oneLine_renameHint]
  and_intros
  all_goals exact .literal (by decide)

theorem isPlain_danglingPath {path : String} (line : Nat) (free : OneLine path) : (danglingPath line path).IsPlain := by
  have agents : OneLine agentsFile := .literal (by decide)
  unfold danglingPath
  simp [free, agents, oneLine_renameHint]
  and_intros
  all_goals exact .literal (by decide)

theorem isPlain_brokenLink {file target : String} (line : Nat) (free : OneLine file) (targetFree : OneLine target) :
    (brokenLink file line target).IsPlain := by
  unfold brokenLink
  simp [free, targetFree, oneLine_renameHint]
  and_intros
  all_goals exact .literal (by decide)

theorem isPlain_of_guideViolation? {line : Nat} {path : String} (free : OneLine path) {v : Violation}
    (given : guideViolation? repo line path = some v) : v.IsPlain := by
  have agents : OneLine agentsFile := .literal (by decide)
  have dir : OneLine guidesDir := .literal (by decide)
  unfold guideViolation? at given
  dsimp only at given
  split at given
  · cases given
    simp [agents, dir, free]
    and_intros
    all_goals exact .literal (by decide)
  · split at given
    · cases given
      simp [agents, free]
      and_intros
      all_goals exact .literal (by decide)
    · cases given

theorem newline_not_mem_of_mem_prose {text line : List Char} {number : Nat} (member : (number, line) ∈ Document.prose text) :
    '\n' ∉ line := by
  have within : ∀ (l : List (Nat × List Char)) fenced, Document.outsideFences fenced l ⊆ l := by
    intro l
    induction l with
    | nil => exact fun _ => List.nil_subset _
    | cons x l ih =>
      obtain ⟨number, line⟩ := x
      intro fenced
      rw [Document.outsideFences]
      split
      · exact List.Subset.trans (ih _) (List.subset_cons_self _ _)
      · split
        · exact List.Subset.trans (ih _) (List.subset_cons_self _ _)
        · exact List.cons_subset_cons _ (ih _)
  exact Text.newline_not_mem_of_mem_numberedLines (within _ _ member)

theorem oneLine_of_mem_onProse {extract : List Char → List (List Char)} (within : ∀ line, ∀ item ∈ extract line, item ⊆ line)
    {text : List Char} {number : Nat} {item : String} (member : (number, item) ∈ onProse extract text) : OneLine item := by
  obtain ⟨⟨number', line⟩, inside, own⟩ := List.mem_flatMap.mp member
  obtain ⟨chars, found, same⟩ := List.mem_map.mp own
  cases same
  exact OneLine.ofList_iff.mpr fun feed => newline_not_mem_of_mem_prose inside (within line chars found feed)

theorem group_subset {p : Pattern} {line kept : List Char} {m : Pattern.Match} {number : Nat} (member : m ∈ p.findAll line)
    (found : m.group? number = some kept) : kept ⊆ line :=
  fun c inside => ((Pattern.follows_of_mem_findAll member).mem_group? (p.keeps_any number) found c inside).2

theorem rootedPaths_subset (roots : List String) (needsExtension : Bool) (line : List Char) :
    ∀ item ∈ Document.rootedPaths roots needsExtension line, item ⊆ line := by
  intro item member
  obtain ⟨m, inside, found⟩ := List.mem_filterMap.mp (List.mem_of_mem_filter member)
  exact group_subset inside found

theorem localTargets_subset (line : List Char) : ∀ item ∈ localTargets line, item ⊆ line := by
  intro item member
  obtain ⟨target, inside, found⟩ := List.mem_filterMap.mp member
  obtain ⟨m, matched, kept⟩ := List.mem_filterMap.mp inside
  obtain ⟨chars, group, rfl⟩ := Option.map_eq_some_iff.mp kept
  unfold Document.localPath? at found
  split at found
  · cases found
  · dsimp only at found
    split at found
    · cases found
    · cases found
      obtain ⟨back, whole⟩ := Document.front_withoutTitle ((Text.trim chars).takeWhile (· != '#'))
      intro c own
      have front := Text.trim_subset _ own
      have target : c ∈ (Text.trim chars).takeWhile (· != '#') := whole ▸ List.mem_append_left _ front
      have trimmed := Text.trim_subset _ (List.takeWhile_subset _ target)
      exact Pattern.removeAll_subset _ _ (group_subset matched group trimmed)

theorem allPlain_mapFiles (names : repo.NamesOneLine) : AllPlain (mapFiles repo) := by
  have documents : OneLine repo.layout.architecture.raw := names.below (.literal (by decide))
  refine Repository.allPlain_inspectFiles (names.collectFiles documents) fun file text free => .map ?_
  rintro ⟨line, path⟩ member
  exact isPlain_danglingFile line free (oneLine_of_mem_onProse (rootedPaths_subset _ _) (List.mem_of_mem_filter member))

theorem allPlain_agents : AllPlain (agents repo) := by
  unfold agents
  dsimp only
  split
  · exact .nil
  · split
    · exact .single (Repository.isPlain_unreadable (.literal (by decide)) _)
    · refine .append (.map ?_) (.flatMap ?_)
      · rintro ⟨line, path⟩ member
        exact isPlain_danglingPath line (oneLine_of_mem_onProse (rootedPaths_subset _ _) (List.mem_of_mem_filter member))
      · rintro ⟨number, row⟩ member
        have within : (number, row) ∈ Document.prose _ :=
          List.dropWhile_subset _ (List.drop_subset _ _ (List.takeWhile_subset _ (List.mem_of_mem_filter member)))
        refine .filterMap fun path inside v given => ?_
        refine isPlain_of_guideViolation? (OneLine.ofList_iff.mpr fun feed => ?_) given
        exact newline_not_mem_of_mem_prose within (localTargets_subset row path inside feed)

theorem allPlain_links (names : repo.NamesOneLine) : AllPlain (links repo) := by
  refine .flatMap fun document member => ?_
  have free : OneLine document.raw := by
    rcases List.mem_append.mp (List.mem_of_mem_filter member) with top | nested
    · obtain ⟨d, inside, rfl⟩ := List.mem_map.mp (List.mem_of_mem_filter top)
      refine names.below ?_
      simp only [rootDocuments, List.mem_cons, List.not_mem_nil, or_false] at inside
      rcases inside with rfl | rfl | rfl | rfl | rfl | rfl <;> exact .literal (by decide)
    · obtain ⟨tree, inside, own⟩ := List.mem_flatMap.mp nested
      refine names.collectFiles (names.below ?_) document own
      simp only [documentTrees, List.mem_cons, List.not_mem_nil, or_false] at inside
      rcases inside with rfl | rfl | rfl <;> exact .literal (by decide)
  refine Repository.allPlain_inspectFile free fun text _ => .map ?_
  rintro ⟨line, target⟩ inside
  exact isPlain_brokenLink line (Repository.oneLine_relative free)
    (oneLine_of_mem_onProse localTargets_subset (List.mem_of_mem_filter inside))

end References

end Check

end Conformance
