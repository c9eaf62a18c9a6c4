import Conformance.Proofs.Check.Isolation
import Conformance.Proofs.FileSystem.Letters

namespace Conformance

open Path FileSystem

theorem FileSystem.read_eq_of_resolve? {fs : FileSystem} {p q : Path} {place : List String}
    (first : fs.resolve? p = some place) (second : fs.resolve? q = some place) : fs.read p = fs.read q := by
  have leads : ∀ r, fs.resolve? r = some place → ∃ node, fs.node? r = some node ∧ fs.root.at? place = some node := by
    intro r resolved
    have held := node?_eq_at?_resolve? fs r
    rw [resolved, Option.bind_some] at held
    cases reached : fs.reach r with
    | found t =>
      have leads : fs.node? r = some t.node := by rw [node?, reached]
      exact ⟨t.node, leads, held.symm.trans leads⟩
    | vacant | nowhere =>
      rw [resolve?, reached] at resolved
      cases resolved
  obtain ⟨node, own, held⟩ := leads p first
  obtain ⟨node', own', held'⟩ := leads q second
  obtain rfl : node' = node := Option.some.inj (held'.symm.trans held)
  rw [read_of_node? own, read_of_node? own']

namespace Check.App

open Source.AppType

/-- The rule looks at the files in its directory: the directory is there, and a type is known that they may not name. -/
structure Applies (repo : Repository) (rule : Rule) : Prop where
  scanned : repo.files.isDir (repo.layout.app / rule.scanned) = true
  declared : declaredNames repo.files rule.kinds (repo.layout.app / rule.declared) ≠ []

def Scanned (repo : Repository) (q : Path) : Prop :=
  ∃ rule ∈ rules, Applies repo rule ∧ q ∈ repo.files.swiftFiles (repo.layout.app / rule.scanned)

variable {repo : Repository} {rule : Rule} {v : Violation}

theorem sections_ne_nil (listed : rule ∈ rules) (location type : String) : (rule.violation location type).sections ≠ [] := by
  simp only [rules, List.mem_cons, List.not_mem_nil, or_false] at listed
  rcases listed with rfl | rfl <;> exact List.cons_ne_nil _ _

theorem inspectRule_of_applies (applies : Applies repo rule) : inspectRule repo rule =
    repo.inspectFiles (repo.files.swiftFiles (repo.layout.app / rule.scanned)) fun file text =>
      (references (declaredNames repo.files rule.kinds (repo.layout.app / rule.declared)) text).map fun (line, name) =>
        rule.violation s!"{file}:{line}" name := by
  have known := List.isEmpty_eq_false_iff.mpr applies.declared
  unfold inspectRule
  simp [applies.scanned, known]

theorem inspectRule_eq_nil (idle : ¬ Applies repo rule) : inspectRule repo rule = [] := by
  unfold inspectRule
  dsimp only
  split
  · rfl
  · rename_i isDir
    split
    · rfl
    · rename_i known
      exact absurd ⟨by simpa using isDir, by simpa using known⟩ idle

/-- The violations without advice are those of the files that cannot be read. -/
theorem mem_inspectRule_iff (listed : rule ∈ rules) : v ∈ inspectRule repo rule ∧ v.sections = [] ↔
    Applies repo rule ∧ ∃ q ∈ repo.files.swiftFiles (repo.layout.app / rule.scanned), ∃ cause,
      repo.files.read q = .error cause ∧ v = Repository.unreadable (repo.relative q) cause := by
  by_cases applies : Applies repo rule
  · rw [inspectRule_of_applies applies, Repository.inspectFiles, List.mem_flatMap]
    constructor
    · rintro ⟨⟨q, member, inside⟩, plain⟩
      refine ⟨applies, q, member, ?_⟩
      rw [Repository.inspectFile] at inside
      split at inside
      · obtain ⟨x, _, rfl⟩ := List.mem_map.mp inside
        exact absurd plain (sections_ne_nil listed _ _)
      · rename_i cause unread
        exact ⟨cause, unread, List.mem_singleton.mp inside⟩
    · rintro ⟨_, q, member, cause, unread, rfl⟩
      refine ⟨⟨q, member, ?_⟩, rfl⟩
      rw [Repository.inspectFile_of_unreadable unread]
      exact List.mem_singleton_self _
  · rw [inspectRule_eq_nil applies]
    constructor
    · rintro ⟨none, _⟩
      cases none
    · exact fun found => absurd found.1 applies

section Unread

variable {files other : FileSystem} {layout : Layout} {place : List String} {p q : Path}

def declaredIn (files : FileSystem) (kinds : List Kind) (p : Path) : List String :=
  match files.read p with
  | .ok text => namesOfText kinds text
  | .error _ => []

theorem declaredIn_of_read {files : FileSystem} {p : Path} {text : List Char} (read : files.read p = .ok text)
    (kinds : List Kind) : declaredIn files kinds p = namesOfText kinds text := by
  rw [declaredIn, read]

theorem declaredIn_of_unread {files : FileSystem} {p : Path} {cause : ReadError} (unread : files.read p = .error cause)
    (kinds : List Kind) : declaredIn files kinds p = [] := by
  rw [declaredIn, unread]

theorem declaredNames_eq (files : FileSystem) (kinds : List Kind) (dir : Path) : declaredNames files kinds dir =
    sortedTexts ((files.listFiles (Text.endsWith ·.toList ".swift") dir).flatMap (declaredIn files kinds)) := rfl

/-- In a tree without links no rule scans a file of the declarations. -/
theorem resolve?_ne_of_scanned {rule' : Rule} (wellFormed : files.root.WellFormed) (free : files.root.linkFree = true)
    (listed : rule ∈ rules) (listed' : rule' ∈ rules)
    (declares : p ∈ files.listFiles (Text.endsWith ·.toList ".swift") (layout.app / rule'.declared))
    (resolved : files.resolve? p = some place)
    (scanned : q ∈ files.swiftFiles (layout.app / rule.scanned)) : files.resolve? q ≠ some place := by
  intro same
  have spelled : ∀ name, IsName name → files.spelledPlace (layout.app / ⟨name⟩) = files.spelledPlace layout.app ++ [name] := by
    intro name proper
    have joined := spelledPlace_join files layout.app (List.cons_ne_nil name []) (by simpa using proper)
    rwa [String.intercalate_singleton] at joined
  have names : ∀ r ∈ rules, IsName r.scanned ∧ IsName r.declared ∧ ∀ r' ∈ rules, r.scanned ≠ r'.declared := by
    simp only [rules, List.forall_mem_cons]
    decide
  have below := prefix_of_mem_collectFiles wellFormed {} _ (layout.app / rule.scanned) q scanned
  have below' := prefix_of_mem_collectFiles wellFormed .shallow _ (layout.app / rule'.declared) p declares
  rw [spelled _ (names rule listed).1, spelledPlace_of_resolve? free same] at below
  rw [spelled _ (names rule' listed').2.1, spelledPlace_of_resolve? free resolved] at below'
  have equal := (List.prefix_of_prefix_length_le below below' (by simp)).eq_of_length (by simp)
  have head : rule.scanned = rule'.declared := by simpa using equal
  exact (names rule listed).2.2 rule' listed' head

/-- A file that declares nothing before and after its bytes change leaves the types that are known as they are. -/
theorem declaredNames_of_silent {kinds : List Kind} (alike : files.AlikeOutside (· = place) other)
    (resolved : files.resolve? p = some place) (silent : declaredIn files kinds p = [])
    (silent' : declaredIn other kinds p = []) (dir : Path) :
    declaredNames files kinds dir = declaredNames other kinds dir := by
  rw [declaredNames_eq, declaredNames_eq, ← listFiles_of_shape alike.shape]
  apply congrArg sortedTexts
  apply List.flatMap_congr
  intro q _
  by_cases same : files.resolve? q = some place
  · have same' : other.resolve? q = some place := resolve?_of_shape alike.shape q ▸ same
    have resolved' : other.resolve? p = some place := resolve?_of_shape alike.shape p ▸ resolved
    unfold declaredIn at silent silent' ⊢
    rw [read_eq_of_resolve? same resolved, read_eq_of_resolve? same' resolved', silent, silent']
  · have read := alike.read_eq (p := q) fun place' leads changed => same (changed ▸ leads)
    unfold declaredIn
    rw [read]

theorem inspectRule_of_silent (alike : files.AlikeOutside (· = place) other) (resolved : files.resolve? p = some place)
    (silent : declaredIn files rule.kinds p = []) (silent' : declaredIn other rule.kinds p = [])
    (elsewhere : ∀ q ∈ files.swiftFiles (layout.app / rule.scanned), files.resolve? q ≠ some place) :
    inspectRule ⟨files, layout⟩ rule = inspectRule ⟨other, layout⟩ rule := by
  have read : ∀ q ∈ files.swiftFiles (layout.app / rule.scanned), files.read q = other.read q := by
    intro q member
    apply alike.read_eq
    intro place' leads changed
    exact elsewhere q member (changed ▸ leads)
  have found : files.swiftFiles = other.swiftFiles := by
    funext start
    simp only [swiftFiles, collectFiles_of_shape alike.shape]
  unfold inspectRule
  dsimp only
  rw [isDir_of_shape alike.shape, declaredNames_of_silent alike resolved silent silent',
    Repository.inspectFiles_congr read, found]

end Unread

/-- Exactly the files that a rule looks at are reported when they cannot be read. In a tree without links, a file directly
in a directory of declarations that cannot be read is none of them: the check finds what it finds if the file declares
nothing, as an empty one does. -/
theorem find_of_unread (files : FileSystem) (layout : Layout) : (∃ found, appLayers.find ⟨files, layout⟩ = .ok found ∧
      ∀ v, v ∈ found ∧ v.sections = [] ↔ ∃ q cause, Scanned ⟨files, layout⟩ q ∧ files.read q = .error cause ∧
        v = Repository.unreadable (Repository.relative ⟨files, layout⟩ q) cause) ∧
    ∀ (other : FileSystem) (p : Path) (place : List String) (cause : ReadError),
      files.root.WellFormed → files.root.linkFree = true →
      (∃ rule ∈ rules, p ∈ files.listFiles (Text.endsWith ·.toList ".swift") (layout.app / rule.declared)) →
      files.resolve? p = some place → files.read p = .error cause → files.AlikeOutside (· = place) other →
      (∀ rule ∈ rules, declaredIn other rule.kinds p = []) →
      appLayers.find ⟨files, layout⟩ = appLayers.find ⟨other, layout⟩ := by
  constructor
  · refine ⟨_, rfl, fun v => ?_⟩
    rw [List.mem_flatMap]
    constructor
    · rintro ⟨⟨rule, listed, inside⟩, plain⟩
      obtain ⟨applies, q, member, cause, unread, same⟩ := (mem_inspectRule_iff listed).mp ⟨inside, plain⟩
      exact ⟨q, cause, ⟨rule, listed, applies, member⟩, unread, same⟩
    · rintro ⟨q, cause, ⟨rule, listed, applies, member⟩, unread, same⟩
      have own := (mem_inspectRule_iff listed).mpr ⟨applies, q, member, cause, unread, same⟩
      exact ⟨⟨rule, listed, own.1⟩, own.2⟩
  · rintro other p place cause wellFormed free ⟨rule', listed', declares⟩ resolved unread alike silent'
    have silent : ∀ kinds, declaredIn files kinds p = [] := by
      intro kinds
      rw [declaredIn, unread]
    have each : ∀ rule ∈ rules, inspectRule ⟨files, layout⟩ rule = inspectRule ⟨other, layout⟩ rule := by
      intro rule listed
      apply inspectRule_of_silent alike resolved (silent rule.kinds) (silent' rule listed)
      exact fun q scanned => resolve?_ne_of_scanned wellFormed free listed listed' declares resolved scanned
    exact congrArg Except.ok (List.flatMap_congr each)

/-- An application with a service that cannot be read, one that can, and a view that names the first. -/
def serviceFiles : FileSystem :=
  ⟨.dir [("repo", .dir [("ios", .dir [("BradOS", .dir [("BradOS", .dir [
    ("Services", .dir [("APIService.swift", .file ⟨#[0xff, 0xfe, 0x00]⟩), ("Clock.swift", .file "actor Clock {}".toUTF8)]),
    ("Views", .dir [("Home.swift", .file "let s = APIService()".toUTF8)])])])])])], []⟩

def servicePath : Path :=
  "/repo/ios/BradOS/BradOS/Services/APIService.swift"

theorem serviceFiles_wellFormed : serviceFiles.root.WellFormed := by
  decide

theorem resolve?_servicePath : serviceFiles.resolve? servicePath =
    some ["repo", "ios", "BradOS", "BradOS", "Services", "APIService.swift"] := by
  refine (resolve?_ofList serviceFiles _).trans ?_
  rfl

theorem read_servicePath : serviceFiles.read servicePath = .error .notUtf8 :=
  read_of_node? (node?_of_resolve? resolve?_servicePath rfl)

theorem app_repo : (Layout.ofRoot "/repo").app = "/repo/ios/BradOS/BradOS" := by
  refine (Path.div_ofList _ _).trans ?_
  rfl

theorem app_services : (Layout.ofRoot "/repo").app / "Services" = "/repo/ios/BradOS/BradOS/Services" := by
  rw [app_repo]
  exact Path.div_ofList _ _

theorem app_views : (Layout.ofRoot "/repo").app / "Views" = "/repo/ios/BradOS/BradOS/Views" := by
  rw [app_repo]
  exact Path.div_ofList _ _

theorem app_components : (Layout.ofRoot "/repo").app / "Components" = "/repo/ios/BradOS/BradOS/Components" := by
  rw [app_repo]
  exact Path.div_ofList _ _

theorem resolve?_services : serviceFiles.resolve? "/repo/ios/BradOS/BradOS/Services" =
    some ["repo", "ios", "BradOS", "BradOS", "Services"] := by
  refine (resolve?_ofList serviceFiles _).trans ?_
  rfl

theorem listFiles_services :
    serviceFiles.listFiles (Text.endsWith ·.toList ".swift") ((Layout.ofRoot "/repo").app / "Services") =
      [servicePath, ⟨"/repo/ios/BradOS/BradOS/Services/Clock.swift"⟩] := by
  have service : ("/repo/ios/BradOS/BradOS/Services" : Path) / "APIService.swift" = servicePath := Path.div_ofList _ _
  have clock : ("/repo/ios/BradOS/BradOS/Services" : Path) / "Clock.swift" =
    "/repo/ios/BradOS/BradOS/Services/Clock.swift" := Path.div_ofList _ _
  have swift : Text.endsWith "APIService.swift".toList ".swift" = true ∧
    Text.endsWith "Clock.swift".toList ".swift" = true := ⟨rfl, rfl⟩
  rw [app_services, listFiles, collectFiles_eq _ _ (node?_of_resolve? resolve?_services rfl), ← service, ← clock]
  simp [-String.reduceToList, filesIn, placesIn, placesAt, swift, Place.names, Path.below]

theorem serviceFiles_unread : serviceFiles.read servicePath = .error .notUtf8 ∧
    appLayers.find ⟨serviceFiles, .ofRoot "/repo"⟩ =
      appLayers.find ⟨serviceFiles.overwrite ["repo", "ios", "BradOS", "BradOS", "Services", "APIService.swift"] "".toUTF8,
        .ofRoot "/repo"⟩ := by
  exact ⟨read_servicePath, (find_of_unread serviceFiles (.ofRoot "/repo")).2 _ servicePath _ .notUtf8
    serviceFiles_wellFormed rfl ⟨_, List.mem_cons_self, listFiles_services ▸ List.mem_cons_self⟩
    resolve?_servicePath read_servicePath (alikeOutside_overwrite _ _ _) (by decide +kernel)⟩

theorem declaredNames_services :
    declaredNames serviceFiles [.classType, .actorType] ((Layout.ofRoot "/repo").app / "Services") = ["Clock"] := by
  have place : serviceFiles.resolve? "/repo/ios/BradOS/BradOS/Services/Clock.swift" =
      some ["repo", "ios", "BradOS", "BradOS", "Services", "Clock.swift"] := by
    refine (resolve?_ofList serviceFiles _).trans ?_
    rfl
  have clock : serviceFiles.read "/repo/ios/BradOS/BradOS/Services/Clock.swift" = .ok "actor Clock {}".toList :=
    read_of_resolve? place rfl
  have names : namesOfText [.classType, .actorType] "actor Clock {}".toList = ["Clock"] := by
    rw [String.toList_ofList]
    rfl
  rw [declaredNames_eq, listFiles_services, List.flatMap_cons, List.flatMap_singleton,
    declaredIn_of_unread read_servicePath, declaredIn_of_read clock, names]
  simp [sortedTexts, dropRepeats]

theorem resolve?_views : serviceFiles.resolve? "/repo/ios/BradOS/BradOS/Views" =
    some ["repo", "ios", "BradOS", "BradOS", "Views"] := by
  refine (resolve?_ofList serviceFiles _).trans ?_
  rfl

theorem isDir_views : serviceFiles.isDir ((Layout.ofRoot "/repo").app / "Views") = true := by
  rw [app_views, FileSystem.isDir, node?_of_resolve? resolve?_views rfl]
  rfl

theorem swiftFiles_views : serviceFiles.swiftFiles ((Layout.ofRoot "/repo").app / "Views") =
    [⟨"/repo/ios/BradOS/BradOS/Views/Home.swift"⟩] := by
  have home : ("/repo/ios/BradOS/BradOS/Views" : Path) / "Home.swift" = "/repo/ios/BradOS/BradOS/Views/Home.swift" :=
    Path.div_ofList _ _
  have swift : Text.endsWith "Home.swift".toList ".swift" = true := rfl
  rw [app_views, swiftFiles, collectFiles_eq _ _ (node?_of_resolve? resolve?_views rfl), ← home]
  simp [-String.reduceToList, filesIn, placesIn, placesAt, swift, Place.names, Path.below]

theorem inspectRule_views :
    inspectRule ⟨serviceFiles, .ofRoot "/repo"⟩ ⟨"Views", "Services", [.classType, .actorType], viewNamesService⟩ = [] := by
  have place : serviceFiles.resolve? "/repo/ios/BradOS/BradOS/Views/Home.swift" =
      some ["repo", "ios", "BradOS", "BradOS", "Views", "Home.swift"] := by
    refine (resolve?_ofList serviceFiles _).trans ?_
    rfl
  have read : serviceFiles.read "/repo/ios/BradOS/BradOS/Views/Home.swift" = .ok "let s = APIService()".toList :=
    read_of_resolve? place rfl
  have free : references ["Clock"] "let s = APIService()".toList = [] := by
    rw [String.toList_ofList]
    rfl
  have known : declaredNames serviceFiles [.classType, .actorType] ((Layout.ofRoot "/repo").app / "Services") ≠ [] := by
    simp [declaredNames_services]
  have applies : Applies ⟨serviceFiles, .ofRoot "/repo"⟩
      ⟨"Views", "Services", [.classType, .actorType], viewNamesService⟩ := ⟨isDir_views, known⟩
  refine (inspectRule_of_applies applies).trans ?_
  dsimp only
  rw [swiftFiles_views, declaredNames_services, Repository.inspectFiles, List.flatMap_singleton,
    Repository.inspectFile_of_read read, free, List.map_nil]

theorem inspectRule_components :
    inspectRule ⟨serviceFiles, .ofRoot "/repo"⟩ ⟨"Components", "ViewModels", [.classType], componentNamesModel⟩ = [] := by
  have nowhere : serviceFiles.resolve? "/repo/ios/BradOS/BradOS/Components" = none := by
    refine (resolve?_ofList serviceFiles _).trans ?_
    rfl
  have noDir : serviceFiles.isDir ((Layout.ofRoot "/repo").app / "Components") = false := by
    rw [app_components, isDir_eq_false_of_resolve? nowhere]
  exact inspectRule_eq_nil fun applies => Bool.false_ne_true (noDir.symm.trans applies.scanned)

theorem passed_of_inspectRule {repo : Repository}
    (views : inspectRule repo ⟨"Views", "Services", [.classType, .actorType], viewNamesService⟩ = [])
    (components : inspectRule repo ⟨"Components", "ViewModels", [.classType], componentNamesModel⟩ = []) :
    (run repo appLayers).passed = true := by
  have none : appLayers.find repo = .ok [] := by
    refine congrArg Except.ok ?_
    rw [rules, List.flatMap_cons, List.flatMap_singleton, views, components, List.append_nil]
  rw [run, none]
  rfl

theorem serviceFiles_pass : serviceFiles.isDir ((Layout.ofRoot "/repo").app / "Views") = true ∧
    servicePath ∈ serviceFiles.listFiles (Text.endsWith ·.toList ".swift") ((Layout.ofRoot "/repo").app / "Services") ∧
    serviceFiles.read servicePath = .error .notUtf8 ∧ (run ⟨serviceFiles, .ofRoot "/repo"⟩ appLayers).passed = true :=
  ⟨isDir_views, listFiles_services ▸ List.mem_cons_self, read_servicePath,
    passed_of_inspectRule inspectRule_views inspectRule_components⟩

end Check.App

end Conformance
