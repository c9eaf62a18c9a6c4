import Conformance.Proofs.Check.AppComments
import Conformance.Proofs.Check.AppDeclarations
import Conformance.Proofs.Source.AppTypes
import Mathlib.Data.List.TakeWhile

namespace Conformance

open Pattern

namespace Text

variable {before : Option Char} {v w u front name back : List Char}

/-- The text begins and ends at borders of words: the character in front of it and the one behind it belong to none. -/
structure Bordered (before : Option Char) (front back : List Char) : Prop where
  front : (front.getLast?.or before).any isWord = false
  back : Stops isWord back

def Mentions (name s : List Char) : Prop :=
  ∃ front back, s = front ++ (name ++ back) ∧ Bordered none front back

theorem Bordered.front_alone (borders : Bordered before front back) : front.getLast?.any isWord = false := by
  have border := borders.front
  cases last : front.getLast? with
  | none => rfl
  | some c => simpa [last] using border

theorem Bordered.mentions (borders : Bordered before front back) (name : List Char) :
    Mentions name (front ++ (name ++ back)) :=
  ⟨front, back, rfl, by rw [Option.or_none, borders.front_alone], borders.back⟩

theorem Mentions.append {s : List Char} (mentions : Mentions name s) (border : v.getLast?.any isWord = false) :
    Mentions name (v ++ s) := by
  obtain ⟨front, back, rfl, borders⟩ := mentions
  refine ⟨v ++ front, back, by rw [List.append_assoc], ?_, borders.back⟩
  have own := borders.front_alone
  rw [Option.or_none, List.getLast?_append]
  cases last : front.getLast? with
  | none => exact border
  | some c => simpa [last] using own

theorem eq_of_stops (whole : w ++ u = name ++ back) (inside : ∀ c ∈ w, isWord c = true) (stop : Stops isWord u)
    (inside' : ∀ c ∈ name, isWord c = true) (stop' : Stops isWord back) : w = name := by
  by_contra differ
  obtain ⟨c, first, inWord⟩ := goes_of_shorter whole stop' inside' inside differ
  rw [stop c first] at inWord
  cases inWord

theorem exists_gap {a : List Char} (whole : w ++ u = a ++ (name ++ back)) (inside : ∀ c ∈ w, isWord c = true)
    (stop : Stops isWord u) (inside' : ∀ c ∈ name, isWord c = true) (differ : w ≠ name)
    (borders : Bordered before (v ++ a) back) : ∃ gap, a = w ++ gap ∧ u = gap ++ (name ++ back) := by
  rcases List.append_eq_append_iff.mp whole with ⟨gap, before, cut⟩ | ⟨more, longer, cut⟩
  · exact ⟨gap, before, cut⟩
  · -- the second word would begin inside the first one, behind a character of a word
    rcases List.eq_nil_or_concat a with rfl | ⟨a, c, rfl⟩
    · rw [List.nil_append] at whole
      exact absurd (eq_of_stops whole inside stop inside' borders.back) differ
    · have inWord : isWord c = true := inside c (by simp [longer])
      have border := borders.front
      simp [List.getLast?_append, inWord] at border

theorem apart_of_ne (whole : v ++ (w ++ u) = front ++ (name ++ back)) (inside : ∀ c ∈ w, isWord c = true)
    (inside' : ∀ c ∈ name, isWord c = true) (differ : w ≠ name) (borders : Bordered before v u)
    (borders' : Bordered before front back) :
    (∃ gap, front = v ++ (w ++ gap) ∧ u = gap ++ (name ++ back)) ∨
      ∃ gap, v = front ++ (name ++ gap) ∧ back = gap ++ (w ++ u) := by
  rcases List.append_eq_append_iff.mp whole with ⟨a, rfl, cut⟩ | ⟨a, rfl, cut⟩
  · obtain ⟨gap, rfl, behind⟩ := exists_gap cut inside borders.back inside' differ borders'
    exact .inl ⟨gap, rfl, behind⟩
  · obtain ⟨gap, rfl, behind⟩ := exists_gap cut inside' borders'.back inside differ.symm borders
    exact .inr ⟨gap, rfl, behind⟩

end Text

namespace Check.App

open Text

def IsMock (name : List Char) : Prop :=
  ∃ more, more ≠ [] ∧ name = "Mock".toList ++ more

variable {place : Cursor} {name : List Char}

theorem word_of_mockName {m : Match} (found : mockName.searchFrom place = some m) :
    ∃ v w u, place.rest = v ++ (w ++ u) ∧ IsMock w ∧ (∀ c ∈ w, isWord c = true) ∧ Bordered place.before v u ∧
      m.start = place.beyond v (w ++ u) ∧ m.stop = place.beyond (v ++ w) u := by
  obtain ⟨v, rest, cut, here⟩ := matchAt?_of_searchFrom found
  rw [matchAt?_eq, Option.map_eq_some_iff] at here
  obtain ⟨s, first, rfl⟩ := here
  obtain ⟨_, start, member⟩ := mem_ways_chain_cons.mp (List.mem_of_mem_head? first)
  obtain ⟨border, rfl⟩ := mem_ways_wordBorder.mp start
  obtain ⟨_, word, member⟩ := mem_ways_chain_cons.mp member
  obtain ⟨t, ahead, rfl⟩ := mem_ways_text.mp word
  obtain ⟨_, run, _⟩ := mem_ways_chain_cons.mp member
  obtain ⟨w, u, cut', some, inside, _⟩ := mem_ways_mostOne.mp run
  obtain rfl : rest = "Mock".toList ++ t := ahead
  have cut' : t = w ++ u := cut'
  -- the way that is taken passes the whole word
  have whole : t = t.takeWhile isWord ++ t.dropWhile isWord := List.takeWhile_append_dropWhile.symm
  have some' : t.takeWhile isWord ≠ [] := by
    obtain ⟨c, w, rfl⟩ := List.exists_cons_of_ne_nil some
    simp [cut', inside c List.mem_cons_self]
  have inside' : ∀ c ∈ t.takeWhile isWord, isWord c = true := fun _ => List.mem_takeWhile_imp
  have stop : Stops isWord (t.dropWhile isWord) := by
    intro c head
    have next := List.head?_dropWhile_not isWord t
    rwa [Option.mem_def.mp head] at next
  have taken : (mockName.ways ⟨place.beyond v ("Mock".toList ++ t), []⟩).head? =
      Option.some ((Progress.mk (place.beyond v ("Mock".toList ++ t)) []).beyond
        ("Mock".toList ++ t.takeWhile isWord) (t.dropWhile isWord)) := by
    rw [mockName, ways_chain_wordBorder border, ways_chain_text rfl, ways_chain_cons, funext ways_chain_nil,
      List.flatMap_singleton', head?_ways_mostOne whole some' inside' stop, Progress.beyond_beyond]
  rw [taken, Option.some.injEq] at first
  refine ⟨v, "Mock".toList ++ t.takeWhile isWord, t.dropWhile isWord, ?_, ⟨_, some', rfl⟩, ?_, ⟨?_, stop⟩, ?_, ?_⟩
  · rw [cut, List.append_assoc, ← whole]
  · intro c member
    rcases List.mem_append.mp member with fixed | more
    · exact (show ∀ c ∈ "Mock".toList, isWord c = true by decide) c fixed
    · exact inside' c more
  · have ahead : (place.beyond v ("Mock".toList ++ t)).rest = 'M' :: ("ock".toList ++ t) := rfl
    exact (atWordBorder_in_front ahead (by decide)).mp border
  · rw [List.append_assoc, ← whole]
  · rw [← first]
    exact Cursor.beyond_beyond ..

/-- What is left of a text without the mock names still has the other words in it. -/
theorem mentions_leftOver (inside : ∀ c ∈ name, isWord c = true) (other : ¬ IsMock name) {front back : List Char}
    (limit : Nat) (cut : place.rest = front ++ (name ++ back)) (borders : Bordered place.before front back) :
    Mentions name (leftOver place (mockName.matchesFrom limit place)) := by
  -- every match takes a whole word out, so this word is left in front of the match or in what is left behind it
  induction limit generalizing place front with
  | zero =>
    rw [matchesFrom, leftOver, cut]
    exact borders.mentions name
  | succ limit ih =>
    cases found : mockName.searchFrom place with
    | none =>
      rw [matchesFrom, found, leftOver, cut]
      exact borders.mentions name
    | some m =>
      obtain ⟨v, w, u, cut', ⟨more, some, rfl⟩, inside', borders', start, stop⟩ := word_of_mockName found
      have moves : m.start.offset < m.stop.offset := by
        have positive : byteLength "Mock".toList = 4 := by decide
        rw [start, stop]
        simp only [Cursor.beyond, byteLength_append]
        omega
      have differ : "Mock".toList ++ more ≠ name := fun same => other ⟨more, some, same.symm⟩
      rw [matchesFrom_succ found moves, leftOver, start, Cursor.textTo_beyond cut', stop]
      rcases apart_of_ne (cut'.symm.trans cut) inside' inside differ borders' borders with
        ⟨gap, rfl, behind⟩ | ⟨gap, rfl, behind⟩
      · have border : Bordered (place.beyond (v ++ ("Mock".toList ++ more)) u).before gap back := by
          refine ⟨?_, borders.back⟩
          have whole := borders.front
          rw [← List.append_assoc, List.getLast?_append, Option.or_assoc] at whole
          exact whole
        exact (ih behind border).append borders'.front_alone
      · rw [List.append_assoc, List.append_assoc]
        have stops := borders.back
        rw [behind] at stops
        have alone : Bordered none front (gap ++ leftOver (place.beyond (front ++ (name ++ gap) ++ ("Mock".toList ++ more)) u)
            (mockName.matchesFrom limit (place.beyond (front ++ (name ++ gap) ++ ("Mock".toList ++ more)) u))) := by
          refine ⟨by rw [Option.or_none, borders.front_alone], ?_⟩
          cases gap with
          | nil => cases stops 'M' rfl
          | cons c gap => exact stops
        exact alone.mentions name

theorem mentions_codeOf {line : List Char} (inside : ∀ c ∈ name, isWord c = true) (other : ¬ IsMock name)
    (mentions : Mentions name (Source.withoutTrailingComment line)) : Mentions name (codeOf line) := by
  obtain ⟨front, back, cut, borders⟩ := mentions
  exact mentions_leftOver inside other _ cut borders

theorem occursIn_wholeWord {name : String} {s : List Char} (some : name ≠ "") (inside : ∀ c ∈ name.toList, isWord c = true)
    (mentions : Mentions name.toList s) : (wholeWord name).occursIn s = true := by
  obtain ⟨front, back, rfl, borders⟩ := mentions
  obtain ⟨c, more, spelled⟩ := List.exists_cons_of_ne_nil (show name.toList ≠ [] by simpa using some)
  let start : Progress := ⟨(Cursor.ofText (front ++ (name.toList ++ back))).beyond front (name.toList ++ back), []⟩
  have border : start.place.atWordBorder = true := by
    have ahead : start.place.rest = c :: (more ++ back) := by
      change name.toList ++ back = _
      rw [spelled]
      rfl
    exact (atWordBorder_in_front ahead (inside c (by simp [spelled]))).mpr borders.front
  have border' : (start.beyond name.toList back).place.atWordBorder = true := by
    have last := List.getLast?_eq_some_getLast (show name.toList ≠ [] by simpa using some)
    refine (atWordBorder_behind last (inside _ (List.getLast_mem _))).mpr ?_
    cases back with
    | nil => rfl
    | cons d back => exact stops_cons.mp borders.back
  refine occursIn_iff.mpr ⟨front, name.toList ++ back, rfl, ?_⟩
  change (wholeWord name).ways start ≠ []
  rw [wholeWord, ways_chain_wordBorder border, ways_chain_text (u := back) rfl, ways_chain_wordBorder border']
  exact List.cons_ne_nil _ _

/-- The text names a type on the line with this number: above the previews, in code, and not as a mock. -/
def Names (text : List Char) (number : Nat) (name : String) : Prop :=
  ∃ above line below, lines text = above ++ line :: below ∧ number = above.length + 1 ∧
    beginsPreviews (above ++ [line]) = false ∧ Source.isCommentLine line = false ∧ ¬ IsMock name.toList ∧
    Mentions name.toList (Source.withoutTrailingComment line)

theorem mem_references {names : List String} {text : List Char} {number : Nat} {name : String} (listed : name ∈ names)
    (some : name ≠ "") (inside : ∀ c ∈ name.toList, isWord c = true) (named : Names text number name) :
    (number, name) ∈ references names text := by
  obtain ⟨above, line, below, cut, rfl, visible, code, other, mentions⟩ := named
  rw [beginsPreviews, List.any_append, Bool.or_eq_false_iff] at visible
  have unmarked : previewLine.occursIn line = false := by simpa using visible.2
  have found : name ∈ namesIn names line := by
    rw [namesIn, code]
    exact List.mem_filter.mpr ⟨listed, occursIn_wholeWord some inside (mentions_codeOf inside other mentions)⟩
  rw [references_eq, cut, namedFrom_append, beginsPreviews, visible.1, namedFrom, unmarked, Nat.zero_add]
  exact List.mem_append_right _ (List.mem_append_left _ (List.mem_map_of_mem found))

/-- A file directly inside a directory, of those with Swift sources, declares a type of one of the kinds, behind modifiers
only. -/
def DeclaredBy (files : FileSystem) (kinds : List Source.AppType.Kind) (dir : Path) (name : String) : Prop :=
  ∃ p ∈ files.listFiles (endsWith ·.toList ".swift") dir, ∃ text, files.read p = .ok text ∧ ∃ line ∈ lines text,
    ∃ leads, ∃ kind ∈ kinds, Source.AppType.Declares leads kind name.toList line ∧
      Source.AppType.Discovered leads name ∧ name ∉ Source.AppType.memberKeywords

theorem mem_declaredNames {files : FileSystem} {kinds : List Source.AppType.Kind} {dir : Path} {name : String}
    (declared : DeclaredBy files kinds dir name) : name ∈ Source.AppType.declaredNames files kinds dir := by
  obtain ⟨p, listed, text, read, line, member, leads, kind, wanted, declares, discovered, free⟩ := declared
  have own := (Source.AppType.nameOfLine?_eq_some_iff discovered.ne_empty free wanted declares).mpr discovered
  refine mem_sortedTexts.mpr (List.mem_flatMap.mpr ⟨p, listed, ?_⟩)
  rw [read]
  exact List.mem_filterMap.mpr ⟨line, member, own⟩

theorem raw_app_ne_empty (layout : Layout) : layout.app.raw ≠ "" := by
  by_cases root : layout.root.raw = ""
  · simp [Layout.app, Path.div_eq_join, Path.join, root]
  · exact Path.raw_join_ne_empty root (by decide)

theorem isDir_of_mem_swiftFiles {files : FileSystem} {layout : Layout} {dir : String} {q : Path} (proper : Path.IsName dir)
    (noFile : endsWith dir.toList ".swift" = false) (scanned : q ∈ files.swiftFiles (layout.app / dir)) :
    files.isDir (layout.app / dir) = true := by
  have last : (layout.app.below ([] ++ [dir])).fileName? = some dir :=
    Path.fileName?_below (raw_app_ne_empty layout) (by simpa using proper)
  rw [List.nil_append, Path.below, List.foldl_cons, List.foldl_nil] at last
  obtain ⟨v, member, rfl⟩ := List.mem_map.mp scanned
  obtain ⟨met, fits⟩ := List.mem_filter.mp member
  -- a file at the start itself would have to be named like a Swift file
  rcases List.mem_append.mp met with start | below
  · rw [FileSystem.visitStart] at start
    split at start
    · obtain rfl := List.mem_singleton.mp start
      simp [last, noFile] at fits
    · cases start
  · rw [FileSystem.visitBelow] at below
    split at below
    · rename_i entries leads
      rw [FileSystem.isDir, leads]
      rfl
    · cases below

/-- A type that is declared behind modifiers only is found. A file that names it, above its previews, in code and not as a
mock, is reported at the line, if a rule forbids it: so is a view that names a service. -/
theorem find_of_declared (files : FileSystem) (layout : Layout) :
    (∀ kinds leads, ∀ kind ∈ kinds, ∀ name line, name ≠ "" → name ∉ Source.AppType.memberKeywords →
      Source.AppType.Declares leads kind name.toList line →
        (Source.AppType.nameOfLine? kinds line = some name ↔ Source.AppType.Discovered leads name)) ∧
    ∃ found, appLayers.find ⟨files, layout⟩ = .ok found ∧ ∀ rule ∈ rules, ∀ name,
      DeclaredBy files rule.kinds (layout.app / rule.declared) name →
        ∀ q ∈ files.swiftFiles (layout.app / rule.scanned), ∀ text number, files.read q = .ok text →
          Names text number name → rule.violation s!"{layout.relative q}:{number}" name ∈ found := by
  refine ⟨fun kinds leads kind wanted name line some free declares =>
    Source.AppType.nameOfLine?_eq_some_iff some free wanted declares, _, rfl, ?_⟩
  intro rule listed name declared q scanned text number read named
  have known := mem_declaredNames declared
  have proper : ∀ rule ∈ rules, Path.IsName rule.scanned ∧ endsWith rule.scanned.toList ".swift" = false := by
    simp only [rules, List.forall_mem_cons]
    decide
  have applies : Applies ⟨files, layout⟩ rule :=
    ⟨isDir_of_mem_swiftFiles (proper rule listed).1 (proper rule listed).2 scanned, List.ne_nil_of_mem known⟩
  refine List.mem_flatMap.mpr ⟨rule, listed, ?_⟩
  rw [inspectRule_of_applies applies, Repository.inspectFiles]
  refine List.mem_flatMap.mpr ⟨q, scanned, ?_⟩
  rw [Repository.inspectFile, read]
  obtain ⟨_, _, _, _, _, _, _, _, _, _, discovered, _⟩ := declared
  exact List.mem_map.mpr ⟨(number, name), mem_references known discovered.ne_empty discovered.inWord named, rfl⟩

def homeSource : String :=
  "// APIService\nlet m = MockAPIService()\nlet s = APIService.shared // it"

def homeFiles (service : String) : FileSystem :=
  ⟨.dir [("repo", .dir [("ios", .dir [("BradOS", .dir [("BradOS", .dir [
    ("Services", .dir [("APIService.swift", .file service.toUTF8)]),
    ("Views", .dir [("Home.swift", .file homeSource.toUTF8)])])])])])], []⟩

section HomeFiles

variable (service : String)

theorem listFiles_homeFiles :
    (homeFiles service).listFiles (endsWith ·.toList ".swift") ((Layout.ofRoot "/repo").app / "Services") =
      [⟨"/repo/ios/BradOS/BradOS/Services/APIService.swift"⟩] := by
  have place : (homeFiles service).resolve? "/repo/ios/BradOS/BradOS/Services" =
      some ["repo", "ios", "BradOS", "BradOS", "Services"] := by
    refine (FileSystem.resolve?_ofList _ _).trans ?_
    rfl
  have file : ("/repo/ios/BradOS/BradOS/Services" : Path) / "APIService.swift" =
    "/repo/ios/BradOS/BradOS/Services/APIService.swift" := Path.div_ofList _ _
  have swift : endsWith "APIService.swift".toList ".swift" = true := rfl
  rw [app_services, FileSystem.listFiles, FileSystem.collectFiles_eq _ _ (FileSystem.node?_of_resolve? place rfl), ← file]
  simp [-String.reduceToList, FileSystem.filesIn, FileSystem.placesIn, FileSystem.placesAt, swift, Place.names, Path.below]

theorem swiftFiles_homeFiles : (homeFiles service).swiftFiles ((Layout.ofRoot "/repo").app / "Views") =
    [⟨"/repo/ios/BradOS/BradOS/Views/Home.swift"⟩] := by
  have place : (homeFiles service).resolve? "/repo/ios/BradOS/BradOS/Views" =
      some ["repo", "ios", "BradOS", "BradOS", "Views"] := by
    refine (FileSystem.resolve?_ofList _ _).trans ?_
    rfl
  have file : ("/repo/ios/BradOS/BradOS/Views" : Path) / "Home.swift" = "/repo/ios/BradOS/BradOS/Views/Home.swift" :=
    Path.div_ofList _ _
  have swift : endsWith "Home.swift".toList ".swift" = true := rfl
  rw [app_views, FileSystem.swiftFiles, FileSystem.collectFiles_eq _ _ (FileSystem.node?_of_resolve? place rfl), ← file]
  simp [-String.reduceToList, FileSystem.filesIn, FileSystem.placesIn, FileSystem.placesAt, swift, Place.names, Path.below]

theorem read_homeFiles :
    (homeFiles service).read "/repo/ios/BradOS/BradOS/Services/APIService.swift" = .ok service.toList := by
  have place : (homeFiles service).resolve? "/repo/ios/BradOS/BradOS/Services/APIService.swift" =
      some ["repo", "ios", "BradOS", "BradOS", "Services", "APIService.swift"] := by
    refine (FileSystem.resolve?_ofList _ _).trans ?_
    rfl
  exact FileSystem.read_of_resolve? place rfl

theorem read_homeFiles_view :
    (homeFiles service).read "/repo/ios/BradOS/BradOS/Views/Home.swift" = .ok homeSource.toList := by
  have place : (homeFiles service).resolve? "/repo/ios/BradOS/BradOS/Views/Home.swift" =
      some ["repo", "ios", "BradOS", "BradOS", "Views", "Home.swift"] := by
    refine (FileSystem.resolve?_ofList _ _).trans ?_
    rfl
  exact FileSystem.read_of_resolve? place rfl

theorem isDir_homeFiles_components : (homeFiles service).isDir ((Layout.ofRoot "/repo").app / "Components") = false := by
  have nowhere : (homeFiles service).resolve? "/repo/ios/BradOS/BradOS/Components" = none := by
    refine (FileSystem.resolve?_ofList _ _).trans ?_
    rfl
  rw [app_components, FileSystem.isDir_eq_false_of_resolve? nowhere]

end HomeFiles

theorem homeFiles_named : let files := homeFiles "// It.\n  public final class APIService \x7b"
    Source.AppType.nameOfLine? [.classType, .actorType] "  public final class APIService \x7b".toList = some "APIService" ∧
    DeclaredBy files [.classType, .actorType] ((Layout.ofRoot "/repo").app / "Services") "APIService" ∧
    ∃ found, appLayers.find ⟨files, .ofRoot "/repo"⟩ = .ok found ∧
      viewNamesService "ios/BradOS/BradOS/Views/Home.swift:3" "APIService" ∈ found := by
  intro files
  let view : Path := "/repo/ios/BradOS/BradOS/Views/Home.swift"
  have source : homeSource.toList = _ := String.toList_ofList
  have service : "// It.\n  public final class APIService \x7b".toList = _ := String.toList_ofList
  have line : "  public final class APIService \x7b".toList = _ := String.toList_ofList
  have declares : Source.AppType.Declares [(.modifier "public", [' ']), (.modifier "final", [' '])] .classType
      "APIService".toList "  public final class APIService \x7b".toList := by
    refine ⟨[' ', ' '], [' '], " \x7b".toList, ?_, by decide, by decide, by decide, stops_cons.mpr (by decide),
      by rw [line]; decide +kernel⟩
    simp only [List.forall_mem_cons]
    refine ⟨⟨by decide, by decide, ?_⟩, ⟨by decide, by decide, ?_⟩, by simp⟩
    · rintro _ ⟨⟩
      decide
    · rintro _ ⟨⟩
      decide
  have discovered : Source.AppType.Discovered [(.modifier "public", [' ']), (.modifier "final", [' '])] "APIService" :=
    ⟨by decide, by decide, by decide⟩
  have declared : DeclaredBy files [.classType, .actorType] ((Layout.ofRoot "/repo").app / "Services") "APIService" :=
    ⟨_, listFiles_homeFiles _ ▸ List.mem_cons_self, _, read_homeFiles _, _, by rw [service, line]; decide +kernel, _, _,
      by decide, declares, discovered, by decide⟩
  have named : Names homeSource.toList 3 "APIService" := by
    have mock : "let m = MockAPIService()".toList = _ := String.toList_ofList
    have use : "let s = APIService.shared // it".toList = _ := String.toList_ofList
    refine ⟨["// APIService".toList, "let m = MockAPIService()".toList], "let s = APIService.shared // it".toList, [],
      ?cut, rfl, ?visible, ?code, ?own, "let s = ".toList, ".shared".toList, ?mentions,
      ⟨by decide, stops_cons.mpr (by decide)⟩⟩
    case cut =>
      rw [source, mock, use]
      decide +kernel
    case visible =>
      rw [mock, use]
      decide +kernel
    case code =>
      rw [use]
      decide +kernel
    case own =>
      rintro ⟨more, _, same⟩
      cases same
    case mentions =>
      rw [use]
      decide +kernel
  obtain ⟨line, found, finds, reported⟩ := find_of_declared files (.ofRoot "/repo")
  have scanned : view ∈ files.swiftFiles ((Layout.ofRoot "/repo").app / "Views") :=
    swiftFiles_homeFiles _ ▸ List.mem_cons_self
  have own := reported _ List.mem_cons_self "APIService" declared view scanned _ 3 (read_homeFiles_view _) named
  have shown : (Layout.ofRoot "/repo").relative view = "ios/BradOS/BradOS/Views/Home.swift" := by
    have components : view.components = _ := Path.components_ofList _
    have root : ("/repo" : Path).components = _ := Path.components_ofList _
    rw [Layout.relative, Layout.ofRoot, Path.relativeTo, components, root]
    decide +kernel
  rw [shown] at own
  have seen := (line [.classType, .actorType] _ .classType (by decide) "APIService" _ (by decide) (by decide)
    declares).mpr discovered
  exact ⟨seen, declared, found, finds, own⟩

theorem attributedService_unseen : let line := "@MainActor final class APIService \x7b\x7d"
    Source.AppType.Declares [(.attr "MainActor".toList, [' ']), (.modifier "final", [' '])] .classType "APIService".toList
      line.toList ∧ "APIService" ∉ Source.AppType.memberKeywords ∧
    Source.AppType.nameOfLine? [.classType, .actorType] line.toList = none ∧
    (run ⟨homeFiles line, .ofRoot "/repo"⟩ appLayers).passed = true := by
  have chars : "@MainActor final class APIService \x7b\x7d".toList = _ := String.toList_ofList
  have declares : Source.AppType.Declares [(.attr "MainActor".toList, [' ']), (.modifier "final", [' '])] .classType
      "APIService".toList "@MainActor final class APIService \x7b\x7d".toList := by
    refine ⟨[], [' '], " \x7b\x7d".toList, ?_, by decide, by decide, by decide, stops_cons.mpr (by decide),
      by rw [chars]; decide +kernel⟩
    simp only [List.forall_mem_cons]
    refine ⟨⟨by decide, by decide, ?_⟩, ⟨by decide, by decide, ?_⟩, by simp⟩
    · rintro _ ⟨⟩
    · rintro _ ⟨⟩
      decide
  have unseen : Source.AppType.nameOfLine? [.classType, .actorType] "@MainActor final class APIService \x7b\x7d".toList =
      none := by
    rw [chars]
    decide +kernel
  have single : Text.lines "@MainActor final class APIService \x7b\x7d".toList =
      ["@MainActor final class APIService \x7b\x7d".toList] := by
    rw [chars]
    decide +kernel
  have none : Source.AppType.declaredNames (homeFiles "@MainActor final class APIService \x7b\x7d")
      [.classType, .actorType] ((Layout.ofRoot "/repo").app / "Services") = [] := by
    rw [declaredNames_eq, listFiles_homeFiles, List.flatMap_singleton, declaredIn_of_read (read_homeFiles _),
      Source.AppType.namesOfText, single, List.filterMap_cons_none unseen, List.filterMap_nil, sortedTexts_nil]
  have idle := isDir_homeFiles_components "@MainActor final class APIService \x7b\x7d"
  refine ⟨declares, by decide, unseen, passed_of_inspectRule ?_ ?_⟩
  · exact inspectRule_eq_nil fun applies => applies.declared none
  · exact inspectRule_eq_nil fun applies => Bool.false_ne_true (idle.symm.trans applies.scanned)

end Check.App

end Conformance
