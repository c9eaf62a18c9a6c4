import Conformance.Check.References
import Conformance.Proofs.Check.ImportReading

namespace Conformance

open Path FileSystem

namespace Check.References

def rootPlaces : List (List String) :=
  [["CLAUDE.md"], ["AGENTS.md"], ["README.md"], ["BUGS.md"], ["requirements.md"],
    ["thoughts", "shared", "plans", "index.md"]]

def treePlaces : List (List String × String) :=
  [([], "docs"), (["thoughts", "shared", "plans"], "active"), (["thoughts", "shared"], "handoffs")]

def oldPlaces : List (List String) :=
  [["thoughts", "shared", "plans", "completed"], ["thoughts", "shared", "research"],
    ["thoughts", "shared", "plans", "stretching"], ["thoughts", "shared", "plans", "meditation"]]

def isCurrentAt (place : List String) : Bool :=
  place.getLast?.any (· != "meditations.md") && !oldPlaces.any fun old => (Text.afterLead? old place).isSome

theorem rootDocuments_eq : rootDocuments = rootPlaces.map ("/".intercalate ·) := by
  decide

theorem documentTrees_eq : documentTrees = treePlaces.map fun tree => "/".intercalate (tree.1 ++ [tree.2]) := by
  decide

theorem oldTrees_eq : oldTrees = oldPlaces.map ("/".intercalate ·) := by
  decide

theorem rootPlaces_proper : ∀ place ∈ rootPlaces, place ≠ [] ∧ ∀ n ∈ place, IsName n := by
  decide

theorem treePlaces_proper : ∀ tree ∈ treePlaces, (∀ n ∈ tree.1 ++ [tree.2], IsName n) ∧
    Text.endsWith tree.2.toList ".md" = false := by
  decide

theorem oldPlaces_proper : ∀ place ∈ oldPlaces, place ≠ [] ∧ ∀ n ∈ place, IsName n := by
  decide

def writtenAlong (t : Trail) : List (List String) :=
  let top := rootPlaces.filter fun place => (nodeAlong t place).any Node.isFile
  let nested := treePlaces.flatMap fun tree =>
    (filesAlong t { skipped := alwaysSkipped } (Text.endsWith ·.toList ".md") (tree.1 ++ [tree.2])).map fun p =>
      tree.1 ++ [tree.2] ++ p.names
  top ++ nested

def documentsAlong (t : Trail) : List (List String) :=
  (writtenAlong t).filter isCurrentAt

theorem isBelow_below {root : Path} {place old : List String} (nonempty : root.raw ≠ "")
    (proper : ∀ n ∈ place, IsName n) (named : ∀ n ∈ old, IsName n) :
    (root.below place).isBelow (root.below old) = (Text.afterLead? old place).isSome := by
  have injective : ∀ a b, Component.name a = Component.name b → a = b := fun _ _ h => Component.name.inj h
  rw [isBelow, components_below nonempty proper, components_below nonempty named, Text.afterLead?_append_left,
    Text.afterLead?_map injective, Option.isSome_map]

theorem exists_concat {place : List String} (some : place ≠ []) : ∃ above name, place = above ++ [name] := by
  rcases List.eq_nil_or_concat place with rfl | ⟨above, name, rfl⟩
  · exact absurd rfl some
  · exact ⟨above, name, List.concat_eq_append⟩

theorem isCurrent_below {root : Path} {place : List String} (nonempty : root.raw ≠ "") (some : place ≠ [])
    (proper : ∀ n ∈ place, IsName n) : isCurrent root (root.below place) = isCurrentAt place := by
  obtain ⟨above, name, rfl⟩ := exists_concat some
  have below : ∀ old ∈ oldPlaces, (root.below (above ++ [name])).isBelow (root / ⟨"/".intercalate old⟩) =
      (Text.afterLead? old (above ++ [name])).isSome := by
    intro old member
    obtain ⟨visible, named⟩ := oldPlaces_proper old member
    rw [join_intercalate nonempty visible named, isBelow_below nonempty proper named]
  unfold isCurrent isCurrentAt
  rw [fileName?_below nonempty proper, oldTrees_eq, List.any_map]
  refine congrArg₂ and ?_ (congrArg not ?_)
  · simp
  · rw [Bool.eq_iff_iff, List.any_eq_true, List.any_eq_true]
    refine exists_congr fun old => and_congr_right fun member => ?_
    rw [Function.comp_apply, below old member]

section Spelled

variable {fs : FileSystem} {root : Path} {t : Trail} (h : fs.Spells root t) (roomy : Roomy root t)
  (wellFormed : fs.root.WellFormed)

include h wellFormed in
theorem file_of_mem_writtenAlong {place : List String} (member : place ∈ writtenAlong t) :
    place ≠ [] ∧ (∀ n ∈ place, IsName n) ∧ ∃ content, nodeAlong t place = some (.file content) := by
  rcases List.mem_append.mp member with top | nested
  · obtain ⟨listed, isFile⟩ := List.mem_filter.mp top
    obtain ⟨visible, proper⟩ := rootPlaces_proper place listed
    refine ⟨visible, proper, ?_⟩
    cases there : nodeAlong t place with
    | none => simp [there] at isFile
    | some node =>
      cases node with
      | file content => exact ⟨content, rfl⟩
      | dir _ | link _ => simp [there, Node.isFile] at isFile
  · obtain ⟨tree, listed, inside⟩ := List.mem_flatMap.mp nested
    obtain ⟨p, collected, rfl⟩ := List.mem_map.mp inside
    obtain ⟨proper, content, there⟩ := h.file_of_mem_filesAlong wellFormed collected
    refine ⟨by simp, ?_, content, there⟩
    intro n inside
    rcases List.mem_append.mp inside with outer | inner
    · exact (treePlaces_proper tree listed).1 n outer
    · exact proper n inner

include h roomy wellFormed in
/-- The documents are at the same places for every spelling of the root. -/
theorem documents_of_spells : documents ⟨fs, .ofRoot root⟩ = (documentsAlong t).map root.below := by
  have nonempty := h.raw_ne_empty
  have top : ((rootDocuments.map fun (d : String) => root / (d : Path)).filter fs.isFile) =
      (rootPlaces.filter fun place => (nodeAlong t place).any Node.isFile).map root.below := by
    have joined : (rootDocuments.map fun (d : String) => root / (d : Path)) = rootPlaces.map root.below := by
      rw [rootDocuments_eq, List.map_map]
      refine List.map_congr_left fun place member => ?_
      obtain ⟨visible, proper⟩ := rootPlaces_proper place member
      exact join_intercalate nonempty visible proper
    rw [joined, List.filter_map]
    congr 1
    refine List.filter_congr fun place member => ?_
    rw [Function.comp_apply, isFile, h.node?_below roomy (rootPlaces_proper place member).2]
  have nested : (documentTrees.flatMap fun (tree : String) => fs.markdownFiles alwaysSkipped (root / (tree : Path))) =
      (treePlaces.flatMap fun tree => (filesAlong t { skipped := alwaysSkipped } (Text.endsWith ·.toList ".md")
        (tree.1 ++ [tree.2])).map fun p => tree.1 ++ [tree.2] ++ p.names).map root.below := by
    rw [documentTrees_eq, List.flatMap_map, List.map_flatMap]
    refine List.flatMap_congr fun tree member => ?_
    obtain ⟨proper, start⟩ := treePlaces_proper tree member
    rw [join_intercalate nonempty (by simp) proper, markdownFiles, h.collectFiles roomy _ proper _ start, List.map_map]
    rfl
  have all : documents ⟨fs, .ofRoot root⟩ = ((writtenAlong t).map root.below).filter (isCurrent root) := by
    unfold documents writtenAlong
    simp only [show (Layout.ofRoot root).root = root from rfl, top, nested, List.map_append]
  rw [all, List.filter_map, documentsAlong]
  congr 1
  refine List.filter_congr fun place member => ?_
  obtain ⟨visible, proper, _⟩ := file_of_mem_writtenAlong h wellFormed member
  exact isCurrent_below nonempty visible proper

end Spelled

def foundInDocument (t : Trail) (broken : List String → String → Bool) (place : List String) : List Violation :=
  match nodeAlong t place with
  | some node =>
    findings (fun file text => ((onProse localTargets text).filter fun (_, target) => broken place target).map
      fun (line, target) => brokenLink file line target) ("/".intercalate place) node
  | none => []

def Links (t : Trail) (place : List String) (target : String) : Prop :=
  place ∈ documentsAlong t ∧ ∃ node text line, nodeAlong t place = some node ∧ textOf node = .ok text ∧
    (line, target) ∈ onProse localTargets text

theorem foundInDocument_congr {t : Trail} {broken broken' : List String → String → Bool} {place : List String}
    (member : place ∈ documentsAlong t) (same : ∀ target, Links t place target → broken place target = broken' place target) :
    foundInDocument t broken place = foundInDocument t broken' place := by
  unfold foundInDocument
  split
  · rename_i node there
    unfold findings
    split
    · rename_i text decoded
      dsimp only
      congr 1
      refine List.filter_congr fun item listed => ?_
      exact same item.2 ⟨member, node, text, item.1, there, decoded, listed⟩
    · rfl
  · rfl

theorem links_of_spells {fs : FileSystem} {root : Path} {t : Trail} (h : fs.Spells root t) (roomy : Roomy root t)
    (wellFormed : fs.root.WellFormed) :
    links ⟨fs, .ofRoot root⟩ =
      (documentsAlong t).flatMap (foundInDocument t fun place target => isBroken fs (root.below place) target) := by
  unfold links
  rw [documents_of_spells h roomy wellFormed, List.flatMap_map]
  refine List.flatMap_congr fun place member => ?_
  obtain ⟨_, proper, content, there⟩ := file_of_mem_writtenAlong h wellFormed (List.mem_of_mem_filter member)
  unfold foundInDocument
  rw [there, h.inspectFile roomy proper there]

def brokenAt (fs : FileSystem) (repository place : List String) (target : String) : Bool :=
  !fs.pathExists (if isAbsolute ⟨target⟩ then normalize ⟨target⟩
    else below ⟨"/"⟩ (landing (repository ++ place.dropLast) (Path.mk target).parts))

/-- Followed from the root of the repository as it is spelled, every relative link leads to something
below the top without passing above it, and the path to that is not too long. -/
def LinksStay (root : Path) (t : Trail) : Prop :=
  ∀ place target, Links t place target → isAbsolute ⟨target⟩ = false →
    Stays [] (root.components ++ place.dropLast.map .name ++ (Path.mk target).parts) ∧
      landing [] (root.components ++ place.dropLast.map .name ++ (Path.mk target).parts) ≠ [] ∧
      fits (below ⟨"/"⟩ (landing (t.place ++ place.dropLast) (Path.mk target).parts)) = true

/-- A relative target of a document is resolved from the directory of the document. -/
theorem isBroken_relative (fs : FileSystem) {root : Path} {place : List String} {target : String}
    (nonempty : root.raw ≠ "") (some : place ≠ []) (proper : ∀ n ∈ place, IsName n)
    (relative : isAbsolute ⟨target⟩ = false) :
    ∃ p : Path, isBroken fs (root.below place) target = !fs.pathExists p.normalize ∧
      p.components = root.components ++ place.dropLast.map .name ++ (Path.mk target).parts ∧
      p.isAbsolute = root.isAbsolute := by
  obtain ⟨above, name, rfl⟩ := exists_concat some
  obtain ⟨dir, parent, visible, same⟩ := parent?_below nonempty proper
  have outer : ∀ n ∈ above, IsName n := fun n member => proper n (by simp [member])
  have start : dir.isAbsolute = root.isAbsolute := by
    rw [← components_below nonempty outer] at same
    rw [isAbsolute_congr same, isAbsolute_below nonempty outer]
  refine ⟨dir / ⟨target⟩, ?_, ?_, ?_⟩
  · simp [isBroken, parent]
  · rw [components_join visible relative, same, List.dropLast_concat]
  · rw [isAbsolute_join, relative, Bool.or_false, start]

theorem isBroken_absolute {fs : FileSystem} {document : Path} {target : String}
    (absolute : isAbsolute ⟨target⟩ = true) :
    isBroken fs document target = !fs.pathExists (normalize ⟨target⟩) := by
  rw [isBroken, join_of_isAbsolute absolute]

/-- A link is followed to the place it resolves to, if the spelling is absolute or no link leads above
the working directory. -/
theorem isBroken_eq_brokenAt {fs : FileSystem} {root : Path} {t : Trail} (h : fs.Spells root t)
    (wellFormed : fs.root.WellFormed) (proper : ∀ name ∈ fs.workingDir, IsName name)
    (within : root.isAbsolute = true ∨ LinksStay root t) {place : List String} {target : String}
    (links : Links t place target) : isBroken fs (root.below place) target = brokenAt fs t.place place target := by
  unfold brokenAt
  by_cases own : isAbsolute ⟨target⟩ = true
  · rw [isBroken_absolute own, if_pos own]
  · have relative : isAbsolute ⟨target⟩ = false := by simpa using own
    obtain ⟨some, named, _⟩ := file_of_mem_writtenAlong h wellFormed (List.mem_of_mem_filter links.1)
    obtain ⟨p, verdict, reached, start⟩ := isBroken_relative fs h.raw_ne_empty some named relative
    rw [verdict, if_neg own]
    by_cases absolute : root.isAbsolute = true
    · rw [normalize_absolute (start.trans absolute), reached, landing_append, landing_append, landing_names,
        h.landing_absolute absolute]
    · have below : root.isAbsolute = false := by simpa using absolute
      obtain ⟨stays, visible, room⟩ := (within.resolve_left absolute) place target links relative
      rw [← reached] at stays visible
      rw [below] at start
      have inner := root_not_mem_components start
      have same := landing_append_of_stays fs.workingDir inner stays
      have whole : fs.workingDir ++ landing [] p.components =
          landing (t.place ++ place.dropLast) (Path.mk target).parts := by
        rw [← same, List.append_nil, reached, landing_append, landing_append, h.landing_relative below proper,
          landing_names]
      have names : ∀ n ∈ fs.workingDir ++ landing [] p.components, IsName n := by
        intro n member
        rcases List.mem_append.mp member with outer | inner
        · exact proper n outer
        · exact isName_landing_components p n inner
      rw [← whole] at room ⊢
      rw [normalize_relative start visible, pathExists, pathExists, node?_from_workingDir visible names room]

end Check.References

end Conformance
