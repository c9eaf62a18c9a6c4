import Conformance.Proofs.Check.Target
import Conformance.Proofs.Layout.Inspection

namespace Conformance

open Path FileSystem

namespace Path

def Stays : List String → List Component → Prop
  | _, [] => True
  | place, c :: rest => (c = .up → place ≠ []) ∧ Stays (placeAfter place c) rest

theorem stays_append {place : List String} {front back : List Component} :
    Stays place (front ++ back) ↔ Stays place front ∧ Stays (landing place front) back := by
  induction front generalizing place with
  | nil => simp [Stays]
  | cons c front ih => simp [Stays, ih, and_assoc]

theorem landing_append_of_stays (front : List String) {place : List String} {components : List Component}
    (inner : .root ∉ components) (stays : Stays place components) :
    landing (front ++ place) components = front ++ landing place components := by
  induction components generalizing place with
  | nil => rfl
  | cons c rest ih =>
    have step : placeAfter (front ++ place) c = front ++ placeAfter place c := by
      cases c with
      | root => simp at inner
      | here => rfl
      | name text => simp [placeAfter]
      | up => exact List.dropLast_append_of_ne_nil (stays.1 rfl)
    rw [landing_cons, landing_cons, step, ih (fun member => inner (by simp [member])) stays.2]

end Path

namespace Check.Layering

def functionsPlace : List String :=
  ["packages", "functions", "src"]

theorem isName_functionsPlace : ∀ name ∈ functionsPlace, IsName name := by
  decide

theorem functions_ofRoot {root : Path} (nonempty : root.raw ≠ "") :
    (Layout.ofRoot root).functions = root.below functionsPlace := by
  have spelled : "packages/functions/src" = "/".intercalate functionsPlace := by decide
  rw [← join_intercalate nonempty (by decide) isName_functionsPlace, ← spelled]
  rfl

def rules : WalkRules :=
  { skipped := skipping ["__tests__", "test-utils"] }

def sources (t : Trail) : List Place :=
  filesAlong t rules isSourceName functionsPlace

def verdict (layer : Layer) (file : String) (i : Source.Import) : Option Layer → Option Violation
  | some target => if layer.allows target then none else some (violation file layer target i)
  | none => none

def foundIn (t : Trail) (target : Place → Source.Import → Option Layer) (p : Place) : List Violation :=
  match Layer.ofPlace? [] p.names, nodeAlong t (functionsPlace ++ p.names) with
  | some layer, some node =>
    findings (fun file text => (Source.Import.ofText text).filterMap fun i => verdict layer file i (target p i))
      ("/".intercalate (functionsPlace ++ p.names)) node
  | _, _ => []

def Imports (t : Trail) (p : Place) (i : Source.Import) : Prop :=
  p ∈ sources t ∧ (Layer.ofPlace? [] p.names).isSome = true ∧
    ∃ node text, nodeAlong t (functionsPlace ++ p.names) = some node ∧ textOf node = .ok text ∧
      i ∈ Source.Import.ofText text

theorem foundIn_congr {t : Trail} {target target' : Place → Source.Import → Option Layer} {p : Place}
    (member : p ∈ sources t) (same : ∀ i, Imports t p i → target p i = target' p i) :
    foundIn t target p = foundIn t target' p := by
  unfold foundIn
  split
  · rename_i layer node inside there
    unfold findings
    split
    · rename_i text decoded
      apply List.filterMap_congr
      intro i imported
      rw [same i ⟨member, by simp [inside], node, text, there, decoded, imported⟩]
    · rfl
  · rfl

def taken (root : Path) (p : Place) (i : Source.Import) : Option Layer :=
  targetOf? (root.below functionsPlace) ((root.below functionsPlace).below p.names) i

/-- What the check finds under a spelling of the root, source by source. -/
theorem find_of_spells {fs : FileSystem} {root : Path} {t : Trail} (h : fs.Spells root t) (roomy : Roomy root t)
    (wellFormed : fs.root.WellFormed) :
    find ⟨fs, .ofRoot root⟩ = (sources t).flatMap (foundIn t (taken root)) := by
  have functions := functions_ofRoot h.raw_ne_empty
  have walked : fs.sourceFiles (skipping ["__tests__", "test-utils"]) (root.below functionsPlace) =
      (sources t).map fun p => root.below (functionsPlace ++ p.names) :=
    h.collectFiles roomy ["packages", "functions"] isName_functionsPlace rules (by decide)
  unfold find
  simp only [functions, walked, List.flatMap_map]
  apply List.flatMap_congr
  intro p member
  obtain ⟨proper, content, there⟩ := h.file_of_mem_filesAlong wellFormed member
  have whole : ∀ n ∈ functionsPlace ++ p.names, IsName n := by
    intro n member
    rcases List.mem_append.mp member with member | member
    · exact isName_functionsPlace n member
    · exact proper n member
  have nonempty := raw_below_ne_empty h.raw_ne_empty isName_functionsPlace
  have layer : Layer.ofPath? (root.below functionsPlace) (root.below (functionsPlace ++ p.names)) =
      Layer.ofPlace? [] p.names := by
    have own : (root.below (functionsPlace ++ p.names)).components =
        (root.below functionsPlace).components ++ p.names.map .name := by
      rw [below_append, components_below nonempty proper]
    exact Layer.ofPath?_of_names (by simp) own
  unfold foundIn
  rw [layer, there]
  cases Layer.ofPlace? [] p.names with
  | none => rfl
  | some layer =>
    dsimp only
    rw [h.inspectFile roomy whole there, below_append]
    rfl

def targetAt (place : List String) (p : Place) (i : Source.Import) : Option Layer :=
  if i.isRelative then
    Layer.ofPlace? (place ++ functionsPlace) (landing (place ++ functionsPlace ++ p.above) (Path.mk i.specifier).parts)
  else none

theorem taken_of_plain {root : Path} {names : List String} {p : Place} (nonempty : root.raw ≠ "")
    (own : root.components = (if root.isAbsolute then [.root] else []) ++ names.map .name)
    (proper : ∀ n ∈ p.names, IsName n) (i : Source.Import) : taken root p i = targetAt names p i := by
  unfold taken targetAt
  by_cases relative : i.isRelative = true
  · have functions : (root.below functionsPlace).components =
        (if root.isAbsolute then [.root] else []) ++ (names ++ functionsPlace).map .name := by
      rw [components_below nonempty isName_functionsPlace, own, List.map_append, List.append_assoc]
    rw [if_pos relative]
    refine targetOf?_of_plain ?_ functions (raw_below_ne_empty nonempty isName_functionsPlace) proper relative
    cases root.isAbsolute <;> simp
  · simp [targetOf?, relative]

theorem taken_of_dotted {root : Path} (nonempty : root.raw ≠ "") (dotted : root.Dotted) (p : Place)
    (i : Source.Import) : taken root p i = none := by
  apply targetOf?_of_dotted
  rw [Dotted, components_below nonempty isName_functionsPlace]
  exact dotted.imp (List.mem_append_left _) (List.mem_append_left _)

theorem Layer.ofPlace?_append (front functions place : List String) :
    Layer.ofPlace? (front ++ functions) (front ++ place) = Layer.ofPlace? functions place := by
  simp only [Layer.ofPlace?, Text.afterLead?_append_left]

theorem targetAt_append {names : List String} {p : Place} {i : Source.Import} (front : List String)
    (stays : Stays (names ++ functionsPlace ++ p.above) (Path.mk i.specifier).parts) :
    targetAt (front ++ names) p i = targetAt names p i := by
  have reached := landing_append_of_stays front (root_not_mem_parts _) stays
  simp only [← List.append_assoc] at reached
  unfold targetAt
  rw [reached, List.append_assoc front names, Layer.ofPlace?_append]

/-- Followed from the root of the repository as it is spelled, no import of a source that belongs to a
layer leads above the top. -/
def ImportsStay (root : Path) (t : Trail) : Prop :=
  ∀ p i, Imports t p i → i.isRelative = true →
    Stays [] (root.components ++ (functionsPlace ++ p.above).map .name ++ (Path.mk i.specifier).parts)

/-- A spelling without dots is read like the place itself, if it is absolute or no import leads above
the working directory. -/
theorem taken_eq_targetAt {fs : FileSystem} {root : Path} {t : Trail} (h : fs.Spells root t)
    (wellFormed : fs.root.WellFormed) (proper : ∀ name ∈ fs.workingDir, IsName name) (plain : ¬ root.Dotted)
    (within : root.isAbsolute = true ∨ ImportsStay root t) {p : Place} {i : Source.Import} (imports : Imports t p i) :
    taken root p i = targetAt t.place p i := by
  obtain ⟨names, own⟩ := components_of_plain plain
  have places := (h.file_of_mem_filesAlong wellFormed imports.1).1
  rw [taken_of_plain h.raw_ne_empty own places]
  by_cases absolute : root.isAbsolute = true
  · rw [if_pos absolute, List.singleton_append] at own
    have same := h.landing_absolute absolute
    rw [own, landing_cons, landing_names] at same
    rw [← same]
    rfl
  · rw [if_neg absolute, List.nil_append] at own
    have same := h.landing_relative (by simpa using absolute) proper
    rw [own, landing_names] at same
    by_cases relative : i.isRelative = true
    · have stays := (within.resolve_left absolute) p i imports relative
      rw [stays_append, own, ← List.map_append, landing_names, List.nil_append, ← List.append_assoc] at stays
      rw [← same, targetAt_append fs.workingDir stays.2]
    · simp [targetAt, relative]

def Obeyed (t : Trail) : Prop :=
  ∀ p i, Imports t p i → ∀ layer target, Layer.ofPlace? [] p.names = some layer →
    targetAt t.place p i = some target → layer.allows target = true

theorem foundIn_blind (t : Trail) (target : Place → Source.Import → Option Layer) (p : Place) :
    foundIn t target p = foundIn t (fun _ _ => none) p ∨
      foundIn t (fun _ _ => none) p = [] ∧ foundIn t target p ≠ [] := by
  unfold foundIn
  split
  · unfold findings
    split
    · have blind : ∀ (layer : Layer) (file : String) (imports : List Source.Import),
          (imports.filterMap fun i => verdict layer file i none) = [] := by simp [verdict]
      dsimp only
      rw [blind]
      exact (Classical.em _).imp_right fun some => ⟨rfl, some⟩
    · exact Or.inl rfl
  · exact Or.inl rfl

theorem foundIn_eq_blind_iff {t : Trail} {p : Place} (member : p ∈ sources t) :
    foundIn t (targetAt t.place) p = foundIn t (fun _ _ => none) p ↔
      ∀ i, Imports t p i → ∀ layer target, Layer.ofPlace? [] p.names = some layer →
        targetAt t.place p i = some target → layer.allows target = true := by
  constructor
  · intro same i imports layer target inside leads
    obtain ⟨_, _, node, text, there, decoded, listed⟩ := imports
    have nothing : ((Source.Import.ofText text).filterMap fun i => verdict layer
        ("/".intercalate (functionsPlace ++ p.names)) i (targetAt t.place p i)) = [] := by
      simpa [foundIn, inside, there, findings, decoded, verdict] using same
    have silent := (List.filterMap_eq_nil_iff.mp nothing) i listed
    rw [leads] at silent
    simpa [verdict] using silent
  · intro allowed
    unfold foundIn
    split
    · rename_i layer node inside there
      unfold findings
      split
      · rename_i text decoded
        apply List.filterMap_congr
        intro i listed
        have imports : Imports t p i := ⟨member, by simp [inside], node, text, there, decoded, listed⟩
        cases leads : targetAt t.place p i with
        | none => rfl
        | some target => simp [verdict, allowed i imports layer target inside leads]
      · rfl
    · rfl

end Check.Layering

end Conformance
