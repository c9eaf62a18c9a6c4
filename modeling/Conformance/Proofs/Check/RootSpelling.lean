import Conformance.Proofs.Check.LinkReading

namespace Conformance

open FileSystem

theorem length_flatMap_le {α β : Type} {f g : α → List β} {l : List α}
    (le : ∀ a ∈ l, (g a).length ≤ (f a).length) : (l.flatMap g).length ≤ (l.flatMap f).length := by
  induction l with
  | nil => simp
  | cons a l ih =>
    have head := le a (by simp)
    have tail := ih fun b member => le b (by simp [member])
    simp only [List.flatMap_cons, List.length_append]
    omega

theorem length_eq_of_length_flatMap {α β : Type} {f g : α → List β} {l : List α}
    (le : ∀ a ∈ l, (g a).length ≤ (f a).length) (same : (l.flatMap f).length = (l.flatMap g).length) :
    ∀ a ∈ l, (f a).length = (g a).length := by
  induction l with
  | nil => simp
  | cons a l ih =>
    have head := le a (by simp)
    have tail := length_flatMap_le fun b member => le b (List.mem_cons_of_mem a member)
    simp only [List.flatMap_cons, List.length_append] at same
    intro b member
    rcases List.mem_cons.mp member with rfl | member
    · omega
    · exact ih (fun c member => le c (by simp [member])) (by omega) b member

namespace Check

/-- The layer check reads the spelling like the place: it has no dots, and it is absolute or no import
leads above the working directory. -/
def ReadsImports (root : Path) (t : Trail) : Prop :=
  ¬ root.Dotted ∧ (root.isAbsolute = true ∨ Layering.ImportsStay root t)

/-- The link check reads the spelling like the place: it is absolute, or no link leads above the working
directory. -/
def ReadsLinks (root : Path) (t : Trail) : Prop :=
  root.isAbsolute = true ∨ References.LinksStay root t

theorem run_layering_eq_iff {repo repo' : Repository} :
    run repo layering = run repo' layering ↔
      (Layering.find repo).map Violation.render = (Layering.find repo').map Violation.render := by
  constructor
  · intro same
    exact congrArg CheckResult.violations same
  · intro same
    change CheckResult.ofViolations _ _ = CheckResult.ofViolations _ _
    rw [same]

theorem passed_layering (repo : Repository) : (run repo layering).passed = (Layering.find repo).isEmpty :=
  List.isEmpty_map

section Spelled

variable {fs : FileSystem} {root : Path} {t : Trail} (h : fs.Spells root t) (roomy : Roomy root t)
  (wellFormed : fs.root.WellFormed)

include h roomy wellFormed

theorem find_of_readsImports (proper : ∀ name ∈ fs.workingDir, Path.IsName name) (reads : ReadsImports root t) :
    Layering.find ⟨fs, .ofRoot root⟩ =
      (Layering.sources t).flatMap (Layering.foundIn t (Layering.targetAt t.place)) := by
  rw [Layering.find_of_spells h roomy wellFormed]
  refine List.flatMap_congr fun p member => Layering.foundIn_congr member fun i imports => ?_
  exact Layering.taken_eq_targetAt h wellFormed proper reads.1 reads.2 imports

theorem find_of_dotted (dotted : root.Dotted) :
    Layering.find ⟨fs, .ofRoot root⟩ = (Layering.sources t).flatMap (Layering.foundIn t fun _ _ => none) := by
  rw [Layering.find_of_spells h roomy wellFormed]
  refine List.flatMap_congr fun p member => Layering.foundIn_congr member fun i _ => ?_
  exact Layering.taken_of_dotted h.raw_ne_empty dotted p i

theorem links_of_readsLinks (proper : ∀ name ∈ fs.workingDir, Path.IsName name) (reads : ReadsLinks root t) :
    References.links ⟨fs, .ofRoot root⟩ =
      (References.documentsAlong t).flatMap (References.foundInDocument t (References.brokenAt fs t.place)) := by
  rw [References.links_of_spells h roomy wellFormed]
  refine List.flatMap_congr fun place member => References.foundInDocument_congr member fun target links => ?_
  exact References.isBroken_eq_brokenAt h wellFormed proper reads links

end Spelled

/-- A check that sees no import finds as much as one that sees them exactly if no import breaks a rule. -/
theorem blind_iff_obeyed (t : Trail) :
    ((Layering.sources t).flatMap (Layering.foundIn t (Layering.targetAt t.place))).map Violation.render =
        ((Layering.sources t).flatMap (Layering.foundIn t fun _ _ => none)).map Violation.render ↔
      Layering.Obeyed t := by
  constructor
  · intro same p i imports
    have lengths := congrArg List.length same
    rw [List.length_map, List.length_map] at lengths
    have shorter : ∀ p ∈ Layering.sources t, (Layering.foundIn t (fun _ _ => none) p).length ≤
        (Layering.foundIn t (Layering.targetAt t.place) p).length := by
      intro p _
      rcases Layering.foundIn_blind t (Layering.targetAt t.place) p with equal | ⟨nothing, _⟩
      · exact Nat.le_of_eq (congrArg List.length equal).symm
      · simp [nothing]
    have each := length_eq_of_length_flatMap shorter lengths p imports.1
    apply (Layering.foundIn_eq_blind_iff imports.1).mp _ i imports
    rcases Layering.foundIn_blind t (Layering.targetAt t.place) p with equal | ⟨nothing, more⟩
    · exact equal
    · rw [nothing, List.length_nil, List.length_eq_zero_iff] at each
      exact absurd each more
  · intro obeyed
    congr 1
    refine List.flatMap_congr fun p member => ?_
    exact (Layering.foundIn_eq_blind_iff member).mpr fun i imports => obeyed p i imports

/-- Under two spellings of one root, the link check gives the same result if it reads both like the
place, and so does the layer check; it also does under two spellings with dots. Under one spelling that
it reads like the place and one with dots it does exactly if no import breaks a rule. -/
theorem result_of_spellings {fs : FileSystem} {first second : Path} {t : Trail} (one : fs.Spells first t)
    (two : fs.Spells second t) (roomy : Roomy first t ∧ Roomy second t) (wellFormed : fs.root.WellFormed)
    (proper : ∀ name ∈ fs.workingDir, Path.IsName name) :
    (ReadsLinks first t → ReadsLinks second t →
        run ⟨fs, .ofRoot first⟩ documentLinks = run ⟨fs, .ofRoot second⟩ documentLinks) ∧
      (ReadsImports first t ∧ ReadsImports second t ∨ first.Dotted ∧ second.Dotted →
        run ⟨fs, .ofRoot first⟩ layering = run ⟨fs, .ofRoot second⟩ layering) ∧
      (ReadsImports first t → second.Dotted →
        (run ⟨fs, .ofRoot first⟩ layering = run ⟨fs, .ofRoot second⟩ layering ↔ Layering.Obeyed t)) := by
  refine ⟨?_, ?_, ?_⟩
  · intro reads reads'
    change CheckResult.ofViolations _ ((References.links _).map _) = .ofViolations _ ((References.links _).map _)
    rw [links_of_readsLinks one roomy.1 wellFormed proper reads, links_of_readsLinks two roomy.2 wellFormed proper reads']
  · rintro (⟨reads, reads'⟩ | ⟨dotted, dotted'⟩)
    · rw [run_layering_eq_iff, find_of_readsImports one roomy.1 wellFormed proper reads,
        find_of_readsImports two roomy.2 wellFormed proper reads']
    · rw [run_layering_eq_iff, find_of_dotted one roomy.1 wellFormed dotted, find_of_dotted two roomy.2 wellFormed dotted']
  · intro reads dotted
    rw [run_layering_eq_iff, find_of_readsImports one roomy.1 wellFormed proper reads,
      find_of_dotted two roomy.2 wellFormed dotted]
    exact blind_iff_obeyed t

def sampleRepository : Node :=
  .dir [("packages", .dir [("functions", .dir [("src", .dir [
    ("handlers", .dir [("b.ts", .file "".toUTF8)]),
    ("services", .dir [("a.ts", .file "import { x } from '../handlers/b.js';".toUTF8)])])])])]

def sampleFiles : FileSystem :=
  ⟨.dir [("repo", sampleRepository)], ["repo"]⟩

def sampleTrail : Trail :=
  ⟨sampleFiles.root, [("repo", sampleRepository)]⟩

theorem sample_spells_absolute : sampleFiles.Spells "/repo" sampleTrail :=
  ⟨by rfl, by rfl⟩

theorem sample_spells_dot : sampleFiles.Spells "." sampleTrail :=
  ⟨by rfl, by rfl⟩

theorem sample_spells_detour : sampleFiles.Spells "/repo/packages/.." sampleTrail :=
  ⟨by rfl, by rfl⟩

theorem sample_wellFormed : sampleFiles.root.WellFormed := by
  decide

theorem sample_roomy (root : Path) (short : root.raw.utf8ByteSize < 4000) : Roomy root sampleTrail := by
  have weight : sampleTrail.node.weight = 51 := by rfl
  refine roomy_of_weight (by rfl) ?_
  rw [weight, pathLimit]
  omega

theorem sample_violation_seen : (run ⟨sampleFiles, .ofRoot "/repo"⟩ layering).passed = false := by
  rw [passed_layering, find_of_readsImports sample_spells_absolute (sample_roomy "/repo" (by decide)) sample_wellFormed
    (by decide) ⟨by decide, Or.inl (by decide)⟩]
  decide +kernel

theorem sample_violation_hidden : (run ⟨sampleFiles, .ofRoot "."⟩ layering).passed = true := by
  rw [passed_layering, find_of_dotted sample_spells_dot (sample_roomy "." (by decide)) sample_wellFormed (by decide)]
  decide +kernel

theorem sample_result_of_spellings : ¬ Layering.Obeyed sampleTrail ∧
    run ⟨sampleFiles, .ofRoot "/repo"⟩ documentLinks = run ⟨sampleFiles, .ofRoot "/repo/packages/.."⟩ documentLinks := by
  have proper : ∀ name ∈ sampleFiles.workingDir, Path.IsName name := by decide
  have short : Roomy "/repo" sampleTrail := sample_roomy "/repo" (by decide)
  have absolute := sample_spells_absolute
  constructor
  · have exact_ := (result_of_spellings absolute sample_spells_dot ⟨short, sample_roomy "." (by decide)⟩
      sample_wellFormed proper).2.2 ⟨by decide, Or.inl (by decide)⟩ (by decide)
    intro obeyed
    have same := congrArg CheckResult.passed (exact_.mpr obeyed)
    rw [sample_violation_seen, sample_violation_hidden] at same
    cases same
  · exact (result_of_spellings absolute sample_spells_detour
      ⟨short, sample_roomy "/repo/packages/.." (by decide)⟩ sample_wellFormed proper).1
      (Or.inl (by decide)) (Or.inl (by decide))

theorem layering_differs_at_dot : sampleFiles.Spells "/repo" sampleTrail ∧ sampleFiles.Spells "." sampleTrail ∧
    run ⟨sampleFiles, .ofRoot "/repo"⟩ layering ≠ run ⟨sampleFiles, .ofRoot "."⟩ layering := by
  refine ⟨sample_spells_absolute, sample_spells_dot, ?_⟩
  intro same
  have passed := congrArg CheckResult.passed same
  rw [sample_violation_seen, sample_violation_hidden] at passed
  cases passed

end Check

end Conformance
