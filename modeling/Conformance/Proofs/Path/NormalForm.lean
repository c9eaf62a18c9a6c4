import Conformance.Proofs.Path.Resolution
import Mathlib.Data.List.DropRight

namespace Conformance

namespace Path

variable {p q base d r : Path}

theorem normalize_congr (start : p.isAbsolute = q.isAbsolute)
    (same : landing [] p.components = landing [] q.components) : p.normalize = q.normalize := by
  rw [normalize, normalize, resolved_components, resolved_components, start, same]

theorem ofComponents_components_normalize (p : Path) : ofComponents p.normalize.components = p.normalize := by
  rw [components_normalize, ← resolved_components]
  rfl

theorem isAbsolute_normalize (p : Path) : p.normalize.isAbsolute = p.isAbsolute := by
  rw [Bool.eq_iff_iff, isAbsolute_iff_root_mem, components_normalize]
  split <;> simp_all

theorem landing_normalize (p : Path) : landing [] p.normalize.components = landing [] p.components := by
  have top : landing [] (if p.isAbsolute then [.root] else []) = [] := by split <;> rfl
  rw [components_normalize, landing_append, top, landing_names, List.nil_append]

theorem normalize_normalize (p : Path) : p.normalize.normalize = p.normalize :=
  normalize_congr (isAbsolute_normalize p) (landing_normalize p)

theorem landing_join (relative : p.isAbsolute = false) (base : Path) :
    landing [] (base / p).components = landing (landing [] base.components) p.parts := by
  by_cases empty : base.raw = ""
  · rw [join_of_raw_eq empty, (components_eq_nil_iff base).mpr empty, landing_nil, landing_components p fun _ => rfl]
  · rw [components_join empty relative, landing_append]

theorem normalize_join (base p : Path) : (base / p).normalize = (base.normalize / p).normalize := by
  cases start : p.isAbsolute with
  | true => rw [join_of_isAbsolute start, join_of_isAbsolute start]
  | false =>
    apply normalize_congr
    · rw [isAbsolute_join, isAbsolute_join, isAbsolute_normalize]
    · rw [landing_join start, landing_join start, landing_normalize]

def climbing (k : Nat) (p : Path) : Path :=
  ⟨String.join (List.replicate k "../") ++ p.raw⟩

def depth (p : Path) : Nat :=
  (p.components.filter (· ≠ .root)).length

theorem segments_climbing (k : Nat) (p : Path) : (climbing k p).segments = List.replicate k ".." ++ p.segments := by
  induction k with
  | zero => simp [climbing]
  | succ k ih =>
    have written : climbing (k + 1) p = ⟨".." ++ "/" ++ (climbing k p).raw⟩ := by
      simp [climbing, List.replicate_succ, String.append_assoc]
    rw [written, segments_slash, ih, List.replicate_succ]
    rfl

theorem parts_climbing (k : Nat) (p : Path) : (climbing k p).parts = List.replicate k .up ++ p.parts := by
  have up : Component.ofSegment? ".." = some .up := by decide
  rw [parts, segments_climbing, List.filterMap_append, List.filterMap_replicate_of_some up]
  rfl

theorem isAbsolute_climbing (relative : p.isAbsolute = false) (k : Nat) : (climbing k p).isAbsolute = false := by
  cases k with
  | zero => simpa [climbing] using relative
  | succ k =>
    have cut := segments_climbing (k + 1) p
    rw [List.replicate_succ, List.cons_append] at cut
    have : (climbing (k + 1) p).isAbsolute ≠ true := by simp [isAbsolute_iff cut]
    simpa using this

theorem landing_replicate_up (place : List String) (k : Nat) : landing place (List.replicate k .up) = place.rdrop k := by
  induction k generalizing place with
  | zero => simp
  | succ k ih =>
    rw [List.replicate_succ, landing_cons, placeAfter, ih, List.rdrop, List.rdrop, List.dropLast_eq_take,
      List.take_take, List.length_take]
    congr 1
    omega

theorem rdrop_min_cons {α : Type} (a : α) (l : List α) (k : Nat) : (a :: l).rdrop (min k l.length) = a :: l.rdrop k := by
  have count : (a :: l).length - min k l.length = l.length - k + 1 := by
    rw [List.length_cons]
    omega
  rw [List.rdrop, count, List.take_succ_cons, List.rdrop]

/-- Steps up from a directory without dots take back its last names, as far as there are any. -/
theorem components_normalize_climbing (absolute : d.isAbsolute = true) (plain : ¬ d.Dotted)
    (relative : r.isAbsolute = false) (plain' : ¬ r.Dotted) (k : Nat) :
    (d / climbing k r).normalize.components = d.components.rdrop (min k d.depth) ++ r.components := by
  obtain ⟨above, own⟩ := components_of_plain plain
  obtain ⟨names, own'⟩ := components_of_plain plain'
  rw [absolute, if_pos rfl, List.singleton_append] at own
  rw [relative, if_neg Bool.false_ne_true, List.nil_append] at own'
  have deep : d.depth = (above.map Component.name).length := by
    rw [depth, own, List.filter_cons_of_neg (by simp), List.filter_eq_self.mpr (by simp)]
  have reached : landing [] (d / climbing k r).components = above.rdrop k ++ names := by
    rw [landing_join (isAbsolute_climbing relative k), parts_climbing, landing_append, landing_replicate_up,
      ← landing_components r (by simp [relative]), own', landing_names, own, landing_cons, landing_names]
    rfl
  rw [components_normalize, isAbsolute_join, absolute, reached, own, own', deep, rdrop_min_cons]
  simp [List.rdrop]

/-- Normalisation leaves no dots and the root where it is, and does nothing more when it is done again, also in front of
another path. Steps up from an absolute directory without dots take back its last names, as far as there are any, and what
is written behind the steps follows. -/
theorem normalize_laws :
    (∀ p : Path, ¬ p.normalize.Dotted ∧ p.normalize.isAbsolute = p.isAbsolute ∧ p.normalize.normalize = p.normalize) ∧
    (∀ a b : Path, (a / b).normalize = (a.normalize / b).normalize) ∧
    ∀ (d r : Path) (k : Nat), d.isAbsolute = true → ¬ d.Dotted → r.isAbsolute = false → ¬ r.Dotted →
      (d / climbing k r).normalize.components = d.components.rdrop (min k d.depth) ++ r.components ∧
      (d / climbing k r).normalize = ofComponents (d.components.rdrop (min k d.depth) ++ r.components) := by
  refine ⟨fun p => ⟨not_dotted_normalize p, isAbsolute_normalize p, normalize_normalize p⟩, normalize_join, ?_⟩
  intro d r k absolute plain relative plain'
  have same := components_normalize_climbing absolute plain relative plain' k
  exact ⟨same, by rw [← same, ofComponents_components_normalize]⟩

theorem normalize_laws_above :
    let d : Path := "/repo//src/services/"
    let r : Path := "handlers//b.ts"
    d.isAbsolute = true ∧ ¬ d.Dotted ∧ r.isAbsolute = false ∧ ¬ r.Dotted ∧
    (d / "../../handlers//b.ts").normalize = "/repo/handlers/b.ts" ∧
    (d / "../../../../../handlers//b.ts").normalize = "/handlers/b.ts" := by
  intro d r
  have absolute : d.isAbsolute = true := by decide
  have plain : ¬ d.Dotted := by decide
  have relative : r.isAbsolute = false := by decide
  have plain' : ¬ r.Dotted := by decide
  have two := (normalize_laws.2.2 d r 2 absolute plain relative plain').2
  have five := (normalize_laws.2.2 d r 5 absolute plain relative plain').2
  exact ⟨absolute, plain, relative, plain', two.trans (by decide), five.trans (by decide)⟩

end Path

end Conformance
