import Conformance.Check.Layering
import Conformance.Proofs.Path.Resolution

namespace Conformance

open Path

theorem Text.afterLead?_append_left {α : Type} [DecidableEq α] (front lead s : List α) :
    afterLead? (front ++ lead) (front ++ s) = afterLead? lead s := by
  induction front with
  | nil => rfl
  | cons a front ih => simpa [afterLead?] using ih

theorem Text.afterLead?_map {α β : Type} [DecidableEq α] [DecidableEq β] {f : α → β}
    (injective : ∀ a b, f a = f b → a = b) (lead s : List α) :
    afterLead? (lead.map f) (s.map f) = (afterLead? lead s).map (List.map f) := by
  induction lead generalizing s with
  | nil => rfl
  | cons a lead ih =>
    cases s with
    | nil => rfl
    | cons c s =>
      by_cases same : a = c
      · simp [afterLead?, same, ih]
      · have differ : f a ≠ f c := fun h => same (injective a c h)
        simp [afterLead?, same, differ]

namespace Layer

/-- The layer that a place belongs to, given the place of the functions: it lies inside the layer's
directory. -/
def ofPlace? (functions place : List String) : Option Layer :=
  match Text.afterLead? functions place with
  | some (first :: _ :: _) => ofDir? first
  | _ => none

theorem ofDir?_dir (layer : Layer) : ofDir? layer.dir = some layer := by
  cases layer <;> decide

theorem dir_of_ofDir? {name : String} {layer : Layer} (h : ofDir? name = some layer) : layer.dir = name := by
  have found := List.find?_some h
  simpa using found

/-- A place belongs to a layer exactly if it lies strictly inside the layer's directory. -/
theorem ofPlace?_eq_some_iff {functions place : List String} {layer : Layer} :
    ofPlace? functions place = some layer ↔
      ∃ next rest, place = functions ++ layer.dir :: next :: rest := by
  unfold ofPlace?
  constructor
  · intro h
    split at h
    · rename_i first next rest lead
      rw [Text.afterLead?_eq_some_iff] at lead
      exact ⟨next, rest, dir_of_ofDir? h ▸ lead⟩
    · cases h
  · rintro ⟨next, rest, rfl⟩
    have lead : Text.afterLead? functions (functions ++ layer.dir :: next :: rest) =
        some (layer.dir :: next :: rest) := Text.afterLead?_eq_some_iff.mpr rfl
    rw [lead]
    exact ofDir?_dir layer

theorem ofPath?_of_names {functions p : Path} {lead : List Component} {place target : List String}
    (own : functions.components = lead ++ place.map .name)
    (reached : p.components = lead ++ target.map .name) : ofPath? functions p = ofPlace? place target := by
  have injective : ∀ a b, Component.name a = Component.name b → a = b := fun _ _ h => Component.name.inj h
  have lead_off : Text.afterLead? functions.components p.components =
      Text.afterLead? (place.map .name) (target.map Component.name) := by
    rw [own, reached, Text.afterLead?_append_left]
  unfold ofPath? ofPlace?
  rw [lead_off, Text.afterLead?_map injective]
  cases Text.afterLead? place target with
  | none => rfl
  | some rest =>
    match rest with
    | [] => rfl
    | [_] => rfl
    | _ :: _ :: _ => rfl

theorem ofPath?_normalize_of_dotted {functions : Path} (dotted : functions.Dotted) (p : Path) :
    ofPath? functions p.normalize = none := by
  have apart : Text.afterLead? functions.components p.normalize.components = none := by
    cases lead : Text.afterLead? functions.components p.normalize.components with
    | none => rfl
    | some rest =>
      have clean := not_dotted_normalize p
      rw [Dotted, Text.afterLead?_eq_some_iff.mp lead, List.mem_append, List.mem_append] at clean
      exact absurd (dotted.imp Or.inl Or.inl) clean
  simp [ofPath?, apart]

end Layer

namespace Check.Layering

theorem isRelative_isAbsolute {i : Source.Import} (relative : i.isRelative = true) :
    (Path.mk i.specifier).isAbsolute = false := by
  unfold Source.Import.isRelative Text.startsWith at relative
  unfold isAbsolute Text.startsWith
  cases text : i.specifier.toList with
  | nil => rfl
  | cons c rest =>
    rw [text] at relative
    simp only [String.reduceToList, List.isPrefixOf_cons_cons, List.isPrefixOf_nil_left, Bool.and_true,
      beq_iff_eq] at relative ⊢
    simp [← relative]

theorem exists_resolved {functions : Path} {above : List String} {name : String} (nonempty : functions.raw ≠ "")
    (proper : ∀ n ∈ above ++ [name], IsName n) {i : Source.Import} (relative : i.isRelative = true) :
    ∃ p : Path, targetOf? functions (functions.below (above ++ [name])) i = Layer.ofPath? functions p.normalize ∧
      p.components = functions.components ++ above.map .name ++ (Path.mk i.specifier).parts := by
  obtain ⟨dir, parent, visible, same⟩ := parent?_below nonempty proper
  refine ⟨dir / ⟨i.specifier⟩, ?_, ?_⟩
  · simp [targetOf?, relative, parent]
  · rw [components_join visible (isRelative_isAbsolute relative), same]

/-- Where the functions are named without dots, from the root or from the working directory, an import
leads into the layer that holds the place it resolves to. -/
theorem targetOf?_of_plain {functions : Path} {lead : List Component} {place above : List String} {name : String}
    (top : lead = [] ∨ lead = [.root]) (own : functions.components = lead ++ place.map .name)
    (nonempty : functions.raw ≠ "") (proper : ∀ n ∈ above ++ [name], IsName n) {i : Source.Import}
    (relative : i.isRelative = true) :
    targetOf? functions (functions.below (above ++ [name])) i =
      Layer.ofPlace? place (landing (place ++ above) (Path.mk i.specifier).parts) := by
  obtain ⟨p, target, reached⟩ := exists_resolved nonempty proper relative
  rw [target]
  apply Layer.ofPath?_of_names own
  rw [own] at reached
  rcases top with rfl | rfl
  · have inner : p.isAbsolute ≠ true := by
      rw [ne_eq, isAbsolute_iff_root_mem, reached]
      simp [root_not_mem_parts]
    rw [components_normalize, if_neg inner, reached]
    simp
  · have absolute : p.isAbsolute = true := isAbsolute_iff_root_mem.mpr (by simp [reached])
    rw [components_normalize, if_pos absolute, reached]
    simp [placeAfter]

theorem targetOf?_of_dotted {functions : Path} (dotted : functions.Dotted) (source : Path) (i : Source.Import) :
    targetOf? functions source i = none := by
  unfold targetOf?
  split
  · cases source.parent? with
    | none => rfl
    | some base => exact Layer.ofPath?_normalize_of_dotted dotted _
  · rfl

end Check.Layering

end Conformance
