import Conformance.Proofs.Path.Components

namespace Conformance

namespace Path

def placeAfter (place : List String) : Component → List String
  | .root => []
  | .here => place
  | .up => place.dropLast
  | .name text => place ++ [text]

def landing (place : List String) (components : List Component) : List String :=
  components.foldl placeAfter place

@[simp] theorem landing_nil (place : List String) : landing place [] = place := rfl

@[simp] theorem landing_cons (place : List String) (c : Component) (rest : List Component) :
    landing place (c :: rest) = landing (placeAfter place c) rest := rfl

@[simp] theorem landing_append (place : List String) (front back : List Component) :
    landing place (front ++ back) = landing (landing place front) back := by
  simp [landing]

@[simp] theorem landing_names (place names : List String) :
    landing place (names.map .name) = place ++ names := by
  induction names generalizing place with
  | nil => simp
  | cons name names ih => simp [placeAfter, ih]

theorem landing_components (p : Path) {place : List String} (top : p.isAbsolute = true → place = []) :
    landing place p.components = landing place p.parts := by
  obtain ⟨first, rest, cut⟩ := List.exists_cons_of_ne_nil p.segments_ne_nil
  rw [isAbsolute_iff cut] at top
  rw [components_eq cut, parts, cut, List.filterMap_cons, leadOf]
  split
  · rename_i here
    subst here
    rfl
  · split
    · rename_i absolute
      rw [top absolute, absolute.1]
      rfl
    · cases Component.ofSegment? first <;> rfl

def stacked (top : List Component) (place : List String) : List Component :=
  (place.map .name).reverse ++ top

theorem stacked_concat (top : List Component) (place : List String) (name : String) :
    stacked top (place ++ [name]) = .name name :: stacked top place := by
  simp [stacked]

theorem takeIn_stacked {top : List Component} (bare : ∀ text, top.head? ≠ some (.name text))
    (place : List String) {c : Component} (inner : c ≠ .root) :
    takeIn (stacked top place) c = stacked top (placeAfter place c) := by
  cases c with
  | root => exact absurd rfl inner
  | here => rfl
  | name text => simp [takeIn, placeAfter, stacked_concat]
  | up =>
    rcases List.eq_nil_or_concat place with rfl | ⟨front, last, rfl⟩
    · cases top with
      | nil => rfl
      | cons head tail => cases head <;> simp_all [takeIn, stacked, placeAfter]
    · rw [List.concat_eq_append, stacked_concat]
      simp [takeIn, placeAfter, stacked]

theorem foldl_takeIn_stacked (top : List Component) (bare : ∀ text, top.head? ≠ some (.name text))
    (place : List String) {components : List Component} (inner : .root ∉ components) :
    components.foldl takeIn (stacked top place) = stacked top (landing place components) := by
  induction components generalizing place with
  | nil => rfl
  | cons c rest ih =>
    have head : c ≠ .root := by
      rintro rfl
      simp at inner
    have tail : .root ∉ rest := fun member => inner (by simp [member])
    rw [List.foldl_cons, takeIn_stacked bare place head, ih _ tail, landing_cons]

theorem resolved_of_relative {components : List Component} (inner : .root ∉ components) :
    resolved components = (landing [] components).map .name := by
  have folded := foldl_takeIn_stacked [] (by simp) [] inner
  simp only [stacked, List.append_nil, List.map_nil, List.reverse_nil] at folded
  simp [resolved, folded]

theorem resolved_of_absolute {rest : List Component} (inner : .root ∉ rest) :
    resolved (.root :: rest) = .root :: (landing [] rest).map .name := by
  have folded := foldl_takeIn_stacked [.root] (by simp) [] inner
  simp only [stacked, List.map_nil, List.reverse_nil, List.nil_append] at folded
  simp [resolved, takeIn, folded]

theorem ofComponents_absolute (names : List String) :
    ofComponents (.root :: names.map .name) = below ⟨"/"⟩ names := by
  rw [ofComponents, List.foldl_cons, List.foldl_map]
  rfl

theorem ofComponents_relative (name : String) (names : List String) :
    ofComponents ((name :: names).map .name) = below ⟨name⟩ names := by
  have first : (⟨""⟩ : Path) / ⟨name⟩ = ⟨name⟩ := join_of_raw_eq rfl ⟨name⟩
  rw [ofComponents, List.map_cons, List.foldl_cons, List.foldl_map]
  change below (⟨""⟩ / ⟨name⟩) names = _
  rw [first]

theorem mem_parts {p : Path} {c : Component} (member : c ∈ p.parts) :
    c = .up ∨ ∃ name, IsName name ∧ c = .name name := by
  obtain ⟨segment, inside, stands⟩ := List.mem_filterMap.mp member
  have free := slash_not_mem_of_mem_segments inside
  unfold Component.ofSegment? at stands
  split at stands
  · cases stands
  · rename_i solid
    simp only [Bool.or_eq_true, decide_eq_true_eq, not_or] at solid
    split at stands
    · exact Or.inl (Option.some.inj stands).symm
    · rename_i notUp
      exact Or.inr ⟨segment, ⟨solid.1, solid.2, notUp, free⟩, (Option.some.inj stands).symm⟩

theorem root_not_mem_parts (p : Path) : .root ∉ p.parts := by
  intro member
  rcases mem_parts member with h | ⟨_, _, h⟩ <;> cases h

/-- The components of a path: the root first if the path is absolute, and elsewhere no root. -/
theorem components_cases (p : Path) :
    (p.isAbsolute = true ∧ ∃ rest, p.components = .root :: rest ∧ .root ∉ rest) ∨
      (p.isAbsolute = false ∧ .root ∉ p.components) := by
  obtain ⟨first, rest, cut⟩ := List.exists_cons_of_ne_nil p.segments_ne_nil
  have inner : .root ∉ rest.filterMap Component.ofSegment? := by
    intro member
    exact root_not_mem_parts p (by rw [parts, cut, List.filterMap_cons]; split <;> simp [member])
  rw [components_eq cut]
  by_cases top : first = "" ∧ rest ≠ []
  · refine Or.inl ⟨(isAbsolute_iff cut).mpr top, _, ?_, inner⟩
    simp [leadOf, top]
  · have relative : ¬ p.isAbsolute = true := fun absolute => top ((isAbsolute_iff cut).mp absolute)
    have lead : .root ∉ leadOf first rest := by
      simp only [leadOf, if_neg top, Component.ofSegment?]
      split
      · simp
      · split
        · simp
        · split <;> simp
    exact Or.inr ⟨by simpa using relative, by simp only [List.mem_append, lead, inner, or_self, not_false_iff]⟩

theorem isAbsolute_iff_root_mem {p : Path} : p.isAbsolute = true ↔ .root ∈ p.components := by
  rcases components_cases p with ⟨absolute, rest, cut, _⟩ | ⟨relative, free⟩
  · simp [absolute, cut]
  · simp [relative, free]

theorem root_not_mem_components {p : Path} (relative : p.isAbsolute = false) : .root ∉ p.components := by
  rw [← isAbsolute_iff_root_mem, relative]
  exact Bool.false_ne_true

theorem isAbsolute_congr {p q : Path} (same : p.components = q.components) : p.isAbsolute = q.isAbsolute := by
  rw [Bool.eq_iff_iff, isAbsolute_iff_root_mem, isAbsolute_iff_root_mem, same]

def Dotted (p : Path) : Prop :=
  .here ∈ p.components ∨ .up ∈ p.components

instance (p : Path) : Decidable p.Dotted :=
  inferInstanceAs (Decidable (_ ∨ _))

theorem components_of_plain {p : Path} (plain : ¬ p.Dotted) :
    ∃ names : List String, p.components = (if p.isAbsolute then [.root] else []) ++ names.map .name := by
  have named : ∀ components : List Component, .root ∉ components → .here ∉ components → .up ∉ components →
      ∃ names : List String, components = names.map .name := by
    intro components noRoot noHere noUp
    refine ⟨components.map Component.text, ?_⟩
    rw [List.map_map]
    refine (List.map_id' components).symm.trans (List.map_congr_left ?_)
    intro c member
    cases c with
    | name text => rfl
    | root | here | up => contradiction
  obtain ⟨noHere, noUp⟩ := not_or.mp plain
  rcases components_cases p with ⟨absolute, rest, cut, noRoot⟩ | ⟨relative, noRoot⟩
  · rw [cut] at noHere noUp
    obtain ⟨names, same⟩ := named rest noRoot (fun h => noHere (by simp [h])) (fun h => noUp (by simp [h]))
    exact ⟨names, by rw [cut, absolute, same]; rfl⟩
  · obtain ⟨names, same⟩ := named p.components noRoot noHere noUp
    exact ⟨names, by rw [relative, same]; rfl⟩

theorem isName_of_mem_components {p : Path} {name : String} (member : .name name ∈ p.components) :
    IsName name := by
  obtain ⟨first, rest, cut⟩ := List.exists_cons_of_ne_nil p.segments_ne_nil
  have own : .name name ∈ p.parts := by
    rw [components_eq cut] at member
    rw [parts, cut]
    rcases List.mem_append.mp member with lead | tail
    · unfold leadOf at lead
      split at lead
      · simp at lead
      · split at lead
        · simp at lead
        · simp_all
    · rw [List.filterMap_cons]
      split <;> simp [tail]
  rcases mem_parts own with h | ⟨_, isName, h⟩
  · cases h
  · cases h
    exact isName

theorem isName_of_mem_landing {components : List Component} {place : List String}
    (proper : ∀ name, .name name ∈ components → IsName name) (start : ∀ name ∈ place, IsName name) :
    ∀ name ∈ landing place components, IsName name := by
  induction components generalizing place with
  | nil => exact start
  | cons c rest ih =>
    refine ih (fun name member => proper name (by simp [member])) ?_
    intro name member
    cases c with
    | root => simp [placeAfter] at member
    | here => exact start name member
    | up => exact start name (List.dropLast_subset place member)
    | name text =>
      rcases List.mem_append.mp member with old | new
      · exact start name old
      · rw [List.mem_singleton] at new
        exact proper name (by simp [new])

theorem isName_landing_components (p : Path) : ∀ name ∈ landing [] p.components, IsName name :=
  isName_of_mem_landing (fun _ member => isName_of_mem_components member) (by simp)

theorem resolved_components (p : Path) :
    resolved p.components = (if p.isAbsolute then [.root] else []) ++ (landing [] p.components).map .name := by
  rcases components_cases p with ⟨absolute, rest, cut, inner⟩ | ⟨relative, inner⟩
  · rw [cut, resolved_of_absolute inner, absolute]
    rfl
  · rw [resolved_of_relative inner, relative]
    rfl

theorem normalize_absolute {p : Path} (absolute : p.isAbsolute = true) :
    p.normalize = below ⟨"/"⟩ (landing [] p.components) := by
  rw [normalize, resolved_components, absolute, if_pos rfl, List.singleton_append, ofComponents_absolute]

theorem normalize_relative {p : Path} (relative : p.isAbsolute = false) (some : landing [] p.components ≠ []) :
    p.normalize = ⟨"/".intercalate (landing [] p.components)⟩ := by
  have proper := isName_landing_components p
  obtain ⟨name, names, place⟩ := List.exists_cons_of_ne_nil some
  rw [place] at proper
  rw [normalize, resolved_components, relative, if_neg Bool.false_ne_true, List.nil_append, place,
    ofComponents_relative, below_name proper]

theorem components_normalize (p : Path) :
    p.normalize.components = (if p.isAbsolute then [.root] else []) ++ (landing [] p.components).map .name := by
  have proper := isName_landing_components p
  cases start : p.isAbsolute with
  | true =>
    rw [normalize_absolute start, components_below (by decide) proper]
    rfl
  | false =>
    by_cases top : landing [] p.components = []
    · rw [normalize, resolved_components, start, top]
      rfl
    · rw [normalize_relative start top, components_intercalate top proper]
      rfl

theorem not_dotted_normalize (p : Path) : ¬ p.normalize.Dotted := by
  rw [Dotted, components_normalize]
  split <;> simp

/-- Segments lead from a place to another, as far as their spelling tells: an empty segment or a dot stays,
two dots go up, where the top is above itself, and a name goes down. -/
inductive Resolves : List String → List String → List String → Prop
  | done (place : List String) : Resolves place [] place
  | stay {place rest dest : List String} {segment : String} (void : segment = "" ∨ segment = ".")
      (onward : Resolves place rest dest) : Resolves place (segment :: rest) dest
  | up {place rest dest : List String} (onward : Resolves place.dropLast rest dest) :
      Resolves place (".." :: rest) dest
  | down {place rest dest : List String} {segment : String}
      (named : segment ≠ "" ∧ segment ≠ "." ∧ segment ≠ "..")
      (onward : Resolves (place ++ [segment]) rest dest) : Resolves place (segment :: rest) dest

theorem Resolves.landing_eq {place segments dest : List String} (resolves : Resolves place segments dest) :
    landing place (segments.filterMap Component.ofSegment?) = dest := by
  induction resolves with
  | done place => rfl
  | stay void _ ih =>
    rcases void with rfl | rfl
    · exact ih
    · exact ih
  | up _ ih => exact ih
  | down named _ ih =>
    obtain ⟨visible, notHere, notUp⟩ := named
    rw [List.filterMap_cons]
    simpa [Component.ofSegment?, visible, notHere, notUp, placeAfter] using ih

end Path

end Conformance
