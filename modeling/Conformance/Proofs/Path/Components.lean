import Conformance.Path.Basic
import Conformance.Text.Pieces

namespace Conformance

namespace Path

/-- The text can be the name of an entry: it is not empty, no dots, and has no slash. -/
def IsName (text : String) : Prop :=
  text ≠ "" ∧ text ≠ "." ∧ text ≠ ".." ∧ '/' ∉ text.toList

instance (text : String) : Decidable (IsName text) :=
  inferInstanceAs (Decidable (_ ∧ _ ∧ _ ∧ _))

def parts (p : Path) : List Component :=
  p.segments.filterMap Component.ofSegment?

def below (base : Path) (names : List String) : Path :=
  names.foldl (fun p name => p / ⟨name⟩) base

theorem div_eq_join (base p : Path) : base / p = base.join p := rfl

theorem below_append (base : Path) (names more : List String) :
    base.below (names ++ more) = (base.below names).below more := by
  simp [below]

theorem segments_ne_nil (p : Path) : p.segments ≠ [] := by
  simp [segments, Text.split_ne_nil]

theorem slash_not_mem_of_mem_segments {p : Path} {segment : String} (member : segment ∈ p.segments) :
    '/' ∉ segment.toList := by
  obtain ⟨piece, cut, rfl⟩ := List.mem_map.mp member
  intro slash
  have free := Text.not_stops_of_mem_split _ _ piece cut '/' (by simpa using slash)
  simp at free

theorem segments_slash (a b : String) :
    segments ⟨a ++ "/" ++ b⟩ = segments ⟨a⟩ ++ segments ⟨b⟩ := by
  have cut : Text.split (· == '/') (a.toList ++ '/' :: b.toList) =
      Text.split (· == '/') a.toList ++ Text.split (· == '/') b.toList :=
    Text.split_append_stop rfl a.toList b.toList
  simp only [segments, String.toList_append, List.append_assoc]
  change List.map String.ofList (Text.split (· == '/') (a.toList ++ '/' :: b.toList)) = _
  rw [cut, List.map_append]

theorem segments_of_free {a : String} (free : '/' ∉ a.toList) : segments ⟨a⟩ = [a] := by
  have none : ∀ c ∈ a.toList, (c == '/') = false := by
    intro c member
    simp only [beq_eq_false_iff_ne]
    rintro rfl
    exact free member
  simp [segments, Text.split_of_free none]

theorem isAbsolute_iff {p : Path} {first : String} {rest : List String} (cut : p.segments = first :: rest) :
    p.isAbsolute = true ↔ first = "" ∧ rest ≠ [] := by
  obtain ⟨raw⟩ := p
  cases text : raw.toList with
  | nil =>
    simp only [segments, text, Text.split, List.map_cons, List.map_nil, List.cons.injEq] at cut
    simp [isAbsolute, Text.startsWith, text, ← cut.2]
  | cons c s =>
    have nonempty := Text.split_ne_nil (· == '/') s
    by_cases slash : c = '/'
    · subst slash
      simp [segments, Text.split, text] at cut
      simp [isAbsolute, Text.startsWith, text, ← cut.1, ← cut.2, nonempty]
    · cases pieces : Text.split (· == '/') s with
      | nil => exact absurd pieces nonempty
      | cons piece pieces' =>
        simp only [segments, Text.split, text, slash, beq_iff_eq, if_false, pieces, List.map_cons,
          List.cons.injEq] at cut
        simp [isAbsolute, Text.startsWith, text, Ne.symm slash, ← cut.1]

def leadOf (first : String) (rest : List String) : List Component :=
  if first = "." then [.here]
  else if first = "" ∧ rest ≠ [] then [.root]
  else (Component.ofSegment? first).toList

theorem components_eq {p : Path} {first : String} {rest : List String}
    (cut : p.segments = first :: rest) :
    p.components = leadOf first rest ++ rest.filterMap Component.ofSegment? := by
  simp only [components, cut, leadOf, ← isAbsolute_iff cut]

theorem raw_eq_of_segments {p : Path} (alone : p.segments = [""]) : p.raw = "" := by
  have absolute : p.isAbsolute ≠ true := by simp [isAbsolute_iff alone]
  obtain ⟨raw⟩ := p
  cases text : raw.toList with
  | nil => simpa using text
  | cons c s =>
    exfalso
    have slash : c ≠ '/' := by
      rintro rfl
      simp [isAbsolute, Text.startsWith, text] at absolute
    have nonempty := Text.split_ne_nil (· == '/') s
    cases cut : Text.split (· == '/') s with
    | nil => exact nonempty cut
    | cons piece pieces => simp [segments, text, Text.split, slash, cut] at alone

/-- What stands behind a path follows its segments, except that a slash at its end is not counted
twice. -/
theorem segments_join {base p : Path} (nonempty : base.raw ≠ "") (relative : p.isAbsolute = false) :
    ∃ front, front ≠ [] ∧ (base / p).segments = front ++ p.segments ∧
      (base.segments = front ∨ base.segments = front ++ [""] ) := by
  have joined : base / p = if Text.endsWith base.raw.toList "/" then ⟨base.raw ++ p.raw⟩
      else ⟨base.raw ++ "/" ++ p.raw⟩ := by
    simp [div_eq_join, join, relative, nonempty]
  by_cases ends : Text.endsWith base.raw.toList "/" = true
  · have suffix : ['/'] <:+ base.raw.toList := by
      simpa [Text.endsWith, List.isSuffixOf_iff_suffix] using ends
    obtain ⟨before, same⟩ := suffix
    have text : base.raw = String.ofList before ++ "/" := by
      apply String.toList_inj.mp
      simp [← same]
    refine ⟨segments ⟨String.ofList before⟩, segments_ne_nil _, ?_, Or.inr ?_⟩
    · rw [joined, if_pos ends, text, segments_slash]
    · have written : base = ⟨String.ofList before ++ "/" ++ ""⟩ := by
        obtain ⟨raw⟩ := base
        simpa using text
      rw [written, segments_slash]
      rfl
  · refine ⟨base.segments, segments_ne_nil _, ?_, Or.inl rfl⟩
    rw [joined, if_neg ends, segments_slash]

theorem join_of_isAbsolute {p : Path} (absolute : p.isAbsolute = true) (base : Path) : base / p = p := by
  simp [div_eq_join, join, absolute]

theorem join_of_raw_eq {base : Path} (empty : base.raw = "") (p : Path) : base / p = p := by
  simp [div_eq_join, join, empty]

theorem isAbsolute_join (base p : Path) : (base / p).isAbsolute = (base.isAbsolute || p.isAbsolute) := by
  cases start : p.isAbsolute with
  | true => rw [join_of_isAbsolute start, start, Bool.or_true]
  | false =>
    rw [Bool.or_false]
    by_cases empty : base.raw = ""
    · rw [join_of_raw_eq empty, start]
      simp [isAbsolute, empty, Text.startsWith]
    · obtain ⟨front, some, joined, own⟩ := segments_join empty start
      obtain ⟨first, rest, rfl⟩ := List.exists_cons_of_ne_nil some
      have alone : base.segments ≠ [""] := fun alone => empty (raw_eq_of_segments alone)
      rw [List.cons_append] at joined own
      rcases own with own | own
      · rw [Bool.eq_iff_iff, isAbsolute_iff joined, isAbsolute_iff own]
        simp_all [segments_ne_nil]
      · rw [Bool.eq_iff_iff, isAbsolute_iff joined, isAbsolute_iff own]
        simp [segments_ne_nil]

theorem leadOf_congr {first : String} {rest more : List String} (longer : first = "" → rest ≠ [])
    (longer' : first = "" → more ≠ []) : leadOf first rest = leadOf first more := by
  by_cases visible : first = ""
  · simp [leadOf, visible, longer visible, longer' visible]
  · simp [leadOf, visible]

theorem components_of_front {base : Path} {first : String} {rest more : List String} (nonempty : base.raw ≠ "")
    (own : base.segments = first :: rest ∨ base.segments = first :: (rest ++ [""])) (longer : first = "" → more ≠ []) :
    base.components = leadOf first more ++ rest.filterMap Component.ofSegment? := by
  rcases own with own | own
  · have some : first = "" → rest ≠ [] := by
      rintro visible rfl
      exact nonempty (raw_eq_of_segments (visible ▸ own))
    rw [components_eq own, leadOf_congr some longer]
  · rw [components_eq own, leadOf_congr (by simp) longer, List.filterMap_append]
    simp [Component.ofSegment?]

theorem components_join {base p : Path} (nonempty : base.raw ≠ "") (relative : p.isAbsolute = false) :
    (base / p).components = base.components ++ p.parts := by
  obtain ⟨front, some, joined, own⟩ := segments_join nonempty relative
  obtain ⟨first, rest, rfl⟩ := List.exists_cons_of_ne_nil some
  rw [List.cons_append] at joined own
  rw [components_eq joined, List.filterMap_append, ← List.append_assoc,
    ← components_of_front nonempty own (by simp [segments_ne_nil])]
  rfl

theorem isName_parts {name : String} (h : IsName name) : parts ⟨name⟩ = [.name name] := by
  obtain ⟨visible, notHere, notUp, free⟩ := h
  simp [parts, segments_of_free free, Component.ofSegment?, visible, notHere, notUp]

theorem IsName.relative {name : String} (h : IsName name) : isAbsolute ⟨name⟩ = false := by
  obtain ⟨visible, _, _, free⟩ := h
  have : isAbsolute ⟨name⟩ ≠ true := by simp [isAbsolute_iff (segments_of_free free)]
  simpa using this

theorem raw_join_ne_empty {base p : Path} (nonempty : base.raw ≠ "") (relative : p.isAbsolute = false) :
    (base / p).raw ≠ "" := by
  rw [div_eq_join, join]
  simp only [relative, nonempty, Bool.false_or, decide_false, Bool.false_eq_true, if_false]
  split
  · intro empty
    exact nonempty (String.append_eq_empty_iff.mp empty).1
  · intro empty
    exact nonempty (String.append_eq_empty_iff.mp (String.append_eq_empty_iff.mp empty).1).1

theorem raw_below_ne_empty {base : Path} {names : List String} (nonempty : base.raw ≠ "")
    (proper : ∀ name ∈ names, IsName name) : (base.below names).raw ≠ "" := by
  induction names generalizing base with
  | nil => exact nonempty
  | cons name names ih =>
    have first := proper name (by simp)
    exact ih (raw_join_ne_empty nonempty first.relative) fun n member => proper n (by simp [member])

theorem components_below {base : Path} {names : List String} (nonempty : base.raw ≠ "")
    (proper : ∀ name ∈ names, IsName name) :
    (base.below names).components = base.components ++ names.map .name := by
  induction names generalizing base with
  | nil => simp [below]
  | cons name names ih =>
    have first := proper name (by simp)
    have rest := ih (raw_join_ne_empty nonempty first.relative) fun n member => proper n (by simp [member])
    rw [components_join nonempty first.relative, isName_parts first] at rest
    rw [show base.below (name :: names) = (base / ⟨name⟩).below names from rfl, rest]
    simp

theorem isAbsolute_below {base : Path} {names : List String} (nonempty : base.raw ≠ "")
    (proper : ∀ name ∈ names, IsName name) : (base.below names).isAbsolute = base.isAbsolute := by
  induction names generalizing base with
  | nil => rfl
  | cons name names ih =>
    have first := proper name (by simp)
    have rest := ih (raw_join_ne_empty nonempty first.relative) fun n member => proper n (by simp [member])
    exact rest.trans (by rw [isAbsolute_join, first.relative, Bool.or_false])

/-- Names follow the segments of the path they are written behind, except for a slash at its end. -/
theorem segments_below {base : Path} {names : List String} (nonempty : base.raw ≠ "") (some : names ≠ [])
    (proper : ∀ name ∈ names, IsName name) :
    ∃ front, (base.below names).segments = front ++ names ∧
      (base.segments = front ∨ base.segments = front ++ [""]) := by
  induction names generalizing base with
  | nil => exact absurd rfl some
  | cons name names ih =>
    have first := proper name (by simp)
    obtain ⟨front, _, joined, own⟩ := segments_join nonempty first.relative
    rw [segments_of_free first.2.2.2] at joined
    refine ⟨front, ?_, own⟩
    change ((base / ⟨name⟩).below names).segments = _
    by_cases more : names = []
    · subst more
      exact joined
    · obtain ⟨front', rest, own'⟩ := ih (raw_join_ne_empty nonempty first.relative) more
        fun n member => proper n (by simp [member])
      -- the path before ends with a name, so no slash is dropped
      have same : front' = front ++ [name] := by
        rcases own' with own' | own'
        · exact own'.symm.trans joined
        · have last := congrArg List.getLast? (joined.symm.trans own')
          simp only [List.getLast?_append, List.getLast?_singleton, Option.some_or, Option.some.injEq] at last
          exact absurd last first.1
      rw [rest, same]
      simp

theorem segments_intercalate {pieces : List String} (nonempty : pieces ≠ [])
    (free : ∀ piece ∈ pieces, '/' ∉ piece.toList) : segments ⟨"/".intercalate pieces⟩ = pieces := by
  induction pieces with
  | nil => exact absurd rfl nonempty
  | cons piece rest ih =>
    have head := segments_of_free (free piece (by simp))
    cases rest with
    | nil => simpa using head
    | cons next rest =>
      have tail := ih (by simp) fun q member => free q (by simp [member])
      rw [String.intercalate_cons_cons, segments_slash, head, tail]
      rfl

theorem IsName.not_endsWith_slash {name : String} (h : IsName name) (front : List Char) :
    Text.endsWith (front ++ name.toList) "/" = false := by
  have text : name.toList ≠ [] := by simpa using h.1
  have last : (front ++ name.toList).getLast? ≠ some '/' := by
    intro slash
    rw [List.getLast?_append, List.getLast?_eq_some_getLast text, Option.some_or] at slash
    exact h.2.2.2 (Option.some.inj slash ▸ List.getLast_mem text)
  have : Text.endsWith (front ++ name.toList) "/" ≠ true := by
    intro ends
    have suffix : ['/'] <:+ front ++ name.toList := by
      simpa [Text.endsWith, List.isSuffixOf_iff_suffix] using ends
    obtain ⟨before, same⟩ := suffix
    exact last (by rw [← same]; simp)
  simpa using this

theorem name_join {name : String} {p : Path} (h : IsName name) (relative : p.isAbsolute = false) :
    (⟨name⟩ : Path) / p = ⟨name ++ "/" ++ p.raw⟩ := by
  have closed := h.not_endsWith_slash []
  rw [List.nil_append] at closed
  simp [div_eq_join, join, relative, h.1, closed]

theorem join_slash {base : Path} {name b : String} (nonempty : base.raw ≠ "") (h : IsName name)
    (relative : isAbsolute ⟨b⟩ = false) : base / ⟨name ++ "/" ++ b⟩ = base / ⟨name⟩ / ⟨b⟩ := by
  have outer : isAbsolute ⟨name ++ "/" ++ b⟩ = false := by
    have cut : segments ⟨name ++ "/" ++ b⟩ = name :: segments ⟨b⟩ := by
      rw [segments_slash, segments_of_free h.2.2.2]
      rfl
    have : isAbsolute ⟨name ++ "/" ++ b⟩ ≠ true := by simp [isAbsolute_iff cut, h.1]
    simpa using this
  have first := raw_join_ne_empty nonempty h.relative
  simp only [div_eq_join] at first ⊢
  rw [join.eq_def base ⟨name ++ "/" ++ b⟩, join.eq_def (base.join ⟨name⟩) ⟨b⟩]
  simp only [outer, relative, nonempty, first, Bool.false_or, decide_false, Bool.false_eq_true, if_false]
  rw [join.eq_def base ⟨name⟩]
  simp only [h.relative, nonempty, Bool.false_or, decide_false, Bool.false_eq_true, if_false]
  split
  · rw [String.toList_append, h.not_endsWith_slash]
    simp [String.append_assoc]
  · rw [String.toList_append, h.not_endsWith_slash]
    simp [String.append_assoc]

theorem isAbsolute_intercalate {name : String} {names : List String} (proper : ∀ n ∈ name :: names, IsName n) :
    isAbsolute ⟨"/".intercalate (name :: names)⟩ = false := by
  have cut : segments ⟨"/".intercalate (name :: names)⟩ = name :: names :=
    segments_intercalate (by simp) fun n member => (proper n member).2.2.2
  have visible := (proper name (by simp)).1
  have : isAbsolute ⟨"/".intercalate (name :: names)⟩ ≠ true := by simp [isAbsolute_iff cut, visible]
  simpa using this

theorem join_intercalate {base : Path} {names : List String} (nonempty : base.raw ≠ "") (some : names ≠ [])
    (proper : ∀ name ∈ names, IsName name) : base / ⟨"/".intercalate names⟩ = base.below names := by
  induction names generalizing base with
  | nil => exact absurd rfl some
  | cons name names ih =>
    have first := proper name (by simp)
    have others : ∀ n ∈ names, IsName n := fun n member => proper n (by simp [member])
    cases names with
    | nil => simp [below]
    | cons next rest =>
      rw [String.intercalate_cons_cons, join_slash nonempty first (isAbsolute_intercalate others),
        ih (raw_join_ne_empty nonempty first.relative) (by simp) others]
      rfl

theorem below_name {name : String} {names : List String} (proper : ∀ n ∈ name :: names, IsName n) :
    below ⟨name⟩ names = ⟨"/".intercalate (name :: names)⟩ := by
  have first := proper name (by simp)
  have others : ∀ n ∈ names, IsName n := fun n member => proper n (by simp [member])
  cases names with
  | nil => simp [below]
  | cons next rest =>
    rw [← join_intercalate first.1 (by simp) others, name_join first (isAbsolute_intercalate others),
      String.intercalate_cons_cons]

theorem filterMap_ofSegment?_of_isName {names : List String} (proper : ∀ n ∈ names, IsName n) :
    names.filterMap Component.ofSegment? = names.map .name := by
  induction names with
  | nil => rfl
  | cons name names ih =>
    obtain ⟨visible, notHere, notUp, _⟩ := proper name (by simp)
    have own : Component.ofSegment? name = some (.name name) := by
      simp [Component.ofSegment?, visible, notHere, notUp]
    rw [List.filterMap_cons_some own, ih fun n member => proper n (by simp [member]), List.map_cons]

theorem components_intercalate {names : List String} (some : names ≠ []) (proper : ∀ n ∈ names, IsName n) :
    components ⟨"/".intercalate names⟩ = names.map .name := by
  obtain ⟨first, rest, rfl⟩ := List.exists_cons_of_ne_nil some
  have cut : segments ⟨"/".intercalate (first :: rest)⟩ = first :: rest :=
    segments_intercalate some fun n member => (proper n member).2.2.2
  obtain ⟨visible, notHere, notUp, _⟩ := proper first (by simp)
  rw [components_eq cut, filterMap_ofSegment?_of_isName fun n member => proper n (by simp [member])]
  simp [leadOf, Component.ofSegment?, visible, notHere, notUp]

theorem below_root {name : String} {names : List String} (proper : ∀ n ∈ name :: names, IsName n) :
    below ⟨"/"⟩ (name :: names) = ⟨"/" ++ "/".intercalate (name :: names)⟩ := by
  rw [← join_intercalate (by decide) (by simp) proper, div_eq_join, join]
  simp [isAbsolute_intercalate proper, Text.endsWith]

theorem segments_root {name : String} {names : List String} (proper : ∀ n ∈ name :: names, IsName n) :
    segments ⟨"/" ++ "/".intercalate (name :: names)⟩ = "" :: name :: names := by
  have joined := segments_slash "" ("/".intercalate (name :: names))
  rw [String.empty_append, segments_intercalate (by simp) fun n member => (proper n member).2.2.2] at joined
  exact joined

theorem components_eq_nil_iff (p : Path) : p.components = [] ↔ p.raw = "" := by
  constructor
  · intro none
    obtain ⟨first, rest, cut⟩ := List.exists_cons_of_ne_nil p.segments_ne_nil
    rw [components_eq cut, List.append_eq_nil_iff] at none
    have lead := none.1
    unfold leadOf Component.ofSegment? at lead
    by_cases visible : first = ""
    · subst visible
      have alone : rest = [] := by
        apply Classical.byContradiction
        intro more
        simp [more] at lead
      exact raw_eq_of_segments (alone ▸ cut)
    · by_cases here : first = "." <;> by_cases up : first = ".." <;> simp_all
  · intro empty
    obtain ⟨raw⟩ := p
    subst empty
    rfl

theorem filterMap_dropWhile_isVoid (rest : List String) :
    ((rest.reverse.dropWhile isVoid).reverse).filterMap Component.ofSegment? =
      rest.filterMap Component.ofSegment? := by
  have void : ∀ segment, isVoid segment = true → Component.ofSegment? segment = none := by
    intro segment void
    simp only [isVoid, Bool.or_eq_true, decide_eq_true_eq] at void
    simp [Component.ofSegment?, void]
  have trimmed : ∀ l : List String, (l.dropWhile isVoid).filterMap Component.ofSegment? =
      l.filterMap Component.ofSegment? := by
    intro l
    induction l with
    | nil => rfl
    | cons segment l ih =>
      by_cases h : isVoid segment = true
      · simp [h, ih, void segment h]
      · simp [h]
  rw [List.filterMap_reverse, trimmed, List.filterMap_reverse, List.reverse_reverse]

theorem mem_of_mem_dropVoid {segment : String} {segments : List String} (member : segment ∈ dropVoid segments) :
    segment ∈ segments := by
  cases segments with
  | nil => cases member
  | cons first rest =>
    rcases List.mem_cons.mp member with rfl | later
    · exact List.mem_cons_self
    · exact List.mem_cons_of_mem _
        (List.mem_reverse.mp ((List.dropWhile_sublist isVoid).subset (List.mem_reverse.mp later)))

theorem dropVoid_concat {first name : String} {rest : List String} (solid : isVoid name = false) :
    dropVoid (first :: rest ++ [name]) = first :: rest ++ [name] := by
  simp [dropVoid, solid]

/-- The directory of an entry has the components of the path that the entry was written behind. -/
theorem parent?_join_name {base : Path} {name : String} (nonempty : base.raw ≠ "") (h : IsName name) :
    ∃ above, (base / ⟨name⟩).parent? = some above ∧ above.components = base.components := by
  obtain ⟨front, some, joined, own⟩ := segments_join nonempty h.relative
  obtain ⟨first, rest, rfl⟩ := List.exists_cons_of_ne_nil some
  rw [segments_of_free h.2.2.2] at joined
  have last : (base / ⟨name⟩).components.getLast? = Option.some (.name name) := by
    rw [components_join nonempty h.relative, isName_parts h, List.getLast?_concat]
  have solid : isVoid name = false := by
    simp [isVoid, h.1, h.2.1]
  generalize trim : (rest.reverse.dropWhile isVoid).reverse = trimmed
  have kept : dropVoid (dropVoid (base / ⟨name⟩).segments).dropLast = first :: trimmed := by
    rw [joined, dropVoid_concat solid, List.dropLast_concat, dropVoid, trim]
  have absolute : (base / ⟨name⟩).isAbsolute = true ↔ first = "" := by
    rw [List.cons_append] at joined
    simp [isAbsolute_iff joined]
  have whole : ∀ more, (first = "" → more ≠ []) →
      base.components = leadOf first more ++ trimmed.filterMap Component.ofSegment? := by
    intro more longer
    rw [← trim, filterMap_dropWhile_isVoid]
    exact components_of_front nonempty own longer
  have free : ∀ piece ∈ first :: trimmed, '/' ∉ piece.toList := fun piece member =>
    slash_not_mem_of_mem_segments
      (mem_of_mem_dropVoid (List.dropLast_subset _ (mem_of_mem_dropVoid (kept.symm ▸ member))))
  unfold parent?
  rw [last, kept]
  cases trimmed with
  | nil =>
    by_cases top : first = ""
    · refine ⟨"/", by simp [absolute.mpr top], ?_⟩
      rw [whole [""] (by simp), top]
      decide
    · have relative : (base / ⟨name⟩).isAbsolute ≠ true := fun h => top (absolute.mp h)
      refine ⟨⟨first⟩, by simp [relative], ?_⟩
      rw [whole [] (fun empty => absurd empty top), components_eq (segments_of_free (free first (by simp)))]
  | cons next more =>
    refine ⟨⟨"/".intercalate (first :: next :: more)⟩, rfl, ?_⟩
    rw [whole (next :: more) (by simp), components_eq (segments_intercalate (by simp) free)]

theorem parent?_below {base : Path} {above : List String} {name : String} (nonempty : base.raw ≠ "")
    (proper : ∀ n ∈ above ++ [name], IsName n) :
    ∃ dir, (base.below (above ++ [name])).parent? = some dir ∧ dir.raw ≠ "" ∧
      dir.components = base.components ++ above.map .name := by
  have outer : ∀ n ∈ above, IsName n := fun n member => proper n (by simp [member])
  have inner := raw_below_ne_empty nonempty outer
  obtain ⟨dir, parent, same⟩ := parent?_join_name inner (proper name (by simp))
  have last : base.below (above ++ [name]) = base.below above / ⟨name⟩ := by
    rw [below_append]
    rfl
  refine ⟨dir, last ▸ parent, ?_, same.trans (components_below nonempty outer)⟩
  intro empty
  rw [(components_eq_nil_iff dir).mpr empty] at same
  exact inner ((components_eq_nil_iff _).mp same.symm)

end Path

end Conformance
