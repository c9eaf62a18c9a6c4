import Conformance.Endpoint.Hosting
import Conformance.Proofs.Json.Magnitudes
import Conformance.Proofs.Json.Records

namespace Conformance.Endpoint.Hosting

open Json

/-- The function of a rule: a value that names it, with whole numbers only and not nested too deep. -/
inductive FunctionSpelled (name : String) (l t : List Char) : Prop
  | mk {d : Nat} {v : Value} (shallow : d < maxDepth - 4) (own : Written WholeNumber d (.value v) l t)
      (names : functionName? v = some name) : FunctionSpelled name l t

inductive PartSpelled : String → Item → Item → List Char → List Char → Prop
  | source {i : Item} {source : Option String} {l t : List Char} (own : OptionalSpelled TextSpelled source l t) :
      PartSpelled "source" i { i with source } l t
  | function {i : Item} {function : Option String} {l t : List Char}
      (own : OptionalSpelled FunctionSpelled function l t) : PartSpelled "function" i { i with function } l t

def ItemSpelled : Item → List Char → List Char → Prop :=
  RecordSpelled ["source", "function"] PartSpelled {}

def HostingSpelled : List Item → List Char → List Char → Prop :=
  RecordSpelled ["rewrites"] (fun _ _ items => ListSpelled ItemSpelled items) []

def ConfigurationSpelled : List Item → List Char → List Char → Prop :=
  RecordSpelled ["hosting"] (fun _ _ items l t => ∃ part, OptionalSpelled HostingSpelled part l t ∧ items = part.getD []) []

def Spelled (items : List Item) (text : List Char) : Prop :=
  ∃ l t, Spaces text l ∧ ConfigurationSpelled items l t ∧ Spaces t []

variable {l t : List Char}

theorem FunctionSpelled.opens {name : String} (h : FunctionSpelled name l t) : Opens l t ∧ l.head? ≠ some 'n' := by
  obtain ⟨_, own, names⟩ := h
  have signed : ∀ l t, WholeNumber l t → SignedNumeral l t := fun _ _ spelled => spelled.inRange.signed
  refine ⟨⟨own.length_lt signed, own.opens signed⟩, ?_⟩
  cases own with
  | string | emptyObject | object => simp
  | _ => cases names

theorem readFunction_of_written {name : String} {d : Nat} {v : Value} (shallow : d < maxDepth - 4)
    (own : Written InRange d (.value v) l t) (names : functionName? v = some name) : Takes readFunction name l t := by
  intro follows r spaces
  obtain ⟨r', value, behind⟩ := own.read (fun _ _ numeral => numeral) (r.rest.length + 2) (maxDepth - 4) shallow follows
    (Nat.le_add_right_of_le spaces.length_le) r spaces
  refine ⟨r', ?_, behind⟩
  simp only [readFunction, value, bind, Except.bind, names]
  rfl

theorem readFunction_of_spelled {name : String} (h : FunctionSpelled name l t) : Takes readFunction name l t := by
  obtain ⟨shallow, own, names⟩ := h
  exact readFunction_of_written shallow (own.imp fun _ _ numeral => numeral.inRange) names

theorem PartSpelled.opens {key : String} {i i' : Item} (h : PartSpelled key i i' l t) : Opens l t := by
  cases h with
  | source own => exact own.opens fun _ _ _ spelled => spelled.opens.1
  | function own => exact own.opens fun _ _ _ spelled => spelled.opens.1

theorem ItemSpelled.opens {i : Item} (h : ItemSpelled i l t) : Opens l t :=
  RecordSpelled.opens h fun _ _ _ _ _ part => part.opens

theorem HostingSpelled.opens {items : List Item} (h : HostingSpelled items l t) : Opens l t ∧ l.head? ≠ some 'n' := by
  refine ⟨RecordSpelled.opens h fun _ _ _ _ _ list => list.opens fun _ _ _ item => item.opens, ?_⟩
  cases h <;> simp

theorem readItem_of_parts {Part : String → Item → Item → List Char → List Char → Prop}
    (opens : ∀ key i i' l t, Part key i i' l t → Opens l t)
    (takes : ∀ key i i' l t, Part key i i' l t →
      (key = "source" ∧ ∃ source, i' = { i with source } ∧ Takes (readOptional readText) source l t) ∨
        (key = "function" ∧ ∃ function, i' = { i with function } ∧ Takes (readOptional readFunction) function l t))
    {i : Item} (h : RecordSpelled ["source", "function"] Part {} i l t) : Takes item.read i l t := by
  refine Shape.read_of_spelled ?_ opens h
  intro field member done done' l t part follows r spaces
  simp only [item, List.mem_cons, List.not_mem_nil, or_false] at member
  rcases takes _ _ _ _ _ part with ⟨named, _, rfl, own⟩ | ⟨named, _, rfl, own⟩
  · obtain ⟨r', value, behind⟩ := own follows r spaces
    rcases member with rfl | rfl
    · exact ⟨r', by simp only [value, bind, Except.bind]; rfl, behind⟩
    · exact absurd named (by decide)
  · obtain ⟨r', value, behind⟩ := own follows r spaces
    rcases member with rfl | rfl
    · exact absurd named (by decide)
    · exact ⟨r', by simp only [value, bind, Except.bind]; rfl, behind⟩

theorem readItem_of_spelled {i : Item} (h : ItemSpelled i l t) : Takes item.read i l t := by
  refine readItem_of_parts (fun _ _ _ _ _ part => part.opens) ?_ h
  intro key i i' l t part
  cases part with
  | source own =>
    exact .inl ⟨rfl, _, rfl, readOptional_of_spelled (fun _ _ _ spelled => readText_of_spelled spelled)
      (fun _ _ _ spelled => spelled.opens) own⟩
  | function own =>
    exact .inr ⟨rfl, _, rfl, readOptional_of_spelled (fun _ _ _ spelled => readFunction_of_spelled spelled)
      (fun _ _ _ spelled => spelled.opens) own⟩

theorem readHosting_of_items {Rule : Item → List Char → List Char → Prop}
    (takes : ∀ i l t, Rule i l t → Takes item.read i l t) (opens : ∀ i l t, Rule i l t → Opens l t) {items : List Item}
    (h : RecordSpelled ["rewrites"] (fun _ _ items => ListSpelled Rule items) [] items l t) :
    Takes hosting.read items l t := by
  refine Shape.read_of_spelled ?_ (fun _ _ _ _ _ list => list.opens opens) h
  intro field member done items l t list
  obtain rfl := List.mem_singleton.mp member
  exact readSequence_of_spelled takes opens list

theorem readConfiguration_of_part {Part : List Item → List Char → List Char → Prop}
    (takes : ∀ items l t, Part items l t → Takes hosting.read items l t)
    (opens : ∀ items l t, Part items l t → Opens l t ∧ l.head? ≠ some 'n') {items : List Item}
    (h : RecordSpelled ["hosting"] (fun _ _ items l t => ∃ part, OptionalSpelled Part part l t ∧ items = part.getD []) []
      items l t) : Takes configuration.read items l t := by
  refine Shape.read_of_spelled ?_ ?_ h
  · intro field member done items l t part follows r spaces
    obtain rfl := List.mem_singleton.mp member
    obtain ⟨part, own, rfl⟩ := part
    obtain ⟨r', value, behind⟩ := readOptional_of_spelled takes opens own follows r spaces
    exact ⟨r', by simp only [value, bind, Except.bind]; rfl, behind⟩
  · rintro _ _ _ _ _ ⟨_, own, _⟩
    exact own.opens fun _ _ _ part => (opens _ _ _ part).1

theorem readConfiguration_of_spelled {items : List Item} (h : ConfigurationSpelled items l t) :
    Takes configuration.read items l t := by
  refine readConfiguration_of_part ?_ (fun _ _ _ part => part.opens) h
  intro items l t part
  exact readHosting_of_items (fun _ _ _ item => readItem_of_spelled item) (fun _ _ _ item => item.opens) part

theorem rules_of_takes {items : List Item} {text : List Char} (takes : Takes configuration.read items l t)
    (front : Spaces text l) (back : Spaces t []) : rules text = .ok (items.filterMap Item.rule?) := by
  rw [rules, readWhole_of_spelled takes front back]
  rfl

theorem rules_of_spelled {items : List Item} {text : List Char} (h : Spelled items text) :
    rules text = .ok (items.filterMap Item.rule?) := by
  obtain ⟨l, t, front, own, back⟩ := h
  exact rules_of_takes (readConfiguration_of_spelled own) front back

section Compact

def Verbatim (s : String) : Prop :=
  ∀ c ∈ s.toList, (c ≠ '"' ∧ c ≠ '\\') ∧ 0x20 ≤ c.toNat

instance (s : String) : Decidable (Verbatim s) :=
  inferInstanceAs (Decidable (∀ c ∈ s.toList, (c ≠ '"' ∧ c ≠ '\\') ∧ 0x20 ≤ c.toNat))

theorem spells_verbatim {s : String} (verbatim : Verbatim s) (t : List Char) :
    Spells (s.toList ++ '"' :: t) s.toList t := by
  unfold Verbatim at verbatim
  generalize s.toList = chars at verbatim
  induction chars with
  | nil => exact .done t
  | cons c chars ih =>
    obtain ⟨solid, visible⟩ := verbatim c (by simp)
    exact .plain solid visible (ih fun d member => verbatim d (by simp [member]))

def compactRule (r : HostingRule) : List Char :=
  '\x7b' :: '"' :: ("source".toList ++ '"' :: ':' :: '"' :: (r.source.toList ++ '"' :: ',' :: '"' ::
    ("function".toList ++ '"' :: ':' :: '"' :: (r.function.toList ++ ['"', '\x7d']))))

def compactRules (first : HostingRule) : List HostingRule → List Char
  | [] => compactRule first ++ [']']
  | next :: rules => compactRule first ++ ',' :: compactRules next rules

def compact (first : HostingRule) (rules : List HostingRule) : List Char :=
  '\x7b' :: '"' :: ("hosting".toList ++ '"' :: ':' :: '\x7b' :: '"' :: ("rewrites".toList ++ '"' :: ':' :: '[' ::
    (compactRules first rules ++ ['\x7d', '\x7d'])))

def itemOf (r : HostingRule) : Item :=
  ⟨some r.source, some r.function⟩

theorem itemSpelled_compact {r : HostingRule} (verbatim : Verbatim r.source ∧ Verbatim r.function) (t : List Char) :
    ItemSpelled (itemOf r) (compactRule r ++ t) t := by
  have source := spells_verbatim verbatim.1
  have function := spells_verbatim verbatim.2 ('\x7d' :: t)
  have key : ∀ s ∈ ["source", "function"], Verbatim s := by decide
  have text : ∀ {s : String} {l t : List Char}, Spells l s.toList t → TextSpelled s ('"' :: l) t := by
    intro s l t spelled
    simpa using TextSpelled.mk spelled
  have named : FunctionSpelled r.function _ _ := ⟨by decide, .string (d := 0) function, by simp [functionName?]⟩
  have first : ∀ t, MemberSpelled ["source", "function"] PartSpelled ([], {}) "source".toList
      (["source"], ⟨some r.source, none⟩) _ t :=
    fun t => .field (by simp) (by simp) (.refl _) (.refl _) (.source (.some (text (source t))))
  have second : MemberSpelled ["source", "function"] PartSpelled (["source"], ⟨some r.source, none⟩) "function".toList
      (["function", "source"], itemOf r) _ _ :=
    .field (by simp) (by simp) (.refl _) (.refl _) (.function (.some named))
  have rows := KeyRows.more (.refl _) (spells_verbatim (key "source" (by simp)) _) (first _) (.refl _)
    (.last (.refl _) (spells_verbatim (key "function" (by simp)) _) second (.refl _))
  have whole : ItemSpelled (itemOf r) _ t := .members rows
  simpa only [compactRule, List.cons_append, List.append_assoc, List.nil_append] using whole

theorem rows_compact (first : HostingRule) (rules : List HostingRule)
    (verbatim : ∀ r ∈ first :: rules, Verbatim r.source ∧ Verbatim r.function) (t : List Char) :
    Json.Rows ItemSpelled ((first :: rules).map itemOf) (compactRules first rules ++ t) t := by
  induction rules generalizing first with
  | nil =>
    have own := itemSpelled_compact (verbatim first (by simp)) (']' :: t)
    simpa [compactRules] using Json.Rows.last (.refl _) own (.refl _)
  | cons next rules ih =>
    have own := itemSpelled_compact (verbatim first (by simp)) (',' :: (compactRules next rules ++ t))
    have others := ih next fun r member => verbatim r (by simp [member])
    simpa [compactRules] using Json.Rows.more (.refl _) own (.refl _) others

theorem spelled_compact {first : HostingRule} {rules : List HostingRule}
    (verbatim : ∀ r ∈ first :: rules, Verbatim r.source ∧ Verbatim r.function) :
    Spelled ((first :: rules).map itemOf) (compact first rules) := by
  have key : ∀ s ∈ ["hosting", "rewrites"], Verbatim s := by decide
  have list := ListSpelled.items (rows_compact first rules verbatim ['\x7d', '\x7d'])
  have inner : HostingSpelled _ _ _ := .members (.last (.refl _) (spells_verbatim (key "rewrites" (by simp)) _)
    (.field (by simp) List.not_mem_nil (.refl _) (.refl _) list) (.refl _))
  have outer : ConfigurationSpelled _ _ _ := .members (.last (.refl _) (spells_verbatim (key "hosting" (by simp)) _)
    (.field (by simp) List.not_mem_nil (.refl _) (.refl _) ⟨_, .some inner, rfl⟩) (.refl _))
  exact ⟨_, _, .refl _, outer, .refl _⟩

theorem filterMap_itemOf (rules : List HostingRule) : (rules.map itemOf).filterMap Item.rule? = rules := by
  simp [List.filterMap_map, Function.comp_def, itemOf, Item.rule?]

end Compact

end Conformance.Endpoint.Hosting
