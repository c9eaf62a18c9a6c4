import Conformance.Proofs.Pattern.Anchored
import Conformance.Proofs.Pattern.Places
import Conformance.Proofs.Text.Classes
import Conformance.Source.AppType

namespace Conformance.Source.AppType

open Text Pattern

def Kind.keyword : Kind → String
  | classType => "class"
  | actorType => "actor"

def modifiers : List String :=
  ["final", "public", "internal", "private", "fileprivate", "open"]

inductive Lead where
  | attr (name : List Char)
  | modifier (word : String)

def Lead.written : Lead → List Char
  | attr name => '@' :: name
  | modifier word => word.toList

def Lead.isModifier : Lead → Bool
  | attr _ => false
  | modifier _ => true

def written (leads : List (Lead × List Char)) : List Char :=
  leads.flatMap fun x => x.1.written ++ x.2

def Lead.Proper (x : Lead × List Char) : Prop :=
  x.2 ≠ [] ∧ (∀ c ∈ x.2, isBlank c = true) ∧ ∀ word, x.1 = modifier word → word ∈ modifiers

def Declares (leads : List (Lead × List Char)) (kind : Kind) (name line : List Char) : Prop :=
  ∃ indent gap back, (∀ x ∈ leads, Lead.Proper x) ∧ (∀ c ∈ indent, isBlank c = true) ∧ gap ≠ [] ∧
    (∀ c ∈ gap, isBlank c = true) ∧ Stops isWord back ∧
    line = indent ++ (written leads ++ (kind.keyword.toList ++ (gap ++ (name ++ back))))

def modifierWord : Pattern :=
  anyOf "final" ["public", "internal", "private", "fileprivate", "open"]

def behindModifiers : List Pattern :=
  [group 1 (anyOf "class" ["actor"]), someBlanks, group 2 (.seq (.char fun c => c.isAlpha || c == '_') (.most isWord))]

theorem declaration_eq : declaration =
    chain (textStart :: .blanks :: many (seq modifierWord someBlanks) :: behindModifiers) := rfl

section Ways

variable {s : Progress} {leads : List (Lead × List Char)} {kind : Kind} {rest : List Char}

def leadWords : List String :=
  modifiers ++ ["class", "actor"]

theorem prefixFree_leadWords : PrefixFree leadWords := by
  decide

theorem leadWords_head : ∀ word ∈ leadWords, ∃ c ∈ word.toList.head?, isBlank c = false ∧ (c == '@') = false := by
  have each : ∀ word ∈ leadWords, word.toList.head?.any (fun c => !isBlank c && !(c == '@')) = true := by decide
  intro word known
  simpa [Option.any_eq_true] using each word known

theorem mem_leadWords {word : String} (known : word ∈ modifiers) : word ∈ leadWords :=
  List.mem_append_left _ known

theorem Kind.keyword_mem (kind : Kind) : kind.keyword ∈ leadWords := by
  cases kind <;> decide

theorem modifier_ne_keyword {word : String} (known : word ∈ modifiers) (kind : Kind) : word ≠ kind.keyword := by
  have apart : ∀ kind ∈ [Kind.classType, .actorType], ∀ word ∈ modifiers, word ≠ kind.keyword := by decide
  exact apart kind (by cases kind <;> simp) word known

theorem modifierWord_eq_nil (none : ∀ word ∈ modifiers, ¬ word.toList <+: s.place.rest) : modifierWord.ways s = [] :=
  ways_anyOf_eq_nil none

theorem behindModifiers_eq_nil (none : ∀ kind : Kind, ¬ kind.keyword.toList <+: s.place.rest) :
    (chain behindModifiers).ways s = [] := by
  have refused : (anyOf "class" ["actor"]).ways s = [] := by
    refine ways_anyOf_eq_nil ?_
    simp only [List.forall_mem_cons]
    exact ⟨none .classType, none .actorType, by simp⟩
  rw [behindModifiers, ways_chain_cons, flatMap_ways_group, refused, List.flatMap_nil]

theorem refused_of_goes {accepts : Char → Bool} (goes : Goes accepts s.place.rest)
    (apart : ∀ word ∈ leadWords, ∃ c ∈ word.toList.head?, accepts c = false) :
    modifierWord.ways s = [] ∧ (chain behindModifiers).ways s = [] :=
  ⟨modifierWord_eq_nil fun word known => goes.not_begins (apart word (mem_leadWords known)),
    behindModifiers_eq_nil fun kind => goes.not_begins (apart kind.keyword kind.keyword_mem)⟩

theorem refused_of_goes_blank (goes : Goes isBlank s.place.rest) :
    modifierWord.ways s = [] ∧ (chain behindModifiers).ways s = [] :=
  refused_of_goes goes fun word known =>
    let ⟨c, first, solid, _⟩ := leadWords_head word known
    ⟨c, first, solid⟩

theorem stops_blank_word {word : String} (known : word ∈ leadWords) (rest : List Char) :
    Stops isBlank (word.toList ++ rest) := by
  obtain ⟨c, first, solid, _⟩ := leadWords_head word known
  obtain ⟨more, spelled⟩ := List.head?_eq_some_iff.mp first
  rw [spelled]
  exact stops_cons.mpr solid

theorem stops_blank_written (proper : ∀ x ∈ leads, Lead.Proper x) (kind : Kind) (rest : List Char) :
    Stops isBlank (written leads ++ (kind.keyword.toList ++ rest)) := by
  cases leads with
  | nil => exact stops_blank_word kind.keyword_mem rest
  | cons x leads =>
    obtain ⟨lead, gap⟩ := x
    obtain ⟨⟨_, _, known⟩, _⟩ := List.forall_mem_cons.mp proper
    have whole : written ((lead, gap) :: leads) = lead.written ++ gap ++ written leads := rfl
    rw [whole, List.append_assoc, List.append_assoc]
    cases lead with
    | attr name => exact stops_cons.mpr (by decide)
    | modifier word => exact stops_blank_word (mem_leadWords (known word rfl)) _

/-- The leads of a declaration are passed in one way if all are modifiers, and in none if not. -/
theorem flatMap_repeatWays_leads {limit : Nat} (proper : ∀ x ∈ leads, Lead.Proper x)
    (enough : (written leads).length ≤ limit) (ahead : s.place.rest = written leads ++ (kind.keyword.toList ++ rest)) :
    (repeatWays (seq modifierWord someBlanks).ways limit s).flatMap (chain behindModifiers).ways =
      if leads.all (·.1.isModifier) then
        (chain behindModifiers).ways (s.beyond (written leads) (kind.keyword.toList ++ rest))
      else [] := by
  -- at each word of a lead or a kind every other one is refused, so nothing is skipped and nothing is passed twice
  induction leads generalizing s limit with
  | nil =>
    have none : modifierWord.ways s = [] := by
      refine modifierWord_eq_nil fun word known => ?_
      rw [ahead]
      exact prefixFree_leadWords.not_begins (mem_leadWords known) kind.keyword_mem (modifier_ne_keyword known kind) rest
    rw [flatMap_repeatWays_of_none (by rw [ways_seq, none, List.flatMap_nil])]
    exact congrArg _ (Progress.beyond_nil ahead).symm
  | cons x leads ih =>
    obtain ⟨lead, gap⟩ := x
    obtain ⟨⟨some, blank, known⟩, proper'⟩ := List.forall_mem_cons.mp proper
    have whole : written ((lead, gap) :: leads) = lead.written ++ gap ++ written leads := rfl
    rw [whole, List.append_assoc, List.append_assoc] at ahead
    cases lead with
    | attr name =>
      have goes : Goes (· == '@') s.place.rest := by
        rw [ahead]
        exact goes_cons.mpr (beq_self_eq_true '@')
      obtain ⟨none, refused⟩ := refused_of_goes goes fun word known =>
        let ⟨c, first, _, other⟩ := leadWords_head word known
        ⟨c, first, other⟩
      rw [flatMap_repeatWays_of_none (by rw [ways_seq, none, List.flatMap_nil]), refused]
      rfl
    | modifier word =>
      have listed : word ∈ modifiers := known word rfl
      have way : modifierWord.ways s = [s.beyond word.toList (gap ++ (written leads ++ (kind.keyword.toList ++ rest)))] :=
        ways_anyOf listed (by decide) (by decide) ahead
      have refused : (chain behindModifiers).ways s = [] := by
        refine behindModifiers_eq_nil fun kind => ?_
        rw [ahead]
        exact prefixFree_leadWords.not_begins kind.keyword_mem (mem_leadWords listed) (modifier_ne_keyword listed kind).symm _
      have positive : 0 < gap.length := List.length_pos_of_ne_nil some
      rw [whole, List.length_append, List.length_append] at enough
      obtain ⟨limit, rfl⟩ : ∃ n, limit = n + 1 := Nat.exists_eq_add_one.mpr (by omega)
      rw [someBlanks, flatMap_repeatWays_word way some blank (stops_blank_written proper' kind rest)
        (fun m goes => refused_of_goes_blank goes) refused, ← someBlanks, ih proper' (by omega) rfl, whole,
        Progress.beyond_beyond, List.all_cons]
      simp only [Lead.isModifier, Bool.true_and]
      rfl

def beginsName (c : Char) : Bool :=
  c.isAlpha || c == '_'

theorem isWord_of_beginsName {c : Char} (begins : beginsName c = true) : isWord c = true := by
  rw [beginsName, Bool.or_eq_true] at begins
  rcases begins with letter | connector
  · exact isWord_of_isAlphanum (by rw [Char.isAlphanum, letter, Bool.true_or])
  · obtain rfl : c = '_' := by simpa using connector
    decide

theorem ways_behindModifiers {gap name back : List Char} (some : gap ≠ []) (blank : ∀ c ∈ gap, isBlank c = true)
    (solid : Stops isBlank (name ++ back)) (ahead : s.place.rest = kind.keyword.toList ++ (gap ++ (name ++ back))) :
    (chain behindModifiers).ways s = (chain [group 2 (.seq (.char beginsName) (.most isWord))]).ways
      (((s.beyond kind.keyword.toList (gap ++ (name ++ back))).keep 1 s.place).beyond gap (name ++ back)) := by
  have kept : (anyOf "class" ["actor"]).ways s = [s.beyond kind.keyword.toList (gap ++ (name ++ back))] :=
    ways_anyOf (by cases kind <;> decide) (by decide) (by decide) ahead
  rw [behindModifiers, ways_chain_cons, flatMap_ways_group, kept, List.flatMap_singleton, someBlanks]
  rw [ways_chain_mostOne rfl some blank solid fun m goes => ?_]
  · rfl
  · refine ways_chain_group_of_stops 2 (goes.stops fun c blank => ?_)
    refine Bool.eq_false_iff.mpr fun begins => ?_
    rw [isBlank_of_isWord (isWord_of_beginsName begins)] at blank
    cases blank

end Ways

section Line

variable {leads : List (Lead × List Char)} {kind : Kind} {indent gap back : List Char}

/-- A declaration is found behind modifiers only, with its kind and the name if a letter of ASCII or `_` begins it. -/
theorem groups_declaration {c : Char} {more : List Char} (proper : ∀ x ∈ leads, Lead.Proper x)
    (indented : ∀ d ∈ indent, isBlank d = true) (some : gap ≠ []) (blank : ∀ d ∈ gap, isBlank d = true)
    (inWord : ∀ d ∈ c :: more, isWord d = true) (stop : Stops isWord back) :
    (declaration.find? (indent ++ (written leads ++ (kind.keyword.toList ++ (gap ++ (c :: more ++ back)))))).map
      (fun m => (m.group? 1, m.group? 2)) =
        if leads.all (·.1.isModifier) && beginsName c then
          Option.some (Option.some kind.keyword.toList, Option.some (c :: more))
        else none := by
  let line := indent ++ (written leads ++ (kind.keyword.toList ++ (gap ++ (c :: more ++ back))))
  let start : Progress := ⟨.ofText line, []⟩
  have solid : Stops isBlank (c :: more ++ back) := stops_cons.mpr (isBlank_of_isWord (inWord c List.mem_cons_self))
  have front : (chain (.blanks :: many (seq modifierWord someBlanks) :: behindModifiers)).ways start =
      (chain (many (seq modifierWord someBlanks) :: behindModifiers)).ways
        (start.beyond indent (written leads ++ (kind.keyword.toList ++ (gap ++ (c :: more ++ back))))) := by
    refine ways_chain_most rfl indented (stops_blank_written proper kind _) fun m goes => ?_
    obtain ⟨none, refused⟩ := refused_of_goes_blank goes
    rw [ways_chain_cons, ways, flatMap_repeatWays_of_none (by rw [ways_seq, none, List.flatMap_nil]), refused]
  rw [declaration_eq, find?_textStart]
  change ((((chain (.blanks :: many (seq modifierWord someBlanks) :: behindModifiers)).ways start).head?).map _).map _ = _
  rw [front, ways_chain_cons, ways, flatMap_repeatWays_leads proper ?_ rfl]
  · cases modified : leads.all (·.1.isModifier) with
    | false => rfl
    | true =>
      rw [if_pos rfl, ways_behindModifiers some blank solid rfl]
      cases begins : beginsName c with
      | false =>
        rw [ways_chain_group_of_stops 2 (stops_cons.mpr begins)]
        rfl
      | true =>
        have inside : ∀ d ∈ more, isWord d = true := fun d member => inWord d (List.mem_cons_of_mem c member)
        rw [head?_ways_lastGroup 2 (head?_ways_word rfl begins inside stop)]
        refine congrArg Option.some (Prod.ext ?_ ?_)
        · exact congrArg Option.some (Cursor.textTo_beyond rfl)
        · exact congrArg Option.some (Cursor.textTo_beyond rfl)
  · simp

theorem isWord_of_nameOfLine? {kinds : List Kind} {line : List Char} {name : String}
    (found : nameOfLine? kinds line = some name) : ∀ c ∈ name.toList, isWord c = true := by
  have keeps : declaration.Keeps 2 (isWord · = true) := by
    have begins : ∀ c, (c.isAlpha || c == '_') = true → isWord c = true := fun _ => isWord_of_beginsName
    simpa [declaration, chain, anyOf, text, exactly, someBlanks, blanks, mostOne, Keeps, Passes] using begins
  obtain ⟨m, first, found⟩ := Option.bind_eq_some_iff.mp found
  obtain ⟨keyword, _, found⟩ := Option.bind_eq_some_iff.mp found
  obtain ⟨kept, own, found⟩ := Option.bind_eq_some_iff.mp found
  obtain rfl : String.ofList kept = name := Option.some.inj (Option.ite_none_right_eq_some.mp found).2
  intro c member
  rw [String.toList_ofList] at member
  exact ((follows_of_find? first).mem_group? keeps own c member).1

/-- Nothing but modifiers stands in front of a declaration, and the name is made of word characters and begins with a
letter of ASCII or `_`. -/
structure Discovered (leads : List (Lead × List Char)) (name : String) : Prop where
  modified : ∀ x ∈ leads, x.1.isModifier = true
  inWord : ∀ c ∈ name.toList, isWord c = true
  begins : name.toList.head?.any beginsName = true

theorem Discovered.ne_empty {name : String} (discovered : Discovered leads name) : name ≠ "" := by
  rintro rfl
  cases discovered.begins

/-- A declaration of a kind that is looked for gives its name exactly if nothing but modifiers stands in front of it and
the name is of the known form. -/
theorem nameOfLine?_eq_some_iff {kinds : List Kind} {name : String} {line : List Char} (some : name ≠ "")
    (free : name ∉ memberKeywords) (wanted : kind ∈ kinds) (declares : Declares leads kind name.toList line) :
    nameOfLine? kinds line = Option.some name ↔ Discovered leads name := by
  obtain ⟨indent, gap, back, proper, indented, someGap, blank, stop, rfl⟩ := declares
  by_cases inWord : ∀ c ∈ name.toList, isWord c = true
  · obtain ⟨c, more, spelled⟩ := List.exists_cons_of_ne_nil (show name.toList ≠ [] by simpa using some)
    rw [spelled] at inWord
    let line := indent ++ (written leads ++ (kind.keyword.toList ++ (gap ++ (c :: more ++ back))))
    have groups : (declaration.find? line).map (fun m => (m.group? 1, m.group? 2)) = _ :=
      groups_declaration proper indented someGap blank inWord stop
    rw [spelled]
    change nameOfLine? kinds line = _ ↔ _
    cases plain : leads.all (·.1.isModifier) && beginsName c with
    | false =>
      rw [plain, if_neg Bool.false_ne_true, Option.map_eq_none_iff] at groups
      have unnamed : nameOfLine? kinds line = none := by
        rw [nameOfLine?, groups]
        rfl
      refine iff_of_false (by rw [unnamed]; exact nofun) fun discovered => ?_
      have begins := discovered.begins
      rw [spelled] at begins
      have again : (leads.all (·.1.isModifier) && beginsName c) = true :=
        Bool.and_eq_true_iff.mpr ⟨List.all_eq_true.mpr discovered.modified, begins⟩
      rw [plain] at again
      cases again
    | true =>
      obtain ⟨modified, begins⟩ := Bool.and_eq_true_iff.mp plain
      rw [plain, if_pos rfl] at groups
      obtain ⟨m, found, kept⟩ := Option.map_eq_some_iff.mp groups
      obtain ⟨keyword, shown⟩ := Prod.mk.inj kept
      refine iff_of_true ?_ ⟨List.all_eq_true.mp modified, by rwa [spelled], by rwa [spelled]⟩
      have own : String.ofList (c :: more) = name := by rw [← spelled, String.ofList_toList]
      have same : (if kind.keyword.toList = "actor".toList then Kind.actorType else .classType) = kind := by
        cases kind <;> decide
      have listed : (kinds.contains kind && !memberKeywords.contains name) = true := by simp [wanted, free]
      simp only [nameOfLine?, found, keyword, shown, Option.bind_eq_bind, Option.bind_some, same, own]
      exact if_pos listed
  · exact iff_of_false (fun found => inWord (isWord_of_nameOfLine? found)) fun discovered => inWord discovered.inWord

end Line

end Conformance.Source.AppType
