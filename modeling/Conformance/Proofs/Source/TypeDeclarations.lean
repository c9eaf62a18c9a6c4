import Conformance.Proofs.Pattern.Anchored
import Conformance.Proofs.Pattern.Places
import Conformance.Proofs.Text.Classes
import Conformance.Proofs.Text.PutIn
import Conformance.Source.ExportedType

namespace Conformance.Source.ExportedType

open Text Pattern

theorem ofText_eq (text : List Char) :
    ofText text = (foundFrom ofLine? 0 (lines text)).map fun x => ⟨x.2.1, x.1, x.2.2⟩ := by
  rw [ofText, foundFrom, numberedLines, numbered, List.filterMap_map, List.map_filterMap]
  refine List.filterMap_congr fun x _ => ?_
  cases own : ofLine? x.1 <;> simp [own]

theorem pairwise_ofText (text : List Char) : (ofText text).Pairwise fun a b => a.line < b.line := by
  rw [ofText_eq]
  exact List.pairwise_map.mpr (pairwise_foundFrom ofLine? 0 _)

theorem mem_ofText_iff {text line : List Char} {number : Nat} {name : String} {kind : TypeKind}
    (listed : (number, line) ∈ numberedLines text) :
    ⟨name, number, kind⟩ ∈ ofText text ↔ ofLine? line = some (name, kind) := by
  rw [ofText, List.mem_filterMap]
  constructor
  · rintro ⟨⟨number', line'⟩, listed', found⟩
    obtain ⟨⟨name', kind'⟩, own, same⟩ := Option.map_eq_some_iff.mp found
    cases same
    obtain ⟨i, held, rfl⟩ := mem_numberedLines.mp listed
    obtain ⟨j, held', same⟩ := mem_numberedLines.mp listed'
    obtain rfl : i = j := Nat.succ.inj same
    obtain rfl : line = line' := Option.some.inj (held.symm.trans held')
    exact own
  · intro own
    exact ⟨(number, line), listed, by simp only [own, Option.map_some]⟩

def IsWordName (name : List Char) : Prop :=
  name ≠ [] ∧ ∀ c ∈ name, isWord c = true

theorem IsWordName.goes {name : List Char} (isName : IsWordName name) (rest : List Char) : Goes isWord (name ++ rest) := by
  obtain ⟨c, more, rfl⟩ := List.exists_cons_of_ne_nil isName.1
  exact goes_cons.mpr (isName.2 c List.mem_cons_self)

def IsParameterList (params : List Char) : Prop :=
  params = [] ∨ ∃ inner, params = '<' :: (inner ++ ['>'])

def openingMark : TypeKind → Char
  | .interface => '\x7b'
  | .typeAlias => '='

/-- The line begins with a declaration of a type of this kind and name, with these type parameters and with blanks in
between. -/
def BeginsDeclaration (kind : TypeKind) (name params line : List Char) : Prop :=
  ∃ gap₁ gap₂ gap₃ gap₄ back, gap₁ ≠ [] ∧ gap₂ ≠ [] ∧ (∀ gap ∈ [gap₁, gap₂, gap₃, gap₄], ∀ c ∈ gap, isBlank c = true) ∧
    line = "export".toList ++ (gap₁ ++ (kind.keyword.toList ++ (gap₂ ++ (name ++ (gap₃ ++ (params ++
      (gap₄ ++ openingMark kind :: back)))))))

theorem refuses_of_goes_blank {m : Progress} (goes : Goes isBlank m.place.rest) (number : Nat) (parts : List Pattern) :
    (chain (group number (mostOne isWord) :: parts)).ways m = [] :=
  ways_chain_group_of_stops number (goes.stops fun _ => isWord_of_isBlank)

section Line

variable {s : Progress} {parts : List Pattern} {keyword : String} {gap gap' name rest : List Char}
variable (some : gap ≠ []) (blank : ∀ c ∈ gap, isBlank c = true)

include some blank

theorem ways_exported (ahead : s.place.rest = "export".toList ++ (gap ++ rest)) (stop : Stops isBlank rest)
    (refuses : ∀ m : Progress, Goes isBlank m.place.rest → (chain parts).ways m = []) :
    (chain (text "export" :: someBlanks :: parts)).ways s =
      (chain parts).ways (s.beyond ("export".toList ++ gap) rest) := by
  rw [ways_chain_text ahead, someBlanks, ways_chain_mostOne rfl some blank stop refuses, Progress.beyond_beyond]

theorem ways_exported_eq_nil (ahead : s.place.rest = "export".toList ++ (gap ++ rest)) (stop : Stops isBlank rest)
    (solid : ∃ c ∈ keyword.toList.head?, isBlank c = false) (other : ¬ keyword.toList <+: rest) :
    (chain (text "export" :: someBlanks :: text keyword :: parts)).ways s = [] := by
  rw [ways_exported some blank ahead stop fun m goes => ways_chain_text_of_goes goes solid]
  exact ways_chain_text_eq_nil other

variable (some' : gap' ≠ []) (blank' : ∀ c ∈ gap', isBlank c = true)

include some' blank'

theorem ways_declared (ahead : s.place.rest = "export".toList ++ (gap ++ (keyword.toList ++ (gap' ++ (name ++ rest)))))
    (solid : ∃ c ∈ keyword.toList.head?, isBlank c = false) (isName : IsWordName name) :
    (chain (text "export" :: someBlanks :: text keyword :: someBlanks :: group 1 (mostOne isWord) :: parts)).ways s =
      (chain (group 1 (mostOne isWord) :: parts)).ways
        (s.beyond ("export".toList ++ gap ++ keyword.toList ++ gap') (name ++ rest)) := by
  obtain ⟨c, first, notBlank⟩ := solid
  have stop : Stops isBlank (keyword.toList ++ (gap' ++ (name ++ rest))) := by
    obtain ⟨more, spelled⟩ := List.head?_eq_some_iff.mp first
    rw [spelled]
    exact stops_cons.mpr notBlank
  have stop' : Stops isBlank (name ++ rest) := (isName.goes rest).stops fun _ => isBlank_of_isWord
  rw [ways_exported some blank ahead stop fun m goes => ways_chain_text_of_goes goes ⟨c, first, notBlank⟩,
    ways_chain_text rfl, someBlanks, ways_chain_mostOne rfl some' blank' stop' fun m goes =>
      refuses_of_goes_blank goes 1 parts]
  simp

theorem group?_interfaceDeclaration (isName : IsWordName name) (stop : Stops isWord rest) :
    (interfaceDeclaration.find? ("export".toList ++ (gap ++ ("interface".toList ++ (gap' ++ (name ++ rest)))))).bind
      (·.group? 1) = Option.some name := by
  rw [interfaceDeclaration, find?_textStart, ways_declared some blank some' blank' rfl ⟨'i', by decide, by decide⟩ isName,
    head?_ways_lastGroup 1 (head?_ways_mostOne rfl isName.1 isName.2 stop)]
  exact congrArg Option.some (Cursor.textTo_beyond rfl)

/-- The name behind `export type` is found if nothing but blanks stands in front of the `=`. -/
theorem group?_aliasDeclaration {gap'' rest : List Char} (isName : IsWordName name) (stop : Stops isWord (gap'' ++ rest))
    (blank'' : ∀ c ∈ gap'', isBlank c = true) (stop' : Stops isBlank rest) :
    (aliasDeclaration.find? ("export".toList ++ (gap ++ ("type".toList ++ (gap' ++ (name ++ (gap'' ++ rest))))))).bind
      (·.group? 1) = if "=".toList <+: rest then Option.some name else none := by
  -- behind a shorter name stands a word character and not the `=`
  have refuses : ∀ m : Progress, Goes isWord m.place.rest → (chain [.blanks, text "="]).ways m = [] := by
    intro m goes
    have stays : (chain [.blanks, text "="]).ways m = (chain [text "="]).ways (m.beyond [] m.place.rest) :=
      ways_chain_most rfl (by simp) (goes.stops fun _ => isBlank_of_isWord) fun _ goes' =>
        ways_chain_text_of_goes goes' ⟨'=', by decide, by decide⟩
    rw [stays]
    exact ways_chain_text_of_goes goes ⟨'=', by decide, by decide⟩
  rw [aliasDeclaration, find?_textStart, ways_declared some blank some' blank' rfl ⟨'t', by decide, by decide⟩ isName,
    ways_chain_group_mostOne 1 rfl isName.1 isName.2 stop refuses, blanks, ways_chain_most rfl blank'' stop' fun m goes =>
      ways_chain_text_of_goes goes ⟨'=', by decide, by decide⟩]
  split
  · rename_i opens
    obtain ⟨back, ahead⟩ := opens
    rw [ways_chain_text (u := back) ahead.symm]
    exact congrArg Option.some (Cursor.textTo_beyond rfl)
  · rename_i closed
    rw [ways_chain_text_eq_nil closed]
    rfl

end Line

section PassedOn

def isPlain (c : Char) : Bool :=
  isBlank c || isWord c

theorem ways_passedOn_eq_nil {m : Progress} {parts : List Pattern} (goes : Goes isPlain m.place.rest) :
    (chain (either (chain [text "\x7b", most (· != '\x7d'), text "\x7d"]) (text "*") :: parts)).ways m = [] := by
  have noBrace : ¬ "\x7b".toList <+: m.place.rest := goes.not_begins ⟨'\x7b', by decide, by decide⟩
  have noStar : ¬ "*".toList <+: m.place.rest := goes.not_begins ⟨'*', by decide, by decide⟩
  rw [ways_chain_cons, ways, ways_chain_text_eq_nil noBrace, ways_text_eq_nil noStar]
  rfl

theorem occursIn_passedOn (kind : TypeKind) {gap gap' name : List Char} (rest : List Char) (some : gap ≠ [])
    (blank : ∀ c ∈ gap, isBlank c = true) (blank' : ∀ c ∈ gap', isBlank c = true) (isName : IsWordName name) :
    passedOn.occursIn ("export".toList ++ (gap ++ (kind.keyword.toList ++ (gap' ++ (name ++ rest))))) = false := by
  have ofBlank : ∀ c, isBlank c = true → isPlain c = true := fun c blank => by rw [isPlain, blank, Bool.true_or]
  have ofWord : ∀ c, isWord c = true → isPlain c = true := fun c inWord => by rw [isPlain, inWord, Bool.or_true]
  have front : Goes isWord (kind.keyword.toList ++ (gap' ++ (name ++ rest))) := by
    cases kind
    · exact ⟨'i', rfl, by decide⟩
    · exact ⟨'t', rfl, by decide⟩
  -- the word `type` may be passed or not: both ways lead to a blank or to a word character
  have closed : ∀ m : Progress, Goes isPlain m.place.rest →
      (∀ t ∈ (chain [text "type", someBlanks]).ways m, Goes isPlain t.place.rest) →
      (chain [optional (chain [text "type", someBlanks]),
        either (chain [text "\x7b", most (· != '\x7d'), text "\x7d"]) (text "*"), someBlanks, text "from",
        someBlanks]).ways m = [] := by
    intro m goes behind
    rw [ways_chain_cons, Pattern.optional, ways, List.flatMap_append, List.append_eq_nil_iff]
    constructor
    · exact List.flatMap_eq_nil_iff.mpr fun t member => ways_passedOn_eq_nil (behind t member)
    · exact (List.flatMap_singleton ..).trans (ways_passedOn_eq_nil goes)
  rw [occursIn, passedOn, find?_textStart, ways_exported some blank rfl (front.stops fun _ => isBlank_of_isWord)]
  · rw [closed _ (front.mono ofWord)]
    · rfl
    · intro t member
      obtain ⟨t₁, first, member⟩ := mem_ways_chain_cons.mp member
      obtain ⟨u, ahead, rfl⟩ := mem_ways_text.mp first
      obtain ⟨t₂, second, member⟩ := mem_ways_chain_cons.mp member
      obtain ⟨w, u', cut, _, inside, rfl⟩ := mem_ways_mostOne.mp second
      rw [mem_ways_chain_nil] at member
      subst member
      have ahead : kind.keyword.toList ++ (gap' ++ (name ++ rest)) = "type".toList ++ u := ahead
      have cut : u = w ++ u' := cut
      cases kind with
      | interface => cases ahead
      | typeAlias =>
        obtain rfl : gap' ++ (name ++ rest) = u := List.append_cancel_left ahead
        by_cases same : w = gap'
        · obtain rfl : name ++ rest = u' := List.append_cancel_left (same ▸ cut)
          exact (isName.goes rest).mono ofWord
        · have stop : Stops isBlank (name ++ rest) := (isName.goes rest).stops fun _ => isBlank_of_isWord
          exact (goes_of_shorter cut.symm stop blank' inside same).mono ofBlank
  · intro m goes
    refine closed m (goes.mono ofBlank) fun t member => ?_
    rw [ways_chain_text_of_goes goes ⟨'t', by decide, by decide⟩] at member
    cases member

end PassedOn

section Line

variable {gap gap' name rest : List Char} (some : gap ≠ []) (blank : ∀ c ∈ gap, isBlank c = true) (some' : gap' ≠ [])
  (blank' : ∀ c ∈ gap', isBlank c = true) (isName : IsWordName name)

include some blank some' blank' isName

theorem ofLine?_interface (stop : Stops isWord rest) :
    ofLine? ("export".toList ++ (gap ++ ("interface".toList ++ (gap' ++ (name ++ rest))))) =
      Option.some (String.ofList name, .interface) := by
  have declares := occursIn_passedOn .interface rest some blank blank' isName
  rw [TypeKind.keyword] at declares
  simp only [ofLine?, declares, group?_interfaceDeclaration some blank some' blank' isName stop]
  rfl

theorem ofLine?_typeAlias {gap'' : List Char} (stop : Stops isWord (gap'' ++ rest))
    (blank'' : ∀ c ∈ gap'', isBlank c = true) (stop' : Stops isBlank rest) :
    ofLine? ("export".toList ++ (gap ++ ("type".toList ++ (gap' ++ (name ++ (gap'' ++ rest)))))) =
      if "=".toList <+: rest then Option.some (String.ofList name, .typeAlias) else none := by
  have declares := occursIn_passedOn .typeAlias (gap'' ++ rest) some blank blank' isName
  have other : ¬ "interface".toList <+: "type".toList ++ (gap' ++ (name ++ (gap'' ++ rest))) := by
    have front : Goes (· == 't') ("type".toList ++ (gap' ++ (name ++ (gap'' ++ rest)))) := ⟨'t', rfl, rfl⟩
    exact front.not_begins ⟨'i', by decide, by decide⟩
  have noInterface : interfaceDeclaration.find?
      ("export".toList ++ (gap ++ ("type".toList ++ (gap' ++ (name ++ (gap'' ++ rest)))))) = none := by
    rw [interfaceDeclaration, find?_textStart, ways_exported_eq_nil some blank rfl (stops_cons.mpr (by decide))
      ⟨'i', by decide, by decide⟩ other]
    rfl
  have named := group?_aliasDeclaration some blank some' blank' isName stop blank'' stop'
  rw [TypeKind.keyword] at declares
  simp only [ofLine?, declares, Bool.false_eq_true, if_false, noInterface, Option.bind_none, Option.map_none, named]
  split <;> rfl

end Line

theorem isWord_of_ofLine? {line : List Char} {name : String} {kind : TypeKind} (found : ofLine? line = some (name, kind)) :
    ∀ c ∈ name.toList, isWord c = true := by
  have word : ∀ p ∈ [interfaceDeclaration, aliasDeclaration], ∀ kept : List Char,
      (p.find? line).bind (·.group? 1) = some kept → ∀ c ∈ kept, isWord c = true := by
    intro p listed kept matched
    have keeps : p.Keeps 1 (isWord · = true) := by
      simp only [List.mem_cons, List.not_mem_nil, or_false] at listed
      rcases listed with rfl | rfl <;>
        simp [interfaceDeclaration, aliasDeclaration, chain, text, exactly, someBlanks, blanks, mostOne, Keeps, Passes]
    obtain ⟨m, first, own⟩ := Option.bind_eq_some_iff.mp matched
    exact fun c member => ((follows_of_find? first).mem_group? keeps own c member).1
  have named : ∀ p ∈ [interfaceDeclaration, aliasDeclaration], ∀ shown : String,
      ((p.find? line).bind (·.group? 1)).map String.ofList = some shown → ∀ c ∈ shown.toList, isWord c = true := by
    intro p listed shown matched
    obtain ⟨kept, own, rfl⟩ := Option.map_eq_some_iff.mp matched
    rw [String.toList_ofList]
    exact word p listed kept own
  simp only [ofLine?] at found
  split at found
  · cases found
  · split at found
    · rename_i shown matched
      cases found
      exact named _ (by simp) name matched
    · obtain ⟨shown, matched, same⟩ := Option.map_eq_some_iff.mp found
      cases same
      exact named _ (by simp) name matched

theorem stops_behind_name {gap params gap' back : List Char} (blank : ∀ c ∈ gap, isBlank c = true)
    (list : IsParameterList params) (blank' : ∀ c ∈ gap', isBlank c = true) (kind : TypeKind) :
    Stops isWord (gap ++ (params ++ (gap' ++ openingMark kind :: back))) := by
  have ofBlanks : ∀ {z rest : List Char}, (∀ c ∈ z, isBlank c = true) → Stops isWord rest → Stops isWord (z ++ rest) := by
    intro z rest blank stop
    cases z with
    | nil => exact stop
    | cons c z => exact stops_cons.mpr (isWord_of_isBlank (blank c List.mem_cons_self))
  refine ofBlanks blank ?_
  rcases list with rfl | ⟨inner, rfl⟩
  · rw [List.nil_append]
    refine ofBlanks blank' (stops_cons.mpr ?_)
    cases kind <;> decide
  · exact stops_cons.mpr (by decide)

/-- A line that begins with a declaration gives its name and kind exactly if the name is made of word characters, and the
declaration is that of an interface or has no type parameters. -/
theorem ofLine?_eq_some_iff {kind : TypeKind} {name : String} {params line : List Char} (some : name ≠ "")
    (list : IsParameterList params) (begins : BeginsDeclaration kind name.toList params line) :
    ofLine? line = Option.some (name, kind) ↔
      (∀ c ∈ name.toList, isWord c = true) ∧ (kind = .interface ∨ params = []) := by
  obtain ⟨gap₁, gap₂, gap₃, gap₄, back, some₁, some₂, blank, rfl⟩ := begins
  simp only [List.forall_mem_cons] at blank
  obtain ⟨blank₁, blank₂, blank₃, blank₄, _⟩ := blank
  have stop : Stops isWord (gap₃ ++ (params ++ (gap₄ ++ openingMark kind :: back))) :=
    stops_behind_name blank₃ list blank₄ kind
  by_cases inWord : ∀ c ∈ name.toList, isWord c = true
  · have isName : IsWordName name.toList := ⟨by simpa using some, inWord⟩
    cases kind with
    | interface =>
      have found := ofLine?_interface some₁ blank₁ some₂ blank₂ isName stop
      rw [String.ofList_toList] at found
      exact iff_of_true found ⟨inWord, .inl rfl⟩
    | typeAlias =>
      rcases list with rfl | ⟨inner, rfl⟩
      · rw [List.nil_append, ← List.append_assoc] at stop
        have both : ∀ c ∈ gap₃ ++ gap₄, isBlank c = true := fun c member =>
          (List.mem_append.mp member).elim (blank₃ c) (blank₄ c)
        have found := ofLine?_typeAlias some₁ blank₁ some₂ blank₂ isName stop both (stops_cons.mpr (by decide))
        rw [if_pos ⟨back, rfl⟩, String.ofList_toList, List.append_assoc] at found
        exact iff_of_true found ⟨inWord, .inr rfl⟩
      · have found := ofLine?_typeAlias some₁ blank₁ some₂ blank₂ isName stop blank₃ (stops_cons.mpr (by decide))
        -- the parameters stand where the `=` is asked for
        have closed : ¬ "=".toList <+: '<' :: (inner ++ ['>']) ++ (gap₄ ++ openingMark .typeAlias :: back) := by
          intro begins
          exact absurd (List.cons_prefix_cons.mp begins).1 (by decide)
        rw [if_neg closed] at found
        refine iff_of_false (fun own => ?_) fun both => by simp at both
        rw [TypeKind.keyword, found] at own
        cases own
  · exact iff_of_false (fun found => inWord (isWord_of_ofLine? found)) fun both => inWord both.1

end Conformance.Source.ExportedType
