import Conformance.Proofs.Manifest.Fields
import Conformance.Proofs.Manifest.Uncommented
import Conformance.Proofs.Pattern.Members
import Conformance.Proofs.Pattern.Places

namespace Conformance.Endpoint.Manifest

open Pattern

inductive ValueBefore (rest : List Char) : List Char → Prop
  | literal {mark : Char} {body : List Char} (isMark : isQuote mark = true)
    (inside : InLiteral mark (· ≠ '\n') body) : ValueBefore rest (mark :: (body ++ [mark]))
  | flag {word : List Char} (known : word = "true".toList ∨ word = "false".toList) (stop : Stops Text.isWord rest) :
    ValueBefore rest word

structure FieldAt (place : Cursor) (key gap gap' value rest : List Char) : Prop where
  ahead : place.rest = key ++ (gap ++ ':' :: (gap' ++ (value ++ rest)))
  border : place.before.any Text.isWord = false
  named : key ≠ [] ∧ ∀ c ∈ key, Text.isWord c = true
  blank : ∀ c ∈ gap, Text.isBlank c = true
  blank' : ∀ c ∈ gap', Text.isBlank c = true
  value : ValueBefore rest value

section Members

variable {s m : Progress}

theorem mem_ways_literalStep {mark : Char} (member : m ∈ (literalStep mark).ways s) :
    ∃ v u, s.place.rest = v ++ u ∧ InLiteral mark (· ≠ '\n') v ∧ m = s.beyond v u := by
  rcases mem_ways_either.mp member with plain | escaped
  · obtain ⟨c, u, ahead, accepted, rfl⟩ := mem_ways_char.mp plain
    simp only [Bool.and_eq_true, bne_iff_ne] at accepted
    exact ⟨[c], u, ahead, .plain accepted.1 accepted.2 .nil, rfl⟩
  · obtain ⟨t, slash, member⟩ := mem_ways_seq.mp escaped
    obtain ⟨u, ahead, rfl⟩ := mem_ways_text.mp slash
    obtain ⟨c, u', next, sameLine, rfl⟩ := mem_ways_char.mp member
    have onward : u = c :: u' := next
    refine ⟨['\\', c], u', by rw [ahead, onward]; rfl, .escaped (by simpa using sameLine) .nil, ?_⟩
    rw [Progress.beyond_beyond]
    rfl

theorem mem_ways_inside {mark : Char} (member : m ∈ (many (literalStep mark)).ways s) :
    ∃ v u, s.place.rest = v ++ u ∧ InLiteral mark (· ≠ '\n') v ∧ m = s.beyond v u := by
  refine repeatWays_induction (R := fun s m => ∃ v u, s.place.rest = v ++ u ∧ InLiteral mark (· ≠ '\n') v ∧ m = s.beyond v u)
    (fun s => ⟨[], s.place.rest, rfl, .nil, (Progress.beyond_nil rfl).symm⟩) ?_ (fun _ _ => mem_ways_literalStep) _ member
  rintro s _ _ ⟨v, u, cut, inside, rfl⟩ ⟨v', u', cut', inside', rfl⟩
  have further : u = v' ++ u' := cut'
  exact ⟨v ++ v', u', by rw [cut, further, List.append_assoc], inside.append inside', by rw [Progress.beyond_beyond]⟩

theorem mem_ways_literalBody {number : Nat} {mark : Char} (member : m ∈ (literalBody number mark).ways s) :
    ∃ body u x, s.place.rest = mark :: (body ++ mark :: u) ∧ InLiteral mark (· ≠ '\n') body ∧ x.number = number ∧
      m = ⟨s.place.beyond (mark :: (body ++ [mark])) u, x :: s.captures⟩ := by
  obtain ⟨t, first, member⟩ := mem_ways_chain_cons.mp member
  obtain ⟨a, u₁, ahead, isMark, rfl⟩ := mem_ways_char.mp first
  obtain ⟨t, second, member⟩ := mem_ways_chain_cons.mp member
  obtain ⟨t, inner, rfl⟩ := mem_ways_group.mp second
  obtain ⟨body, u₂, cut, inside, rfl⟩ := mem_ways_inside inner
  obtain ⟨t, third, last⟩ := mem_ways_chain_cons.mp member
  obtain ⟨b, u, ends, isMark', rfl⟩ := mem_ways_char.mp third
  obtain rfl := mem_ways_chain_nil.mp last
  obtain rfl : u₁ = body ++ u₂ := cut
  obtain rfl : u₂ = b :: u := ends
  obtain rfl : a = mark := by simpa using isMark
  obtain rfl : b = a := by simpa using isMark'
  refine ⟨body, u, ⟨number, s.place.beyond [b] (body ++ b :: u), s.place.beyond (b :: body) (b :: u)⟩, ahead, inside, rfl, ?_⟩
  simp [Progress.beyond, Progress.moveTo, Progress.keep]

theorem mem_ways_flagPattern (member : m ∈ flagPattern.ways s) :
    ∃ word u x, s.place.rest = word ++ u ∧ (word = "true".toList ∨ word = "false".toList) ∧ Stops Text.isWord u ∧
      x.number = 5 ∧ m = ⟨s.place.beyond word u, x :: s.captures⟩ := by
  obtain ⟨t, group, last⟩ := mem_ways_seq.mp member
  obtain ⟨t, inner, rfl⟩ := mem_ways_group.mp group
  obtain ⟨word, known, u, ahead, rfl⟩ := mem_ways_anyOf.mp inner
  obtain ⟨border, rfl⟩ := mem_ways_wordBorder.mp last
  have words : word.toList = "true".toList ∨ word.toList = "false".toList := by
    rcases List.mem_cons.mp known with rfl | known
    · exact Or.inl rfl
    · obtain rfl := List.mem_singleton.mp known
      exact Or.inr rfl
  refine ⟨word.toList, u, _, ahead, words, ?_, ?_, rfl⟩
  · have before : ((s.beyond word.toList u).keep 5 s.place).place.before.any Text.isWord = true := by
      rcases words with same | same <;> simp only [same] <;> rfl
    have next : u.head?.any Text.isWord = false := by
      have differs : (true != u.head?.any Text.isWord) = true := before ▸ border
      simpa using differs
    intro c first
    simpa [Option.mem_def.mp first] using next
  · rfl

theorem mem_ways_valuePattern (member : m ∈ valuePattern.ways s) :
    ∃ value u x, s.place.rest = value ++ u ∧ ValueBefore u value ∧ x.number ≠ 1 ∧
      m = ⟨s.place.beyond value u, x :: s.captures⟩ := by
  have literal : ∀ {number : Nat} {mark : Char}, isQuote mark = true → number ≠ 1 → m ∈ (literalBody number mark).ways s →
      ∃ value u x, s.place.rest = value ++ u ∧ ValueBefore u value ∧ x.number ≠ 1 ∧
        m = ⟨s.place.beyond value u, x :: s.captures⟩ := by
    intro number mark isMark other member
    obtain ⟨body, u, x, ahead, inside, rfl, rfl⟩ := mem_ways_literalBody member
    exact ⟨_, u, x, by simpa using ahead, .literal isMark inside, other, rfl⟩
  simp only [valuePattern, mem_ways_either] at member
  rcases member with single | double | back | flag
  · exact literal (by decide) (by decide) single
  · exact literal (by decide) (by decide) double
  · exact literal (by decide) (by decide) back
  · obtain ⟨word, u, x, ahead, known, stop, number, rfl⟩ := mem_ways_flagPattern flag
    exact ⟨word, u, x, ahead, .flag known stop, by simp [number], rfl⟩

/-- Where a field is found, a key, a colon and a value stand. -/
theorem mem_ways_field {place : Cursor} (member : m ∈ field.ways ⟨place, []⟩) : ∃ key gap gap' value rest,
    FieldAt place key gap gap' value rest ∧ m.place = place.beyond (key ++ (gap ++ ':' :: (gap' ++ value))) rest ∧
      Match.group? ⟨place, m.place, m.captures⟩ 1 = some key := by
  rw [field_eq] at member
  obtain ⟨t, border, member⟩ := mem_ways_chain_cons.mp member
  obtain ⟨border, rfl⟩ := mem_ways_wordBorder.mp border
  obtain ⟨t, group, member⟩ := mem_ways_chain_cons.mp member
  obtain ⟨t, word, rfl⟩ := mem_ways_group.mp group
  obtain ⟨key, u₁, ahead, some, inside, rfl⟩ := mem_ways_mostOne.mp word
  obtain ⟨t, blanks, member⟩ := mem_ways_chain_cons.mp member
  obtain ⟨gap, u₂, cut₁, blank, rfl⟩ := mem_ways_most.mp blanks
  obtain ⟨t, colon, member⟩ := mem_ways_chain_cons.mp member
  obtain ⟨u₃, cut₂, rfl⟩ := mem_ways_text.mp colon
  obtain ⟨t, blanks', member⟩ := mem_ways_chain_cons.mp member
  obtain ⟨gap', u₄, cut₃, blank', rfl⟩ := mem_ways_most.mp blanks'
  obtain ⟨t, known, last⟩ := mem_ways_chain_cons.mp member
  obtain ⟨value, rest, x, cut₄, isValue, number, rfl⟩ := mem_ways_valuePattern known
  obtain rfl := mem_ways_chain_nil.mp last
  obtain rfl : u₁ = gap ++ u₂ := cut₁
  obtain rfl : u₂ = ':' :: u₃ := cut₂
  obtain rfl : u₃ = gap' ++ u₄ := cut₃
  obtain rfl : u₄ = value ++ rest := cut₄
  have before : place.before.any Text.isWord = false := by
    obtain ⟨c, more, rfl⟩ := List.exists_cons_of_ne_nil some
    have ahead : place.rest = c :: (more ++ _) := ahead
    simpa [Cursor.atWordBorder, ahead, inside c (by simp)] using border
  refine ⟨key, gap, gap', value, rest, ⟨ahead, before, ⟨some, inside⟩, blank, blank', isValue⟩, ?_, ?_⟩
  · simp [Progress.keep, Progress.beyond, Progress.moveTo]
  · have kept : place.textTo (place.beyond key (gap ++ ':' :: (gap' ++ (value ++ rest)))) = key :=
      Cursor.textTo_beyond ahead
    simp [Match.group?, Progress.keep, Progress.beyond, Progress.moveTo, number, kept]

end Members

def fieldStart : Pattern :=
  .chain [.wordBorder, .mostOne Text.isWord, .blanks, .text ":", .blanks,
    .either (.char isQuote) (.seq (.anyOf "true" ["false"]) .wordBorder)]

/-- The text is closed code in which each literal is the value of a key or holds nothing that looks like the
beginning of a field. `inWord` tells whether the text goes on behind a letter. -/
inductive Readable : Bool → List Char → Prop
  | done {inWord : Bool} : Readable inWord []
  | word {w rest : List Char} (some : w ≠ []) (isWord : ∀ c ∈ w, Text.isWord c = true) (stop : Stops Text.isWord rest)
    (onward : Readable true rest) : Readable false (w ++ rest)
  | other {inWord : Bool} {c : Char} {rest : List Char} (noWord : Text.isWord c = false) (noQuote : isQuote c = false)
    (onward : Readable false rest) : Readable inWord (c :: rest)
  | field {key gap gap' body rest : List Char} {mark : Char} (named : key ≠ [] ∧ ∀ c ∈ key, Text.isWord c = true)
    (noFlag : key ≠ "true".toList ∧ key ≠ "false".toList) (blank : ∀ c ∈ gap, Text.isBlank c = true)
    (blank' : ∀ c ∈ gap', Text.isBlank c = true) (isMark : isQuote mark = true)
    (inside : InLiteral mark (· ≠ '\n') body) (onward : Readable false rest) :
    Readable false (key ++ (gap ++ ':' :: (gap' ++ mark :: (body ++ mark :: rest))))
  | literal {inWord : Bool} {body rest : List Char} {mark : Char} (isMark : isQuote mark = true)
    (inside : InLiteral mark (fun _ => True) body) (harmless : fieldStart.occursIn (mark :: (body ++ [mark])) = false)
    (onward : Readable false rest) : Readable inWord (mark :: (body ++ mark :: rest))

theorem isQuote_of_isBlank {c : Char} (blank : Text.isBlank c = true) : isQuote c = false := by
  have apart : ∀ d : Char, Text.isBlank d = false → c ≠ d := by
    rintro d solid rfl
    rw [blank] at solid
    cases solid
  simp [isQuote, apart '\'' (by decide), apart '"' (by decide), apart '`' (by decide)]

theorem isWord_of_isQuote {c : Char} (quote : isQuote c = true) : Text.isWord c = false := by
  rw [Bool.eq_false_iff]
  intro word
  rw [isQuote_of_isWord word] at quote
  cases quote

theorem closed_letters {w : List Char} (isWord : ∀ c ∈ w, Text.isWord c = true) : Closed w (w.map fun c => (.code, c)) :=
  closed_word fun c member => ⟨isQuote_of_isWord (isWord c member), ne_of_isWord (isWord c member) (by decide)⟩

theorem closed_blanks {w : List Char} (blank : ∀ c ∈ w, Text.isBlank c = true) : Closed w (w.map fun c => (.code, c)) := by
  refine closed_word fun c member => ⟨isQuote_of_isBlank (blank c member), ?_⟩
  rintro rfl
  exact absurd (blank _ member) (by decide)

theorem flag_isWord {word : List Char} (known : word = "true".toList ∨ word = "false".toList) :
    word ≠ [] ∧ ∀ c ∈ word, Text.isWord c = true := by
  rcases known with rfl | rfl <;> exact ⟨by decide, by decide⟩

theorem cons_ne_word {c : Char} {rest w u : List Char} (noWord : Text.isWord c = false) (some : w ≠ [])
    (isWord : ∀ d ∈ w, Text.isWord d = true) : c :: rest ≠ w ++ u := by
  obtain ⟨d, w, rfl⟩ := List.exists_cons_of_ne_nil some
  intro same
  obtain rfl : c = d := (List.cons.inj same).1
  rw [isWord c (by simp)] at noWord
  cases noWord

namespace FieldAt

variable {place : Cursor} {key gap gap' value rest : List Char}

theorem plain_between (stands : FieldAt place key gap gap' value rest) :
    ∀ c ∈ gap ++ ':' :: gap', Text.isWord c = false ∧ isQuote c = false := by
  have plain : ∀ c, Text.isBlank c = true → Text.isWord c = false ∧ isQuote c = false := fun c blank =>
    ⟨Text.isWord_of_isBlank blank, isQuote_of_isBlank blank⟩
  intro c member
  rcases List.mem_append.mp member with inside | member
  · exact plain c (stands.blank c inside)
  · rcases List.mem_cons.mp member with rfl | inside
    · decide
    · exact plain c (stands.blank' c inside)

theorem noQuote (stands : FieldAt place key gap gap' value rest) :
    ∀ c ∈ key ++ (gap ++ ':' :: gap'), isQuote c = false := by
  intro c member
  rcases List.mem_append.mp member with inside | between
  · exact isQuote_of_isWord (stands.named.2 c inside)
  · exact (stands.plain_between c between).2

end FieldAt

theorem append_inj_of_stops {accepts : Char → Bool} {v w u rest : List Char} (whole : v ++ u = w ++ rest)
    (taken : ∀ c ∈ v, accepts c = true) (inside : ∀ c ∈ w, accepts c = true) (stop : Stops accepts u)
    (stop' : Stops accepts rest) : v = w ∧ u = rest := by
  have same : v = w := by
    apply Classical.byContradiction
    intro differ
    obtain ⟨c, first, accepted⟩ := goes_of_shorter whole stop' inside taken differ
    rw [stop c first] at accepted
    cases accepted
  subst same
  exact ⟨rfl, List.append_cancel_left whole⟩

namespace Readable

variable {inWord : Bool} {c : Char} {w rest : List Char}

theorem of_plain (noWord : Text.isWord c = false) (noQuote : isQuote c = false) (readable : Readable inWord (c :: rest)) :
    Readable false rest := by
  generalize same : c :: rest = text at readable
  cases readable with
  | done => cases same
  | word some isWord _ _ => exact absurd same (cons_ne_word noWord some isWord)
  | other _ _ onward =>
    cases same
    exact onward
  | field named _ _ _ _ _ _ => exact absurd same (cons_ne_word noWord named.1 named.2)
  | literal isMark _ _ _ =>
    obtain rfl := (List.cons.inj same).1
    rw [isMark] at noQuote
    cases noQuote

theorem behind (readable : Readable inWord (w ++ rest)) (some : w ≠ [])
    (plain : ∀ c ∈ w, Text.isWord c = false ∧ isQuote c = false) : Readable false rest := by
  induction w generalizing inWord with
  | nil => exact absurd rfl some
  | cons c w ih =>
    obtain ⟨noWord, noQuote⟩ := plain c (by simp)
    have onward : Readable false (w ++ rest) := of_plain noWord noQuote readable
    cases w with
    | nil => exact onward
    | cons d w => exact ih onward (by simp) fun e member => plain e (List.mem_cons_of_mem _ member)

theorem behind_flag (known : w = "true".toList ∨ w = "false".toList) (stop : Stops Text.isWord rest)
    (readable : Readable false (w ++ rest)) : Readable true rest := by
  obtain ⟨some, own⟩ := flag_isWord known
  generalize same : w ++ rest = text at readable
  cases readable with
  | done => exact absurd (List.append_eq_nil_iff.mp same).1 some
  | word _ isWord stop' onward =>
    obtain ⟨_, rfl⟩ := append_inj_of_stops same own isWord stop stop'
    exact onward
  | other noWord _ _ => exact absurd same.symm (cons_ne_word noWord some own)
  | field named noFlag blank _ _ _ _ =>
    obtain ⟨rfl, _⟩ := append_inj_of_stops same own named.2 stop (stops_isWord_gap blank)
    exact (known.elim noFlag.1 noFlag.2).elim
  | literal isMark _ _ _ => exact absurd same.symm (cons_ne_word (isWord_of_isQuote isMark) some own)

theorem behind_literal {kind : Char → Prop} {mark : Char} {body : List Char} (isMark : isQuote mark = true)
    (inside : InLiteral mark kind body) (readable : Readable inWord (mark :: (body ++ mark :: rest))) :
    Readable false rest := by
  have noWord := isWord_of_isQuote isMark
  generalize same : mark :: (body ++ mark :: rest) = text at readable
  cases readable with
  | done => cases same
  | word some isWord _ _ => exact absurd same (cons_ne_word noWord some isWord)
  | other _ noQuote _ =>
    obtain rfl := (List.cons.inj same).1
    rw [isMark] at noQuote
    cases noQuote
  | field named _ _ _ _ _ _ => exact absurd same (cons_ne_word noWord named.1 named.2)
  | literal _ inside' _ onward =>
    obtain ⟨rfl, same⟩ := List.cons.inj same
    obtain ⟨_, rfl⟩ := inside.unique (ne_backslash_of_isQuote isMark) inside' same
    exact onward

theorem others (some : w ≠ []) (plain : ∀ c ∈ w, Text.isWord c = false ∧ isQuote c = false)
    (onward : Readable false rest) : Readable inWord (w ++ rest) := by
  induction w generalizing inWord with
  | nil => exact absurd rfl some
  | cons c w ih =>
    obtain ⟨noWord, noQuote⟩ := plain c (by simp)
    refine .other noWord noQuote ?_
    cases w with
    | nil => exact onward
    | cons d w => exact ih (by simp) fun e member => plain e (List.mem_cons_of_mem _ member)

theorem behind_value {value : List Char} (isValue : ValueBefore rest value) (readable : Readable false (value ++ rest)) :
    Readable (value.getLast?.any Text.isWord) rest := by
  cases isValue with
  | literal isMark inside =>
    have onward : Readable false rest := behind_literal isMark inside (by simpa using readable)
    simpa [List.getLast?_cons, isWord_of_isQuote isMark] using onward
  | flag known stop =>
    have onward := behind_flag known stop readable
    rcases known with rfl | rfl <;> exact onward

end Readable

section Harmless

variable {place : Cursor} {mark : Char} {body rest : List Char}

theorem append_eq_append_mark {front x u : List Char} (free : mark ∉ front) (same : u ++ mark :: rest = front ++ x) :
    ∃ a, u = front ++ a ∧ x = a ++ mark :: rest := by
  rcases List.append_eq_append_iff.mp same with ⟨a, rfl, mid⟩ | ⟨a, rfl, rfl⟩
  · cases a with
    | nil => exact ⟨[], by simp, by simpa using mid.symm⟩
    | cons c a =>
      obtain rfl := (List.cons.inj mid).1
      simp at free
  · exact ⟨a, rfl, rfl⟩

theorem fieldStart_ways_ne_nil {s : Progress} {key gap gap' u : List Char}
    (named : key ≠ [] ∧ ∀ c ∈ key, Text.isWord c = true) (before : s.place.before.any Text.isWord = false)
    (ahead : s.place.rest = key ++ (gap ++ ':' :: (gap' ++ u))) (blank : ∀ c ∈ gap, Text.isBlank c = true)
    (blank' : ∀ c ∈ gap', Text.isBlank c = true)
    (begins : (∃ c more, u = c :: more ∧ isQuote c = true) ∨
      ∃ word more, u = word ++ more ∧ (word = "true".toList ∨ word = "false".toList) ∧ Stops Text.isWord more) :
    fieldStart.ways s ≠ [] := by
  have border : s.place.atWordBorder = true := by
    obtain ⟨c, more, rfl⟩ := List.exists_cons_of_ne_nil named.1
    simp [Cursor.atWordBorder, before, ahead, named.2 c (by simp)]
  refine ways_chain_ne_nil (mem_ways_wordBorder.mpr ⟨border, rfl⟩) ?_
  refine ways_chain_ne_nil (mem_ways_mostOne.mpr ⟨key, _, ahead, named.1, named.2, rfl⟩) ?_
  refine ways_chain_ne_nil (mem_ways_most.mpr ⟨gap, _, rfl, blank, rfl⟩) ?_
  refine ways_chain_ne_nil (mem_ways_text.mpr ⟨_, rfl, rfl⟩) ?_
  refine ways_chain_ne_nil (mem_ways_most.mpr ⟨gap', _, rfl, blank', rfl⟩) ?_
  rcases begins with ⟨c, more, rfl, isMark⟩ | ⟨word, more, rfl, known, stop⟩
  · exact ways_chain_ne_nil (mem_ways_either.mpr (Or.inl (mem_ways_char.mpr ⟨c, more, rfl, isMark, rfl⟩)))
      ways_chain_nil_ne_nil
  · obtain ⟨text, listed, rfl⟩ : ∃ text ∈ ["true", "false"], text.toList = word := by
      rcases known with rfl | rfl <;> simp
    refine ways_chain_ne_nil (mem_ways_either.mpr (Or.inr (mem_ways_seq.mpr ⟨_,
      mem_ways_anyOf.mpr ⟨text, listed, more, rfl, rfl⟩, mem_ways_wordBorder.mpr ⟨?_, rfl⟩⟩))) ways_chain_nil_ne_nil
    have next : more.head?.any Text.isWord = false := by
      cases more with
      | nil => rfl
      | cons c more => simpa using stop
    simp only [List.mem_cons, List.not_mem_nil, or_false] at listed
    simp only [Cursor.atWordBorder, Progress.beyond_place, Cursor.beyond_rest, next]
    rcases listed with rfl | rfl <;> rfl

/-- A value that begins in front of a mark begins with a quotation mark, or it is a truth value in front of it. -/
theorem ValueBefore.begins {value rest' a : List Char} (isValue : ValueBefore rest' value) (isMark : isQuote mark = true)
    (same : value ++ rest' = a ++ mark :: rest) : (∃ c more, a ++ [mark] = c :: more ∧ isQuote c = true) ∨
      ∃ word more, a ++ [mark] = word ++ more ∧ (word = "true".toList ∨ word = "false".toList) ∧
        Stops Text.isWord more := by
  cases isValue with
  | @literal mark' _ isMark' _ =>
    left
    cases a with
    | nil => exact ⟨mark, [], rfl, isMark⟩
    | cons c a =>
      obtain rfl := (List.cons.inj same).1
      exact ⟨mark', a ++ [mark], rfl, isMark'⟩
  | flag known stop =>
    right
    have noMark : mark ∉ value := fun member => by
      rw [isQuote_of_isWord ((flag_isWord known).2 mark member)] at isMark
      cases isMark
    obtain ⟨more, rfl, behind⟩ := append_eq_append_mark noMark same.symm
    refine ⟨value, more ++ [mark], by simp, known, ?_⟩
    rw [behind] at stop
    cases more with
    | nil => exact stops_cons.mpr (isWord_of_isQuote isMark)
    | cons c more => exact stops_cons.mpr (stops_cons.mp stop)

/-- No field begins in a literal that has no beginning of a field. -/
theorem field_refuses_harmless (isMark : isQuote mark = true)
    (harmless : fieldStart.occursIn (mark :: (body ++ [mark])) = false) {v u : List Char}
    (cut : mark :: (body ++ [mark]) = v ++ u) (some : u ≠ []) :
    field.ways ⟨place.beyond v (u ++ rest), []⟩ = [] := by
  apply Classical.byContradiction
  intro found
  obtain ⟨m, member⟩ := List.exists_mem_of_ne_nil _ found
  obtain ⟨key, gap, gap', value, rest', stands, _, _⟩ := mem_ways_field member
  suffices occurs : fieldStart.occursIn (mark :: (body ++ [mark])) = true by
    rw [harmless] at occurs
    cases occurs
  -- the literal ends with its mark, and the field has no quotation mark in front of its value
  obtain ⟨u, rfl⟩ : ∃ u', u = u' ++ [mark] := by
    obtain ⟨u', d, rfl⟩ := (List.eq_nil_or_concat u).resolve_left some
    have last : (mark :: (body ++ [mark])).getLast? = (v ++ (u' ++ [d])).getLast? := by rw [cut, List.concat_eq_append]
    obtain rfl : mark = d := by simpa [List.getLast?_cons] using last
    exact ⟨u', List.concat_eq_append⟩
  have noQuote : mark ∉ key ++ (gap ++ ':' :: gap') := fun member => by
    rw [stands.noQuote mark member] at isMark
    cases isMark
  have ahead : u ++ mark :: rest = (key ++ (gap ++ ':' :: gap')) ++ (value ++ rest') := by
    have whole : (u ++ [mark]) ++ rest = _ := stands.ahead
    simpa using whole
  obtain ⟨a, rfl, isValue⟩ := append_eq_append_mark noQuote ahead
  have before : ((Cursor.ofText (mark :: (body ++ [mark]))).beyond v
      (key ++ (gap ++ ':' :: gap') ++ a ++ [mark])).before.any Text.isWord = false := by
    have border : (v.getLast?.or place.before).any Text.isWord = false := stands.border
    change (v.getLast?.or none).any Text.isWord = false
    cases last : v.getLast? with
    | none => rfl
    | some c => simpa [last] using border
  exact occursIn_iff.mpr ⟨v, _, cut, fieldStart_ways_ne_nil stands.named before (u := a ++ [mark]) (by simp) stands.blank
    stands.blank' (stands.value.begins isMark isValue)⟩

end Harmless

def InCode (text : List Char) (place : Cursor) : Prop :=
  ∃ front, roles .code text = front ++ roles .code place.rest ∧
    place = (Cursor.ofText text).beyond (front.map Prod.snd) place.rest

def AtKey (text : List Char) (m : Match) : Prop :=
  ∃ before key, KeyAt (roles .code text) before key ∧ m.start.offset = Text.byteLength (before.map Prod.snd) ∧
    m.group? 1 = some key

section Search

variable {text : List Char} {place : Cursor}

theorem InCode.start : InCode text (Cursor.ofText text) :=
  ⟨[], rfl, rfl⟩

theorem InCode.beyond (inCode : InCode text place) {s rest : List Char} {marks : List (Role × Char)}
    (ahead : place.rest = s ++ rest) (cut : roles .code (s ++ rest) = marks ++ roles .code rest) :
    InCode text (place.beyond s rest) := by
  obtain ⟨front, whole, reached⟩ := inCode
  have spelled : marks.map Prod.snd = s := by
    have both := congrArg (List.map Prod.snd) cut
    rw [List.map_append, map_snd_roles, map_snd_roles] at both
    exact (List.append_cancel_right both).symm
  refine ⟨front ++ marks, by rw [whole, ahead, cut, List.append_assoc]; rfl, ?_⟩
  rw [reached, Cursor.beyond_beyond, List.map_append, spelled]
  rfl

/-- Code that is no quotation mark is passed, in a text without comments. -/
theorem InCode.past (inCode : InCode text place) (uncommented : ∀ x ∈ roles .code text, x.1 = .code ∨ x.1 = .literal)
    {c : Char} {rest : List Char} (ahead : place.rest = c :: rest) (noQuote : isQuote c = false) :
    InCode text (place.beyond [c] rest) := by
  suffices cut : roles .code ([c] ++ rest) = [(.code, c)] ++ roles .code rest from inCode.beyond ahead cut
  obtain ⟨front, whole, _⟩ := inCode
  have noComment : ∀ d more, roles .code place.rest ≠ (.comment, d) :: more := by
    intro d more begins
    rw [begins] at whole
    simpa using uncommented (.comment, d) (by simp [whole])
  rw [List.singleton_append, roles.eq_4, noQuote]
  · rfl
  · rintro more rfl rfl
    rw [ahead, roles] at noComment
    exact noComment _ _ rfl
  · rintro more rfl rfl
    rw [ahead, roles] at noComment
    exact noComment _ _ rfl

theorem closed_value_before {rest value : List Char} (isValue : ValueBefore rest value) : ∃ marks, Closed value marks := by
  cases isValue with
  | literal isMark inside => exact ⟨_, closed_literal isMark inside⟩
  | flag known _ => exact ⟨_, closed_letters (flag_isWord known).2⟩

/-- Where a field is found in the code, there is a key, and behind the field there is code again. -/
theorem InCode.of_fieldAt (inCode : InCode text place) {key gap gap' value rest : List Char}
    (stands : FieldAt place key gap gap' value rest) :
    (∃ before, KeyAt (roles .code text) before key ∧ place.offset = Text.byteLength (before.map Prod.snd)) ∧
      InCode text (place.beyond (key ++ (gap ++ ':' :: (gap' ++ value))) rest) := by
  obtain ⟨marks, closedValue⟩ := closed_value_before stands.value
  have closedKey := closed_letters stands.named.2
  have closedGap := closed_blanks stands.blank
  have closedGap' := closed_blanks stands.blank'
  have colon : Closed [':'] [(.code, ':')] := closed_char (by decide) (by decide)
  have whole := closedKey.append (closedGap.append (colon.append (closedGap'.append closedValue)))
  refine ⟨?_, inCode.beyond (by simpa using stands.ahead) (whole rest)⟩
  obtain ⟨front, spelled, reached⟩ := inCode
  refine ⟨front, ⟨stands.named, ?_, gap.map fun c => (.code, c), roles .code (gap' ++ (value ++ rest)), ?_, ?_⟩, ?_⟩
  · rintro x last _
    have border := stands.border
    rw [reached] at border
    simpa [Cursor.beyond, Cursor.ofText, List.getLast?_map, Option.mem_def.mp last] using border
  · have cut := (closedKey.append (closedGap.append colon)) (gap' ++ (value ++ rest))
    have ahead : place.rest = (key ++ (gap ++ [':'])) ++ (gap' ++ (value ++ rest)) := by simpa using stands.ahead
    rw [spelled, ahead, cut]
    simp
  · intro x member
    obtain ⟨c, inside, rfl⟩ := List.mem_map.mp member
    exact ⟨by simp, fun _ => stands.blank c inside⟩
  · rw [reached]
    exact Nat.zero_add _

/-- What a search finds from a place in readable code: a field at a key, with readable code behind it. -/
structure Finds (text : List Char) (m : Match) : Prop where
  atKey : AtKey text m
  inCode : InCode text m.stop
  readable : Readable (m.stop.before.any Text.isWord) m.stop.rest
  moves : m.start.offset < m.stop.offset

theorem finds_of_mem_ways (inCode : InCode text place) {m : Progress} (member : m ∈ field.ways ⟨place, []⟩)
    (readable : Readable (m.place.before.any Text.isWord) m.place.rest) : Finds text ⟨place, m.place, m.captures⟩ := by
  obtain ⟨key, gap, gap', value, rest, stands, stop, kept⟩ := mem_ways_field member
  obtain ⟨⟨before, keyAt, offset⟩, behind⟩ := inCode.of_fieldAt stands
  refine ⟨⟨before, key, keyAt, offset, kept⟩, ?_, readable, ?_⟩
  · exact stop ▸ behind
  · rw [stop]
    simp only [Cursor.beyond, Text.byteLength_append, Text.byteLength_cons]
    have positive := Char.utf8Size_pos ':'
    omega

/-- A field that begins at a readable word is followed by readable code. -/
theorem readable_of_fieldAt {key gap gap' value w rest rest' : List Char} (isWord : ∀ c ∈ w, Text.isWord c = true)
    (stop : Stops Text.isWord rest) (onward : Readable true rest) (ahead : place.rest = w ++ rest)
    (stands : FieldAt place key gap gap' value rest') :
    Readable ((place.beyond (key ++ (gap ++ ':' :: (gap' ++ value))) rest').before.any Text.isWord) rest' := by
  obtain ⟨rfl, rfl⟩ := append_inj_of_stops (ahead.symm.trans stands.ahead) isWord stands.named.2 stop
    (stops_isWord_gap stands.blank)
  have further : Readable false (value ++ rest') :=
    Readable.behind (w := gap ++ ':' :: gap') (by simpa using onward) (by simp) stands.plain_between
  have some : value ≠ [] := by
    cases stands.value with
    | literal => exact List.cons_ne_nil _ _
    | flag known => exact (flag_isWord known).1
  have last := List.getLast?_eq_some_getLast some
  have behind := further.behind_value stands.value
  simpa [Cursor.beyond, List.getLast?_append, List.getLast?_cons, last] using behind

theorem field_ways_literal {key gap gap' body rest : List Char} {mark : Char}
    (named : key ≠ [] ∧ ∀ c ∈ key, Text.isWord c = true) (before : place.before.any Text.isWord = false)
    (ahead : place.rest = key ++ (gap ++ ':' :: (gap' ++ mark :: (body ++ mark :: rest))))
    (blank : ∀ c ∈ gap, Text.isBlank c = true) (blank' : ∀ c ∈ gap', Text.isBlank c = true)
    (isMark : isQuote mark = true) (inside : InLiteral mark (· ≠ '\n') body) : ∃ captures, field.ways ⟨place, []⟩ =
      [⟨place.beyond (key ++ (gap ++ ':' :: (gap' ++ mark :: (body ++ [mark])))) rest, captures⟩] := by
  obtain ⟨kind, rfl⟩ : ∃ kind : Mark, kind.char = mark := by
    simp only [isQuote, Bool.or_eq_true, beq_iff_eq] at isMark
    rcases isMark with (rfl | rfl) | rfl
    · exact ⟨.single, rfl⟩
    · exact ⟨.double, rfl⟩
    · exact ⟨.back, rfl⟩
  have stop : Stops Text.isBlank (kind.char :: (body ++ kind.char :: rest)) := by
    rw [stops_cons, Bool.eq_false_iff]
    intro blank
    rw [isQuote_of_isBlank blank] at isMark
    cases isMark
  have value := field_ways named before ahead blank blank' stop
  obtain ⟨_, _, _, found⟩ := literalBody_ways (s := ⟨place.beyond (key ++ (gap ++ ':' :: gap'))
    (kind.char :: (body ++ kind.char :: rest)), _⟩) kind.number isMark inside rfl
  have behind : (place.beyond (key ++ (gap ++ ':' :: gap')) (kind.char :: (body ++ kind.char :: rest))).beyond
      (kind.char :: (body ++ [kind.char])) rest =
        place.beyond (key ++ (gap ++ ':' :: (gap' ++ kind.char :: (body ++ [kind.char])))) rest := by simp
  exact ⟨_, value.trans ((valuePattern_literal rfl found).trans (congrArg (fun at_ => [Progress.mk at_ _]) behind))⟩

theorem field_refuses_in_word {v u rest : List Char} (isWord : ∀ c ∈ v ++ u, Text.isWord c = true) (some : v ≠ [])
    (some' : u ≠ []) : field.ways ⟨place.beyond v (u ++ rest), []⟩ = [] := by
  obtain ⟨c, u, rfl⟩ := List.exists_cons_of_ne_nil some'
  have last := isWord (v.getLast some) (List.mem_append_left _ (List.getLast_mem some))
  rw [field_eq]
  apply ways_chain_wordBorder_eq_nil
  simp [Cursor.atWordBorder, Cursor.beyond, List.getLast?_eq_some_getLast some, last, isWord c (by simp)]

/-- A search in readable code finds a field at a key, and stops in readable code. -/
theorem finds_of_searchFrom (uncommented : ∀ x ∈ roles .code text, x.1 = .code ∨ x.1 = .literal) {inWord : Bool}
    {rest : List Char} (readable : Readable inWord rest) (ahead : place.rest = rest)
    (before : place.before.any Text.isWord = inWord) (inCode : InCode text place) {m : Match}
    (found : field.searchFrom place = some m) : Finds text m := by
  induction readable generalizing place with
  | done =>
    rw [searchFrom_nil ahead, matchAt?_eq_none_iff.mpr (field_refuses (by simp [ahead, Stops]))] at found
    cases found
  | @other _ c rest noWord noQuote onward ih =>
    rw [searchFrom_cons ahead (field_refuses (by simp [ahead, noWord])), Cursor.past_eq_beyond] at found
    exact ih rfl (by simp [Cursor.beyond, noWord]) (inCode.past uncommented ahead noQuote) found
  | @literal _ body rest mark isMark inside harmless onward ih =>
    have spelled : place.rest = (mark :: (body ++ [mark])) ++ rest := by simpa using ahead
    rw [searchFrom_skip spelled fun v u cut some => field_refuses_harmless isMark harmless cut some] at found
    refine ih rfl ?_ (inCode.beyond spelled (closed_literal isMark inside rest)) found
    simp [Cursor.beyond, List.getLast?_cons, isWord_of_isQuote isMark]
  | @word w rest some isWord stop onward ih =>
    by_cases none : field.ways ⟨place, []⟩ = []
    · have skip : field.searchFrom place = field.searchFrom (place.beyond w rest) := by
        refine searchFrom_skip ahead fun v u cut more => ?_
        cases v with
        | nil =>
          rw [List.nil_append] at cut
          rw [← cut, Cursor.beyond_nil_of_rest ahead]
          exact none
        | cons c v => exact field_refuses_in_word (cut ▸ isWord) (by simp) more
      rw [skip] at found
      refine ih rfl ?_ (inCode.beyond ahead (closed_letters isWord rest)) found
      have last := isWord (w.getLast some) (List.getLast_mem some)
      simp [Cursor.beyond, List.getLast?_eq_some_getLast some, last]
    · obtain ⟨t, more, ways⟩ := List.exists_cons_of_ne_nil none
      rw [searchFrom_of_matchAt? (matchAt?_of_ways ways)] at found
      cases found
      have member : t ∈ field.ways ⟨place, []⟩ := by simp [ways]
      obtain ⟨_, _, _, _, _, stands, stopped, _⟩ := mem_ways_field member
      refine finds_of_mem_ways inCode member ?_
      rw [stopped]
      exact readable_of_fieldAt isWord stop onward ahead stands
  | field named _ blank blank' isMark inside onward _ =>
    obtain ⟨captures, ways⟩ := field_ways_literal named before ahead blank blank' isMark inside
    rw [searchFrom_of_matchAt? (matchAt?_of_ways ways)] at found
    cases found
    refine finds_of_mem_ways inCode (m := ⟨_, captures⟩) (by simp [ways]) ?_
    simpa [Cursor.beyond, List.getLast?_append, List.getLast?_cons, isWord_of_isQuote isMark] using onward

theorem atKey_of_mem_matchesFrom (uncommented : ∀ x ∈ roles .code text, x.1 = .code ∨ x.1 = .literal) {limit : Nat}
    (readable : Readable (place.before.any Text.isWord) place.rest) (inCode : InCode text place) {m : Match}
    (member : m ∈ field.matchesFrom limit place) : AtKey text m := by
  induction limit generalizing place with
  | zero => cases member
  | succ limit ih =>
    cases found : field.searchFrom place with
    | none =>
      rw [matchesFrom_eq_nil found] at member
      cases member
    | some first =>
      have finds := finds_of_searchFrom uncommented readable rfl rfl inCode found
      rw [matchesFrom_succ found finds.moves] at member
      rcases List.mem_cons.mp member with rfl | later
      · exact finds.atKey
      · exact ih finds.readable finds.inCode later

end Search

/-- If each literal of an object is the value of a key or holds nothing that looks like a field, every field that
is read begins at a key in the code of the object, outside of literals and comments. -/
theorem fields_in_code {block : List Char} (readable : Readable false (withoutComments block)) :
    ∀ x ∈ fields (withoutComments block), ∃ m ∈ field.findAll (withoutComments block), fieldOf? m = some x ∧
      ∃ before, KeyAt (roles .code block) before x.1 ∧
        m.start.offset = Text.byteLength (before.filterMap kept) := by
  intro x member
  obtain ⟨m, found, same⟩ := List.mem_filterMap.mp member
  obtain ⟨before, key, keyAt, offset, keeps⟩ :=
    atKey_of_mem_matchesFrom (fun _ => code_or_literal_of_mem) (show Readable _ (Cursor.ofText _).rest from readable)
      InCode.start found
  obtain ⟨front, stands, left⟩ := keyAt.of_withoutComments
  have own : x.1 = key := by
    rw [fieldOf?, keeps, Option.map_some, Option.some_inj] at same
    rw [← same]
    split <;> rfl
  exact ⟨m, found, same, front, own ▸ stands, by rw [offset, ← left, filterMap_kept]⟩

def guardedObject : List Char :=
  "\x7b routePath: 'a', /* devOnly: true */ options: \"\x7b cpu: true \x7d\", tags: ['x'], devOnly: false \x7d".toList

theorem guardedObject_fields : Readable false (withoutComments guardedObject) ∧
    ∀ x ∈ fields (withoutComments guardedObject), ∃ m ∈ field.findAll (withoutComments guardedObject),
      fieldOf? m = some x ∧ ∃ before, KeyAt (roles .code guardedObject) before x.1 ∧
        m.start.offset = Text.byteLength (before.filterMap kept) := by
  have spelled : withoutComments guardedObject = "\x7b ".toList ++ ("routePath".toList ++ ([] ++ ':' :: ([' '] ++
      '\'' :: (['a'] ++ '\'' :: (",   ".toList ++ ("options".toList ++ ([] ++ ':' :: ([' '] ++ '"' ::
        ("\x7b cpu: true \x7d".toList ++ '"' :: (", ".toList ++ ("tags".toList ++ (": [".toList ++
          '\'' :: (['x'] ++ '\'' :: ("], ".toList ++ ("devOnly".toList ++ (": ".toList ++ ("false".toList ++
            " \x7d".toList))))))))))))))))) := by
    have whole : guardedObject = _ := String.toList_ofList
    have options : "\x7b cpu: true \x7d".toList = _ := String.toList_ofList
    rw [whole, options]
    decide +kernel
  have readable : Readable false (withoutComments guardedObject) := by
    rw [spelled]
    refine .others (by decide) (by decide) ?_
    refine .field (by decide) (by decide) (by decide) (by decide) (by decide) (.of_plain (by decide)) ?_
    refine .others (by decide) (by decide) ?_
    refine .field (by decide) (by decide) (by decide) (by decide) (by decide) (.of_plain (by decide)) ?_
    refine .others (by decide) (by decide) ?_
    refine .word (by decide) (by decide) (stops_cons.mpr (by decide)) ?_
    refine .others (by decide) (by decide) ?_
    refine .literal (by decide) (.of_plain (by decide)) (by decide +kernel) ?_
    refine .others (by decide) (by decide) ?_
    refine .word (by decide) (by decide) (stops_cons.mpr (by decide)) ?_
    refine .others (by decide) (by decide) ?_
    refine .word (by decide) (by decide) (stops_cons.mpr (by decide)) ?_
    exact .others (w := " \x7d".toList) (by decide) (by decide) .done
  exact ⟨readable, fields_in_code readable⟩

theorem fields_of_element :
    let block := "\x7b tags: ['devOnly: true'] \x7d".toList
    fields (withoutComments block) = [("devOnly".toList, .flag true)] ∧
      ¬ ∃ before, KeyAt (roles .code block) before "devOnly".toList := by
  intro block
  have whole : block = _ := String.toList_ofList
  refine ⟨by rw [whole]; decide +kernel, ?_⟩
  rintro ⟨before, _, _, gap, after, spelled, _⟩
  have none : (Role.code, 'd') ∉ roles .code "\x7b tags: ['devOnly: true'] \x7d".toList := by decide +kernel
  exact none (spelled ▸ by simp)

end Conformance.Endpoint.Manifest
