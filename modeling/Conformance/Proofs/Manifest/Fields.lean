import Conformance.Proofs.Manifest.Lexing
import Conformance.Proofs.Pattern.Matches
import Conformance.Proofs.Text.Classes

namespace Conformance

theorem Cursor.textTo_eq {start stop : Cursor} {passed : List Char} (cut : start.rest = passed ++ stop.rest) :
    start.textTo stop = passed := by
  simp [textTo, cut]

namespace Endpoint.Manifest

open Pattern

theorem unescape_escape {mark : Char} (isMark : isQuote mark = true) (chars : List Char) :
    unescape (escape mark chars) = chars := by
  induction chars with
  | nil => rfl
  | cons c chars ih =>
    unfold escape
    split
    · rename_i special
      have taken : (isQuote c || c == '\\') = true := by
        rcases special with rfl | rfl
        · rw [isMark, Bool.true_or]
        · decide
      rw [unescape, if_pos taken, ih]
    · rename_i plain
      rw [not_or] at plain
      rw [unescape.eq_2 _ _ (by simp [plain.2]), ih]

/-- One step of the inside of a literal: a character that is neither the mark nor a backslash, or a
backslash and what it takes along. -/
def literalStep (mark : Char) : Pattern :=
  .either (.char fun c => c != mark && c != '\\') (.seq (.text "\\") (.char (· != '\n')))

section Literal

variable {mark : Char} {s : Progress} {rest : List Char}

theorem literalStep_plain {c : Char} (ahead : s.place.rest = c :: rest) (other : c ≠ mark) (solid : c ≠ '\\') :
    (literalStep mark).ways s = [s.beyond [c] rest] := by
  have taken : (char fun c => c != mark && c != '\\').ways s = [s.beyond [c] rest] := ways_char ahead (by simp [other, solid])
  have refused : (text "\\").ways s = [] := by
    apply ways_text_eq_nil
    rw [ahead]
    simp [Ne.symm solid]
  change (char _).ways s ++ ((text "\\").ways s).flatMap _ = _
  rw [taken, refused]
  rfl

theorem literalStep_escape {c : Char} (ahead : s.place.rest = '\\' :: c :: rest) (sameLine : c ≠ '\n') :
    (literalStep mark).ways s = [s.beyond ['\\', c] rest] := by
  have refused : (char fun c => c != mark && c != '\\').ways s = [] := by
    apply ways_char_of_stops
    rw [ahead]
    simp
  have slash : (text "\\").ways s = [s.beyond ['\\'] (c :: rest)] := ways_text ahead
  have taken : (char (· != '\n')).ways (s.beyond ['\\'] (c :: rest)) = [(s.beyond ['\\'] (c :: rest)).beyond [c] rest] :=
    ways_char rfl (by simp [sameLine])
  change (char _).ways s ++ ((text "\\").ways s).flatMap (char _).ways = _
  rw [refused, slash, List.flatMap_singleton, taken, Progress.beyond_beyond]
  rfl

theorem literalStep_mark (ahead : s.place.rest = mark :: rest) (solid : mark ≠ '\\') : (literalStep mark).ways s = [] := by
  have refused : (char fun c => c != mark && c != '\\').ways s = [] := by
    apply ways_char_of_stops
    rw [ahead]
    simp
  have none : (text "\\").ways s = [] := by
    apply ways_text_eq_nil
    rw [ahead]
    simp [Ne.symm solid]
  change (char _).ways s ++ ((text "\\").ways s).flatMap _ = _
  rw [refused, none]
  rfl

/-- The inside of a literal can only end at its mark. -/
theorem flatMap_repeatWays_literal {f : Progress → List Progress} (isMark : isQuote mark = true) {limit : Nat}
    {body : List Char} (inside : InLiteral mark (· ≠ '\n') body) (ahead : s.place.rest = body ++ mark :: rest)
    (enough : body.length ≤ limit) (refuses : ∀ m : Progress, Stops (· == mark) m.place.rest → f m = []) :
    (repeatWays (literalStep mark).ways limit s).flatMap f = f (s.beyond body (mark :: rest)) := by
  have slash := ne_backslash_of_isQuote isMark
  -- one step over `passed`, which is no empty text, in front of which nothing may end
  have step : ∀ (passed : List Char) {body : List Char} {s : Progress} {limit : Nat}, passed ≠ [] →
      (literalStep mark).ways s = [s.beyond passed (body ++ mark :: rest)] → Stops (· == mark) s.place.rest →
      (repeatWays (literalStep mark).ways limit (s.beyond passed (body ++ mark :: rest))).flatMap f =
        f ((s.beyond passed (body ++ mark :: rest)).beyond body (mark :: rest)) →
      (repeatWays (literalStep mark).ways (limit + 1) s).flatMap f = f (s.beyond (passed ++ body) (mark :: rest)) := by
    intro passed body s limit some one stops further
    have moves : s.place.offset < (s.beyond passed (body ++ mark :: rest)).place.offset := by
      obtain ⟨d, more, rfl⟩ := List.exists_cons_of_ne_nil some
      have positive := d.utf8Size_pos
      change s.place.offset < s.place.offset + Text.byteLength (d :: more)
      simp only [Text.byteLength_cons]
      omega
    rw [repeatWays, one, List.flatMap_singleton, if_pos moves, List.flatMap_append, List.flatMap_singleton, refuses s stops,
      List.append_nil, further, Progress.beyond_beyond]
  induction inside generalizing s limit with
  | nil =>
    have ends : repeatWays (literalStep mark).ways limit s = [s] := by
      cases limit with
      | zero => rfl
      | succ limit =>
        rw [repeatWays, literalStep_mark ahead slash]
        rfl
    rw [ends, List.flatMap_singleton, Progress.beyond_nil (u := mark :: rest) ahead]
  | @plain c body other solid _ ih =>
    obtain ⟨limit, rfl⟩ : ∃ n, limit = n + 1 := ⟨limit - 1, by simp only [List.length_cons] at enough; omega⟩
    refine step [c] (by simp) (literalStep_plain ahead other solid) ?_ (ih rfl ?_)
    · rw [ahead, List.cons_append, stops_cons]
      simp [other]
    · simpa using enough
  | @escaped c body sameLine _ ih =>
    obtain ⟨limit, rfl⟩ : ∃ n, limit = n + 1 := ⟨limit - 1, by simp only [List.length_cons] at enough; omega⟩
    refine step ['\\', c] (by simp) (literalStep_escape ahead sameLine) ?_ (ih rfl ?_)
    · rw [ahead, List.cons_append, stops_cons]
      simp [Ne.symm slash]
    · simp only [List.length_cons] at enough
      omega

theorem literalBody_ways (number : Nat) (isMark : isQuote mark = true) {body : List Char}
    (inside : InLiteral mark (· ≠ '\n') body) (ahead : s.place.rest = mark :: (body ++ mark :: rest)) :
    ∃ start stop : Cursor, start.rest = body ++ stop.rest ∧
      (literalBody number mark).ways s =
        [⟨s.place.beyond (mark :: (body ++ [mark])) rest, ⟨number, start, stop⟩ :: s.captures⟩] := by
  refine ⟨s.place.beyond [mark] (body ++ mark :: rest), s.place.beyond (mark :: body) (mark :: rest), rfl, ?_⟩
  have inner : ∀ f : Progress → List Progress, (∀ m : Progress, Stops (· == mark) m.place.rest → f m = []) →
      ((many (literalStep mark)).ways (s.beyond [mark] (body ++ mark :: rest))).flatMap f =
        f (s.beyond (mark :: body) (mark :: rest)) := by
    intro f refuses
    have enough : body.length ≤ (body ++ mark :: rest).length := by simp
    have found := flatMap_repeatWays_literal (s := s.beyond [mark] (body ++ mark :: rest)) (f := f)
      isMark inside rfl enough refuses
    rw [Progress.beyond_beyond] at found
    exact found
  change (chain [char (· == mark), group number (many (literalStep mark)), char (· == mark)]).ways s = _
  rw [ways_chain_char ahead (by simp), ways_chain_cons, flatMap_ways_group, inner]
  · rw [ways_chain_char (c := mark) (u := rest) rfl (by simp), ways_chain_nil]
    simp [Progress.beyond, Progress.moveTo, Progress.keep]
  · intro m stops
    exact ways_chain_char_of_stops stops

theorem literalBody_refuses (number : Nat) (stops : Stops (· == mark) s.place.rest) :
    (literalBody number mark).ways s = [] :=
  ways_chain_char_of_stops stops

end Literal

def flagPattern : Pattern :=
  .seq (.group 5 (.anyOf "true" ["false"])) .wordBorder

def valuePattern : Pattern :=
  .either (literalBody 2 '\'') (.either (literalBody 3 '"') (.either (literalBody 4 '`') flagPattern))

theorem ways_valuePattern (s : Progress) : valuePattern.ways s = (literalBody 2 '\'').ways s ++
    ((literalBody 3 '"').ways s ++ ((literalBody 4 '`').ways s ++ flagPattern.ways s)) := rfl

theorem flagPattern_refuses {s : Progress} (differs : ¬ "true".toList <+: s.place.rest)
    (differs' : ¬ "false".toList <+: s.place.rest) : flagPattern.ways s = [] := by
  have none : (anyOf "true" ["false"]).ways s = [] := by
    change (text "true").ways s ++ (text "false").ways s = []
    rw [ways_text_eq_nil differs, ways_text_eq_nil differs']
    rfl
  change ((group 5 (anyOf "true" ["false"])).ways s).flatMap wordBorder.ways = []
  rw [flatMap_ways_group, none]
  rfl

/-- A truth value has one way, which keeps its word. -/
theorem flagPattern_ways {s : Progress} {rest : List Char} (word : String) (known : word = "true" ∨ word = "false")
    (ahead : s.place.rest = word.toList ++ rest) (stop : Stops Text.isWord rest) :
    flagPattern.ways s = [⟨s.place.beyond word.toList rest, ⟨5, s.place, s.place.beyond word.toList rest⟩ :: s.captures⟩] := by
  have taken : (anyOf "true" ["false"]).ways s = [s.beyond word.toList rest] := by
    change (text "true").ways s ++ (text "false").ways s = _
    rcases known with rfl | rfl
    · have other : ¬ "false".toList <+: s.place.rest := by
        rw [ahead]
        simp
      rw [ways_text ahead, ways_text_eq_nil other, List.append_nil]
    · have other : ¬ "true".toList <+: s.place.rest := by
        rw [ahead]
        simp
      rw [ways_text ahead, ways_text_eq_nil other, List.nil_append]
  have behind : ∀ captures : List Capture, wordBorder.ways ⟨s.place.beyond word.toList rest, captures⟩ =
      [⟨s.place.beyond word.toList rest, captures⟩] := by
    intro captures
    apply ways_wordBorder
    have ahead : rest.head?.any Text.isWord = false := by
      cases rest with
      | nil => rfl
      | cons c rest => simpa using stop
    have before : (s.place.beyond word.toList rest).before = some 'e' := by
      rcases known with rfl | rfl <;> rfl
    simp only [Cursor.atWordBorder, before, Cursor.beyond_rest, ahead]
    decide
  change ((group 5 (anyOf "true" ["false"])).ways s).flatMap wordBorder.ways = _
  rw [flatMap_ways_group, taken, List.flatMap_singleton]
  exact behind _

def Mark.number : Mark → Nat
  | .single => 2
  | .double => 3
  | .back => 4

theorem valuePattern_literal {s : Progress} {mark : Mark} {ways : List Progress} {rest : List Char}
    (ahead : s.place.rest = mark.char :: rest) (found : (literalBody mark.number mark.char).ways s = ways) :
    valuePattern.ways s = ways := by
  have others : ∀ (number : Nat) (other : Char), other ≠ mark.char → (literalBody number other).ways s = [] := by
    intro number other differs
    apply literalBody_refuses
    rw [ahead, stops_cons]
    simpa using Ne.symm differs
  have noFlag : flagPattern.ways s = [] := by
    apply flagPattern_refuses <;> rw [ahead] <;> cases mark <;> simp [Mark.char]
  rw [ways_valuePattern, noFlag, List.append_nil]
  cases mark with
  | single => rw [others 3 '"' (by decide), others 4 '`' (by decide), List.append_nil, List.append_nil, ← found]; rfl
  | double => rw [others 2 '\'' (by decide), others 4 '`' (by decide), List.append_nil, List.nil_append, ← found]; rfl
  | back => rw [others 2 '\'' (by decide), others 3 '"' (by decide), List.nil_append, List.nil_append, ← found]; rfl

theorem valuePattern_flag {s : Progress} {c : Char} {rest : List Char} {ways : List Progress}
    (ahead : s.place.rest = c :: rest) (noQuote : isQuote c = false) (found : flagPattern.ways s = ways) :
    valuePattern.ways s = ways := by
  have refuses : ∀ (number : Nat) (mark : Char), isQuote mark = true → (literalBody number mark).ways s = [] := by
    intro number mark isMark
    apply literalBody_refuses
    rw [ahead, stops_cons, beq_eq_false_iff_ne]
    rintro rfl
    rw [noQuote] at isMark
    cases isMark
  rw [ways_valuePattern, refuses 2 _ (by decide), refuses 3 _ (by decide), refuses 4 _ (by decide), found]
  rfl

/-- A value has one way, whose group gives the value back. -/
theorem valuePattern_ways {s : Progress} {rest : List Char} (mark : Mark) (value : Value)
    (ahead : s.place.rest = value.written mark ++ rest) (stop : Stops Text.isWord rest) :
    ∃ capture : Capture, valuePattern.ways s = [⟨s.place.beyond (value.written mark) rest, capture :: s.captures⟩] ∧
      ∀ place last key : Cursor, fieldOf? ⟨place, last, [capture, ⟨1, place, key⟩]⟩ =
        some (place.textTo key, value) := by
  cases value with
  | text chars =>
    have spelled : s.place.rest = mark.char :: (escape mark.char chars ++ mark.char :: rest) := by
      rw [ahead]
      change mark.char :: ((escape mark.char chars ++ [mark.char]) ++ rest) = _
      rw [List.append_assoc, List.singleton_append]
    obtain ⟨start, stop, inside, found⟩ := literalBody_ways mark.number mark.isQuote_char (.of_escape mark.isQuote_char) spelled
    refine ⟨⟨mark.number, start, stop⟩, valuePattern_literal spelled found, ?_⟩
    intro place last key
    have kept := unescape_escape mark.isQuote_char chars
    cases mark <;> simp [fieldOf?, Match.group?, Mark.number, Cursor.textTo_eq inside, kept]
  | flag value =>
    cases value with
    | true =>
      have found := flagPattern_ways "true" (Or.inl rfl) ahead stop
      refine ⟨_, valuePattern_flag ahead (by decide) found, ?_⟩
      intro place last key
      have passed : s.place.textTo (s.place.beyond ['t', 'r', 'u', 'e'] rest) = ['t', 'r', 'u', 'e'] := Cursor.textTo_beyond ahead
      simp [fieldOf?, Match.group?, passed]
    | false =>
      have found := flagPattern_ways "false" (Or.inr rfl) ahead stop
      refine ⟨_, valuePattern_flag ahead (by decide) found, ?_⟩
      intro place last key
      have passed : s.place.textTo (s.place.beyond ['f', 'a', 'l', 's', 'e'] rest) = ['f', 'a', 'l', 's', 'e'] := Cursor.textTo_beyond ahead
      simp [fieldOf?, Match.group?, passed]

def afterKey : List Pattern :=
  [.blanks, .text ":", .blanks, valuePattern]

theorem field_eq : field = chain (.wordBorder :: .group 1 (.mostOne Text.isWord) :: afterKey) := rfl

theorem colon_refuses {m : Progress} {parts : List Pattern} (goes : Goes Text.isBlank m.place.rest) :
    (chain (text ":" :: parts)).ways m = [] :=
  ways_chain_text_of_goes goes ⟨':', by decide, by decide⟩

theorem valuePattern_refuses {m : Progress} (goes : Goes Text.isBlank m.place.rest) : (chain [valuePattern]).ways m = [] := by
  obtain ⟨c, rest, ahead, blank⟩ := goes.cases
  have apart : ∀ d : Char, Text.isBlank d = false → c ≠ d := by
    rintro d solid rfl
    rw [blank] at solid
    cases solid
  have noQuote : isQuote c = false := by
    simp [isQuote, apart '\'' (by decide), apart '"' (by decide), apart '`' (by decide)]
  have noFlag : flagPattern.ways m = [] := by
    apply flagPattern_refuses <;> rw [ahead]
    · simp [Ne.symm (apart 't' (by decide))]
    · simp [Ne.symm (apart 'f' (by decide))]
  rw [ways_chain_cons, valuePattern_flag ahead noQuote noFlag]
  rfl

theorem afterKey_refuses {m : Progress} (goes : Goes Text.isWord m.place.rest) : (chain afterKey).ways m = [] := by
  obtain ⟨c, rest, ahead, word⟩ := goes.cases
  have stop : Stops Text.isBlank m.place.rest := by
    rw [ahead, stops_cons]
    exact Text.isBlank_of_isWord word
  have passed : (chain afterKey).ways m = (chain [.text ":", .blanks, valuePattern]).ways (m.beyond [] m.place.rest) :=
    ways_chain_most rfl (by simp) stop fun _ goes => colon_refuses goes
  rw [passed, Progress.beyond_nil rfl]
  exact ways_chain_text_of_goes goes ⟨':', by decide, by decide⟩

def Gap.Blank (g : Gap) : Prop :=
  ∀ c ∈ g.text, Text.isBlank c = true

def Property.Blank (p : Property) : Prop :=
  p.beforeColon.Blank ∧ p.beforeValue.Blank

theorem stops_isBlank_written (mark : Mark) (value : Value) (rest : List Char) :
    Stops Text.isBlank (value.written mark ++ rest) := by
  cases value with
  | text chars => cases mark <;> exact stops_cons.mpr (by decide)
  | flag value => cases value <;> exact stops_cons.mpr (by decide)

section Key

variable {key gap gap' u : List Char}

theorem afterKey_ways {s : Progress} (ahead : s.place.rest = gap ++ ':' :: (gap' ++ u))
    (blank : ∀ c ∈ gap, Text.isBlank c = true) (blank' : ∀ c ∈ gap', Text.isBlank c = true) (stop : Stops Text.isBlank u) :
    (chain afterKey).ways s = valuePattern.ways (s.beyond (gap ++ ':' :: gap') u) := by
  have colon : (chain afterKey).ways s = (chain (.text ":" :: [.blanks, valuePattern])).ways
      (s.beyond gap (':' :: (gap' ++ u))) :=
    ways_chain_most ahead blank (stops_cons.mpr (by decide)) fun _ goes => colon_refuses goes
  have value : (chain [.blanks, valuePattern]).ways ((s.beyond gap (':' :: (gap' ++ u))).beyond [':'] (gap' ++ u)) = _ :=
    ways_chain_most rfl blank' stop fun _ goes => valuePattern_refuses goes
  rw [colon, ways_chain_text (u := gap' ++ u) rfl]
  refine value.trans ?_
  rw [Progress.beyond_beyond, Progress.beyond_beyond, ways_chain_cons, List.singleton_append]
  exact List.flatMap_singleton' _

theorem stops_isWord_gap (blank : ∀ c ∈ gap, Text.isBlank c = true) : Stops Text.isWord (gap ++ ':' :: u) := by
  cases gap with
  | nil => exact stops_cons.mpr (by decide)
  | cons c more => exact stops_cons.mpr (Text.isWord_of_isBlank (blank c (by simp)))

theorem field_ways {place : Cursor} (named : key ≠ [] ∧ ∀ c ∈ key, Text.isWord c = true)
    (before : place.before.any Text.isWord = false) (ahead : place.rest = key ++ (gap ++ ':' :: (gap' ++ u)))
    (blank : ∀ c ∈ gap, Text.isBlank c = true) (blank' : ∀ c ∈ gap', Text.isBlank c = true) (stop : Stops Text.isBlank u) :
    field.ways ⟨place, []⟩ = valuePattern.ways
      ⟨place.beyond (key ++ (gap ++ ':' :: gap')) u, [⟨1, place, place.beyond key (gap ++ ':' :: (gap' ++ u))⟩]⟩ := by
  have border : place.atWordBorder = true := by
    obtain ⟨c, more, rfl⟩ := List.exists_cons_of_ne_nil named.1
    simp [Cursor.atWordBorder, before, ahead, named.2 c (by simp)]
  rw [field_eq, ways_chain_wordBorder border,
    ways_chain_group_mostOne 1 (s := ⟨place, []⟩) ahead named.1 named.2 (stops_isWord_gap blank) fun m goes => afterKey_refuses goes,
    afterKey_ways rfl blank blank' stop]
  simp [Progress.beyond, Progress.moveTo, Progress.keep]

end Key

/-- Where a property stands, a field has one way, which gives the property back. -/
theorem property_ways {p : Property} {place : Cursor} {rest : List Char} (named : p.Named) (blank : p.Blank)
    (ahead : place.rest = p.text ++ rest) (before : place.before.any Text.isWord = false)
    (stop : Stops Text.isWord rest) :
    ∃ captures, field.ways ⟨place, []⟩ = [⟨place.beyond p.text rest, captures⟩] ∧
      ∀ last, fieldOf? ⟨place, last, captures⟩ = some p.field := by
  have spelled : place.rest = p.key ++ (p.beforeColon.text ++ ':' :: (p.beforeValue.text ++ (p.value.written p.mark ++ rest))) := by
    rw [ahead, Property.text]
    simp
  have value := field_ways named before spelled blank.1 blank.2 (stops_isBlank_written _ _ _)
  obtain ⟨capture, found, gives⟩ := valuePattern_ways p.mark p.value
    (s := ⟨place.beyond (p.key ++ (p.beforeColon.text ++ ':' :: p.beforeValue.text)) (p.value.written p.mark ++ rest), _⟩) rfl stop
  have behind : (place.beyond (p.key ++ (p.beforeColon.text ++ ':' :: p.beforeValue.text))
      (p.value.written p.mark ++ rest)).beyond (p.value.written p.mark) rest = place.beyond p.text rest := by
    simp [Property.text]
  refine ⟨_, value.trans (found.trans (congrArg (fun at_ => [Progress.mk at_ _]) behind)), fun last => (gives place last _).trans ?_⟩
  rw [Cursor.textTo_beyond spelled]
  rfl

theorem field_refuses {s : Progress} (stop : Stops Text.isWord s.place.rest) : field.ways s = [] := by
  have key : ∀ parts, (chain (group 1 (mostOne Text.isWord) :: parts)).ways s = [] := by
    intro parts
    rw [ways_chain_cons, flatMap_ways_group, ways_mostOne_of_stops stop]
    rfl
  rw [field_eq]
  by_cases border : s.place.atWordBorder = true
  · rw [ways_chain_wordBorder border, key]
  · rw [ways_chain_wordBorder_eq_nil (by simpa using border)]

def fieldsFrom (limit : Nat) (place : Cursor) : List (List Char × Value) :=
  (field.matchesFrom limit place).filterMap fieldOf?

theorem stops_of_free {w v u : List Char} (free : ∀ c ∈ w, Text.isWord c = false) (whole : w = v ++ u) :
    Stops Text.isWord u := by
  intro c head
  apply free
  rw [whole, List.mem_append]
  exact Or.inr (List.mem_of_mem_head? head)

theorem fieldsFrom_of_free {limit : Nat} {place : Cursor} (free : ∀ c ∈ place.rest, Text.isWord c = false) :
    fieldsFrom limit place = [] := by
  have nothing : field.searchFrom place = none :=
    searchFrom_eq_none fun v u whole => field_refuses (stops_of_free free whole)
  rw [fieldsFrom, matchesFrom_eq_nil nothing]
  rfl

/-- The search passes over what has no word and finds the property behind it. -/
theorem fieldsFrom_step {limit : Nat} {place : Cursor} {skipped rest : List Char} {p : Property} (named : p.Named)
    (blank : p.Blank) (ahead : place.rest = skipped ++ (p.text ++ rest)) (some : skipped ≠ [])
    (free : ∀ c ∈ skipped, Text.isWord c = false) (stop : Stops Text.isWord rest) :
    fieldsFrom (limit + 1) place = p.field :: fieldsFrom limit (place.beyond (skipped ++ p.text) rest) := by
  have before : (place.beyond skipped (p.text ++ rest)).before.any Text.isWord = false := by
    have last := free (skipped.getLast some) (List.getLast_mem some)
    simp [Cursor.beyond, List.getLast?_eq_some_getLast some, last]
  have own : (place.beyond skipped (p.text ++ rest)).rest = p.text ++ rest := rfl
  obtain ⟨captures, ways, gives⟩ := property_ways named blank own before stop
  have skip : field.searchFrom place = field.searchFrom (place.beyond skipped (p.text ++ rest)) := by
    refine searchFrom_skip ahead fun v u whole more => field_refuses ?_
    obtain ⟨c, u, rfl⟩ := List.exists_cons_of_ne_nil more
    exact stops_cons.mpr (free c (by simp [whole]))
  have found : field.searchFrom place = _ := skip.trans (searchFrom_of_matchAt? (matchAt?_of_ways ways))
  have moves : 0 < Text.byteLength p.text := by
    obtain ⟨c, key, spelled⟩ := List.exists_cons_of_ne_nil named.1
    have positive := c.utf8Size_pos
    simp only [Property.text, spelled, List.cons_append, Text.byteLength_cons]
    omega
  rw [fieldsFrom, matchesFrom_succ found, List.filterMap_cons, gives, Cursor.beyond_beyond]
  · rfl
  · change (place.beyond skipped (p.text ++ rest)).offset < (place.beyond skipped (p.text ++ rest)).offset + _
    omega

theorem Gap.blank_plain (g : Gap) : Gap.Blank g.plain := by
  intro c member
  obtain ⟨f, inside, spelled⟩ := List.mem_flatMap.mp member
  obtain ⟨original, _, rfl⟩ := List.mem_map.mp inside
  have ascii : isAsciiBlank c = true := by
    cases original with
    | blank d isBlank =>
      obtain rfl : c = d := by simpa [Filler.plain, Filler.text] using spelled
      exact isBlank
    | line _ _ | block _ _ =>
      simp only [Filler.plain, Filler.text, List.mem_singleton] at spelled
      rw [spelled]
      decide
  simp only [isAsciiBlank, Bool.or_eq_true, beq_iff_eq, Bool.and_eq_true, decide_eq_true_eq] at ascii
  rcases ascii with rfl | bounds
  · decide
  · simp only [Text.isBlank, Text.inRanges, List.any_eq_true]
    exact ⟨⟨0x9, 0xD⟩, by simp [Text.blankRanges], (Text.CodeRange.holds_iff _ _).mpr bounds⟩

theorem Gap.free_plain (g : Gap) : ∀ c ∈ g.plain.text, Text.isWord c = false :=
  fun c member => Text.isWord_of_isBlank (g.blank_plain c member)

theorem Property.blank_plain (p : Property) : p.plain.Blank :=
  ⟨p.beforeColon.blank_plain, p.beforeValue.blank_plain⟩

theorem stops_tail (t : Tail Property) :
    Stops Text.isWord ((t.plain Property.plain).text Property.text ++ ['\x7d']) := by
  have behind : ∀ (g : Gap) (c : Char) (rest : List Char), Text.isWord c = false →
      Stops Text.isWord (g.plain.text ++ c :: rest) := by
    intro g c rest free
    cases spelled : g.plain.text with
    | nil => exact stops_cons.mpr free
    | cons d more => exact stops_cons.mpr (g.free_plain d (by simp [spelled]))
  cases t with
  | done after => exact behind after '\x7d' [] (by decide)
  | comma after last =>
    simp only [Tail.plain, Tail.text, List.append_assoc, List.cons_append]
    exact behind after ',' _ (by decide)
  | next after before item tail =>
    simp only [Tail.plain, Tail.text, List.append_assoc, List.cons_append]
    exact behind after ',' _ (by decide)

theorem free_between (after before : Gap) :
    ∀ c ∈ after.plain.text ++ ',' :: before.plain.text, Text.isWord c = false := by
  intro c member
  rcases List.mem_append.mp member with outer | inner
  · exact after.free_plain c outer
  · rcases List.mem_cons.mp inner with rfl | inner
    · decide
    · exact before.free_plain c inner

/-- The search finds the properties of a list one after the other. -/
theorem fieldsFrom_tail {t : Tail Property} (named : ∀ p ∈ t.items, p.Named) {limit : Nat} {place : Cursor}
    (ahead : place.rest = (t.plain Property.plain).text Property.text ++ ['\x7d'])
    (enough : place.rest.length < limit) : fieldsFrom limit place = t.items.map Property.field := by
  have close : Text.isWord '\x7d' = false := by decide
  induction t generalizing limit place with
  | done after =>
    apply fieldsFrom_of_free
    rw [ahead]
    intro c member
    rcases List.mem_append.mp member with inner | last
    · exact after.free_plain c inner
    · rw [List.mem_singleton] at last
      rw [last, close]
  | comma after last =>
    apply fieldsFrom_of_free
    rw [ahead]
    intro c member
    rcases List.mem_append.mp member with inner | last
    · exact free_between _ _ c inner
    · rw [List.mem_singleton] at last
      rw [last, close]
  | next after before p tail ih =>
    have shape : place.rest = (after.plain.text ++ ',' :: before.plain.text) ++
        (p.plain.text ++ ((tail.plain Property.plain).text Property.text ++ ['\x7d'])) := by
      rw [ahead]
      simp [Tail.plain, Tail.text]
    obtain ⟨limit, rfl⟩ : ∃ n, limit = n + 1 := ⟨limit - 1, by omega⟩
    have own : p.plain.Named := named p (by simp [Tail.items])
    rw [fieldsFrom_step own p.blank_plain shape (by simp) (free_between _ _) (stops_tail tail),
      ih (fun q member => named q (by simp [Tail.items, member])) rfl]
    · rfl
    · rw [shape] at enough
      simp only [List.length_append, List.length_cons, Cursor.beyond_rest] at enough ⊢
      omega

/-- The fields of an object without comments are its properties, in order. -/
theorem fields_plain {o : Object} (named : o.Named) : fields o.plain.written = o.list.map Property.field := by
  change fieldsFrom (o.plain.written.length + 1) (.ofText o.plain.written) = _
  cases o with
  | empty gap =>
    apply fieldsFrom_of_free
    intro c member
    simp only [Object.plain, Inside.plain, Object.written, Inside.text, Cursor.ofText, List.mem_cons, List.mem_append,
      List.not_mem_nil, or_false] at member
    rcases member with rfl | inner | rfl
    · decide
    · exact gap.free_plain c inner
    · decide
  | items before p tail =>
    have shape : (Cursor.ofText (Object.written (Object.plain (.items before p tail)))).rest = ('\x7b' :: before.plain.text) ++
        (p.plain.text ++ ((tail.plain Property.plain).text Property.text ++ ['\x7d'])) := by
      simp [Cursor.ofText, Object.written, Object.plain, Inside.plain, Inside.text]
    have free : ∀ c ∈ '\x7b' :: before.plain.text, Text.isWord c = false := by
      intro c member
      rcases List.mem_cons.mp member with rfl | inner
      · decide
      · exact before.free_plain c inner
    have own : p.plain.Named := named p (by simp [Inside.list])
    rw [fieldsFrom_step own p.blank_plain shape (by simp) free (stops_tail tail), fieldsFrom_tail (fun q member => named q (by simp [Inside.list, member])) rfl]
    · rfl
    · have size := congrArg List.length shape
      simp only [Cursor.ofText, List.length_append, List.length_cons, Cursor.beyond_rest] at size ⊢
      omega

end Endpoint.Manifest

end Conformance
