import Conformance.Proofs.Document.InlineCode
import Conformance.Proofs.Pattern.Quotation
import Conformance.Proofs.Text.Parts

namespace Conformance.Document

open Text Pattern

variable {line front back code rest : List Char}

section Links

/-- The text in the parentheses of a link that stands in the line, from bracket to bracket, outside of the spans. -/
def IsTarget (line target : List Char) : Prop :=
  ∃ front raw back, line = front ++ ']' :: '(' :: (raw ++ ')' :: back) ∧ Outside front ('(' :: (raw ++ ')' :: back)) ∧
    trim raw = target

/-- The parts of a line that read as a link when the code is taken out: the brackets stand outside of the spans, and there
is nothing but code between the label and the target. -/
structure IsLink (line front label gap body back : List Char) : Prop where
  whole : line = front ++ '[' :: (label ++ ']' :: (gap ++ '(' :: (body ++ ')' :: back)))
  begins : Outside front (label ++ ']' :: (gap ++ '(' :: (body ++ ')' :: back)))
  ends : Outside label (gap ++ '(' :: (body ++ ')' :: back))
  opens : Outside gap (body ++ ')' :: back)
  closes : Outside body back
  named : ']' ∉ uncoded label
  code : uncoded gap = []
  visible : uncoded body ≠ []
  target : ')' ∉ uncoded body

def LinksWhole (line : List Char) : Prop :=
  ∀ front label gap body back, IsLink line front label gap body back → gap = [] ∧ uncoded body = body

/-- A way of the pattern of a link passes one and keeps its target. -/
theorem exists_of_mem_ways_link {s t : Progress} (member : t ∈ link.ways s) : ∃ mark label raw back,
    s.place.rest = mark ++ '[' :: (label ++ ']' :: '(' :: (raw ++ ')' :: back)) ∧ ']' ∉ label ∧ raw ≠ [] ∧ ')' ∉ raw ∧
      t.kept? 1 = some raw := by
  obtain ⟨s₁, first, member⟩ := mem_ways_chain_cons.mp member
  obtain ⟨mark, cut⟩ : ∃ mark, s.place.rest = mark ++ s₁.place.rest := by
    rcases mem_ways_optional.mp first with bang | rfl
    · obtain ⟨u, cut, rfl⟩ := mem_ways_text.mp bang
      exact ⟨"!".toList, cut⟩
    · exact ⟨[], rfl⟩
  obtain ⟨_, first, member⟩ := mem_ways_chain_cons.mp member
  obtain ⟨u₂, cut₂, rfl⟩ := mem_ways_text.mp first
  obtain ⟨_, first, member⟩ := mem_ways_chain_cons.mp member
  obtain ⟨label, u₃, cut₃, named, rfl⟩ := mem_ways_most.mp first
  obtain ⟨_, first, member⟩ := mem_ways_chain_cons.mp member
  obtain ⟨u₄, cut₄, rfl⟩ := mem_ways_text.mp first
  obtain ⟨_, first, member⟩ := mem_ways_chain_cons.mp member
  obtain ⟨_, inner, rfl⟩ := mem_ways_group.mp first
  obtain ⟨raw, u₅, cut₅, some, inside, rfl⟩ := mem_ways_mostOne.mp inner
  obtain ⟨_, first, member⟩ := mem_ways_chain_cons.mp member
  obtain ⟨back, cut₆, rfl⟩ := mem_ways_text.mp first
  rw [mem_ways_chain_nil] at member
  subst member
  refine ⟨mark, label, raw, back, ?_, fun inner => by simpa using named _ inner, some, fun inner => by simpa using inside _ inner,
    congrArg Option.some (Cursor.textTo_beyond cut₅)⟩
  rw [cut, show s₁.place.rest = '[' :: u₂ from cut₂, show u₂ = label ++ u₃ from cut₃, show u₃ = ']' :: '(' :: u₄ from cut₄,
    show u₄ = raw ++ u₅ from cut₅, show u₅ = ')' :: back from cut₆]

/-- A target is what parentheses hold behind brackets, with the code between and in them taken out. -/
theorem exists_link {target : List Char} (listed : target ∈ linkTargets line) :
    ∃ front label gap body back, IsLink line front label gap body back ∧ trim (uncoded body) = target := by
  rw [linkTargets, removeAll_inlineCode, List.mem_filterMap] at listed
  obtain ⟨m, found, kept⟩ := listed
  obtain ⟨⟨before, u, cut, _, start⟩, t, member, _, captures⟩ := follows_of_mem_findAll found
  obtain ⟨mark, l, raw, b, cut', named, visible, target', kept'⟩ := exists_of_mem_ways_link member
  have same : m.group? 1 = some raw := by
    rw [Progress.kept?, captures] at kept'
    exact kept'
  obtain rfl : trim raw = target := by simpa [same] using kept
  have left : uncoded line = (before ++ mark) ++ '[' :: (l ++ ']' :: '(' :: (raw ++ ')' :: b)) := by
    rw [start] at cut'
    have ahead : u = mark ++ '[' :: (l ++ ']' :: '(' :: (raw ++ ')' :: b)) := cut'
    have whole : uncoded line = before ++ u := cut
    rw [whole, ahead, List.append_assoc]
  obtain ⟨front, back₀, rfl, _, left, begins⟩ := exists_cut (by decide) left
  obtain ⟨label, back₁, rfl, rfl, left, ends⟩ := exists_cut (by decide) left
  obtain ⟨gap, back₂, rfl, code, left, opens⟩ := exists_cut (a := []) (by decide) left
  obtain ⟨body, back, rfl, rfl, _, closes⟩ := exists_cut (by decide) left
  exact ⟨front, label, gap, body, back, ⟨rfl, begins, ends, opens, closes, named, code, visible, target'⟩, rfl⟩

theorem IsLink.isTarget {label body : List Char} (isLink : IsLink line front label [] body back)
    (plain : uncoded body = body) : IsTarget line (trim (uncoded body)) := by
  refine ⟨front ++ '[' :: label, body, back, by rw [isLink.whole]; simp, ?_, by rw [plain]⟩
  rcases isLink.begins with even | none
  · rcases isLink.ends with even' | none
    · refine .inl ?_
      rw [List.count_append, List.count_cons_of_ne (by decide)]
      exact even.add even'
    · exact .inr none
  · refine .inr fun inside => none ?_
    simp only [List.mem_append, List.mem_cons, List.nil_append] at inside ⊢
    exact .inr (.inr inside)

end Links

section Spans

def IsToken (code : List Char) : Prop :=
  code ≠ [] ∧ ∀ c ∈ code, isBlank c = false

instance (code : List Char) : Decidable (IsToken code) :=
  inferInstanceAs (Decidable (code ≠ [] ∧ ∀ c ∈ code, isBlank c = false))

/-- Behind a span that is not a single token, the text up to the next backtick is not one either. -/
def SpansApart (line : List Char) : Prop :=
  ∀ front code between back, line = front ++ '`' :: (code ++ '`' :: (between ++ '`' :: back)) → Even (front.count '`') →
    '`' ∉ code → '`' ∉ between → ¬ IsToken code → ¬ IsToken between

def spanPieces : List (List Char) → List (List Char)
  | _ :: code :: next :: rest => code :: spanPieces (next :: rest)
  | _ => []

def spans (line : List Char) : List (List Char) :=
  spanPieces (split (· == '`') line)

def spansAhead (place : Cursor) : List (List Char) :=
  (codeSpan.matchesAhead place).filterMap (·.group? 1)

variable {place : Cursor}

theorem spansAhead_of_free (free : '`' ∉ place.rest) : spansAhead place = [] := by
  have none : codeSpan.matchesAhead place = [] := matchesAhead_of_free free
  rw [spansAhead, none]
  rfl

theorem spansAhead_front (free : '`' ∉ front) (ahead : place.rest = front ++ rest) :
    spansAhead place = spansAhead (place.beyond front rest) := by
  have first : codeSpan.matchesAhead place = codeSpan.matchesAhead (place.beyond front rest) := matchesAhead_tick free ahead
  rw [spansAhead, first]
  rfl

/-- A way of the pattern of a code span passes a single token between backticks. -/
theorem exists_of_mem_ways_codeSpan {s t : Progress} (member : t ∈ codeSpan.ways s) : ∃ code back,
    s.place.rest = '`' :: (code ++ '`' :: back) ∧ '`' ∉ code ∧ IsToken code ∧ t.kept? 1 = some code := by
  obtain ⟨_, first, member⟩ := mem_ways_chain_cons.mp member
  obtain ⟨u₁, cut₁, rfl⟩ := mem_ways_text.mp first
  obtain ⟨_, first, member⟩ := mem_ways_chain_cons.mp member
  obtain ⟨_, inner, rfl⟩ := mem_ways_group.mp first
  obtain ⟨code, u₂, cut₂, some, inside, rfl⟩ := mem_ways_mostOne.mp inner
  obtain ⟨_, first, member⟩ := mem_ways_chain_cons.mp member
  obtain ⟨back, cut₃, rfl⟩ := mem_ways_text.mp first
  rw [mem_ways_chain_nil] at member
  subst member
  simp only [Bool.and_eq_true, bne_iff_ne, Bool.not_eq_true'] at inside
  refine ⟨code, back, ?_, fun tick => (inside _ tick).1 rfl, ⟨some, fun c member => (inside c member).2⟩,
    congrArg Option.some (Cursor.textTo_beyond cut₂)⟩
  rw [show s.place.rest = '`' :: u₁ from cut₁, show u₁ = code ++ u₂ from cut₂, show u₂ = '`' :: back from cut₃]

theorem ways_codeSpan (free : '`' ∉ code) (token : IsToken code) (ahead : place.rest = '`' :: (code ++ '`' :: rest)) :
    codeSpan.ways ⟨place, []⟩ = [⟨place.beyond ('`' :: (code ++ ['`'])) rest,
      [⟨1, place.beyond ['`'] (code ++ '`' :: rest), place.beyond ('`' :: code) ('`' :: rest)⟩]⟩] := by
  have inside : ∀ c ∈ code, (c != '`' && !isBlank c) = true := by
    intro c member
    rw [token.2 c member, Bool.not_false, Bool.and_true, bne_iff_ne]
    exact fun same => free (same ▸ member)
  have refuses : ∀ m : Progress, Goes (fun c => c != '`' && !isBlank c) m.place.rest → (chain [text "`"]).ways m = [] :=
    fun m goes => ways_chain_text_of_goes goes ⟨'`', rfl, rfl⟩
  rw [codeSpan, ways_chain_text (u := code ++ '`' :: rest) ahead,
    ways_chain_group_mostOne 1 rfl token.1 inside (by simp) refuses, ways_chain_text (u := rest) rfl, ways_chain_nil]
  simp [Progress.beyond, Progress.moveTo, Progress.keep]

theorem spansAhead_token (free : '`' ∉ code) (token : IsToken code) (ahead : place.rest = '`' :: (code ++ '`' :: rest)) :
    spansAhead place = code :: spansAhead (place.beyond ('`' :: (code ++ ['`'])) rest) := by
  have passed : place.beyond ('`' :: code) ('`' :: rest) = (place.beyond ['`'] (code ++ '`' :: rest)).beyond code ('`' :: rest) :=
    (Cursor.beyond_beyond place ['`'] code _ _).symm
  have kept : (place.beyond ['`'] (code ++ '`' :: rest)).textTo (place.beyond ('`' :: code) ('`' :: rest)) = code := by
    rw [passed]
    exact Cursor.textTo_beyond rfl
  rw [spansAhead, matchesAhead_of_ways rfl (ways_codeSpan free token ahead), List.filterMap_cons_some]
  · rfl
  · exact congrArg Option.some kept

theorem spansAhead_tick (ahead : place.rest = '`' :: rest)
    (other : ∀ code back, rest = code ++ '`' :: back → '`' ∉ code → ¬ IsToken code) :
    spansAhead place = spansAhead (place.beyond ['`'] rest) := by
  have refused : codeSpan.ways ⟨place, []⟩ = [] := by
    refine List.eq_nil_iff_forall_not_mem.mpr fun t member => ?_
    obtain ⟨code, back, cut, free, token, _⟩ := exists_of_mem_ways_codeSpan member
    have whole : '`' :: rest = '`' :: (code ++ '`' :: back) := ahead.symm.trans cut
    exact other code back (List.cons.inj whole).2 free token
  rw [spansAhead, matchesAhead_of_refused rfl ahead refused, Cursor.past_eq_beyond]
  rfl

theorem spans_of_free (free : '`' ∉ front) : spans front = [] := by
  rw [spans, split_of_free (not_tick free)]
  rfl

theorem spans_stray (free : '`' ∉ front) (free' : '`' ∉ back) : spans (front ++ '`' :: back) = [] := by
  rw [spans, split_append_stop (by decide), split_of_free (not_tick free), split_of_free (not_tick free')]
  rfl

theorem spans_span (free : '`' ∉ front) (free' : '`' ∉ code) (rest : List Char) :
    spans (front ++ '`' :: (code ++ '`' :: rest)) = code :: spans rest := by
  obtain ⟨next, others, pieces⟩ := List.exists_cons_of_ne_nil (split_ne_nil (· == '`') rest)
  rw [spans, spans, split_append_stop (by decide), split_of_free (not_tick free), split_append_stop (by decide),
    split_of_free (not_tick free'), pieces]
  rfl

theorem SpansApart.behind (free : '`' ∉ front) (free' : '`' ∉ code)
    (apart : SpansApart (front ++ '`' :: (code ++ '`' :: rest))) : SpansApart rest := by
  rintro front' code' between back rfl even
  refine apart (front ++ '`' :: (code ++ '`' :: front')) code' between back (by simp) ?_
  rw [count_tick_span free free']
  exact even.add ⟨1, rfl⟩

theorem tick_inj {code' back' : List Char} (free : '`' ∉ code) (free' : '`' ∉ code')
    (same : code ++ '`' :: back = code' ++ '`' :: back') : code = code' ∧ back = back' := by
  have parts := append_cons_inj_of_free (not_tick free) (not_tick free') (beq_self_eq_true '`') (beq_self_eq_true '`') same
  exact ⟨parts.1, parts.2.2⟩

/-- If single tokens stand apart from the other spans, the code spans are the spans that are single tokens. -/
theorem spansAhead_eq (line : List Char) (apart : SpansApart line) (ahead : place.rest = line) :
    spansAhead place = (spans line).filter (fun code => decide (IsToken code)) := by
  induction line using line_induction generalizing place with
  | plain front free => rw [spansAhead_of_free (by rwa [ahead]), spans_of_free free, List.filter_nil]
  | stray front back free free' =>
    have none : ∀ code rest, back = code ++ '`' :: rest → '`' ∉ code → ¬ IsToken code := by
      rintro code rest rfl
      simp at free'
    rw [spansAhead_front free ahead, spansAhead_tick rfl none, spansAhead_of_free free', spans_stray free free',
      List.filter_nil]
  | span front code rest free free' ih =>
    have further := apart.behind free free'
    rw [spansAhead_front free ahead, spans_span free free']
    by_cases token : IsToken code
    · rw [spansAhead_token free' token rfl, ih further rfl, List.filter_cons_of_pos (by simpa using token)]
    · -- the closing backtick is tried next, and then the text behind the span is in step again
      have here : ∀ code' back, code ++ '`' :: rest = code' ++ '`' :: back → '`' ∉ code' → ¬ IsToken code' :=
        fun code' back same other => (tick_inj free' other same).1 ▸ token
      have behind : ∀ between back, rest = between ++ '`' :: back → '`' ∉ between → ¬ IsToken between := by
        rintro between back rfl other
        exact apart front code between back rfl (List.count_eq_zero.mpr free ▸ Even.zero) free' other token
      rw [spansAhead_tick rfl here, spansAhead_front free' rfl, spansAhead_tick rfl behind, ih further rfl,
        List.filter_cons_of_neg (by simpa using token)]

theorem isSpan_span (free : '`' ∉ front) (free' : '`' ∉ code) {inner : List Char} :
    IsSpan (front ++ '`' :: (code ++ '`' :: rest)) inner ↔ inner = code ∨ IsSpan rest inner := by
  constructor
  · rintro ⟨before, back, same, even, free''⟩
    induction before using line_induction with
    | plain before none =>
      obtain ⟨rfl, behind⟩ := tick_inj free none same
      exact .inl (tick_inj free' free'' behind).1.symm
    | stray first second none none' =>
      simp [List.count_append, List.count_eq_zero.mpr none, List.count_eq_zero.mpr none'] at even
    | span first second further none none' =>
      rw [count_tick_span none none'] at even
      simp only [List.append_assoc, List.cons_append] at same
      obtain ⟨rfl, behind⟩ := tick_inj free none same
      obtain ⟨rfl, last⟩ := tick_inj free' none' behind
      exact .inr ⟨further, back, last, (Nat.even_add.mp even).mpr ⟨1, rfl⟩, free''⟩
  · rintro (rfl | ⟨before, back, rfl, even, none⟩)
    · exact ⟨front, rest, rfl, List.count_eq_zero.mpr free ▸ Even.zero, free'⟩
    · refine ⟨front ++ '`' :: (code ++ '`' :: before), back, by simp, ?_, none⟩
      rw [count_tick_span free free']
      exact even.add ⟨1, rfl⟩

theorem mem_spans {line : List Char} : code ∈ spans line ↔ IsSpan line code := by
  induction line using line_induction with
  | plain line free =>
    rw [spans_of_free free]
    refine iff_of_false List.not_mem_nil ?_
    rintro ⟨front, back, rfl, _⟩
    simp at free
  | stray front back free free' =>
    rw [spans_stray free free']
    refine iff_of_false List.not_mem_nil ?_
    rintro ⟨before, after, same, _⟩
    have few := congrArg (List.count '`') same
    simp [List.count_append, List.count_eq_zero.mpr free, List.count_eq_zero.mpr free'] at few
    omega
  | span front code' rest free free' ih => rw [spans_span free free', List.mem_cons, isSpan_span free free', ih]

theorem exists_ticks (listed : code ∈ codeSpans line) :
    (∃ front back, line = front ++ '`' :: (code ++ '`' :: back)) ∧ '`' ∉ code ∧ IsToken code := by
  obtain ⟨m, found, kept⟩ := List.mem_filterMap.mp listed
  obtain ⟨⟨before, u, cut, _, start⟩, t, member, _, captures⟩ := follows_of_mem_findAll found
  obtain ⟨own, back, ahead, free, token, kept'⟩ := exists_of_mem_ways_codeSpan member
  rw [Progress.kept?, captures] at kept'
  obtain rfl : own = code := Option.some.inj (kept'.symm.trans kept)
  rw [start] at ahead
  have whole : line = before ++ u := cut
  have behind : u = '`' :: (own ++ '`' :: back) := ahead
  exact ⟨⟨before, back, by rw [whole, behind]⟩, free, token⟩

end Spans

/-- A link target is what the parentheses of a link hold, with the code between its parts and in them taken out, and a
code span is a single token between two neighbouring backticks. If no code stands between the label and the target of a
link or in the target, the targets stand in the line as they are, outside of the spans. If single tokens stand apart from
the other spans, the code spans are exactly the spans that are single tokens. -/
theorem references_whole (line : List Char) :
    (∀ target ∈ linkTargets line, ∃ front label gap body back, IsLink line front label gap body back ∧
      trim (uncoded body) = target) ∧
    (∀ code ∈ codeSpans line, (∃ front back, line = front ++ '`' :: (code ++ '`' :: back)) ∧ '`' ∉ code ∧ IsToken code) ∧
    (LinksWhole line → ∀ target ∈ linkTargets line, IsTarget line target) ∧
    (SpansApart line → ∀ code, code ∈ codeSpans line ↔ IsSpan line code ∧ IsToken code) := by
  refine ⟨fun target => exists_link, fun code => exists_ticks, fun whole target listed => ?_, fun apart code => ?_⟩
  · obtain ⟨front, label, gap, body, back, isLink, rfl⟩ := exists_link listed
    obtain ⟨rfl, plain⟩ := whole front label gap body back isLink
    exact isLink.isTarget plain
  · have same : codeSpans line = (spans line).filter (fun code => decide (IsToken code)) := spansAhead_eq line apart rfl
    rw [same, List.mem_filter, mem_spans, decide_eq_true_eq]

def mixedLine : List Char :=
  "`a b` [c](d) `e`".toList

theorem mixedLine_linksWhole : LinksWhole mixedLine := by
  intro front label gap body back isLink
  -- each bracket is in the line once
  have whole : "`a b` ".toList ++ '[' :: "c](d) `e`".toList = _ := isLink.whole
  obtain ⟨-, -, inner⟩ := (List.append_cons_inj_of_notMem (by decide) (by decide)).mp whole
  have whole : ['c'] ++ ']' :: "(d) `e`".toList = _ := inner
  obtain ⟨-, -, inner⟩ := (List.append_cons_inj_of_notMem (by decide) (by decide)).mp whole
  have whole : [] ++ '(' :: "d) `e`".toList = _ := inner
  obtain ⟨rfl, -, inner⟩ := (List.append_cons_inj_of_notMem (by decide) (by decide)).mp whole
  have whole : ['d'] ++ ')' :: " `e`".toList = _ := inner
  obtain ⟨rfl, -, -⟩ := (List.append_cons_inj_of_notMem (by decide) (by decide)).mp whole
  exact ⟨rfl, by decide⟩

theorem mixedLine_spansApart : SpansApart mixedLine := by
  intro front code between back whole even free free'
  have none : '`' ∉ front := by
    have total : 4 = _ := congrArg (List.count '`') whole
    simp only [List.count_append, List.count_cons_self] at total
    obtain ⟨k, twice⟩ := even
    refine List.count_eq_zero.mp ?_
    omega
  have whole : [] ++ '`' :: ("a b".toList ++ '`' :: (" [c](d) ".toList ++ '`' :: "e`".toList)) = _ := whole
  obtain ⟨-, inner⟩ := tick_inj (by decide) none whole
  obtain ⟨-, last⟩ := tick_inj (by decide) free inner
  obtain ⟨rfl, -⟩ := tick_inj (by decide) free' last
  intro _
  decide

theorem mixedLine_references : LinksWhole mixedLine ∧ SpansApart mixedLine ∧ linkTargets mixedLine = ["d".toList] ∧
    IsTarget mixedLine "d".toList ∧ codeSpans mixedLine = ["e".toList] ∧ IsSpan mixedLine "e".toList := by
  have links : linkTargets mixedLine = ["d".toList] := by decide +kernel
  have codes : codeSpans mixedLine = ["e".toList] := by decide +kernel
  obtain ⟨_, _, whole, exact_⟩ := references_whole mixedLine
  refine ⟨mixedLine_linksWhole, mixedLine_spansApart, links, whole mixedLine_linksWhole _ ?_, codes, ?_⟩
  · rw [links]
    exact List.mem_singleton_self _
  · refine ((exact_ mixedLine_spansApart _).mp ?_).1
    rw [codes]
    exact List.mem_singleton_self _

theorem references_joined : linkTargets "[a]`x`(b)".toList = ["b".toList] ∧ ¬ IsTarget "[a]`x`(b)".toList "b".toList ∧
    codeSpans "`a b`c`d e`".toList = ["c".toList] ∧ ¬ IsSpan "`a b`c`d e`".toList "c".toList := by
  refine ⟨by decide +kernel, ?_, by decide +kernel, ?_⟩
  · rintro ⟨front, raw, back, whole, _⟩
    have inside : contains "[a]`x`(b)".toList "](" = true :=
      contains_iff.mpr ⟨front, raw ++ ')' :: back, by rw [whole]; simp⟩
    exact absurd inside (by decide)
  · rw [← mem_spans]
    decide +kernel

end Conformance.Document
