import Conformance.Proofs.Pattern.Members
import Conformance.Proofs.Pattern.Places
import Conformance.Proofs.Pattern.Sightings
import Conformance.Proofs.Text.Parts
import Conformance.Source.Route

namespace Conformance.Source.Route

open Text

def registered? (m : Pattern.Match) : Option (Method × String) := do
  let verb ← m.group? 1
  let method ← Method.ofVerb? (String.ofList verb)
  let path ← m.group? 2
  return (method, String.ofList path)

theorem ofMatch?_eq (index : LineIndex) (length : Nat) (m : Pattern.Match) : ofMatch? index length m =
    (registered? m).map fun x => ⟨x.1, x.2, index.lineOf m.start.offset, m.start.offset, length⟩ := by
  simp only [ofMatch?, registered?, bind, pure, Option.map_bind, Function.comp_def, Option.map_some]

theorem of_ofMatch? {index : LineIndex} {length : Nat} {m : Pattern.Match} {r : Route} (found : ofMatch? index length m = some r) :
    r.start = m.start.offset ∧ r.stop = length ∧ r.line = index.lineOf m.start.offset := by
  rw [ofMatch?_eq] at found
  obtain ⟨_, _, rfl⟩ := Option.map_eq_some_iff.mp found
  exact ⟨rfl, rfl, rfl⟩

/-- A closed block ends where it did before, or where a later route starts. -/
theorem mem_closeBlocks {routes : List Route} {R : Route → Route → Prop} (ordered : routes.Pairwise R) {r : Route}
    (member : r ∈ closeBlocks routes) :
    ∃ first ∈ routes, r.start = first.start ∧
      (r.stop = first.stop ∨ ∃ next ∈ routes, r.stop = next.start ∧ R first next) := by
  fun_induction closeBlocks routes with
  | case1 => cases member
  | case2 last =>
    obtain rfl := List.mem_singleton.mp member
    exact ⟨r, member, rfl, Or.inl rfl⟩
  | case3 route next rest ih =>
    obtain ⟨below, ordered⟩ := List.pairwise_cons.mp ordered
    rcases List.mem_cons.mp member with rfl | member
    · exact ⟨route, by simp, rfl, Or.inr ⟨next, by simp, rfl, below next (by simp)⟩⟩
    · obtain ⟨first, inside, start, stop⟩ := ih ordered member
      refine ⟨first, List.mem_cons_of_mem _ inside, start, stop.imp_right ?_⟩
      rintro ⟨next', inside', ends⟩
      exact ⟨next', List.mem_cons_of_mem _ inside', ends⟩

theorem exists_block {text : List Char} {selects : Method → Bool} {r : Route} (member : r ∈ ofText text selects) :
    ∃ block, slice? text r.start r.stop = some block := by
  let registered := (registration.findAll text).filterMap (ofMatch? (.ofText text) (byteLength text))
  have placed : ∀ r ∈ registered, IsBorder text r.start ∧ r.stop = byteLength text := by
    intro r member
    obtain ⟨m, inside, found⟩ := List.mem_filterMap.mp member
    obtain ⟨start, stop, _⟩ := of_ofMatch? found
    exact ⟨start ▸ (Pattern.follows_of_mem_findAll inside).ahead.isBorder, stop⟩
  have ascending : registered.Pairwise fun a b => a.start ≤ b.start := by
    refine (Pattern.pairwise_matchesFrom _ registration (.ofText text)).filterMap _ ?_
    intro m m' ordered r found r' found'
    rw [(of_ofMatch? found).1, (of_ofMatch? found').1]
    exact ordered
  have within : (registered.filter (selects ·.method)).Sublist registered := List.filter_sublist
  obtain ⟨first, inside, start, stop⟩ := mem_closeBlocks (ascending.sublist within) member
  obtain ⟨border, last⟩ := placed first (within.subset inside)
  have short : first.start ≤ byteLength text := by
    obtain ⟨front, back, rfl, same⟩ := border
    rw [same, byteLength_append]
    omega
  rcases stop with same | ⟨next, inside', same, ordered⟩
  · exact exists_slice (start ▸ border) (same ▸ last ▸ isBorder_end text) (by omega)
  · exact exists_slice (start ▸ border) (same ▸ (placed next (within.subset inside')).1) (by omega)

end Conformance.Source.Route

namespace Conformance

section Merge

variable {α : Type} {le : α → α → Bool} {a : α} {xs ys : List α}

theorem merge_cons_left (first : ∀ b ∈ ys, le a b = true) : (a :: xs).merge ys le = a :: xs.merge ys le := by
  cases ys with
  | nil => simp
  | cons b ys => rw [List.cons_merge_cons, if_pos (first b (by simp))]

theorem merge_cons_right (first : ∀ b ∈ xs, le b a = false) : xs.merge (a :: ys) le = a :: xs.merge ys le := by
  cases xs with
  | nil => simp
  | cons b xs => rw [List.cons_merge_cons, first b (by simp), if_neg Bool.false_ne_true]

/-- A list in strict order is merged again from what is kept of it and what is not. -/
theorem merge_filter (key : α → Nat) (keeps : α → Bool) {l : List α} (ascending : l.Pairwise fun a b => key a < key b) :
    (l.filter keeps).merge (l.filter (!keeps ·)) (fun a b => key a ≤ key b) = l := by
  induction l with
  | nil => simp
  | cons a l ih =>
    obtain ⟨first, ascending⟩ := List.pairwise_cons.mp ascending
    have rest := ih ascending
    cases kept : keeps a with
    | true =>
      rw [List.filter_cons_of_pos kept, List.filter_cons_of_neg (by simp [kept]), merge_cons_left, rest]
      intro b member
      exact decide_eq_true (Nat.le_of_lt (first b (List.mem_of_mem_filter member)))
    | false =>
      rw [List.filter_cons_of_neg (by simp [kept]), List.filter_cons_of_pos (by simp [kept]), merge_cons_right, rest]
      intro b member
      exact decide_eq_false (Nat.not_le_of_lt (first b (List.mem_of_mem_filter member)))

end Merge

namespace Source.Route

open Text Pattern

structure Call where
  method : Method
  path : String
  line : Nat
  start : Nat
deriving DecidableEq

def call (r : Route) : Call :=
  ⟨r.method, r.path, r.line, r.start⟩

def opened (text : List Char) : List Route :=
  (registration.findAll text).filterMap (ofMatch? (.ofText text) (byteLength text))

theorem ofText_eq (text : List Char) (selects : Method → Bool) :
    ofText text selects = closeBlocks ((opened text).filter (selects ·.method)) := rfl

theorem of_mem_opened {text : List Char} {r : Route} (member : r ∈ opened text) : r.stop = byteLength text ∧
    ∃ front back, text = front ++ back ∧ r.start = byteLength front ∧ r.line = 1 + front.count '\n' := by
  obtain ⟨m, found, own⟩ := List.mem_filterMap.mp member
  obtain ⟨start, stop, line⟩ := of_ofMatch? own
  obtain ⟨front, back, rfl, border⟩ := (follows_of_mem_findAll found).ahead.isBorder
  refine ⟨stop, front, back, rfl, start.trans border, ?_⟩
  rw [line, border, lineOf_ofText, feedsBelow_append, feedsBelow_eq_count (by omega), feedsBelow_eq_zero (by omega),
    Nat.add_zero]

theorem isBorder_of_mem_opened {text : List Char} {r : Route} (member : r ∈ opened text) : IsBorder text r.start := by
  obtain ⟨_, front, back, whole, start, _⟩ := of_mem_opened member
  exact ⟨front, back, whole, start⟩

theorem start_le_of_mem_opened {text : List Char} {r : Route} (member : r ∈ opened text) : r.start ≤ byteLength text := by
  obtain ⟨_, front, back, rfl, start, _⟩ := of_mem_opened member
  rw [start, byteLength_append]
  exact Nat.le_add_right _ _

theorem pairwise_opened (text : List Char) : (opened text).Pairwise fun a b => a.start < b.start := by
  apply List.Pairwise.filterMap (ofMatch? (.ofText text) (byteLength text)) _
    (pairwise_lt_matchesFrom (p := registration) (by decide) (text.length + 1) (.ofText text))
  intro m m' ordered r found r' found'
  rw [(of_ofMatch? found).1, (of_ofMatch? found').1]
  exact ordered

section Blocks

variable {routes : List Route} {text : List Char}

@[simp] theorem map_call_closeBlocks (routes : List Route) : (closeBlocks routes).map call = routes.map call := by
  fun_induction closeBlocks routes with
  | case1 | case2 => rfl
  | case3 route next rest ih =>
    rw [List.map_cons, ih]
    rfl

theorem exists_mem_closeBlocks {r : Route} (member : r ∈ routes) : ∃ closed ∈ closeBlocks routes, closed.call = r.call := by
  have listed : r.call ∈ (closeBlocks routes).map call := by
    rw [map_call_closeBlocks]
    exact List.mem_map_of_mem member
  exact List.mem_map.mp listed

theorem exists_of_mem_closeBlocks {r : Route} (member : r ∈ closeBlocks routes) : ∃ own ∈ routes, own.call = r.call := by
  have listed : r.call ∈ routes.map call := by
    rw [← map_call_closeBlocks]
    exact List.mem_map_of_mem member
  exact List.mem_map.mp listed

theorem closeBlocks_cons (r : Route) (rest : List Route) :
    ∃ stop more, closeBlocks (r :: rest) = { r with stop } :: more := by
  cases rest with
  | nil => exact ⟨r.stop, [], rfl⟩
  | cons next rest => exact ⟨next.start, _, rfl⟩

theorem isChain_closeBlocks (routes : List Route) : (closeBlocks routes).IsChain fun a b => a.stop = b.start := by
  fun_induction closeBlocks routes with
  | case1 => exact .nil
  | case2 last => exact .singleton last
  | case3 route next rest ih =>
    obtain ⟨stop, more, spelled⟩ := closeBlocks_cons next rest
    rw [spelled] at ih ⊢
    exact .cons_cons rfl ih

theorem getLast?_closeBlocks (routes : List Route) : (closeBlocks routes).getLast? = routes.getLast? := by
  fun_induction closeBlocks routes with
  | case1 | case2 => rfl
  | case3 route next rest ih =>
    rw [List.getLast?_cons, ih, List.getLast?_cons_cons, List.getLast?_cons, Option.getD_some]

theorem exists_blocks (first : Route) (rest : List Route) (opens : ∀ r ∈ first :: rest, r ∈ opened text)
    (ascending : (first :: rest).Pairwise fun a b => a.start < b.start) :
    ∃ blocks : List (List Char), (closeBlocks (first :: rest)).map (fun r => slice? text r.start r.stop) = blocks.map some ∧
      slice? text first.start (byteLength text) = some blocks.flatten := by
  have here := opens first (by simp)
  induction rest generalizing first with
  | nil =>
    obtain ⟨part, cut⟩ := exists_slice (isBorder_of_mem_opened here) (isBorder_end text) (start_le_of_mem_opened here)
    exact ⟨[part], by simp [closeBlocks, (of_mem_opened here).1, cut], by simpa using cut⟩
  | cons next rest ih =>
    obtain ⟨below, ascending⟩ := List.pairwise_cons.mp ascending
    have there := opens next (by simp)
    have ordered := Nat.le_of_lt (below next (by simp))
    obtain ⟨part, cut⟩ := exists_slice (isBorder_of_mem_opened here) (isBorder_of_mem_opened there) ordered
    obtain ⟨blocks, spelled, whole⟩ := ih next (fun r member => opens r (List.mem_cons_of_mem _ member)) ascending there
    refine ⟨part :: blocks, ?_, ?_⟩
    · rw [closeBlocks, List.map_cons, List.map_cons, spelled, cut]
    · rw [List.flatten_cons]
      exact slice?_join cut whole

/-- A block ends no further down than any route that starts behind it, and no further down than the text. -/
theorem stop_le_of_mem_closeBlocks {limit : Nat} (ascending : routes.Pairwise fun a b => a.start < b.start)
    (open_ : ∀ r ∈ routes, r.stop = limit ∧ r.start ≤ limit) {r : Route} (member : r ∈ closeBlocks routes) :
    r.stop ≤ limit ∧ ∀ later ∈ routes, r.start < later.start → r.stop ≤ later.start := by
  fun_induction closeBlocks routes with
  | case1 => cases member
  | case2 last =>
    obtain rfl := List.mem_singleton.mp member
    refine ⟨Nat.le_of_eq (open_ r (by simp)).1, ?_⟩
    intro later same behind
    obtain rfl := List.mem_singleton.mp same
    omega
  | case3 route next rest ih =>
    obtain ⟨below, ascending⟩ := List.pairwise_cons.mp ascending
    rcases List.mem_cons.mp member with own | member
    · subst own
      refine ⟨(open_ next (by simp)).2, ?_⟩
      intro later listed behind
      rcases List.mem_cons.mp listed with rfl | listed
      · exact absurd behind (Nat.lt_irrefl _)
      · rcases List.mem_cons.mp listed with rfl | further
        · exact Nat.le_refl _
        · exact Nat.le_of_lt ((List.pairwise_cons.mp ascending).1 later further)
    · obtain ⟨bounded, least⟩ := ih ascending (fun r listed => open_ r (List.mem_cons_of_mem _ listed)) member
      refine ⟨bounded, ?_⟩
      intro later listed behind
      rcases List.mem_cons.mp listed with above | listed
      · obtain ⟨own, inside, same⟩ := exists_of_mem_closeBlocks member
        subst above
        have start : own.start = r.start := congrArg Call.start same
        have above := below own inside
        omega
      · exact least later listed behind

end Blocks

def callOf? (text : List Char) (m : Match) : Option Call :=
  (registered? m).map fun x => ⟨x.1, x.2, (LineIndex.ofText text).lineOf m.start.offset, m.start.offset⟩

def calls (text : List Char) : List Call :=
  (registration.findAll text).filterMap (callOf? text)

/-- The call is written in the text: the name `app` at the beginning of a word, the method, and the path between marks
that need not be alike. -/
def Call.IsWritten (text : List Char) (c : Call) : Prop :=
  ∃ (front gap path back : List Char) (a b : Char),
    text = front ++ ("app.".toList ++ (c.method.verb.toList ++ ("(".toList ++ (gap ++ a :: (path ++ b :: back))))) ∧
    c.start = byteLength front ∧ c.line = 1 + front.count '\n' ∧ front.getLast?.any isWord = false ∧
    (∀ x ∈ gap, isBlank x = true) ∧ a ∈ "'\"`".toList ∧ b ∈ "'\"`".toList ∧
    path ≠ [] ∧ (∀ x ∈ path, x ∉ "'\"`".toList) ∧ c.path = String.ofList path

/-- The routes are those of the calls, and their blocks lie side by side in the text, from the first call on. -/
structure Tiles (text : List Char) (calls : List Call) (routes : List Route) : Prop where
  registered : routes.map call = calls
  ascending : routes.Pairwise fun a b => a.start < b.start
  meet : routes.IsChain fun a b => a.stop = b.start
  ends : ∀ last ∈ routes.getLast?, last.stop = byteLength text
  whole : ∃ (front : List Char) (blocks : List (List Char)), text = front ++ blocks.flatten ∧
    (∀ first ∈ calls.head?, first.start = byteLength front) ∧
    routes.map (fun r => slice? text r.start r.stop) = blocks.map some
  lines : ∀ r ∈ routes, ∃ front back, text = front ++ back ∧ r.start = byteLength front ∧ r.line = 1 + front.count '\n'

section Registrations

variable {s m : Progress}

theorem exists_method {word : List Char} (listed : ∃ w ∈ "get" :: ["post", "put", "patch", "delete"], word = w.toList) :
    ∃ method : Method, word = method.verb.toList ∧ Method.ofVerb? (String.ofList word) = some method := by
  obtain ⟨w, member, rfl⟩ := listed
  simp only [List.mem_cons, List.not_mem_nil, or_false] at member
  rcases member with rfl | rfl | rfl | rfl | rfl
  · exact ⟨.get, rfl, by decide⟩
  · exact ⟨.post, rfl, by decide⟩
  · exact ⟨.put, rfl, by decide⟩
  · exact ⟨.patch, rfl, by decide⟩
  · exact ⟨.delete, rfl, by decide⟩

theorem callee_cases (member : m ∈ callee.ways s) : s.place.atWordBorder = true ∧
    ∃ (method : Method) (u : List Char), s.place.rest = "app.".toList ++ (method.verb.toList ++ u) ∧
      Method.ofVerb? method.verb = some method ∧
      m = ((s.beyond "app.".toList (method.verb.toList ++ u)).beyond method.verb.toList u).keep 1
        (s.beyond "app.".toList (method.verb.toList ++ u)).place := by
  obtain ⟨_, border, called⟩ := mem_ways_chain_cons.mp member
  obtain ⟨atBorder, rfl⟩ := mem_ways_wordBorder.mp border
  obtain ⟨_, name, named⟩ := mem_ways_chain_cons.mp called
  obtain ⟨u₁, ahead, rfl⟩ := mem_ways_text.mp name
  obtain ⟨_, verb, last⟩ := mem_ways_chain_cons.mp named
  obtain ⟨_, word, rfl⟩ := mem_ways_group.mp verb
  obtain ⟨w, listed, u, ahead₁, rfl⟩ := mem_ways_anyOf.mp word
  obtain rfl := mem_ways_chain_nil.mp last
  obtain ⟨method, spelled, known⟩ := exists_method ⟨w, listed, rfl⟩
  obtain rfl : w = method.verb := String.toList_inj.mp spelled
  have ahead₁ : u₁ = method.verb.toList ++ u := ahead₁
  subst ahead₁
  rw [String.ofList_toList] at known
  exact ⟨atBorder, method, u, ahead, known, rfl⟩

theorem registration_cases (member : m ∈ registration.ways s) : s.place.atWordBorder = true ∧
    ∃ (method : Method) (gap path back : List Char) (a b : Char), s.place.rest =
        "app.".toList ++ (method.verb.toList ++ ("(".toList ++ (gap ++ a :: (path ++ b :: back)))) ∧
      (∀ x ∈ gap, isBlank x = true) ∧ among "'\"`" a = true ∧ among "'\"`" b = true ∧
      path ≠ [] ∧ (∀ x ∈ path, outside "'\"`" x = true) ∧ Method.ofVerb? method.verb = some method ∧
      ∀ start stop, (Match.mk start stop m.captures).group? 1 = some method.verb.toList ∧
        (Match.mk start stop m.captures).group? 2 = some path := by
  obtain ⟨_, called, way₁⟩ := mem_ways_chain_cons.mp member
  obtain ⟨border, method, u₁, ahead, known, rfl⟩ := callee_cases called
  obtain ⟨_, bracket, way₂⟩ := mem_ways_chain_cons.mp way₁
  obtain ⟨u₂, ahead₁, rfl⟩ := mem_ways_text.mp bracket
  obtain ⟨_, blanks, way₃⟩ := mem_ways_chain_cons.mp way₂
  obtain ⟨gap, u₃, ahead₂, blank, rfl⟩ := mem_ways_most.mp blanks
  obtain ⟨_, opening, way₄⟩ := mem_ways_chain_cons.mp way₃
  obtain ⟨a, u₄, ahead₃, opens, rfl⟩ := mem_ways_char.mp opening
  obtain ⟨_, kept, way₅⟩ := mem_ways_chain_cons.mp way₄
  obtain ⟨_, inner, rfl⟩ := mem_ways_group.mp kept
  obtain ⟨path, u₅, ahead₄, nonempty, inside, rfl⟩ := mem_ways_mostOne.mp inner
  obtain ⟨_, closing, way₆⟩ := mem_ways_chain_cons.mp way₅
  obtain ⟨b, back, ahead₅, closes, rfl⟩ := mem_ways_char.mp closing
  obtain rfl := mem_ways_chain_nil.mp way₆
  have ahead₁ : u₁ = "(".toList ++ u₂ := ahead₁
  have ahead₂ : u₂ = gap ++ u₃ := ahead₂
  have ahead₃ : u₃ = a :: u₄ := ahead₃
  have ahead₄ : u₄ = path ++ u₅ := ahead₄
  have ahead₅ : u₅ = b :: back := ahead₅
  subst ahead₅ ahead₄ ahead₃ ahead₂ ahead₁
  refine ⟨border, method, gap, path, back, a, b, ahead, blank, opens, closes, nonempty, inside, known, fun start stop => ?_⟩
  simp [Match.group?, Progress.keep, Progress.beyond, Progress.moveTo, Cursor.textTo]

/-- A match of the pattern registers a call that is written where it starts. -/
theorem exists_callOf? {text : List Char} {m : Match} (found : m ∈ registration.findAll text) :
    ∃ c, callOf? text m = some c ∧ c.IsWritten text := by
  have follows := follows_of_mem_findAll found
  obtain ⟨front, u, cut, _, start⟩ := follows.ahead
  obtain ⟨t, way, _, captured⟩ := follows.way
  rw [start] at way
  obtain ⟨border, method, gap, path, back, a, b, ahead, blank, opens, closes, nonempty, inside, known, groups⟩ :=
    registration_cases way
  have kept := groups m.start m.stop
  rw [captured] at kept
  obtain ⟨named, pathed⟩ : m.group? 1 = some method.verb.toList ∧ m.group? 2 = some path := kept
  have cut : text = front ++ u := cut
  have registers : registered? m = some (method, String.ofList path) := by
    simp [registered?, named, pathed, known]
  have offset : m.start.offset = byteLength front := by
    rw [start]
    exact Nat.zero_add _
  have line : (LineIndex.ofText text).lineOf m.start.offset = 1 + front.count '\n' := by
    rw [offset, cut, lineOf_ofText, feedsBelow_append, feedsBelow_eq_count (by omega), feedsBelow_eq_zero (by omega),
      Nat.add_zero]
  have free : front.getLast?.any isWord = false := by
    have word : "app.".toList = 'a' :: "pp.".toList := by decide
    rw [word] at ahead
    have inFront := (atWordBorder_in_front (c := 'a') ahead (by decide)).mp border
    cases last : front.getLast? with
    | none => rfl
    | some c => simpa [Cursor.beyond, last] using inFront
  have whole : text = front ++ ("app.".toList ++ (method.verb.toList ++ ("(".toList ++ (gap ++ a :: (path ++ b :: back))))) :=
    cut.trans (congrArg (front ++ ·) ahead)
  have own : callOf? text m = some ⟨method, String.ofList path, (LineIndex.ofText text).lineOf m.start.offset, m.start.offset⟩ := by
    rw [callOf?, registers, Option.map_some]
  refine ⟨_, own, front, gap, path, back, a, b, whole, offset, line, free, blank, ?_, ?_, nonempty, fun x member => ?_, rfl⟩
  · simpa [among] using opens
  · simpa [among] using closes
  · simpa [outside] using inside x member

theorem isWritten_of_mem_calls {text : List Char} {c : Call} (member : c ∈ calls text) : c.IsWritten text := by
  obtain ⟨m, found, own⟩ := List.mem_filterMap.mp member
  obtain ⟨c', same, written⟩ := exists_callOf? found
  obtain rfl : c = c' := Option.some.inj (own.symm.trans same)
  exact written

theorem map_call_opened (text : List Char) : (opened text).map call = calls text := by
  rw [opened, calls, List.map_filterMap]
  refine List.filterMap_congr fun m _ => ?_
  rw [ofMatch?_eq, callOf?, Option.map_map]
  rfl

end Registrations

section Selections

variable {text : List Char} {selects : Method → Bool}

theorem map_call_ofText (text : List Char) (selects : Method → Bool) :
    (ofText text selects).map call = (calls text).filter (selects ·.method) := by
  rw [ofText_eq, map_call_closeBlocks, ← map_call_opened, List.filter_map]
  rfl

theorem pairwise_calls (text : List Char) : (calls text).Pairwise fun a b => a.start < b.start := by
  rw [← map_call_opened]
  exact List.pairwise_map.mpr (pairwise_opened text)

theorem tiles_ofText (text : List Char) (selects : Method → Bool) :
    Tiles text ((calls text).filter (selects ·.method)) (ofText text selects) where
  registered := map_call_ofText text selects
  ascending := by
    have kept := (pairwise_calls text).filter (selects ·.method)
    rw [← map_call_ofText, List.pairwise_map] at kept
    exact kept
  meet := isChain_closeBlocks _
  ends last member := by
    rw [ofText_eq, getLast?_closeBlocks] at member
    exact (of_mem_opened (List.mem_of_mem_filter (List.mem_of_getLast? member))).1
  whole := by
    rw [← map_call_ofText, ofText_eq]
    cases selected : (opened text).filter (selects ·.method) with
    | nil => exact ⟨text, [], by simp, by simp [closeBlocks], rfl⟩
    | cons first rest =>
      have opens : ∀ r ∈ first :: rest, r ∈ opened text := by
        rw [← selected]
        exact fun r member => List.mem_of_mem_filter member
      have ascending := (pairwise_opened text).filter (selects ·.method)
      rw [selected] at ascending
      obtain ⟨blocks, spelled, cut⟩ := exists_blocks first rest opens ascending
      obtain ⟨front, whole, start⟩ := exists_front_of_slice?_end cut
      obtain ⟨_, more, begins⟩ := closeBlocks_cons first rest
      refine ⟨front, blocks, whole, ?_, spelled⟩
      rw [begins]
      simpa [call] using start
  lines r member := by
    obtain ⟨own, inside, same⟩ := exists_of_mem_closeBlocks member
    have start : own.start = r.start := congrArg Call.start same
    have line : own.line = r.line := congrArg Call.line same
    rw [← start, ← line]
    exact (of_mem_opened (List.mem_of_mem_filter inside)).2

/-- The block that a selected route has among all routes is the beginning of its block. -/
theorem exists_shorter_block {r : Route} (member : r ∈ ofText text selects) :
    ∃ own ∈ ofText text fun _ => true, own.call = r.call ∧ own.stop ≤ r.stop := by
  have ascending := (pairwise_opened text).filter (selects ·.method)
  obtain ⟨first, inside, start, stop⟩ := mem_closeBlocks ascending member
  obtain ⟨selected, inside', same'⟩ := exists_of_mem_closeBlocks member
  obtain ⟨own, listed, same⟩ := exists_mem_closeBlocks (List.mem_of_mem_filter inside')
  have all : ofText text (fun _ => true) = closeBlocks (opened text) := by
    rw [ofText_eq, List.filter_true]
  have bounds := stop_le_of_mem_closeBlocks (pairwise_opened text)
    (fun r member => ⟨(of_mem_opened member).1, start_le_of_mem_opened member⟩) listed
  refine ⟨own, all ▸ listed, same.trans same', ?_⟩
  have begins : own.start = first.start := (congrArg Call.start (same.trans same')).trans start
  rcases stop with last | ⟨next, further, ends, behind⟩
  · rw [last, (of_mem_opened (List.mem_of_mem_filter inside)).1]
    exact bounds.1
  · rw [ends]
    exact bounds.2 next (List.mem_of_mem_filter further) (begins ▸ behind)

theorem registers_of_mem_opened {r : Route} (member : r ∈ opened text) : registers text = true := by
  obtain ⟨m, found, _⟩ := List.mem_filterMap.mp member
  have follows := follows_of_mem_findAll found
  obtain ⟨v, u, cut, _, start⟩ := follows.ahead
  obtain ⟨t, way, _⟩ := follows.way
  rw [start] at way
  obtain ⟨named, callee, way⟩ := mem_ways_chain_cons.mp way
  obtain ⟨bracketed, bracket, _⟩ := mem_ways_chain_cons.mp way
  apply occursIn_iff.mpr
  refine ⟨v, u, cut, ?_⟩
  apply ways_chain_ne_nil callee
  apply ways_chain_ne_nil (mem_ways_most.mpr ⟨[], named.place.rest, rfl, by simp, rfl⟩)
  rw [Progress.beyond_nil rfl]
  exact ways_chain_ne_nil bracket ways_chain_nil_ne_nil

end Selections

/-- Every match of the pattern is a call that is written there, and the routes are those of the selected calls. Their blocks
are the text from the first of these on, one behind the other. Two selections that share the methods merge into all routes;
the block that a route has among all routes is the beginning of its block; and where there is a route, the text is known to
register one. -/
theorem ofText_tiled (text : List Char) (selects : Method → Bool) :
    (∀ m ∈ registration.findAll text, ∃ c, callOf? text m = some c ∧ c.IsWritten text) ∧
    Tiles text ((calls text).filter (selects ·.method)) (ofText text selects) ∧
    (ofText text selects).map call = ((ofText text fun _ => true).filter (selects ·.method)).map call ∧
    ((ofText text selects).map call).merge ((ofText text (!selects ·)).map call) (fun a b => a.start ≤ b.start) =
      (ofText text fun _ => true).map call ∧
    (∀ r ∈ ofText text selects, ∃ own ∈ ofText text fun _ => true, own.call = r.call ∧ own.start = r.start ∧
      own.stop ≤ r.stop) ∧
    (ofText text (fun _ => true) ≠ [] → registers text = true) := by
  have all : (ofText text fun _ => true).map call = calls text := by
    rw [map_call_ofText, List.filter_true]
  refine ⟨fun m found => exists_callOf? found, tiles_ofText text selects, ?_, ?_, ?_, ?_⟩
  · have selected := List.filter_map (p := fun c : Call => selects c.method) (f := call) (l := ofText text fun _ => true)
    rw [map_call_ofText, ← all, selected]
    rfl
  · rw [map_call_ofText, map_call_ofText, all]
    exact merge_filter Call.start (selects ·.method) (pairwise_calls text)
  · intro r member
    obtain ⟨own, listed, same, bound⟩ := exists_shorter_block member
    exact ⟨own, listed, same, congrArg Call.start same, bound⟩
  · intro some
    obtain ⟨r, member⟩ := List.exists_mem_of_ne_nil _ some
    obtain ⟨own, inside, _⟩ := exists_of_mem_closeBlocks member
    exact registers_of_mem_opened (List.mem_of_mem_filter inside)

def guestModule : List Char :=
  "f(); app.post('/a', f);\napp.get(\"/b\", g);\napp.put(`/c`, h);\n".toList

theorem guestModule_tiled :
    (calls guestModule).filter (·.method.isWrite) = [⟨.post, "/a", 1, 5⟩, ⟨.put, "/c", 3, 42⟩] ∧
    ofText guestModule Method.isWrite = [⟨.post, "/a", 1, 5, 42⟩, ⟨.put, "/c", 3, 42, 60⟩] ∧
    Tiles guestModule ((calls guestModule).filter (·.method.isWrite)) (ofText guestModule Method.isWrite) ∧
    (∀ r ∈ ofText guestModule Method.isWrite, ∃ own ∈ ofText guestModule fun _ => true, own.call = r.call ∧
      own.start = r.start ∧ own.stop ≤ r.stop) ∧ registers guestModule = true := by
  obtain ⟨_, tiles, _, _, longer, registers⟩ := ofText_tiled guestModule Method.isWrite
  have own : ofText guestModule Method.isWrite = [⟨.post, "/a", 1, 5, 42⟩, ⟨.put, "/c", 3, 42, 60⟩] := by
    have chars : guestModule = _ := String.toList_ofList
    rw [chars]
    decide +kernel
  have selected := tiles.registered
  rw [own] at selected
  refine ⟨selected.symm, own, tiles, longer, registers fun none => ?_⟩
  have some := map_call_ofText guestModule Method.isWrite
  have all := map_call_ofText guestModule fun _ => true
  rw [List.filter_true, none] at all
  rw [own, ← all] at some
  cases some

end Source.Route

end Conformance
