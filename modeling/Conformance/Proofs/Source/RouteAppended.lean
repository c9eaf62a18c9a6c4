import Conformance.Proofs.Pattern.Following
import Conformance.Proofs.Source.RouteBlocks

namespace Conformance.Source.Route

open Text Pattern

def leftOpen : Pattern :=
  .chain [callee, .text "(", .blanks, .char (among "'\"`"), .most (outside "'\"`"), .textEnd]

variable {c g : List Char}

/-- If no path is left open, the calls of a text do not depend on what follows it. -/
theorem independent_registration (ends : EndsLine c.getLast?) (closed : leftOpen.occursIn c = false)
    (blank : Stops isBlank g) (mark : Stops (among "'\"`") g) : registration.Independent g (.ofText c) := by
  intro place ahead goesOn
  have feed := ahead.feed_mem ends goesOn
  obtain ⟨v, u, cut, _, rfl⟩ := ahead
  have cut : c = v ++ u := cut
  have none : leftOpen.ways ⟨(Cursor.ofText c).beyond v u, []⟩ = [] := by
    by_contra way
    rw [occursIn_iff.mpr ⟨v, u, cut, way⟩] at closed
    cases closed
  apply dependsOn_chain_append [callee, text "("] (x := '\n') (by decide) feed
  intro t called _
  refine dependsOn_chain_cons.mpr ⟨dependsOn_most blank, fun t₁ passed => ?_⟩
  refine dependsOn_chain_cons.mpr ⟨dependsOn_char mark, fun t₂ opens => ?_⟩
  -- a path that could go on is left open
  have closes : t₂.place.rest.all (outside "'\"`") = false := by
    by_contra all
    have all : ∀ d ∈ t₂.place.rest, outside "'\"`" d = true := by simpa using all
    refine List.ne_nil_of_mem (a := t₂.beyond t₂.place.rest []) ?_ none
    apply (mem_ways_chain_append [callee, text "("]).mpr
    refine ⟨t, called, mem_ways_chain_cons.mpr ⟨t₁, passed, mem_ways_chain_cons.mpr ⟨t₂, opens, ?_⟩⟩⟩
    refine mem_ways_chain_cons.mpr ⟨_, mem_ways_most.mpr ⟨_, [], (List.append_nil _).symm, all, rfl⟩, ?_⟩
    exact mem_ways_chain_cons.mpr ⟨_, List.mem_singleton_self _, List.mem_singleton_self _⟩
  refine dependsOn_chain_cons.mpr ⟨dependsOn_mostOne closes, fun t₃ _ => ?_⟩
  exact dependsOn_chain_cons.mpr ⟨dependsOn_char mark, fun _ _ => rfl⟩

def upTo (stop : Nat) (r : Route) : Route :=
  { r with stop }

def behind (front : List Char) (r : Route) : Route :=
  ⟨r.method, r.path, (lines front).length + r.line, byteLength front + r.start, byteLength front + r.stop⟩

@[simp] theorem upTo_path (stop : Nat) (r : Route) : (r.upTo stop).path = r.path := rfl

@[simp] theorem upTo_call (stop : Nat) (r : Route) : (r.upTo stop).call = r.call := rfl

theorem ofMatch?_extend (ends : EndsLine c.getLast?) {m : Match} (member : m ∈ registration.findAll c) (g : List Char) :
    ofMatch? (.ofText (c ++ g)) (byteLength (c ++ g)) (m.extend g) =
      (ofMatch? (.ofText c) (byteLength c) m).map (upTo (byteLength (c ++ g))) := by
  have line := (lineOf_append_of_lt ends (start_lt_of_mem_findAll (by decide) member) g).1
  have start : (m.extend g).start.offset = m.start.offset := rfl
  have same : registered? (m.extend g) = registered? m := by
    simp only [registered?, Match.group?_extend]
  rw [ofMatch?_eq, ofMatch?_eq, Option.map_map, same, start, line]
  rfl

theorem ofMatch?_move (ends : EndsLine c.getLast?) (g : List Char) (m : Match) :
    ofMatch? (.ofText (c ++ g)) (byteLength (c ++ g)) (m.move (byteLength c) c.getLast?) =
      (ofMatch? (.ofText g) (byteLength g) m).map (behind c) := by
  have line := lineOf_append_add ends g m.start.offset
  have start : (m.move (byteLength c) c.getLast?).start.offset = byteLength c + m.start.offset := rfl
  have same : registered? (m.move (byteLength c) c.getLast?) = registered? m := by
    simp only [registered?, Match.group?_move]
  rw [ofMatch?_eq, ofMatch?_eq, Option.map_map, same, start, line, byteLength_append]
  rfl

theorem opened_append (ends : EndsLine c.getLast?) (own : registration.Independent g (.ofText c)) :
    opened (c ++ g) = (opened c).map (upTo (byteLength (c ++ g))) ++ (opened g).map (behind c) := by
  unfold opened
  rw [findAll_append (by decide) (by decide) own ends, List.filterMap_append, List.filterMap_map, List.filterMap_map,
    List.map_filterMap, List.map_filterMap]
  apply congrArg₂ (· ++ ·)
  · exact List.filterMap_congr fun m member => ofMatch?_extend ends member g
  · exact List.filterMap_congr fun m _ => ofMatch?_move ends g m

theorem closeBlocks_upTo (stop : Nat) (routes : List Route) : closeBlocks (routes.map (upTo stop)) =
    (closeBlocks routes).dropLast ++ ((closeBlocks routes).getLast?.map (upTo stop)).toList := by
  fun_induction closeBlocks routes with
  | case1 => rfl
  | case2 last => rfl
  | case3 route next rest ih =>
    obtain ⟨stop', more, spelled⟩ := closeBlocks_cons next rest
    rw [List.map_cons, List.map_cons, closeBlocks, ← List.map_cons, ih, spelled, List.getLast?_cons_cons,
      List.dropLast_cons_cons]
    rfl

theorem ofText_append {selects : Method → Bool} (ends : EndsLine c.getLast?) (own : registration.Independent g (.ofText c))
    (none : ofText g selects = []) : ofText (c ++ g) selects =
      (ofText c selects).dropLast ++ ((ofText c selects).getLast?.map (upTo (byteLength (c ++ g)))).toList := by
  have later : (opened g).filter (selects ·.method) = [] := by
    have calls := congrArg (List.map call) none
    rw [ofText_eq, map_call_closeBlocks] at calls
    exact List.map_eq_nil_iff.mp calls
  rw [ofText_eq, opened_append ends own, List.filter_append, List.filter_map, List.filter_map]
  have same : ((selects ·.method) ∘ upTo (byteLength (c ++ g)) : Route → Bool) = (selects ·.method) := rfl
  have same' : ((selects ·.method) ∘ behind c : Route → Bool) = (selects ·.method) := rfl
  rw [same, same', later, List.map_nil, List.append_nil, closeBlocks_upTo, ← ofText_eq]

theorem prefix_of_mem_ofText {text : List Char} {selects : Method → Bool} {r : Route} (member : r ∈ ofText text selects) :
    ∃ front back, text = front ++ ("app.".toList ++ back) ∧ r.start = byteLength front := by
  have listed : r.call ∈ (ofText text selects).map call := List.mem_map_of_mem member
  rw [map_call_ofText] at listed
  obtain ⟨front, _, _, _, _, _, whole, start, _⟩ := isWritten_of_mem_calls (List.mem_of_mem_filter listed)
  exact ⟨front, _, whole, start⟩

end Conformance.Source.Route
