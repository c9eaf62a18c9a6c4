import Conformance.Proofs.Check.Faults
import Conformance.Proofs.Source.RouteAppended
import Conformance.Proofs.Text.Parts

namespace Conformance

namespace Check.Validation

open Text Pattern Source

variable {c g text : List Char} {r : Route}

def lacks (text : List Char) (r : Route) : Bool :=
  !evidence.occursIn ((slice? text r.start r.stop).getD []) && !isAction r.path

theorem lacking_eq (free : contains text "createResourceRouter" = false) :
    lacking text = (Route.ofText text Method.isWrite).filter (lacks text) := by
  rw [lacking, free, if_neg Bool.false_ne_true, List.filter_filter]
  rfl

/-- Whether a call validates does not depend on what follows its line, unless that is its bracket. -/
theorem independent_evidence (ends : EndsLine c.getLast?) (blank : Stops isBlank g) (bracket : ∀ d ∈ g.head?, d ≠ '(') :
    evidence.Independent g (.ofText c) := by
  intro place ahead goesOn
  have feed := ahead.feed_mem ends goesOn
  have called : ∀ t, (chain [blanks, text "("]).dependsOn g t = false := by
    intro t
    refine dependsOn_chain_cons.mpr ⟨dependsOn_most blank, fun t' _ => ?_⟩
    refine dependsOn_chain_cons.mpr ⟨dependsOn_exactly fun d first inside => ?_, fun _ _ => rfl⟩
    exact bracket d first (by simpa using inside)
  have first := dependsOn_chain_append [wordBorder, .text "validate"] (x := '\n') (s := ⟨place, []⟩) (by decide)
    feed fun t _ _ => called t
  have second := dependsOn_chain_append [.text ".safeParse"] (x := '\n') (s := ⟨place, []⟩) (by decide)
    feed fun t _ _ => called t
  have third := dependsOn_chain_append [.most isWord, .char (among "Ss"), .text "chema.parse"] (x := '\n')
    (s := ⟨place, []⟩) (by decide) feed fun t _ _ => called t
  simp only [List.cons_append, List.nil_append] at first second third
  rw [evidence, dependsOn, dependsOn, first, second, third]
  rfl

theorem lacks_append (inside : ∃ block, slice? c r.start r.stop = some block) (g : List Char) :
    lacks (c ++ g) r = lacks c r := by
  obtain ⟨block, part⟩ := inside
  rw [lacks, lacks, part, slice?_append part]

/-- A block that reaches to the end of a text goes on in what follows. -/
theorem lacks_append_end (ends : EndsLine c.getLast?)
    (own : ∀ block, EndsLine block.getLast? → evidence.Independent g (.ofText block))
    (inside : ∃ block, slice? c r.start r.stop = some block) (last : r.stop = byteLength c) :
    lacks (c ++ g) (r.upTo (byteLength (c ++ g))) = (lacks c r && !evidence.occursIn g) := by
  obtain ⟨block, part⟩ := inside
  rw [last] at part
  obtain ⟨longer, front, whole⟩ := slice?_append_end part g
  have ends' : EndsLine block.getLast? := by
    intro d final
    exact ends d (by simp [whole, List.getLast?_append, Option.mem_def.mp final])
  have part' : slice? (c ++ g) (r.upTo (byteLength (c ++ g))).start (r.upTo (byteLength (c ++ g))).stop = some (block ++ g) :=
    longer
  rw [lacks, lacks, part', last, part, Option.getD_some, Option.getD_some,
    occursIn_append (by decide) (by decide) (own block ends') ends', Bool.not_or, Route.upTo_path]
  exact Bool.and_right_comm _ _ _

/-- Whether the lines that follow a text excuse a route: it is the last one, and validation is read in the lines. -/
def spared (g : List Char) (routes : List Route) (r : Route) : Bool :=
  evidence.occursIn g && routes.getLast? == some r

theorem map_call_lacking_append (ends : EndsLine c.getLast?) (calls : Route.registration.Independent g (.ofText c))
    (own : ∀ block, EndsLine block.getLast? → evidence.Independent g (.ofText block))
    (noWrite : Route.ofText g Method.isWrite = []) :
    ((Route.ofText (c ++ g) Method.isWrite).filter (lacks (c ++ g))).map Route.call =
      (((Route.ofText c Method.isWrite).filter (lacks c)).filter fun r =>
        !spared g (Route.ofText c Method.isWrite) r).map Route.call := by
  have tiles := Route.tiles_ofText c Method.isWrite
  have inside : ∀ r ∈ Route.ofText c Method.isWrite, ∃ block, slice? c r.start r.stop = some block :=
    fun r member => Route.exists_block member
  rw [Route.ofText_append ends calls noWrite]
  generalize Route.ofText c Method.isWrite = routes at tiles inside ⊢
  cases final : routes.getLast? with
  | none =>
    rw [List.getLast?_eq_none_iff] at final
    subst final
    rfl
  | some last =>
    obtain ⟨front, rfl⟩ := List.getLast?_eq_some_iff.mp final
    have stop : last.stop = byteLength c := tiles.ends last (by simp)
    have others : ∀ r ∈ front, lacks (c ++ g) r = lacks c r :=
      fun r member => lacks_append (inside r (List.mem_append_left _ member)) g
    have apart : ∀ r ∈ front, spared g (front ++ [last]) r = false := by
      intro r member
      have before : r.start < last.start := (List.pairwise_append.mp tiles.ascending).2.2 r member last (by simp)
      have differ : last ≠ r := fun same => Nat.lt_irrefl _ (same ▸ before)
      simp [spared, differ]
    have goesOn : lacks (c ++ g) (last.upTo (byteLength (c ++ g))) = (lacks c last && !evidence.occursIn g) :=
      lacks_append_end ends own (inside last (by simp)) stop
    have kept : (front.filter (lacks c)).filter (fun r => !spared g (front ++ [last]) r) = front.filter (lacks c) := by
      apply List.filter_eq_self.mpr
      intro r member
      rw [apart r (List.mem_of_mem_filter member)]
      rfl
    have excused : spared g (front ++ [last]) last = evidence.occursIn g := by simp [spared]
    rw [List.dropLast_concat, List.filter_append, List.filter_append, List.filter_append, kept, List.filter_congr others]
    generalize byteLength (c ++ g) = longer at goesOn ⊢
    cases shown : evidence.occursIn g <;> cases lacking : lacks c last <;> simp [goesOn, excused, shown, lacking]

/-- When lines follow that register only routes without a body, the same routes are flagged, but for the last route that
takes a body: its block goes on in these lines, and what validates there counts for it. -/
theorem unvalidated_append (ends : EndsLine c.getLast?) (closed : Route.leftOpen.occursIn c = false)
    (reads : (Route.ofText g fun _ => true).head?.any (fun r => r.start == 0 && !r.method.isWrite) = true)
    (noWrite : Route.ofText g Method.isWrite = []) (noRouter : contains g "createResourceRouter" = false) :
    ∃ flagged flagged', unvalidated c = .ok flagged ∧ unvalidated (c ++ g) = .ok flagged' ∧
      flagged'.map Route.call = (flagged.filter fun r => !spared g (Route.ofText c Method.isWrite) r).map Route.call := by
  obtain ⟨rest, rfl⟩ : ∃ rest, g = 'a' :: rest := by
    obtain ⟨r, first, starts⟩ := (Option.any_eq_true _ _).mp reads
    obtain ⟨front, back, whole, start⟩ := Route.prefix_of_mem_ofText (List.mem_of_mem_head? first)
    simp only [Bool.and_eq_true, beq_iff_eq] at starts
    rw [starts.1] at start
    rw [eq_nil_of_byteLength start.symm] at whole
    exact ⟨"pp.".toList ++ back, whole⟩
  refine ⟨_, _, unvalidated_eq c, unvalidated_eq _, ?_⟩
  have router := contains_append "createResourceRouter" ends (by decide) ('a' :: rest)
  rw [noRouter, Bool.or_false] at router
  cases inside : contains c "createResourceRouter" with
  | true =>
    rw [inside] at router
    simp [lacking, router, inside]
  | false =>
    rw [inside] at router
    rw [lacking_eq inside, lacking_eq router]
    have blank : Stops isBlank ('a' :: rest) := stops_cons.mpr (by decide)
    have mark : Stops (among "'\"`") ('a' :: rest) := stops_cons.mpr (by decide)
    apply map_call_lacking_append ends (Route.independent_registration ends closed blank mark) _ noWrite
    exact fun block ends' => independent_evidence ends' blank (by simp)

def bareRoutes : List Char :=
  "app.post('/a', h);\napp.put('/b', h);\n".toList

def readRoute : List Char :=
  "app.get('/c', validate(q), h);\n".toList

theorem bareRoutes_append : ∃ flagged flagged', unvalidated bareRoutes = .ok flagged ∧
    unvalidated (bareRoutes ++ readRoute) = .ok flagged' ∧
    flagged'.map Route.call =
      (flagged.filter fun r => !spared readRoute (Route.ofText bareRoutes Method.isWrite) r).map Route.call ∧
    flagged.map Route.call = [⟨.post, "/a", 1, 0⟩, ⟨.put, "/b", 2, 19⟩] ∧ flagged'.map Route.call = [⟨.post, "/a", 1, 0⟩] := by
  have bare : bareRoutes = _ := String.toList_ofList
  have read : readRoute = _ := String.toList_ofList
  obtain ⟨flagged, flagged', first, second, same⟩ := unvalidated_append (c := bareRoutes) (g := readRoute)
    (by rw [bare]; decide +kernel) (by rw [bare]; decide +kernel) (by rw [read]; decide +kernel)
    (by rw [read]; decide +kernel) (by rw [read]; decide +kernel)
  obtain ⟨calls, calls'⟩ : (unvalidated bareRoutes).toOption.map (List.map Route.call) =
        some [⟨.post, "/a", 1, 0⟩, ⟨.put, "/b", 2, 19⟩] ∧
      (unvalidated (bareRoutes ++ readRoute)).toOption.map (List.map Route.call) = some [⟨.post, "/a", 1, 0⟩] := by
    rw [bare, read]
    decide +kernel
  rw [first] at calls
  rw [second] at calls'
  exact ⟨flagged, flagged', first, second, same, Option.some.inj calls, Option.some.inj calls'⟩

theorem unvalidated_spared :
    let c := "app.post('/a', h);\n".toList
    let g := "app.get('/b', validate(q), h);\n".toList
    c.getLast? = some '\n' ∧
      (Route.ofText g fun _ => true).head?.any (fun r => r.start == 0 && !r.method.isWrite) = true ∧
      Route.ofText g Method.isWrite = [] ∧ contains g "createResourceRouter" = false ∧
      (unvalidated c).toOption.map (List.map Route.call) = some [⟨.post, "/a", 1, 0⟩] ∧
      (unvalidated (c ++ g)).toOption.map (List.map Route.call) = some [] := by
  intro c g
  have bare : c = _ := String.toList_ofList
  have read : g = _ := String.toList_ofList
  rw [bare, read]
  decide +kernel

end Check.Validation

end Conformance
