import Conformance.Check.Registry
import Conformance.Proofs.Manifest.Cuts
import Conformance.Proofs.Source.RouteBlocks
import Conformance.Proofs.Steps

namespace Conformance

theorem cut_of_slice? {text part : List Char} {start stop : Nat} (found : Text.slice? text start stop = some part) :
    cut text start stop = .ok part := by
  rw [cut, found]

namespace Endpoint.Manifest

theorem exists_array {text : List Char} {start stop : Nat} (found : arrayBounds text = .ok (start, stop)) :
    ∃ array, Text.slice? text start stop = some array := by
  obtain ⟨first, last, ordered⟩ := borders_of_arrayBounds found
  exact Text.exists_slice first last ordered

theorem exists_object {array : List Char} {start stop : Nat}
    (member : (start, stop) ∈ blockBounds 0 0 (codeFrom 0 array)) :
    ∃ object, Text.slice? array start stop = some object := by
  obtain ⟨first, last, ordered⟩ := borders_of_mem_blockBounds member
  exact Text.exists_slice first last ordered

theorem run_arrayText_of_slice {text array : List Char} {start stop : Nat} (found : arrayBounds text = .ok (start, stop))
    (part : Text.slice? text start stop = some array) : (arrayText text).run = .ok (.ok array) := by
  unfold arrayText
  rw [found]
  change (liftM (cut text start stop) : ExceptT ManifestError (Except Fault) (List Char)).run = _
  rw [cut_of_slice? part]
  rfl

theorem run_arrayText {text : List Char} {start stop : Nat} (found : arrayBounds text = .ok (start, stop)) :
    ∃ array, (arrayText text).run = .ok (.ok array) := by
  obtain ⟨array, part⟩ := exists_array found
  exact ⟨array, run_arrayText_of_slice found part⟩

def objects (array : List Char) : List (List Char) :=
  (blockBounds 0 0 (codeFrom 0 array)).map fun (start, stop) => (Text.slice? array start stop).getD []

theorem run_parse {text array : List Char} (found : (arrayText text).run = .ok (.ok array)) :
    (parse text).run = .ok (if (objects array).isEmpty then .error .empty
      else .ok ((objects array).map fun object => entryOf (fields (withoutComments object)))) := by
  have cuts : ∀ bounds ∈ blockBounds 0 0 (codeFrom 0 array),
      cut array bounds.1 bounds.2 = .ok ((Text.slice? array bounds.1 bounds.2).getD []) := by
    rintro ⟨start, stop⟩ member
    obtain ⟨object, part⟩ := exists_object member
    rw [cut_of_slice? part, part]
    rfl
  unfold parse
  rw [ExceptT.run_bind, found]
  change ExceptT.run (do
    let blocks ← (blockBounds 0 0 (codeFrom 0 array)).mapM fun bounds =>
      (liftM (cut array bounds.1 bounds.2) : ExceptT ManifestError (Except Fault) (List Char))
    if blocks.isEmpty then throw .empty
    pure (blocks.map fun block => entryOf (fields (withoutComments block)))) = _
  rw [mapM_lift_of_ok (mapM_eq_ok cuts), pure_bind, ← objects]
  cases (objects array).isEmpty <;> rfl

/-- A manifest is read, or it is said why there is none: its array is not found, or has no objects in it. -/
theorem exists_parse (text : List Char) :
    ∃ result, (parse text).run = .ok result ∧
      ∀ cause, result = .error cause → cause = .empty ∨ arrayBounds text = .error cause := by
  cases found : arrayBounds text with
  | error cause =>
    refine ⟨.error cause, ?_, fun cause' same => Or.inr (by cases same; rfl)⟩
    unfold parse arrayText
    rw [found]
    rfl
  | ok bounds =>
    obtain ⟨array, whole⟩ := run_arrayText found
    refine ⟨_, run_parse whole, fun cause same => Or.inl ?_⟩
    split at same
    · cases same
      rfl
    · cases same

theorem exists_read (fs : FileSystem) (layout : Layout) :
    ∃ result, (read fs layout).run = .ok result ∧
      ∀ cause, result = .error cause → cause = .notFound (layout.functions / (fileName : Path)) ∨
        (∃ reason, cause = .unreadable reason) ∨ cause = .empty ∨ ∃ text, arrayBounds text = .error cause := by
  unfold read
  dsimp only
  cases fs.pathExists (layout.functions / fileName) with
  | false => exact ⟨.error _, rfl, fun cause same => Or.inl (by cases same; rfl)⟩
  | true =>
    cases fs.read (layout.functions / fileName) with
    | error reason => exact ⟨.error _, rfl, fun cause same => Or.inr (Or.inl ⟨reason, by cases same; rfl⟩)⟩
    | ok text =>
      obtain ⟨result, own, causes⟩ := exists_parse text
      exact ⟨result, own, fun cause same => Or.inr (Or.inr ((causes cause same).imp_right fun found => ⟨text, found⟩))⟩

end Endpoint.Manifest

namespace Check

theorem Endpoints.exists_find (repo : Repository) : ∃ violations, find repo = .ok violations := by
  obtain ⟨result, manifest, _⟩ := Endpoint.Manifest.exists_read repo.files repo.layout
  unfold find
  cases repo.files.isDir repo.layout.functions with
  | false => exact ⟨[], rfl⟩
  | true =>
    cases result with
    | error cause => exact ⟨_, by rw [manifest]; rfl⟩
    | ok entries => exact ⟨_, by rw [manifest]; rfl⟩

namespace Validation

def modules (repo : Repository) : List Path :=
  repo.files.listFiles FileSystem.isSourceName repo.layout.handlers

def lacking (text : List Char) : List Source.Route :=
  if Text.contains text "createResourceRouter" then []
  else
    ((Source.Route.ofText text Source.Method.isWrite).filter (!isAction ·.path)).filter fun route =>
      !evidence.occursIn ((Text.slice? text route.start route.stop).getD [])

theorem unvalidated_eq (text : List Char) : unvalidated text = .ok (lacking text) := by
  unfold unvalidated lacking
  split
  · rfl
  · refine filterM_eq_ok fun route member => ?_
    obtain ⟨block, part⟩ := Source.Route.exists_block (List.mem_of_mem_filter member)
    rw [lacksEvidence, cut_of_slice? part, part]
    rfl

theorem lacking_subset (text : List Char) : lacking text ⊆ Source.Route.ofText text Source.Method.isWrite := by
  unfold lacking
  split
  · exact List.nil_subset _
  · exact List.Subset.trans (List.filter_subset_self _) (List.filter_subset_self _)

theorem find_eq (repo : Repository) :
    find repo = .ok (repo.inspectFiles (modules repo) fun file text => (lacking text).map (violation file)) := by
  have each : ∀ p ∈ modules repo, inspect repo p =
      .ok (repo.inspectFile (fun file text => (lacking text).map (violation file)) p) := by
    intro p _
    unfold inspect Repository.inspectFile
    cases repo.files.read p with
    | error cause => rfl
    | ok text =>
      dsimp only
      rw [unvalidated_eq]
      rfl
  have all := mapM_eq_ok each
  change (do
    let found ← (modules repo).mapM (inspect repo)
    pure found.flatten) = _
  rw [all]
  exact congrArg Except.ok List.flatMap_def.symm

end Validation

theorem exists_find_of_registered {check : Check} (registered : check ∈ registry) (repo : Repository) :
    ∃ violations, check.find repo = .ok violations := by
  simp only [registry, List.mem_cons, List.not_mem_nil, or_false] at registered
  rcases registered with rfl | rfl | rfl | rfl | rfl | rfl | rfl | rfl | rfl | rfl | rfl | rfl | rfl | rfl | rfl |
    rfl | rfl | rfl | rfl | rfl | rfl | rfl | rfl | rfl
  case inr.inl => exact ⟨_, Validation.find_eq repo⟩
  case inr.inr.inr.inl => exact Endpoints.exists_find repo
  all_goals exact ⟨_, rfl⟩

end Check

theorem Text.front_of_beforeFirst? {part s front : List Char} (found : beforeFirst? part s = some front) :
    ∃ back, s = front ++ back := by
  induction s generalizing front with
  | nil =>
    rw [beforeFirst?] at found
    split at found
    · cases found
      exact ⟨[], rfl⟩
    · cases found
  | cons c s ih =>
    rw [beforeFirst?] at found
    split at found
    · cases found
      exact ⟨c :: s, rfl⟩
    · obtain ⟨inner, own, rfl⟩ := Option.map_eq_some_iff.mp found
      obtain ⟨back, whole⟩ := ih own
      exact ⟨back, by rw [whole, List.cons_append]⟩

theorem Document.front_withoutTitle (target : List Char) : ∃ back, target = withoutTitle target ++ back := by
  unfold withoutTitle
  split
  · rename_i path found
    exact Text.front_of_beforeFirst? found
  · cases found : Text.beforeFirst? " '".toList target with
    | none => exact ⟨[], by simp⟩
    | some path => exact Text.front_of_beforeFirst? found

theorem Source.Script.front_codeAfter (q : Quoting) (line : List Char) : ∃ back, line = codeAfter q line ++ back := by
  induction line generalizing q with
  | nil => exact ⟨[], rfl⟩
  | cons c line ih =>
    rw [codeAfter]
    split
    · exact ⟨c :: line, rfl⟩
    · obtain ⟨back, whole⟩ := ih (q.next c)
      exact ⟨back, by rw [List.cons_append, ← whole]⟩

theorem Check.TestBodies.emptyBodies_eq (number : Nat) (lines : List (List Char)) :
    emptyBodies number lines = lines.zipIdx.flatMap fun (line, i) =>
      (emptyBody? (number + i) line (lines.drop (i + 1))).toList := by
  induction lines generalizing number with
  | nil => rfl
  | cons line lines ih =>
    rw [emptyBodies, ih, List.zipIdx_cons', List.flatMap_cons, List.flatMap_map]
    simp only [Prod.map, id_eq, List.drop_succ_cons, List.drop_zero, Nat.add_zero, Nat.add_assoc, Nat.add_comm 1]

namespace Check

/-- What is cut out of a text, looked up in it or counted on it is there. -/
structure Supplied (text : List Char) : Prop where
  array : ∀ start stop, Endpoint.Manifest.arrayBounds text = .ok (start, stop) →
    ∃ array, Text.slice? text start stop = some array
  brackets : ∀ offset, Endpoint.Manifest.closingCounted 0 (Endpoint.Manifest.fromBracket (Endpoint.codeFrom offset text)) =
    .ok (Endpoint.Manifest.closingBracket? 0 (Endpoint.Manifest.fromBracket (Endpoint.codeFrom offset text)))
  objects : ∀ bounds ∈ Endpoint.Manifest.blockBounds 0 0 (Endpoint.codeFrom 0 text),
    ∃ object, Text.slice? text bounds.1 bounds.2 = some object
  braces : Endpoint.Manifest.blocksCounted 0 0 (Endpoint.codeFrom 0 text) =
    .ok (Endpoint.Manifest.blockBounds 0 0 (Endpoint.codeFrom 0 text))
  blocks : ∀ selects, ∀ route ∈ Source.Route.ofText text selects,
    ∃ block, Text.slice? text route.start route.stop = some block
  bodies : TestBodies.emptyBodies 1 (Text.lines text) = (Text.lines text).zipIdx.flatMap fun (line, i) =>
    (TestBodies.emptyBody? (i + 1) line ((Text.lines text).drop (i + 1))).toList
  following : ∀ x ∈ (Text.lines text).zipIdx, x.2 + 1 ≤ (Text.lines text).length
  code : Text.slice? text 0 (Text.byteLength (Source.Script.withoutComment text)) =
    some (Source.Script.withoutComment text)
  target : Text.slice? text 0 (Text.byteLength (Document.withoutTitle text)) = some (Document.withoutTitle text)
  imports : ∀ form, ∀ found ∈ Source.Import.found text (.ofText text) form, 1 ≤ found.2.line
  hits : ∀ pattern, ∀ hit ∈ codeHits pattern text, 1 ≤ hit.line ∧ hit.line ≤ (Text.lines text).length

theorem supplied (text : List Char) : Supplied text where
  array := fun _ _ => Endpoint.Manifest.exists_array
  brackets := fun _ => Endpoint.Manifest.closingCounted_fromBracket _
  objects := fun _ => Endpoint.Manifest.exists_object
  braces := Endpoint.Manifest.blocksCounted_eq 0 0 _
  blocks := fun _ _ => Source.Route.exists_block
  bodies := by
    rw [TestBodies.emptyBodies_eq]
    simp only [Nat.add_comm 1]
  following := by
    rintro ⟨line, i⟩ member
    have := List.snd_lt_of_mem_zipIdx member
    dsimp only at this ⊢
    omega
  code := by
    obtain ⟨back, whole⟩ := Source.Script.front_codeAfter {} text
    have front := Text.slice?_front (Source.Script.withoutComment text) back
    rwa [← show text = Source.Script.withoutComment text ++ back from whole] at front
  target := by
    obtain ⟨back, whole⟩ := Document.front_withoutTitle text
    have front := Text.slice?_front (Document.withoutTitle text) back
    rwa [← whole] at front
  imports := by
    rintro form ⟨offset, i⟩ member
    obtain ⟨m, _, found⟩ := List.mem_filterMap.mp member
    obtain ⟨specifier, _, same⟩ := Option.map_eq_some_iff.mp found
    cases same
    exact Text.one_le_lineOf text m.start.offset
  hits := by
    intro pattern hit member
    obtain ⟨⟨number, line⟩, inside, found⟩ := List.mem_filterMap.mp member
    obtain ⟨⟨line', i⟩, own, same⟩ := List.mem_map.mp (List.mem_of_mem_filter inside)
    obtain ⟨m, _, rfl⟩ := Option.map_eq_some_iff.mp found
    cases same
    have below := List.snd_lt_of_mem_zipIdx own
    dsimp only at below ⊢
    omega

/-- Every check gives its own result on every repository: it cuts, looks up and counts only what is there. -/
theorem registry_faultless (repo : Repository) :
    (∀ check ∈ registry, ∃ violations, check.find repo = .ok violations ∧
      run repo check = .ofViolations check.name (violations.map Violation.render)) ∧ ∀ text, Supplied text := by
  refine ⟨fun check registered => ?_, supplied⟩
  obtain ⟨violations, own⟩ := exists_find_of_registered registered repo
  exact ⟨violations, own, by rw [run, own]⟩

end Check

end Conformance
