import Conformance.Check.Basic
import Conformance.Proofs.FileSystem.Visits
import Conformance.Proofs.Path.Resolution

namespace Conformance

namespace FileSystem

open Path

/-- The path is accepted as a root, and leads to the end of the way without passing a link. -/
structure Spells (fs : FileSystem) (root : Path) (t : Trail) : Prop where
  accepted : Layout.explicit fs root = .ok (.ofRoot root)
  direct : advance ⟨fs.root, []⟩ (fs.origin root ++ root.segments) = .arrived t

def nodeAlong (t : Trail) (names : List String) : Option Node :=
  match follow linkLimit t names with
  | .found last => some last.node
  | _ => none

/-- The spelling leaves room: no path below the root that leads to something is too long. -/
def Roomy (root : Path) (t : Trail) : Prop :=
  ∀ names, (∀ name ∈ names, IsName name) → (nodeAlong t names).isSome = true → fits (root.below names) = true

theorem follow_of_arrived (links : Nat) {t middle : Trail} {front : List String}
    (arrived : advance t front = .arrived middle) (back : List String) :
    follow links t (front ++ back) = follow links middle back := by
  have same : advance t (front ++ back) = advance middle back := by
    rw [advance_append, arrived, Step.onward]
  unfold follow
  rw [same]

theorem advance_of_advance_slash {t last : Trail} {front : List String}
    (arrived : advance t (front ++ [""]) = .arrived last) : advance t front = .arrived last := by
  rw [advance_append] at arrived
  cases step : advance t front with
  | arrived middle =>
    simp only [step, Step.onward, advance_slash] at arrived
    split at arrived <;> simp_all
  | vacant _ _ => simp [step, Step.onward] at arrived
  | missing => simp [step, Step.onward] at arrived
  | redirected _ _ => simp [step, Step.onward] at arrived

namespace Spells

variable {fs : FileSystem} {root : Path} {t : Trail}

theorem node? (h : fs.Spells root t) : root.raw ≠ "" ∧ fits root = true ∧ fs.node? root = some t.node ∧
    t.node.isDir = true := by
  have isDir : fs.isDir root = true := by
    have accepted := h.accepted
    unfold Layout.explicit at accepted
    split at accepted
    · assumption
    · cases accepted
  obtain ⟨node, leads, dir⟩ : ∃ node, fs.node? root = some node ∧ node.isDir = true := by
    simpa [FileSystem.isDir, Option.any_eq_true] using isDir
  obtain ⟨t', nonempty, room, reached, found⟩ := reach_of_node? leads
  have direct := h.direct
  unfold follow at found
  rw [direct] at found
  cases found
  exact ⟨nonempty, room, reached ▸ leads, reached ▸ dir⟩

theorem raw_ne_empty (h : fs.Spells root t) : root.raw ≠ "" := h.node?.1

/-- Below the root, names lead where they lead from the end of the way, whatever the spelling is. -/
theorem node?_below (h : fs.Spells root t) (roomy : Roomy root t) {names : List String}
    (proper : ∀ name ∈ names, IsName name) : fs.node? (root.below names) = nodeAlong t names := by
  by_cases none : names = []
  · subst none
    have stays : nodeAlong t [] = some t.node := by
      unfold nodeAlong follow
      rfl
    rw [stays]
    exact h.node?.2.2.1
  · obtain ⟨front, joined, own⟩ := segments_below h.raw_ne_empty none proper
    have arrived : advance ⟨fs.root, []⟩ (fs.origin root ++ front) = .arrived t := by
      have direct := h.direct
      rcases own with own | own
      · exact own ▸ direct
      · rw [own, ← List.append_assoc] at direct
        exact advance_of_advance_slash direct
    have way := follow_of_arrived linkLimit arrived names
    rw [List.append_assoc, ← joined, ← origin_below h.raw_ne_empty proper] at way
    have nonempty := raw_below_ne_empty h.raw_ne_empty proper
    by_cases room : fits (root.below names) = true
    · have reached : fs.reach (root.below names) = follow linkLimit t names := by
        simp [reach, reachAlong, nonempty, room, way]
      unfold FileSystem.node? nodeAlong
      cases found : follow linkLimit t names <;> simp only [reached, found]
    · have nowhere : (nodeAlong t names).isSome ≠ true := fun found => room (roomy names proper found)
      have nothing : nodeAlong t names = Option.none := by simpa using nowhere
      rw [nothing]
      simp [FileSystem.node?, reach, reachAlong, room]

end Spells

def textOf : Node → Except ReadError (List Char)
  | .file content =>
    match String.fromUTF8? content with
    | some text => .ok text.toList
    | none => .error .notUtf8
  | .dir _ => .error .isDirectory
  | .link _ => .error .notFound

theorem fromUTF8?_toUTF8 (text : String) : String.fromUTF8? text.toUTF8 = some text := by
  simp [String.fromUTF8?, String.fromUTF8, text.isValidUTF8]

theorem textOf_toUTF8 (text : String) : textOf (.file text.toUTF8) = .ok text.toList := by
  simp only [textOf, fromUTF8?_toUTF8]

theorem read_of_node? {fs : FileSystem} {p : Path} {node : Node} (leads : fs.node? p = some node) :
    fs.read p = textOf node := by
  obtain ⟨_, _, room, _, _⟩ := reach_of_node? leads
  unfold read
  rw [leads]
  cases node with
  | file content => cases decoded : String.fromUTF8? content <;> simp [textOf, decoded]
  | dir entries => rfl
  | link target => simp [textOf, room]

theorem isFile_of_read {fs : FileSystem} {p : Path} {text : List Char} (decoded : fs.read p = .ok text) :
    fs.isFile p = true := by
  rw [read] at decoded
  rw [isFile]
  cases leads : fs.node? p with
  | none => simp [leads] at decoded
  | some node =>
    cases node with
    | file content => rfl
    | dir _ | link _ => simp [leads] at decoded

theorem read_of_toUTF8 {fs : FileSystem} {p : Path} {text : String} (leads : fs.node? p = some (.file text.toUTF8)) :
    fs.read p = .ok text.toList := by
  rw [read_of_node? leads, textOf_toUTF8]

/-- Lexically, segments lead where they lead through directories. -/
theorem landing_of_advance {t last : Trail} {segments : List String}
    (arrived : advance t segments = .arrived last) :
    landing t.place (segments.filterMap Component.ofSegment?) = last.place := by
  induction segments generalizing t with
  | nil =>
    cases arrived
    rfl
  | cons segment rest ih =>
    unfold advance at arrived
    split at arrived
    · split at arrived
      · rename_i void
        have nothing : Component.ofSegment? segment = none := by simp_all [Component.ofSegment?]
        rw [List.filterMap_cons, nothing]
        exact ih arrived
      · rename_i solid
        split at arrived
        · rename_i up
          have above : t.up.place = t.place.dropLast := by simp [Trail.place, Trail.up, List.dropLast_reverse]
          have stands : Component.ofSegment? segment = some .up := by simp_all [Component.ofSegment?]
          rw [List.filterMap_cons, stands, landing_cons, placeAfter, ← above]
          exact ih arrived
        · rename_i down
          have stands : Component.ofSegment? segment = some (.name segment) := by simp_all [Component.ofSegment?]
          split at arrived
          · split at arrived <;> cases arrived
          · cases arrived
          · rename_i node _ _
            have below : (t.enter segment node).place = t.place ++ [segment] := by simp [Trail.place, Trail.enter]
            rw [List.filterMap_cons, stands, landing_cons, placeAfter, ← below]
            exact ih arrived
    · cases arrived

namespace Spells

variable {fs : FileSystem} {root : Path} {t : Trail}

theorem landing_absolute (h : fs.Spells root t) (absolute : root.isAbsolute = true) :
    landing [] root.components = t.place := by
  have leads := landing_of_advance h.direct
  simp only [origin, absolute, if_true, List.nil_append] at leads
  rw [landing_components root fun _ => rfl]
  exact leads

theorem landing_relative (h : fs.Spells root t) (relative : root.isAbsolute = false)
    (proper : ∀ name ∈ fs.workingDir, IsName name) : landing fs.workingDir root.components = t.place := by
  have leads := landing_of_advance h.direct
  simp only [origin, relative, Bool.false_eq_true, if_false, List.filterMap_append,
    filterMap_ofSegment?_of_isName proper, landing_append, landing_names] at leads
  rw [landing_components root (by simp [relative])]
  exact leads

end Spells

end FileSystem

end Conformance
