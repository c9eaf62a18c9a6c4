import Conformance.Proofs.FileSystem.Edits
import Conformance.Proofs.Layout.Spelling
import Mathlib.Data.List.Forall2

namespace Conformance

/-- The second tree is the first one with more entries under names that were free, and with text behind that of files. -/
inductive Node.Grows : Node → Node → Prop
  | file (content : ByteArray) (more : List Char) : Grows (.file content) (.file (content ++ (String.ofList more).toUTF8))
  | link (target : String) : Grows (.link target) (.link target)
  | empty : Grows (.dir []) (.dir [])
  | keep {name : String} {old new : Node} {entries others : List (String × Node)} (own : Grows old new)
      (rest : Grows (.dir entries) (.dir others)) : Grows (.dir ((name, old) :: entries)) (.dir ((name, new) :: others))
  | add {name : String} {new : Node} {entries others : List (String × Node)} (free : entries.lookup name = none)
      (rest : Grows (.dir entries) (.dir others)) : Grows (.dir entries) (.dir ((name, new) :: others))

namespace Node

variable {old new : Node} {entries : List (String × Node)} {name : String}

theorem Grows.dir (grows : Grows (.dir entries) new) : ∃ others, new = .dir others := by
  cases grows <;> exact ⟨_, rfl⟩

theorem Grows.isFile_eq (grows : Grows old new) : new.isFile = old.isFile := by
  cases grows <;> rfl

/-- An entry of a tree is there under its name when the tree has grown. -/
theorem Grows.child? {child : Node} (grows : Grows old new) (held : old.child? name = some child) :
    ∃ grown, new.child? name = some grown ∧ Grows child grown := by
  induction grows with
  | file | link | empty => cases held
  | @keep other own own' entries others inner rest _ ih =>
    rw [Node.child?, List.lookup_cons] at held ⊢
    cases same : name == other with
    | true =>
      rw [same] at held
      cases held
      exact ⟨own', rfl, inner⟩
    | false =>
      rw [same] at held
      exact ih held
  | @add other _ entries others free rest ih =>
    have apart : (name == other) = false := by
      refine beq_eq_false_iff_ne.mpr ?_
      rintro rfl
      rw [Node.child?, free] at held
      cases held
    rw [Node.child?, List.lookup_cons, apart]
    exact ih held

theorem Grows.refl (node : Node) : Grows node node := by
  match node with
  | .file content =>
    have grown := Grows.file content []
    rwa [show (String.ofList []).toUTF8 = .empty from rfl, ByteArray.append_empty] at grown
  | .link target => exact .link target
  | .dir [] => exact .empty
  | .dir ((name, first) :: rest) => exact .keep (.refl first) (.refl (.dir rest))

theorem Grows.trans {middle : Node} (first : Grows old middle) (second : Grows middle new) : Grows old new := by
  induction second generalizing old with
  | file content more =>
    cases first with
    | file content' more' =>
      have bytes : (String.ofList (more' ++ more)).toUTF8 = (String.ofList more').toUTF8 ++ (String.ofList more).toUTF8 := by
        rw [String.ofList_append]
        exact String.toByteArray_append ..
      have grown := Grows.file content' (more' ++ more)
      rwa [bytes, ← ByteArray.append_assoc] at grown
  | link target | empty => exact first
  | @keep name held new' entries others own rest ihOwn ihRest =>
    cases first with
    | keep own' rest' => exact .keep (ihOwn own') (ihRest rest')
    | add free rest' => exact .add free (ihRest rest')
  | @add name new' entries others free rest ih =>
    obtain ⟨entries', rfl⟩ : ∃ entries', old = .dir entries' := by
      cases first <;> exact ⟨_, rfl⟩
    refine .add ?_ (ih first)
    cases held : entries'.lookup name with
    | none => rfl
    | some child =>
      obtain ⟨_, listed, _⟩ := first.child? held
      cases free.symm.trans listed

theorem lookup_eq_none_of_lt {other : String} {first : Node} (ordered : Ordered ((other, first) :: entries))
    (below : name < other) : ((other, first) :: entries).lookup name = none := by
  cases held : ((other, first) :: entries).lookup name with
  | none => rfl
  | some node =>
    rcases List.mem_cons.mp ((lookup_eq_some_iff ordered).mp held) with same | later
    · cases same
      exact absurd below (String.lt_irrefl _)
    · have above : other < name := (List.pairwise_cons.mp ordered).1 name (List.mem_map.mpr ⟨_, later, rfl⟩)
      exact absurd (String.lt_trans below above) (String.lt_irrefl _)

/-- A directory grows by an entry under a free name, or by what its entry grows to. -/
theorem grows_putEntry {node : Node} (ordered : Ordered entries)
    (growing : ∀ held, entries.lookup name = some held → Grows held node) :
    Grows (.dir entries) (.dir (putEntry name node entries)) := by
  induction entries with
  | nil => exact .add rfl .empty
  | cons e rest ih =>
    obtain ⟨other, first⟩ := e
    rw [putEntry]
    split
    · rename_i below
      exact .add (lookup_eq_none_of_lt ordered below) (.refl _)
    · split
      · rename_i same
        subst same
        exact .keep (growing first (by simp)) (.refl _)
      · rename_i apart
        refine .keep (.refl first) (ih (List.pairwise_cons.mp ordered).2 fun held listed => growing held ?_)
        rwa [List.lookup_cons, beq_eq_false_iff_ne.mpr apart]

theorem grows_changeDir? {f : List (String × Node) → List (String × Node)} {place : List String}
    (wellFormed : old.WellFormed) (changed : old.changeDir? f place = some new)
    (growing : ∀ entries, old.at? place = some (.dir entries) → Grows (.dir entries) (.dir (f entries))) : Grows old new := by
  induction place generalizing old new with
  | nil =>
    cases old with
    | dir entries =>
      cases changed
      exact growing entries rfl
    | file _ | link _ => cases changed
  | cons name place ih =>
    cases old with
    | dir entries =>
      simp only [changeDir?, Option.bind_eq_bind, Option.bind_eq_some_iff] at changed
      obtain ⟨child, listed, child', inner, whole⟩ := changed
      obtain rfl : dir (putEntry name child' entries) = new := Option.some.inj whole
      refine grows_putEntry wellFormed.ordered fun held own => ?_
      obtain rfl : child = held := Option.some.inj (listed.symm.trans own)
      refine ih (wellFormed.child listed).2 inner fun inside found => growing inside ?_
      rw [at?, child?, listed]
      exact found
    | file _ | link _ => cases changed

end Node

/-- The nodes of the second way are those of the first, grown. -/
structure Trail.Grows (t grown : Trail) : Prop where
  root : t.root.Grows grown.root
  passed : List.Forall₂ (fun a b => a.1 = b.1 ∧ a.2.Grows b.2) t.passed grown.passed

namespace Trail.Grows

variable {t grown : Trail}

theorem node (grows : t.Grows grown) : t.node.Grows grown.node := by
  obtain ⟨root, passed⟩ := t
  obtain ⟨root', passed'⟩ := grown
  obtain ⟨first, rest⟩ := grows
  cases rest with
  | nil => exact first
  | cons last _ => exact last.2

theorem enter {name : String} {old new : Node} (grows : t.Grows grown) (own : old.Grows new) :
    (t.enter name old).Grows (grown.enter name new) :=
  ⟨grows.root, .cons ⟨rfl, own⟩ grows.passed⟩

theorem up (grows : t.Grows grown) : t.up.Grows grown.up := by
  refine ⟨grows.root, ?_⟩
  obtain ⟨root, passed⟩ := t
  obtain ⟨root', passed'⟩ := grown
  obtain ⟨_, rest⟩ := grows
  cases rest with
  | nil => exact .nil
  | cons _ above => exact above

theorem start (grows : t.Grows grown) : t.start.Grows grown.start :=
  ⟨grows.root, .nil⟩

end Trail.Grows

structure FileSystem.Grows (fs grown : FileSystem) : Prop where
  root : fs.root.Grows grown.root
  workingDir : grown.workingDir = fs.workingDir

namespace FileSystem

/-- A step that arrives or meets a link does so along the grown way. What did not lead on may do so now. -/
inductive Step.Grows : Step → Step → Prop
  | arrived {t grown : Trail} (grows : t.Grows grown) : Grows (.arrived t) (.arrived grown)
  | redirected {t grown : Trail} (grows : t.Grows grown) (segments : List String) :
      Grows (.redirected t segments) (.redirected grown segments)
  | vacant (t : Trail) (name : String) (other : Step) : Grows (.vacant t name) other
  | missing (other : Step) : Grows .missing other

variable {t grown : Trail} {segments : List String}

theorem Step.Grows.of_arrived {step : Step} (grows : (Step.arrived t).Grows step) :
    ∃ t', step = .arrived t' ∧ t.Grows t' := by
  cases grows with
  | arrived inner => exact ⟨_, rfl, inner⟩

theorem Step.Grows.of_redirected {step : Step} (grows : (Step.redirected t segments).Grows step) :
    ∃ t', step = .redirected t' segments ∧ t.Grows t' := by
  cases grows with
  | redirected inner _ => exact ⟨_, rfl, inner⟩

theorem advance_grows (grows : t.Grows grown) (segments : List String) :
    (advance t segments).Grows (advance grown segments) := by
  induction segments generalizing t grown with
  | nil => exact .arrived grows
  | cons segment rest ih =>
    have here := grows.node
    cases own : t.node with
    | file _ | link _ =>
      rw [advance, own]
      exact .missing _
    | dir entries =>
      obtain ⟨others, own'⟩ := (own ▸ here).dir
      rw [own, own'] at here
      rw [advance, own, advance, own']
      dsimp only
      split
      · exact ih grows
      · split
        · exact ih grows.up
        · cases listed : entries.lookup segment with
          | none =>
            dsimp only
            split
            · exact .vacant _ _ _
            · exact .missing _
          | some child =>
            have held : (Node.dir entries).child? segment = some child := listed
            obtain ⟨child', held', inner⟩ := here.child? held
            have listed' : others.lookup segment = some child' := held'
            rw [listed']
            cases inner with
            | link target =>
              dsimp only
              split
              · exact .redirected grows.start _
              · exact .redirected grows _
            | file content more => exact ih (grows.enter (.file content more))
            | empty => exact ih (grows.enter .empty)
            | keep own rest => exact ih (grows.enter (.keep own rest))
            | add free rest => exact ih (grows.enter (.add free rest))

theorem follow_grows {links : Nat} {t grown last : Trail} {segments : List String} (grows : t.Grows grown)
    (found : follow links t segments = .found last) :
    ∃ last', follow links grown segments = .found last' ∧ last.Grows last' := by
  have step := advance_grows grows segments
  unfold follow at found ⊢
  cases ahead : advance t segments with
  | arrived reached =>
    rw [ahead] at step found
    cases found
    obtain ⟨last', arrived, inner⟩ := step.of_arrived
    exact ⟨last', by rw [arrived], inner⟩
  | redirected next more =>
    rw [ahead] at step found
    obtain ⟨next', redirected, inner⟩ := step.of_redirected
    rw [redirected]
    cases links with
    | zero => cases found
    | succ links => exact follow_grows inner found
  | vacant _ _ | missing =>
    rw [ahead] at found
    cases found
termination_by links

/-- A name that segments end in leads to an entry of the directory that the other segments lead to. -/
theorem exists_follow_front {links : Nat} {t last : Trail} {front : List String} {name : String}
    (visible : Path.isVoid name = false) (down : name ≠ "..") (found : follow links t (front ++ [name]) = .found last) :
    ∃ middle node, follow links t front = .found middle ∧ middle.node.child? name = some node := by
  unfold follow at found ⊢
  rw [advance_append] at found
  cases step : advance t front with
  | arrived middle =>
    refine ⟨middle, ?_⟩
    rw [step, Step.onward, advance] at found
    cases own : middle.node with
    | dir entries =>
      have entered : (name = "" || name = ".") = false := visible
      cases listed : entries.lookup name with
      | none => simp [own, entered, down, listed] at found
      | some node => exact ⟨node, rfl, listed⟩
    | file _ | link _ => simp [own] at found
  | vacant _ _ | missing => simp [step, Step.onward] at found
  | redirected next rest =>
    rw [step, Step.onward] at found
    cases links with
    | zero => cases found
    | succ links => exact exists_follow_front visible down found
termination_by links

section Holder

variable {fs : FileSystem} {p : Path} {front : List String} {last : String} {node : Node}

theorem holder?_of_up (cut : p.segments = front ++ [".."]) : fs.holder? p = none := by
  simp [holder?, cut]

theorem holder?_of_reachAlong (cut : p.segments = front ++ [last]) (visible : Path.isVoid last = false)
    (down : last ≠ "..") (reached : fs.reachAlong p front = .found t) (listed : t.node.child? last = some node) :
    fs.holder? p = some (t, last) := by
  have entered : last ≠ "" ∧ last ≠ "." := by simpa [Path.isVoid] using visible
  have isDir : t.node.isDir = true := by
    cases own : t.node with
    | dir entries => rfl
    | file _ | link _ =>
      rw [own] at listed
      cases listed
  simp [holder?, cut, entered, down, reached, isDir]

end Holder

theorem toUTF8_of_fromUTF8? {bytes : ByteArray} {text : String} (decoded : String.fromUTF8? bytes = some text) :
    text.toUTF8 = bytes := by
  unfold String.fromUTF8? at decoded
  split at decoded
  · cases decoded
    rfl
  · cases decoded

theorem textOf_grows {old new : Node} {text : List Char} (grows : old.Grows new) (decoded : textOf old = .ok text) :
    ∃ more, textOf new = .ok (text ++ more) := by
  cases grows with
  | file content more =>
    refine ⟨more, ?_⟩
    cases own : String.fromUTF8? content with
    | none => simp [textOf, own] at decoded
    | some s =>
      rw [textOf, own] at decoded
      obtain rfl : s.toList = text := Except.ok.inj decoded
      have bytes : content ++ (String.ofList more).toUTF8 = (s ++ String.ofList more).toUTF8 := by
        rw [← toUTF8_of_fromUTF8? own]
        exact (String.toByteArray_append ..).symm
      rw [bytes, textOf_toUTF8, String.toList_append, String.toList_ofList]
  | link | empty | keep | add => cases decoded

namespace Grows

variable {fs other : FileSystem} {p : Path}

theorem origin (grows : fs.Grows other) (p : Path) : other.origin p = fs.origin p := by
  rw [FileSystem.origin, FileSystem.origin, grows.workingDir]

theorem reachAlong (grows : fs.Grows other) {segments : List String} (found : fs.reachAlong p segments = .found t) :
    ∃ t', other.reachAlong p segments = .found t' ∧ t.Grows t' := by
  rw [FileSystem.reachAlong] at found ⊢
  split at found
  · rename_i usable
    rw [if_pos usable, grows.origin]
    exact follow_grows ⟨grows.root, .nil⟩ found
  · cases found

theorem node? {node : Node} (grows : fs.Grows other) (leads : fs.node? p = some node) :
    ∃ node', other.node? p = some node' ∧ node.Grows node' := by
  rw [FileSystem.node?] at leads
  cases found : fs.reach p with
  | found t =>
    rw [found] at leads
    cases leads
    obtain ⟨t', found', inner⟩ := grows.reachAlong found
    refine ⟨t'.node, ?_, inner.node⟩
    rw [FileSystem.node?, reach, found']
  | vacant _ _ | nowhere =>
    rw [found] at leads
    cases leads

theorem isFile (grows : fs.Grows other) (held : fs.isFile p = true) : other.isFile p = true := by
  rw [FileSystem.isFile] at held ⊢
  cases leads : fs.node? p with
  | none => simp [leads] at held
  | some node =>
    obtain ⟨node', leads', inner⟩ := grows.node? leads
    rw [leads] at held
    rw [leads', Option.any_some, inner.isFile_eq]
    exact held

theorem ownNode? {node : Node} (grows : fs.Grows other) (leads : fs.node? p = some node) :
    ∃ own own', fs.ownNode? p = some own ∧ other.ownNode? p = some own' ∧ own.Grows own' := by
  obtain ⟨node', leads', inner⟩ := grows.node? leads
  have whole : ∃ own own', fs.node? p = some own ∧ other.node? p = some own' ∧ own.Grows own' :=
    ⟨node, node', leads, leads', inner⟩
  obtain ⟨front, last, cut⟩ := (List.eq_nil_or_concat' p.segments).resolve_left p.segments_ne_nil
  simp only [FileSystem.ownNode?]
  cases directory : asksDirectory p with
  | true => exact whole
  | false =>
    have visible : Path.isVoid last = false := by simpa [asksDirectory, cut] using directory
    by_cases up : last = ".."
    · rw [holder?_of_up (cut.trans (by rw [up])), holder?_of_up (cut.trans (by rw [up]))]
      exact whole
    · obtain ⟨_, nonempty, room, _, way⟩ := reach_of_node? leads
      rw [cut, ← List.append_assoc] at way
      obtain ⟨middle, own, before, listed⟩ := exists_follow_front visible up way
      have reached : fs.reachAlong p front = .found middle := by
        simp [FileSystem.reachAlong, nonempty, room, before]
      obtain ⟨middle', reached', passed⟩ := grows.reachAlong reached
      obtain ⟨own', listed', inner'⟩ := passed.node.child? listed
      rw [holder?_of_reachAlong cut visible up reached listed, holder?_of_reachAlong cut visible up reached' listed']
      exact ⟨own, own', listed, listed', inner'⟩

theorem isLink_eq {node : Node} (grows : fs.Grows other) (leads : fs.node? p = some node) :
    other.isLink p = fs.isLink p := by
  obtain ⟨own, own', held, held', inner⟩ := grows.ownNode? leads
  rw [FileSystem.isLink, FileSystem.isLink, held, held']
  cases inner <;> rfl

theorem read {text : List Char} (grows : fs.Grows other) (decoded : fs.read p = .ok text) :
    ∃ more, other.read p = .ok (text ++ more) := by
  cases leads : fs.node? p with
  | none =>
    rw [FileSystem.read, leads] at decoded
    cases decoded
  | some node =>
    obtain ⟨node', leads', inner⟩ := grows.node? leads
    rw [read_of_node? leads] at decoded
    rw [read_of_node? leads']
    exact textOf_grows inner decoded

end Grows

section Puts

/-- What may be put somewhere so that the tree grows: a well-formed node, where nothing is or in place of what it grows
from. -/
def Extends (old : Option Node) (new : Node) : Prop :=
  new.WellFormed ∧ ∀ held, old = some held → held.Grows new

variable {fs other : FileSystem}

theorem Grows.refl (fs : FileSystem) : fs.Grows fs :=
  ⟨.refl _, rfl⟩

theorem Grows.trans {last : FileSystem} (first : fs.Grows other) (second : other.Grows last) : fs.Grows last :=
  ⟨first.root.trans second.root, second.workingDir.trans first.workingDir⟩

theorem grows_putAt {t : Trail} {name : String} {node : Node} (wellFormed : fs.root.WellFormed)
    (sound : t.IsSound) (own : t.root = fs.root) (growing : ∀ held, t.node.child? name = some held → held.Grows node) :
    fs.Grows (fs.putAt t name node).files := by
  rw [putAt]
  split
  · rw [changeAt]
    split
    · rename_i root changed
      refine ⟨Node.grows_changeDir? wellFormed changed fun entries found => ?_, rfl⟩
      have there : t.node = .dir entries := by
        rw [← own, sound.at?_place] at found
        exact Option.some.inj found
      have inner : (Node.dir entries).WellFormed := wellFormed.at? found
      exact Node.grows_putEntry inner.ordered fun held listed => growing held (by rw [there]; exact listed)
    · exact .refl fs
  · exact .refl fs

theorem grows_of_puts (wellFormed : fs.root.WellFormed) (puts : Relation.ReflTransGen (Puts Extends) fs other) :
    fs.Grows other := by
  induction puts with
  | refl => exact .refl fs
  | @tail middle last before step ih =>
    have kept : middle.root.WellFormed := by
      have each : ∀ fs other, Puts Extends fs other → Puts (fun _ new => new.WellFormed) fs other := by
        rintro _ _ ⟨sound, own, named, inner, _⟩
        exact .at_ sound own named inner
      exact wellFormed_of_puts (Relation.ReflTransGen.mono each fs middle before) wellFormed
    obtain ⟨sound, own, _, _, growing⟩ := step
    exact ih.trans (grows_putAt kept sound own growing)

/-- The content overwrites nothing: a file that is there keeps its text, with more behind it. -/
def Adds (fs : FileSystem) (p : Path) (content : Option Content) : Prop :=
  ∀ bytes, content = some (.file bytes) → ∀ old, (fs.makeParents p).files.node? p = some (.file old) →
    ∃ more : List Char, bytes = old ++ (String.ofList more).toUTF8

theorem grows_put {p : Path} {content : Option Content} (wellFormed : fs.root.WellFormed) (adds : fs.Adds p content) :
    fs.Grows (fs.put p content).files := by
  refine grows_of_puts wellFormed (puts_put ⟨by decide, by simp⟩ ?_)
  match content with
  | some (.file bytes) =>
    refine ⟨⟨.file bytes, by simp⟩, fun old leads => ⟨.file bytes, ?_⟩⟩
    obtain ⟨more, rfl⟩ := adds bytes rfl old leads
    rintro _ ⟨⟩
    exact .file old more
  | some (.link target) => exact ⟨.link target, by simp⟩
  | some .dir | none => trivial

end Puts

section Walks

variable {rules : WalkRules} {old new : Node}

def visitInside (rules : WalkRules) (base : Path) : Node → List Visit
  | .dir entries => visitEntries rules base entries
  | _ => []

theorem visitEntry_sublist (grows : old.Grows new) (base : Path) (name : String)
    (inner : ∀ base, (visitInside rules base old).Sublist (visitInside rules base new)) :
    (visitEntry rules base name old).Sublist (visitEntry rules base name new) := by
  have within : ∀ {entries others : List (String × Node)}, old = .dir entries → new = .dir others →
      (visitEntry rules base name old).Sublist (visitEntry rules base name new) := by
    rintro entries others rfl rfl
    rw [visitEntry, visitEntry]
    split
    · refine .cons_cons _ ?_
      split
      · exact inner (base / name)
      · exact .slnil
    · exact .slnil
  cases grows with
  | file | link => exact List.Sublist.refl _
  | empty | keep | add => exact within rfl rfl

theorem visitInside_sublist (grows : old.Grows new) (base : Path) :
    (visitInside rules base old).Sublist (visitInside rules base new) := by
  induction grows generalizing base with
  | file | link | empty => exact List.Sublist.refl _
  | keep own rest ihOwn ihRest => exact (visitEntry_sublist own base _ ihOwn).append (ihRest base)
  | add free rest ih => exact (ih base).trans (List.sublist_append_right _ _)

variable {fs other : FileSystem}

theorem visitBelow_eq (fs : FileSystem) (rules : WalkRules) (start : Path) :
    fs.visitBelow rules start = (fs.node? start).elim [] (visitInside rules start) := by
  rw [visitBelow]
  cases fs.node? start with
  | none => rfl
  | some node => cases node <;> rfl

theorem Grows.visitBelow (grows : fs.Grows other) (rules : WalkRules) (start : Path) :
    (fs.visitBelow rules start).Sublist (other.visitBelow rules start) := by
  rw [visitBelow_eq, visitBelow_eq]
  cases leads : fs.node? start with
  | none => exact List.nil_sublist _
  | some node =>
    obtain ⟨node', leads', inner⟩ := grows.node? leads
    rw [leads']
    exact visitInside_sublist inner start

theorem Grows.visitStart (grows : fs.Grows other) (start : Path) :
    (fs.visitStart start).Sublist (other.visitStart start) := by
  rw [FileSystem.visitStart]
  split
  · rename_i collected
    obtain ⟨held, own⟩ := Bool.and_eq_true_iff.mp collected
    have collected' : (other.isFile start && !other.isLink start) = true := by
      cases leads : fs.node? start with
      | none => simp [FileSystem.isFile, leads] at held
      | some node => rw [grows.isFile held, grows.isLink_eq leads, own, Bool.and_self]
    rw [FileSystem.visitStart, if_pos collected']
  · exact List.nil_sublist _

theorem Grows.collectFiles (grows : fs.Grows other) (rules : WalkRules) (accepts : String → Bool) (start : Path) :
    (fs.collectFiles rules accepts start).Sublist (other.collectFiles rules accepts start) :=
  (((grows.visitStart start).append (grows.visitBelow rules start)).filter _).map _

end Walks

end FileSystem

end Conformance
