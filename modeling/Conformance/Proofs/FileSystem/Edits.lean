import Conformance.FileSystem.Mount
import Conformance.Proofs.FileSystem.Visits
import Mathlib.Logic.Relation

namespace Conformance

namespace Node

variable {name : String} {node : Node} {entries : List (String × Node)}

theorem mem_putEntry {e : String × Node} (member : e ∈ putEntry name node entries) : e = (name, node) ∨ e ∈ entries := by
  fun_induction putEntry name node entries with
  | case1 => exact Or.inl (List.mem_singleton.mp member)
  | case2 other old rest below => exact List.mem_cons.mp member
  | case3 old rest => exact (List.mem_cons.mp member).imp_right (List.mem_cons_of_mem _)
  | case4 other old rest notBelow differs ih =>
    rcases List.mem_cons.mp member with rfl | later
    · exact Or.inr List.mem_cons_self
    · exact (ih later).imp_right (List.mem_cons_of_mem _)

theorem ordered_putEntry (ordered : Ordered entries) : Ordered (putEntry name node entries) := by
  fun_induction putEntry name node entries with
  | case1 => exact List.pairwise_singleton _ _
  | case2 other old rest below =>
    refine List.pairwise_cons.mpr ⟨fun x listed => ?_, ordered⟩
    rcases List.mem_cons.mp listed with rfl | later
    · exact below
    · exact String.lt_trans below ((List.pairwise_cons.mp ordered).1 x later)
  | case3 old rest => exact ordered
  | case4 other old rest notBelow differs ih =>
    obtain ⟨first, ordered⟩ := List.pairwise_cons.mp ordered
    have above : other < name := by
      by_contra notAbove
      exact differs (String.le_antisymm notAbove notBelow)
    refine List.pairwise_cons.mpr ⟨fun x listed => ?_, ih ordered⟩
    obtain ⟨e, member, rfl⟩ := List.mem_map.mp listed
    rcases mem_putEntry member with rfl | member
    · exact above
    · exact first e.1 (List.mem_map_of_mem member)

theorem wellFormed_putEntry (wellFormed : (dir entries).WellFormed) (proper : Path.IsName name) (inner : node.WellFormed) :
    (dir (putEntry name node entries)).WellFormed := by
  rcases wellFormed with _ | _ | ⟨ordered, named, each⟩
  refine .dir (ordered_putEntry ordered) (fun e member => ?_) (fun e member => ?_)
  · rcases mem_putEntry member with rfl | member
    · exact proper
    · exact named e member
  · rcases mem_putEntry member with rfl | member
    · exact inner
    · exact each e member

theorem wellFormed_dropEntry (wellFormed : (dir entries).WellFormed) (name : String) :
    (dir (dropEntry name entries)).WellFormed := by
  rcases wellFormed with _ | _ | ⟨ordered, named, each⟩
  have within : (dropEntry name entries).Sublist entries := List.filter_sublist
  exact .dir (ordered.sublist (within.map Prod.fst)) (fun e member => named e (within.subset member))
    (fun e member => each e (within.subset member))

/-- A tree stays well-formed when one of its directories is changed and does. -/
theorem wellFormed_changeDir? {f : List (String × Node) → List (String × Node)} {old new : Node} {place : List String}
    (wellFormed : old.WellFormed) (changed : old.changeDir? f place = some new)
    (keeps : ∀ entries, (dir entries).WellFormed → (dir (f entries)).WellFormed) : new.WellFormed := by
  induction place generalizing old new with
  | nil =>
    cases old with
    | dir entries =>
      cases changed
      exact keeps entries wellFormed
    | file _ | link _ => cases changed
  | cons name place ih =>
    cases old with
    | dir entries =>
      simp only [changeDir?, Option.bind_eq_bind, Option.bind_eq_some_iff] at changed
      obtain ⟨child, listed, child', inner, whole⟩ := changed
      obtain rfl : dir (putEntry name child' entries) = new := Option.some.inj whole
      obtain ⟨proper, below⟩ := wellFormed.child listed
      exact wellFormed_putEntry wellFormed proper (ih below inner)
    | file _ | link _ => cases changed

end Node

theorem Trail.IsSound.child?_up {t : Trail} (sound : t.IsSound) {name : String} {node : Node} {above : List (String × Node)}
    (passed : t.passed = (name, node) :: above) : t.up.node.child? name = some node := by
  cases sound with
  | root n => cases passed
  | @enter before name' node' inner child =>
    obtain ⟨rfl, rfl⟩ : name' = name ∧ node' = node := by simpa [Trail.enter] using (List.cons.inj passed).1
    exact child

namespace FileSystem

open Path

def EndsSlashFree (segments : List String) : Prop :=
  ∀ last ∈ segments.getLast?, '/' ∉ last.toList

theorem endsSlashFree_append_segments (front : List String) (p : Path) : EndsSlashFree (front ++ p.segments) := by
  intro last ends
  rw [List.getLast?_append_of_ne_nil _ p.segments_ne_nil] at ends
  exact slash_not_mem_of_mem_segments (List.mem_of_getLast? ends)

theorem EndsSlashFree.tail {segment : String} {rest : List String} (free : EndsSlashFree (segment :: rest)) :
    EndsSlashFree rest := by
  intro last ends
  exact free last (by rw [List.getLast?_cons, ends]; rfl)

/-- A way ends in a directory of this root which has no entry of this name, and the name is a proper one. -/
structure LeadsToGap (root : Node) (t : Trail) (name : String) : Prop where
  sound : t.IsSound
  root_eq : t.root = root
  proper : IsName name
  free : t.node.child? name = none

theorem leadsToGap_of_advance {t t' : Trail} {segments : List String} {name : String} (sound : t.IsSound)
    (free : EndsSlashFree segments) (ends : advance t segments = .vacant t' name) : LeadsToGap t.root t' name := by
  induction segments generalizing t with
  | nil => cases ends
  | cons segment rest ih =>
    rw [advance] at ends
    split at ends
    · rename_i entries isDir
      split at ends
      · exact ih sound free.tail ends
      · rename_i visible
        split at ends
        · exact ih (t := t.up) sound.up free.tail ends
        · rename_i down
          split at ends
          · rename_i missing
            split at ends
            · rename_i last
              obtain rfl := List.isEmpty_iff.mp last
              obtain ⟨rfl, rfl⟩ : t = t' ∧ segment = name := by simpa using ends
              obtain ⟨nonempty, notHere⟩ : segment ≠ "" ∧ segment ≠ "." := by simpa using visible
              exact ⟨sound, rfl, ⟨nonempty, notHere, down, free segment rfl⟩, by rw [isDir]; exact missing⟩
            · cases ends
          · cases ends
          · rename_i node _ entered
            have child : t.node.child? segment = some node := by rw [isDir]; exact entered
            exact ih (t := t.enter segment node) (sound.enter child) free.tail ends
    · cases ends

theorem endsSlashFree_of_redirected {t next : Trail} {segments more : List String} (free : EndsSlashFree segments)
    (redirected : advance t segments = .redirected next more) : EndsSlashFree more := by
  induction segments generalizing t with
  | nil => cases redirected
  | cons segment rest ih =>
    rw [advance] at redirected
    split at redirected
    · split at redirected
      · exact ih free.tail redirected
      · split at redirected
        · exact ih free.tail redirected
        · split at redirected
          · split at redirected <;> cases redirected
          · rename_i target _
            cases redirected
            rcases List.eq_nil_or_concat rest with rfl | ⟨front, last, rfl⟩
            · rw [List.append_nil]
              exact endsSlashFree_append_segments [] _
            · intro other ends
              refine free other ?_
              rw [List.concat_eq_append] at ends ⊢
              rw [← List.append_assoc, List.getLast?_concat] at ends
              rw [List.getLast?_cons, List.getLast?_concat, ends]
              rfl
          · exact ih free.tail redirected
    · cases redirected

theorem leadsToGap_of_follow {links : Nat} {t t' : Trail} {segments : List String} {name : String} (sound : t.IsSound)
    (free : EndsSlashFree segments) (ends : follow links t segments = .vacant t' name) : LeadsToGap t.root t' name := by
  induction links generalizing t segments with
  | zero =>
    unfold follow at ends
    split at ends
    · cases ends
    · rename_i gap
      cases ends
      exact leadsToGap_of_advance sound free gap
    all_goals cases ends
  | succ links ih =>
    unfold follow at ends
    split at ends
    · cases ends
    · rename_i gap
      cases ends
      exact leadsToGap_of_advance sound free gap
    · cases ends
    · rename_i redirected
      obtain ⟨next, same⟩ := isSound_of_redirected sound redirected
      exact same ▸ ih next (endsSlashFree_of_redirected free redirected) ends

variable {fs : FileSystem} {p : Path} {t : Trail} {name : String}

theorem isSound_of_reachAlong {segments : List String} (found : fs.reachAlong p segments = .found t) :
    t.IsSound ∧ t.root = fs.root := by
  unfold reachAlong at found
  split at found
  · exact isSound_of_follow (Trail.isSound_root fs.root) found
  · cases found

theorem leadsToGap_of_reach (ends : fs.reach p = .vacant t name) : LeadsToGap fs.root t name := by
  unfold reach reachAlong at ends
  split at ends
  · exact leadsToGap_of_follow (Trail.isSound_root fs.root) (endsSlashFree_append_segments _ p) ends
  · cases ends

/-- The directory that holds the last name of a path is at the end of a sound way, and the name is a proper one. -/
theorem holder?_cases (held : fs.holder? p = some (t, name)) : t.IsSound ∧ t.root = fs.root ∧ IsName name := by
  unfold holder? at held
  split at held
  · cases held
  · rename_i last above cut
    split at held
    · cases held
    · rename_i visible
      obtain ⟨notHere, notUp⟩ : last ≠ "." ∧ last ≠ ".." := by simpa using visible
      split at held
      · rename_i reached
        split at held
        · obtain ⟨rfl, rfl⟩ : _ = t ∧ last = name := by simpa using held
          have listed : last ∈ p.segments := by
            have inside : last ∈ p.segments.reverse.dropWhile (· = "") := by rw [cut]; exact List.mem_cons_self
            exact List.mem_reverse.mp ((List.dropWhile_sublist _).subset inside)
          have nonempty : last ≠ "" := by
            have kept := List.head?_dropWhile_not (fun s : String => decide (s = "")) p.segments.reverse
            rw [cut] at kept
            simpa using kept
          obtain ⟨sound, same⟩ := isSound_of_reachAlong reached
          exact ⟨sound, same, nonempty, notHere, notUp, slash_not_mem_of_mem_segments listed⟩
        · cases held
      · cases held

section Puts

/-- One node is put into a directory, under a name that is there or a proper one, in place of what `allows` lets it
replace. -/
inductive Puts (allows : Option Node → Node → Prop) : FileSystem → FileSystem → Prop
  | at_ {fs : FileSystem} {t : Trail} {name : String} {node : Node} (sound : t.IsSound) (own : t.root = fs.root)
      (named : t.node.child? name = none → IsName name) (allowed : allows (t.node.child? name) node) : Puts allows fs (fs.putAt t name node).files

variable {allows : Option Node → Node → Prop} {fs : FileSystem}

open Relation (ReflTransGen)

theorem puts_makeDir (dirs : allows none (.dir [])) (fs : FileSystem) (p : Path) :
    ReflTransGen (Puts allows) fs (fs.makeDir p).files := by
  unfold makeDir
  split
  · rename_i t name held
    obtain ⟨sound, own, proper⟩ := holder?_cases held
    split
    · exact .refl
    · rename_i absent
      have gap : t.node.child? name = none := Option.not_isSome_iff_eq_none.mp absent
      exact .single (.at_ sound own (fun _ => proper) (gap ▸ dirs))
  · exact .refl

theorem puts_andThen {c : Change} {next : FileSystem → Change} (first : ReflTransGen (Puts allows) fs c.files)
    (second : ReflTransGen (Puts allows) c.files (next c.files).files) :
    ReflTransGen (Puts allows) fs (c.andThen next).files := by
  unfold Change.andThen
  split
  · exact first.trans second
  · exact first

theorem puts_makeDirs (dirs : allows none (.dir [])) (fs : FileSystem) (p : Path) :
    ReflTransGen (Puts allows) fs (fs.makeDirs p).files := by
  have each : ∀ (above : List Path) (c : Change), ReflTransGen (Puts allows) fs c.files →
      ReflTransGen (Puts allows) fs (above.foldl (fun c q => c.andThen (·.makeDir q)) c).files := by
    intro above
    induction above with
    | nil => exact fun c first => first
    | cons q above ih => exact fun c first => ih _ (puts_andThen first (puts_makeDir dirs _ q))
  unfold makeDirs
  split
  · exact each _ _ .refl
  · exact .refl

theorem puts_makeParents (dirs : allows none (.dir [])) (fs : FileSystem) (p : Path) :
    ReflTransGen (Puts allows) fs (fs.makeParents p).files := by
  unfold makeParents
  split
  · exact puts_makeDirs dirs fs _
  · exact .refl

def Permits (allows : Option Node → Node → Prop) (fs : FileSystem) (p : Path) : Option Content → Prop
  | some (.file bytes) => allows none (.file bytes) ∧
      ∀ old, (fs.makeParents p).files.node? p = some (.file old) → allows (some (.file old)) (.file bytes)
  | some (.link target) => allows none (.link target)
  | some .dir | none => True

theorem puts_put (dirs : allows none (.dir [])) {p : Path} {content : Option Content} (permits : Permits allows fs p content) :
    ReflTransGen (Puts allows) fs (fs.put p content).files := by
  have parents := puts_makeParents dirs fs p
  match content with
  | some .dir => exact puts_makeDirs dirs fs p
  | none => exact puts_andThen parents .refl
  | some (.link target) =>
    refine puts_andThen parents ?_
    split
    · rename_i t name held
      obtain ⟨sound, own, proper⟩ := holder?_cases held
      split
      · exact .refl
      · rename_i free
        have gap : t.node.child? name = none := by
          simp only [Bool.or_eq_true, not_or, Option.not_isSome_iff_eq_none] at free
          exact free.1.1.2
        exact .single (.at_ sound own (fun _ => proper) (gap ▸ permits))
    · exact .refl
  | some (.file bytes) =>
    refine puts_andThen parents ?_
    split
    · rename_i t found
      split
      · rename_i name old above passed
        obtain ⟨sound, own⟩ := isSound_of_reachAlong found
        have last : t.node = .file old := by rw [Trail.node, passed]
        have leads : (fs.makeParents p).files.node? p = some (.file old) := by
          rw [node?, found]
          exact congrArg some last
        have held := sound.child?_up passed
        refine .single (.at_ sound.up own (fun absent => ?_) (held ▸ permits.2 old leads))
        cases held.symm.trans absent
      · exact .refl
    · rename_i t name gap
      obtain ⟨sound, own, proper, free⟩ := leadsToGap_of_reach gap
      exact .single (.at_ sound own (fun _ => proper) (free ▸ permits.1))
    · exact .refl

end Puts

section Changes

variable {fs : FileSystem}

theorem wellFormed_changeAt (wellFormed : fs.root.WellFormed) (place : List String)
    {f : List (String × Node) → List (String × Node)}
    (keeps : ∀ entries, (Node.dir entries).WellFormed → (Node.dir (f entries)).WellFormed) :
    (fs.changeAt place f).files.root.WellFormed := by
  unfold changeAt
  split
  · rename_i root changed
    exact Node.wellFormed_changeDir? wellFormed changed keeps
  · exact wellFormed

theorem wellFormed_putAt (wellFormed : fs.root.WellFormed) (t : Trail) {node : Node} (proper : IsName name)
    (inner : node.WellFormed) : (fs.putAt t name node).files.root.WellFormed := by
  unfold putAt
  split
  · exact wellFormed_changeAt wellFormed _ fun entries own => Node.wellFormed_putEntry own proper inner
  · exact wellFormed

theorem wellFormed_of_puts {other : FileSystem}
    (puts : Relation.ReflTransGen (Puts fun _ new => new.WellFormed) fs other) (wellFormed : fs.root.WellFormed) :
    other.root.WellFormed := by
  induction puts with
  | refl => exact wellFormed
  | tail _ last ih =>
    obtain ⟨sound, own, named, inner⟩ := last
    rename_i t name node
    refine wellFormed_putAt ih t ?_ inner
    cases held : t.node.child? name with
    | none => exact named held
    | some old =>
      have there : t.node.WellFormed := ih.at? (own ▸ sound.at?_place)
      cases isDir : t.node with
      | dir entries =>
        rw [isDir] at there held
        exact (there.child held).1
      | file _ | link _ => simp [isDir, Node.child?] at held

theorem wellFormed_put (wellFormed : fs.root.WellFormed) (p : Path) (content : Option Content) :
    (fs.put p content).files.root.WellFormed := by
  have empty : (Node.dir []).WellFormed := by decide
  refine wellFormed_of_puts (puts_put empty ?_) wellFormed
  match content with
  | some (.file bytes) => exact ⟨.file bytes, fun _ _ => .file bytes⟩
  | some (.link target) => exact Node.WellFormed.link target
  | some .dir | none => trivial

theorem wellFormed_andThen {c : Change} {next : FileSystem → Change} (first : c.files.root.WellFormed)
    (second : ∀ fs : FileSystem, fs.root.WellFormed → (next fs).files.root.WellFormed) :
    (c.andThen next).files.root.WellFormed := by
  unfold Change.andThen
  split
  · exact second _ first
  · exact first

theorem wellFormed_remove (wellFormed : fs.root.WellFormed) (p : Path) : (fs.remove p).files.root.WellFormed := by
  have cleared : (fs.clear p).files.root.WellFormed := by
    unfold clear
    split
    · exact wellFormed_andThen (wellFormed_changeAt wellFormed _ fun _ _ => by decide) fun _ kept => kept
    · exact wellFormed
  have dropped : ∀ place name, (fs.changeAt place (Node.dropEntry name)).files.root.WellFormed :=
    fun place name => wellFormed_changeAt wellFormed place fun entries own => Node.wellFormed_dropEntry own name
  unfold remove
  split
  · exact wellFormed
  · exact cleared
  · split
    · split
      · exact cleared
      · exact dropped _ _
    · exact dropped _ _

theorem wellFormed_rename (wellFormed : fs.root.WellFormed) (source target : Path) :
    (fs.rename source target).files.root.WellFormed := by
  have empty : (Node.dir []).WellFormed := by decide
  unfold rename
  split
  · exact wellFormed
  · refine wellFormed_andThen (wellFormed_of_puts (puts_makeParents empty fs target) wellFormed) fun fs wellFormed => ?_
    split
    · rename_i s old t new held held'
      obtain ⟨sound, own, _⟩ := holder?_cases held
      obtain ⟨_, _, proper⟩ := holder?_cases held'
      split
      · exact wellFormed
      · rename_i node child
        have inner : node.WellFormed := by
          have found : fs.root.at? (s.place ++ [old]) = some node := by
            rw [Node.at?_concat, ← own, sound.at?_place]
            exact child
          exact wellFormed.at? found
        split
        · exact wellFormed
        · split
          · exact wellFormed
          · split
            · refine wellFormed_andThen ?_ fun fs wellFormed => wellFormed_putAt wellFormed t proper inner
              exact wellFormed_changeAt wellFormed _ fun entries own => Node.wellFormed_dropEntry own old
            · exact wellFormed
    · exact wellFormed

end Changes

/-- A file system that comes from another by changes, each of them made as far as it can be. -/
inductive Changed (fs : FileSystem) : FileSystem → Prop
  | same : Changed fs fs
  | put {other : FileSystem} (before : Changed fs other) (p : Path) (content : Option Content) :
      Changed fs (other.put p content).files
  | remove {other : FileSystem} (before : Changed fs other) (p : Path) : Changed fs (other.remove p).files
  | rename {other : FileSystem} (before : Changed fs other) (source target : Path) :
      Changed fs (other.rename source target).files

theorem Changed.wellFormed {fs other : FileSystem} (changed : fs.Changed other) (wellFormed : fs.root.WellFormed) :
    other.root.WellFormed := by
  induction changed with
  | same => exact wellFormed
  | put _ p content ih => exact wellFormed_put ih p content
  | remove _ p ih => exact wellFormed_remove ih p
  | rename _ source target ih => exact wellFormed_rename ih source target

theorem Change.files_eq {c : Change} {fs : FileSystem} (complete : c.files? = some fs) : c.files = fs := by
  unfold Change.files? at complete
  split at complete
  · exact Option.some.inj complete
  · cases complete

theorem wellFormed_mount? {workingDir dir : List String} {entries : List (String × Node)} {fs : FileSystem}
    (inner : (Node.dir entries).WellFormed) (mounted : mount? workingDir dir entries = some fs) : fs.root.WellFormed := by
  have bare : (Node.dir []).WellFormed := by decide
  have start : empty.root.WellFormed := bare
  simp only [mount?, Option.bind_eq_bind, Option.bind_eq_some_iff] at mounted
  obtain ⟨first, toWorkingDir, second, toDir, third, filled, whole⟩ := mounted
  obtain rfl := Option.some.inj whole
  have first : first.root.WellFormed := Change.files_eq toWorkingDir ▸ wellFormed_of_puts (puts_makeDirs bare empty _) start
  have second : second.root.WellFormed := Change.files_eq toDir ▸ wellFormed_of_puts (puts_makeDirs bare _ _) first
  exact Change.files_eq filled ▸ wellFormed_changeAt second dir fun _ _ => inner

theorem wellFormed_reachable? {fs other : FileSystem} {written : Path} {dir : List String}
    (wellFormed : fs.root.WellFormed) (reachable : fs.reachable? written dir = some other) : other.root.WellFormed := by
  unfold reachable? at reachable
  split at reachable
  · exact Option.some.inj reachable ▸ wellFormed
  · have linked : ∀ p target, (fs.makeLink p target).files.root.WellFormed :=
      fun p target => wellFormed_put wellFormed p (some (.link target))
    rw [← Change.files_eq reachable]
    exact linked _ _

end FileSystem

end Conformance
