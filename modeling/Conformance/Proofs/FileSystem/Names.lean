import Conformance.Layout
import Conformance.Proofs.Text.OneLine
import Conformance.Text.Pieces

namespace Conformance

inductive Node.NamesOneLine : Node → Prop
  | file (content : ByteArray) : NamesOneLine (.file content)
  | link (target : String) : NamesOneLine (.link target)
  | dir {entries : List (String × Node)} (named : ∀ e ∈ entries, OneLine e.1)
      (inner : ∀ e ∈ entries, e.2.NamesOneLine) : NamesOneLine (.dir entries)

namespace Node.NamesOneLine

theorem entry {name : String} {node : Node} {entries : List (String × Node)} (free : OneLine name)
    (inner : node.NamesOneLine) (others : (Node.dir entries).NamesOneLine) :
    (Node.dir ((name, node) :: entries)).NamesOneLine := by
  cases others with
  | dir named within => exact .dir (List.forall_mem_cons.mpr ⟨free, named⟩) (List.forall_mem_cons.mpr ⟨inner, within⟩)

theorem child {node child : Node} {name : String} (h : node.NamesOneLine) (entered : node.child? name = some child) :
    child.NamesOneLine := by
  cases h with
  | file _ | link _ => cases entered
  | dir _ inner =>
    obtain ⟨front, back, whole, _⟩ := List.lookup_eq_some_iff.mp entered
    exact inner (name, child) (by simp [whole])

theorem at? {start node : Node} {names : List String} (h : start.NamesOneLine) (found : start.at? names = some node) :
    node.NamesOneLine :=
  at?_kept child h found

end Node.NamesOneLine

namespace Path

theorem oneLine_join {base p : Path} (baseFree : OneLine base.raw) (free : OneLine p.raw) : OneLine (base / p).raw := by
  change OneLine (base.join p).raw
  have slash : OneLine "/" := by simp [OneLine]
  unfold join
  split
  · exact free
  · split <;> simp [baseFree, free, slash]

theorem oneLine_of_mem_segments {p : Path} (free : OneLine p.raw) {segment : String} (member : segment ∈ p.segments) :
    OneLine segment := by
  obtain ⟨piece, inside, rfl⟩ := List.mem_map.mp member
  exact OneLine.ofList_iff.mpr fun feed => free (Text.mem_of_mem_split inside feed)

theorem text_of_ofSegment? {segment : String} {c : Component} (stands : Component.ofSegment? segment = some c) :
    c.text = segment := by
  unfold Component.ofSegment? at stands
  split at stands
  · cases stands
  · split at stands
    · rename_i up
      cases stands
      exact up.symm
    · cases stands
      rfl

theorem oneLine_of_mem_components {p : Path} (free : OneLine p.raw) {c : Component} (member : c ∈ p.components) :
    OneLine c.text := by
  have slash : OneLine Component.root.text := by simp [Component.text, OneLine]
  have dot : OneLine Component.here.text := by simp [Component.text, OneLine]
  have own : ∀ segment ∈ p.segments, ∀ c, Component.ofSegment? segment = some c → OneLine c.text := by
    intro segment inside c stands
    exact text_of_ofSegment? stands ▸ oneLine_of_mem_segments free inside
  unfold components at member
  split at member
  · cases member
  · rename_i first rest cut
    rw [cut] at own
    rcases List.mem_append.mp member with lead | later
    · split at lead
      · obtain rfl := List.mem_singleton.mp lead
        exact dot
      · split at lead
        · obtain rfl := List.mem_singleton.mp lead
          exact slash
        · exact own first (by simp) c (by simpa using lead)
    · obtain ⟨segment, inside, stands⟩ := List.mem_filterMap.mp later
      exact own segment (by simp [inside]) c stands

theorem oneLine_relativeTo {p : Path} (free : OneLine p.raw) (base : Path) : OneLine (p.relativeTo base) := by
  have within : (Text.afterLead? base.components p.components).getD p.components ⊆ p.components := by
    cases cut : Text.afterLead? base.components p.components with
    | none => exact fun _ member => member
    | some rest =>
      have whole := Text.afterLead?_eq_some_iff.mp cut
      exact fun c member => whole ▸ List.mem_append_right _ member
  refine OneLine.intercalate (by simp [OneLine]) fun text member => ?_
  obtain ⟨c, inside, rfl⟩ := List.mem_map.mp member
  exact oneLine_of_mem_components free (within inside)

theorem oneLine_of_fileName? {p : Path} (free : OneLine p.raw) {name : String} (found : p.fileName? = some name) :
    OneLine name := by
  unfold fileName? at found
  split at found
  · rename_i last
    cases found
    exact oneLine_of_mem_components free (c := .name name) (List.mem_of_getLast? last)
  · cases found

theorem oneLine_fileName {p : Path} (free : OneLine p.raw) : OneLine (p.fileName?.getD "") := by
  cases found : p.fileName? with
  | none => exact .empty
  | some name => exact oneLine_of_fileName? free found

end Path

namespace FileSystem

variable {fs : FileSystem} {rules : WalkRules}

theorem namesOneLine_of_node? (names : fs.root.NamesOneLine) {p : Path} {node : Node} (leads : fs.node? p = some node) :
    node.NamesOneLine := by
  rw [node?_eq_at?_resolve?, Option.bind_eq_some_iff] at leads
  obtain ⟨place, _, found⟩ := leads
  exact names.at? found

mutual

theorem oneLine_of_mem_visitEntry {base : Path} (free : OneLine base.raw) {name : String} (own : OneLine name)
    {node : Node} (names : node.NamesOneLine) {v : Visit} (member : v ∈ visitEntry rules base name node) :
    OneLine v.path.raw := by
  have joined : OneLine (base / name : Path).raw := Path.oneLine_join free own
  match node with
  | .file _ =>
    obtain rfl := List.mem_singleton.mp member
    exact joined
  | .link _ => cases member
  | .dir entries =>
    unfold visitEntry at member
    split at member
    · rcases List.mem_cons.mp member with rfl | member
      · exact joined
      · split at member
        · cases names with
          | dir named inner => exact oneLine_of_mem_visitEntries joined named inner member
        · cases member
    · cases member

theorem oneLine_of_mem_visitEntries {base : Path} (free : OneLine base.raw) {entries : List (String × Node)}
    (named : ∀ e ∈ entries, OneLine e.1) (inner : ∀ e ∈ entries, e.2.NamesOneLine) {v : Visit}
    (member : v ∈ visitEntries rules base entries) : OneLine v.path.raw := by
  match entries with
  | [] => cases member
  | (name, node) :: rest =>
    unfold visitEntries at member
    rcases List.mem_append.mp member with member | member
    · exact oneLine_of_mem_visitEntry free (named (name, node) (by simp)) (inner (name, node) (by simp)) member
    · exact oneLine_of_mem_visitEntries free (fun e inside => named e (by simp [inside]))
        (fun e inside => inner e (by simp [inside])) member

end

theorem oneLine_of_mem_visitBelow (names : fs.root.NamesOneLine) {start : Path} (free : OneLine start.raw) {v : Visit}
    (member : v ∈ fs.visitBelow rules start) : OneLine v.path.raw := by
  unfold visitBelow at member
  split at member
  · rename_i entries leads
    cases namesOneLine_of_node? names leads with
    | dir named inner => exact oneLine_of_mem_visitEntries free named inner member
  · cases member

theorem oneLine_of_mem_collectFiles (names : fs.root.NamesOneLine) {accepts : String → Bool} {start : Path}
    (free : OneLine start.raw) {p : Path} (member : p ∈ fs.collectFiles rules accepts start) : OneLine p.raw := by
  obtain ⟨v, inside, rfl⟩ := List.mem_map.mp member
  rcases List.mem_append.mp (List.mem_filter.mp inside).1 with own | below
  · unfold visitStart at own
    split at own
    · obtain rfl := List.mem_singleton.mp own
      exact free
    · cases own
  · exact oneLine_of_mem_visitBelow names free below

theorem oneLine_of_mem_collectDirs (names : fs.root.NamesOneLine) {start : Path} (free : OneLine start.raw) {p : Path}
    (member : p ∈ fs.collectDirs rules start) : OneLine p.raw := by
  obtain ⟨v, inside, rfl⟩ := List.mem_map.mp member
  exact oneLine_of_mem_visitBelow names free (List.mem_filter.mp inside).1

end FileSystem

end Conformance
