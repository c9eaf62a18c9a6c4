import Conformance.Proofs.Manifest.Bounds
import Conformance.Proofs.Manifest.Fields
import Conformance.Proofs.Steps
import Mathlib.Data.List.Forall2

namespace Conformance.Endpoint.Manifest

/-- A key is looked up the same in every order of fields with different keys. -/
theorem lookup_perm {α β : Type} [BEq α] [LawfulBEq α] {a b : List (α × β)} (same : a.Perm b)
    (nodup : (b.map Prod.fst).Nodup) (key : α) : a.lookup key = b.lookup key := by
  induction same with
  | nil => rfl
  | cons x _ ih =>
    rw [List.map_cons, List.nodup_cons] at nodup
    rw [List.lookup_cons, List.lookup_cons, ih nodup.2]
  | swap x y l =>
    obtain ⟨k, v⟩ := x
    obtain ⟨k', v'⟩ := y
    have differ : k ≠ k' := by
      simp only [List.map_cons, List.nodup_cons, List.mem_cons, not_or] at nodup
      exact nodup.1.1
    by_cases first : key = k
    · simp [List.lookup_cons, first, beq_eq_false_iff_ne.mpr differ]
    · simp [List.lookup_cons, beq_eq_false_iff_ne.mpr first]
  | trans _ second ih₁ ih₂ => rw [ih₁ ((second.map Prod.fst).nodup_iff.mpr nodup), ih₂ nodup]

section Slots

variable {slots : List (String × Option Value)}

theorem mem_keys_of_mem_present {field : List Char × Value} (member : field ∈ present slots) :
    ∃ key ∈ slots.map Prod.fst, field.1 = key.toList := by
  obtain ⟨⟨key, value⟩, listed, stands⟩ := List.mem_filterMap.mp member
  obtain ⟨v, _, rfl⟩ := Option.map_eq_some_iff.mp stands
  exact ⟨key, List.mem_map.mpr ⟨_, listed, rfl⟩, rfl⟩

theorem nodup_present (nodup : (slots.map Prod.fst).Nodup) : ((present slots).map Prod.fst).Nodup := by
  induction slots with
  | nil => exact List.nodup_nil
  | cons slot slots ih =>
    obtain ⟨key, value⟩ := slot
    rw [List.map_cons, List.nodup_cons] at nodup
    cases value with
    | none => exact ih nodup.2
    | some v =>
      refine List.nodup_cons.mpr ⟨?_, ih nodup.2⟩
      intro member
      obtain ⟨field, listed, same⟩ := List.mem_map.mp member
      obtain ⟨other, inside, spelled⟩ := mem_keys_of_mem_present listed
      rw [same, String.toList_inj] at spelled
      exact nodup.1 (spelled ▸ inside)

theorem lookup_present (nodup : (slots.map Prod.fst).Nodup) (key : String) :
    (present slots).lookup key.toList = (slots.lookup key).join := by
  induction slots with
  | nil => rfl
  | cons slot slots ih =>
    obtain ⟨other, value⟩ := slot
    rw [List.map_cons, List.nodup_cons] at nodup
    have rest := ih nodup.2
    by_cases same : key = other
    · subst same
      have absent : slots.lookup key = none := by
        rw [List.lookup_eq_none_iff]
        intro entry member
        simpa using fun equal : key = entry.1 => nodup.1 (List.mem_map.mpr ⟨entry, member, equal.symm⟩)
      rw [absent] at rest
      cases value with
      | none => simpa [present] using rest
      | some v => simp [present]
    · have apart : (key.toList == other.toList) = false := by simpa [String.toList_inj] using same
      have apart' : (key == other) = false := by simpa using same
      rw [List.lookup_cons, apart', ← rest]
      cases value with
      | none => rfl
      | some v => exact List.lookup_cons.trans (by rw [apart]; rfl)

end Slots

theorem nodup_slots (r : Record) : (r.slots.map Prod.fst).Nodup := by
  change ["routePath", "handlerFile", "functionStem", "customSource", "options", "devOnly"].Nodup
  decide

theorem entryOf_congr {a b : List (List Char × Value)} (same : ∀ key, a.lookup key = b.lookup key) :
    entryOf a = entryOf b := by
  simp only [entryOf, textField?, same]

theorem lookup_fields (r : Record) (key : String) : r.fields.lookup key.toList = (r.slots.lookup key).join :=
  lookup_present (nodup_slots r) key

theorem textField?_fields {r : Record} (key : String) {value : Option String}
    (slot : r.slots.lookup key = some (value.map fun s => .text s.toList)) :
    textField? r.fields key = value.map String.toList := by
  rw [textField?, lookup_fields, slot]
  cases value <;> rfl

/-- The endpoint that is made of the fields of a record is the one that the record stands for. -/
theorem entryOf_fields (r : Record) : entryOf r.fields = r.entry := by
  have whole : ∀ value : Option String, (value.map String.toList).map String.ofList = value := by
    intro value
    cases value <;> simp
  have normal : ∀ (value : Option String) (f : List Char → List Char), f [] = [] →
      ((value.map String.toList).map fun chars => String.ofList (f chars)).getD "" =
        String.ofList (f (value.getD "").toList) := by
    intro value f empty
    cases value with
    | none => simp [empty]
    | some text => rfl
  have devOnly : decide (r.fields.lookup "devOnly".toList = some (.flag true)) = decide (r.devOnly = some true) := by
    rw [lookup_fields, show r.slots.lookup "devOnly" = some (r.devOnly.map Value.flag) from rfl]
    cases r.devOnly <;> simp
  simp only [entryOf, textField?_fields (r := r) "routePath" rfl, textField?_fields (r := r) "handlerFile" rfl,
    textField?_fields (r := r) "functionStem" rfl, textField?_fields (r := r) "customSource" rfl,
    textField?_fields (r := r) "options" rfl, devOnly, whole, normal _ normalRoute rfl, normal _ normalHandler rfl, Record.entry]

theorem Object.Writes.named {o : Object} {r : Record} (writes : o.Writes r) : o.Named := by
  have words : ∀ key ∈ ["routePath", "handlerFile", "functionStem", "customSource", "options", "devOnly"],
      key.toList ≠ [] ∧ ∀ c ∈ key.toList, Text.isWord c = true := by decide
  intro p member
  have listed : p.field ∈ r.fields := writes.mem_iff.mp (List.mem_map_of_mem member)
  obtain ⟨key, slot, same⟩ := mem_keys_of_mem_present listed
  have own : p.key = key.toList := same
  rw [Property.Named, own]
  exact words key slot

theorem entryOf_written {o : Object} {r : Record} (writes : o.Writes r) :
    entryOf (fields (withoutComments o.written)) = r.entry := by
  rw [withoutComments_object writes.named, fields_plain writes.named, ← entryOf_fields]
  exact entryOf_congr (lookup_perm writes (nodup_present (nodup_slots r)))

theorem entries_of_writes {objects : List Object} {records : List Record}
    (writes : List.Forall₂ Object.Writes objects records) :
    (∀ o ∈ objects, o.Named) ∧
      (objects.map Object.written).map (fun block => entryOf (fields (withoutComments block))) =
        records.map Record.entry := by
  induction writes with
  | nil => exact ⟨by simp, rfl⟩
  | cons own _ ih =>
    obtain ⟨named, entries⟩ := ih
    refine ⟨List.forall_mem_cons.mpr ⟨own.named, named⟩, ?_⟩
    rw [List.map_cons, List.map_cons, List.map_cons, entries, entryOf_written own]

/-- Reading a manifest gives the endpoints of the records it was written from, in their order: however
the array is laid out, and whatever stands behind it. -/
theorem parse_written {records : List Record} (nonempty : records ≠ []) {array : ArrayLiteral}
    (writes : List.Forall₂ Object.Writes array.list records) (gap : Gap) (rest : List Char) :
    (parse (written gap array rest)).run = .ok (.ok (records.map Record.entry)) := by
  obtain ⟨named, entries⟩ := entries_of_writes writes
  have blocks : (blockBounds 0 0 (codeFrom 0 array.written)).mapM
      (fun (bounds : Nat × Nat) => cut array.written bounds.1 bounds.2) = .ok (array.list.map Object.written) :=
    cutBlocks_array named
  have full : (array.list.map Object.written).isEmpty = false := by
    have size : array.list.length = records.length := writes.length_eq
    have positive : 0 < records.length := List.length_pos_iff.mpr nonempty
    rw [List.isEmpty_eq_false_iff, ← List.length_pos_iff, List.length_map]
    omega
  unfold parse
  rw [arrayText_written named, pure_bind]
  simp only [mapM_lift_of_ok blocks, pure_bind, full, ← entries]
  rfl

theorem sample_line : '\n' ∉ " one ]".toList := by decide

theorem sample_block : ¬ ['*', '/'] <:+: ":".toList := by decide

/-- An array of one object, with a bracket in a comment, marks in a text, and a comma behind its fields. -/
def sampleArray : ArrayLiteral :=
  .items [.line " one ]".toList sample_line]
    (.items [] { key := "devOnly".toList, value := .flag true, beforeValue := [.block ":".toList sample_block] }
      (.next [] [.blank ' ' rfl] { key := "routePath".toList, value := .text "/a'\\,\x7d/".toList }
        (.comma [] [])))
    (.done [])

theorem parse_sampleArray :
    written [] sampleArray [';'] =
        "export const ENDPOINT_MANIFEST =[// one ]\n\x7bdevOnly:/*:*/true, routePath:'/a\\'\\\\,\x7d/',\x7d];".toList ∧
      (parse (written [] sampleArray [';'])).run = .ok (.ok [{ route := "a'\\,\x7d/", devOnly := true }]) := by
  have writes : List.Forall₂ Object.Writes sampleArray.list
      [{ routePath := some "/a'\\,\x7d/", devOnly := some true }] :=
    .cons (by unfold Object.Writes; decide) .nil
  have spelled : "export const ENDPOINT_MANIFEST =[// one ]\n\x7bdevOnly:/*:*/true, routePath:'/a\\'\\\\,\x7d/',\x7d];".toList = _ :=
    String.toList_ofList
  refine ⟨?_, (parse_written (by simp) writes [] [';']).trans (by decide +kernel)⟩
  rw [spelled]
  decide +kernel

end Conformance.Endpoint.Manifest
