import Conformance.Proofs.Endpoint.Configuration
import Conformance.Proofs.Json.Contents

namespace Conformance.Endpoint.Hosting

open Json

/-- The value names a function: it is the name, or an object with the name as its `functionId`. -/
inductive Names (name : String) (v : Value) : Prop
  | text (own : IsString name v)
  | object (own : HasMember "functionId" IsString name v)

/-- The value is the function of a rule. It is not nested too deep for the four levels around it. -/
structure IsFunction (name : String) (v : Value) : Prop where
  names : Names name v
  shallow : v.depth < maxDepth - 4

/-- The value is a rule: an object with a source and a function, where each may be absent or `null`. -/
inductive IsItem (i : Item) : Value → Prop
  | mk {ms : List (List Char × Value)} (once : Once ["source", "function"] ms)
      (source : Optionally IsString i.source (ms.lookup "source".toList))
      (function : Optionally IsFunction i.function (ms.lookup "function".toList)) : IsItem i (.object ms)

def Lists : List Item → Value → Prop :=
  HasMember "hosting" (HasMember "rewrites" (ListOf IsItem))

inductive PartStands : String → Item → Item → List Char → List Char → Prop
  | source {i : Item} {source : Option String} {l t : List Char} (own : OptionalSpelled (Stands IsString) source l t) :
      PartStands "source" i { i with source } l t
  | function {i : Item} {function : Option String} {l t : List Char}
      (own : OptionalSpelled (Stands IsFunction) function l t) : PartStands "function" i { i with function } l t

variable {name : String} {v : Value} {i : Item} {items : List Item} {l t : List Char}

theorem functionName?_of_names (h : Names name v) : functionName? v = some name := by
  cases h with
  | text own =>
    obtain rfl := own
    simp [functionName?]
  | object own =>
    obtain ⟨once, found, rfl⟩ := own
    simp only [functionName?, once.filter_eq (List.mem_singleton_self _) found, String.ofList_toList]

theorem IsFunction.ne_null (name : String) : ¬ IsFunction name .null := by
  rintro ⟨own | own, _⟩
  · cases own
  · cases own

theorem readFunction_of_stands (h : Stands IsFunction name l t) : Takes readFunction name l t := by
  obtain ⟨d, v, ⟨names, shallow⟩, own⟩ := h
  exact readFunction_of_written shallow (own.at_depth le_rfl) (functionName?_of_names names)

theorem PartStands.opens {key : String} {i i' : Item} (h : PartStands key i i' l t) : Opens l t := by
  cases h with
  | source own | function own => exact own.opens fun _ _ _ value => value.opens

theorem readItem_of_part {i : Item} (h : RecordSpelled ["source", "function"] PartStands {} i l t) :
    Takes item.read i l t := by
  refine readItem_of_parts (fun _ _ _ _ _ part => part.opens) ?_ h
  intro key i i' l t part
  cases part with
  | source own =>
    exact .inl ⟨rfl, _, rfl, readOptional_of_spelled (fun _ _ _ value => readText_of_spelled value.textSpelled)
      (fun _ _ _ value => value.textSpelled.opens) own⟩
  | function own =>
    exact .inr ⟨rfl, _, rfl, readOptional_of_spelled (fun _ _ _ value => readFunction_of_stands value)
      (fun _ _ _ value => ⟨value.opens, value.head?_ne IsFunction.ne_null⟩) own⟩

def upTo (i : Item) (seen : List String) : Item where
  source := if "source" ∈ seen then i.source else none
  function := if "function" ∈ seen then i.function else none

theorem readItem_of_stands (h : Stands IsItem i l t) : Takes item.read i l t := by
  obtain ⟨d, _, @⟨ms, once, source, function⟩, written⟩ := h
  have fills : Fills ["source", "function"] PartStands (upTo i) ms := by
    intro seen key known _ v found d l t own
    rcases List.mem_pair.mp known with rfl | rfl
    · rw [found] at source
      simpa [upTo] using PartStands.source (optionalSpelled_of_written source own)
    · rw [found] at function
      simpa [upTo] using PartStands.function (optionalSpelled_of_written function own)
  refine readItem_of_part (recordSpelled_of_written (upTo i) once fills ?_ written)
  intro seen covers
  rw [upTo, source.ite_eq covers (by simp), function.ite_eq covers (by simp)]

theorem readHosting_of_stands (h : Stands (HasMember "rewrites" (ListOf IsItem)) items l t) :
    Takes hosting.read items l t := by
  refine readHosting_of_items (fun _ _ _ item => readItem_of_stands item) (fun _ _ _ item => item.opens)
    (h.recordSpelled ?_)
  intro v means d l t written
  exact Stands.listSpelled ⟨d, v, means, written⟩

theorem readConfiguration_of_stands (h : Stands Lists items l t) : Takes configuration.read items l t := by
  refine readConfiguration_of_part (fun _ _ _ part => readHosting_of_stands part) ?_ (h.recordSpelled ?_)
  · intro items l t part
    exact ⟨part.opens, part.head?_ne nofun⟩
  · intro v means d l t written
    exact ⟨some items, .some ⟨d, v, means, written⟩, rfl⟩

theorem rules_of_lists {text : List Char} (lists : Lists items v) (written : TextOf v text) :
    rules text = .ok (items.filterMap Item.rule?) := by
  obtain ⟨d, l, t, front, own, back⟩ := written
  exact rules_of_takes (readConfiguration_of_stands ⟨d, v, lists, own⟩) front back

end Conformance.Endpoint.Hosting
