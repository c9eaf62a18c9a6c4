import Conformance.Proofs.Report.Lines
import Conformance.Report.Violation

namespace Conformance.Violation

/-- The headline, the labels and the lines of the sections are each on one line. -/
structure IsPlain (v : Violation) : Prop where
  headline : OneLine v.headline
  sections : ∀ x ∈ v.sections, OneLine x.1 ∧ ∀ line ∈ x.2, OneLine line

variable {v : Violation}

@[simp] theorem isPlain_mk_iff {headline : String} :
    IsPlain { headline } ↔ OneLine headline :=
  ⟨IsPlain.headline, fun free => ⟨free, by simp⟩⟩

@[simp] theorem isPlain_at_iff {location message : String} :
    IsPlain (at_ location message) ↔ OneLine location ∧ OneLine message := by
  simp [at_, OneLine]

@[simp] theorem isPlain_addSection_iff {label : String} {lines : List String} :
    IsPlain (v.addSection label lines) ↔ IsPlain v ∧ OneLine label ∧ ∀ line ∈ lines, OneLine line := by
  constructor
  · intro plain
    have last := plain.sections (label, lines) (by simp [addSection])
    exact ⟨⟨plain.headline, fun x member => plain.sections x (by simp [addSection, member])⟩, last⟩
  · rintro ⟨plain, label, lines⟩
    refine ⟨plain.headline, fun x member => ?_⟩
    rcases List.mem_append.mp member with member | member
    · exact plain.sections x member
    · obtain rfl := List.mem_singleton.mp member
      exact ⟨label, lines⟩

@[simp] theorem isPlain_rule_iff {text : String} : IsPlain (v.rule text) ↔ IsPlain v ∧ OneLine text := by
  simp [rule, OneLine]

@[simp] theorem isPlain_fix_iff {text : String} : IsPlain (v.fix text) ↔ IsPlain v ∧ OneLine text := by
  simp [fix, OneLine]

@[simp] theorem isPlain_fixLines_iff {lines : List String} :
    IsPlain (v.fixLines lines) ↔ IsPlain v ∧ ∀ line ∈ lines, OneLine line := by
  simp [fixLines, OneLine]

@[simp] theorem isPlain_see_iff {document : String} : IsPlain (v.see document) ↔ IsPlain v ∧ OneLine document := by
  simp [see, OneLine]

@[simp] theorem isPlain_showing_iff {lines : List String} :
    IsPlain (v.showing lines) ↔ IsPlain v ∧ ∀ line ∈ lines, OneLine line := by
  simp [showing, OneLine]

@[simp] theorem isPlain_steps_iff {texts : List String} :
    IsPlain (v.steps texts) ↔ IsPlain v ∧ ∀ text ∈ texts, OneLine text := by
  have label : OneLine "Fix" := by simp [OneLine]
  have dot : OneLine ". " := by simp [OneLine]
  rw [steps, isPlain_addSection_iff]
  refine and_congr_right fun _ => ⟨?_, ?_⟩
  · rintro ⟨_, lines⟩ text member
    obtain ⟨i, at_⟩ := List.mem_iff_getElem?.mp member
    have inside : (text, i) ∈ texts.zipIdx := List.mem_zipIdx_iff_getElem?.mpr at_
    have step := lines _ (List.mem_map_of_mem inside)
    exact (OneLine.append_iff.mp step).2
  · intro texts
    refine ⟨label, fun line member => ?_⟩
    obtain ⟨⟨text, i⟩, inside, rfl⟩ := List.mem_map.mp member
    have own := texts text (List.fst_mem_of_mem_zipIdx inside)
    exact OneLine.append_iff.mpr ⟨OneLine.append_iff.mpr ⟨.nat _, dot⟩, own⟩

/-- A section is lines that begin with spaces, each behind a line feed. -/
theorem exists_lines_of_renderSection {label : String} {lines : List String} (labelFree : OneLine label)
    (linesFree : ∀ line ∈ lines, OneLine line) :
    ∃ ls : List (List Char), (renderSection label lines).toList = ls.flatMap ('\n' :: ·) ∧
      ∀ l ∈ ls, '\n' ∉ l ∧ l.head? = some ' ' := by
  have labelFree : '\n' ∉ label.toList := labelFree
  cases lines with
  | nil =>
    refine ⟨[s!"{margin}{label}:".toList], ?_, ?_⟩
    · simp [renderSection, margin, toString]
    · simp [margin, toString, labelFree]
  | cons first rest =>
    have firstFree : '\n' ∉ first.toList := linesFree first (by simp)
    let hanging := String.ofList (List.replicate (label.utf8ByteSize + 2) ' ')
    let opening := if first = "" then s!"{margin}{label}:" else s!"{margin}{label}: {first}"
    refine ⟨opening.toList :: rest.map fun line => s!"{margin}{hanging}{line}".toList, ?_, ?_⟩
    · by_cases empty : first = "" <;>
        simp [renderSection, empty, opening, margin, toString, hanging, List.flatMap_map]
    · intro l member
      rcases List.mem_cons.mp member with rfl | member
      · by_cases empty : first = "" <;> simp [empty, opening, margin, toString, labelFree, firstFree]
      · obtain ⟨line, inside, rfl⟩ := List.mem_map.mp member
        have lineFree : '\n' ∉ line.toList := linesFree line (by simp [inside])
        simp [margin, toString, hanging, lineFree]

theorem IsPlain.hangs (plain : IsPlain v) : Hangs v.render := by
  obtain ⟨headline, sections⟩ := v
  obtain ⟨first, others⟩ := plain
  have behind : ∃ ls : List (List Char),
      (String.join (sections.map fun x => renderSection x.1 x.2)).toList = ls.flatMap ('\n' :: ·) ∧
        ∀ l ∈ ls, '\n' ∉ l ∧ l.head? = some ' ' := by
    clear first
    induction sections with
    | nil => exact ⟨[], by simp, by simp⟩
    | cons x sections ih =>
      obtain ⟨own, free⟩ := others x (by simp)
      obtain ⟨ls, whole, each⟩ := exists_lines_of_renderSection own free
      obtain ⟨ls', whole', each'⟩ := ih fun y member => others y (by simp [member])
      refine ⟨ls ++ ls', ?_, ?_⟩
      · rw [List.flatMap_append, ← whole, ← whole']
        simp
      · intro l member
        exact (List.mem_append.mp member).elim (each l) (each' l)
  obtain ⟨ls, whole, each⟩ := behind
  refine ⟨headline.toList, ls, ?_, first, each⟩
  rw [← whole]
  exact String.toList_append

end Conformance.Violation
