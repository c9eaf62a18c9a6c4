import Conformance.Check.Debt
import Conformance.Proofs.Document.Onward
import Conformance.Proofs.Pattern.Anchored
import Conformance.Proofs.Pattern.Quotation
import Conformance.Proofs.Pattern.Surroundings

namespace Conformance.Check.Debt

open Pattern Text Document

def IsOpenItem (line label : List Char) : Prop :=
  ∃ indent space space' rest,
    line = indent ++ '-' :: (space ++ '[' :: ' ' :: ']' :: (space' ++ '*' :: '*' :: (label ++ '*' :: '*' :: rest))) ∧
      (∀ c ∈ indent ++ space ++ space', isBlank c = true) ∧ label ≠ [] ∧ '*' ∉ label

def itemParts : List Pattern :=
  [blanks, text "-", blanks, text "[ ]", blanks, text "**", group 1 (mostOne (· != '*')), text "**"]

variable {line label : List Char}

/-- A way of the pattern keeps the label of the item that the line is. -/
theorem isOpenItem_of_mem_ways {m : Progress} (member : m ∈ (chain itemParts).ways ⟨.ofText line, []⟩) :
    ∃ label, IsOpenItem line label ∧ m.kept? 1 = some label := by
  obtain ⟨_, first, member⟩ := mem_ways_chain_cons.mp member
  obtain ⟨indent, u₁, cut₁, blank₁, rfl⟩ := mem_ways_most.mp first
  obtain ⟨_, first, member⟩ := mem_ways_chain_cons.mp member
  obtain ⟨u₂, cut₂, rfl⟩ := mem_ways_text.mp first
  obtain ⟨_, first, member⟩ := mem_ways_chain_cons.mp member
  obtain ⟨space, u₃, cut₃, blank₃, rfl⟩ := mem_ways_most.mp first
  obtain ⟨_, first, member⟩ := mem_ways_chain_cons.mp member
  obtain ⟨u₄, cut₄, rfl⟩ := mem_ways_text.mp first
  obtain ⟨_, first, member⟩ := mem_ways_chain_cons.mp member
  obtain ⟨space', u₅, cut₅, blank₅, rfl⟩ := mem_ways_most.mp first
  obtain ⟨_, first, member⟩ := mem_ways_chain_cons.mp member
  obtain ⟨u₆, cut₆, rfl⟩ := mem_ways_text.mp first
  obtain ⟨_, first, member⟩ := mem_ways_chain_cons.mp member
  obtain ⟨_, inner, rfl⟩ := mem_ways_group.mp first
  obtain ⟨label, u₇, cut₇, some, inside, rfl⟩ := mem_ways_mostOne.mp inner
  obtain ⟨_, first, member⟩ := mem_ways_chain_cons.mp member
  obtain ⟨rest, cut₈, rfl⟩ := mem_ways_text.mp first
  rw [mem_ways_chain_nil] at member
  subst member
  refine ⟨label, ⟨indent, space, space', rest, ?_, ?_, some, fun star => by simpa using inside _ star⟩, ?_⟩
  · rw [show line = indent ++ u₁ from cut₁, show u₁ = '-' :: u₂ from cut₂, show u₂ = space ++ u₃ from cut₃,
      show u₃ = '[' :: ' ' :: ']' :: u₄ from cut₄, show u₄ = space' ++ u₅ from cut₅, show u₅ = '*' :: '*' :: u₆ from cut₆,
      show u₆ = label ++ u₇ from cut₇, show u₇ = '*' :: '*' :: rest from cut₈]
  · simp only [List.mem_append, or_imp, forall_and]
    exact ⟨⟨blank₁, blank₃⟩, blank₅⟩
  · rw [Progress.kept?]
    exact congrArg Option.some (Cursor.textTo_beyond cut₇)

theorem IsOpenItem.ways_ne_nil (item : IsOpenItem line label) : (chain itemParts).ways ⟨.ofText line, []⟩ ≠ [] := by
  obtain ⟨indent, space, space', rest, rfl, blank, some, single⟩ := item
  simp only [List.mem_append, or_imp, forall_and] at blank
  have inside : ∀ c ∈ label, (c != '*') = true := fun c member => bne_iff_ne.mpr fun same => single (same ▸ member)
  refine ways_chain_ne_nil (mem_ways_most.mpr ⟨indent, _, rfl, blank.1.1, rfl⟩) ?_
  refine ways_chain_ne_nil (mem_ways_text.mpr ⟨_, rfl, rfl⟩) ?_
  refine ways_chain_ne_nil (mem_ways_most.mpr ⟨space, _, rfl, blank.1.2, rfl⟩) ?_
  refine ways_chain_ne_nil (mem_ways_text.mpr ⟨_, rfl, rfl⟩) ?_
  refine ways_chain_ne_nil (mem_ways_most.mpr ⟨space', _, rfl, blank.2, rfl⟩) ?_
  refine ways_chain_ne_nil (mem_ways_text.mpr ⟨_, rfl, rfl⟩) ?_
  refine ways_chain_ne_nil (mem_ways_group.mpr ⟨_, mem_ways_mostOne.mpr ⟨label, _, rfl, some, inside, rfl⟩, rfl⟩) ?_
  exact ways_chain_ne_nil (mem_ways_text.mpr ⟨rest, rfl, rfl⟩) ways_chain_nil_ne_nil

theorem IsOpenItem.unique {other : List Char} (item : IsOpenItem line label) (item' : IsOpenItem line other) :
    label = other := by
  obtain ⟨indent, space, space', rest, rfl, blank, _, single⟩ := item
  obtain ⟨indent', space₂, space₂', rest', same, blank', _, single'⟩ := item'
  simp only [List.mem_append, or_imp, forall_and] at blank blank'
  have solid {w : List Char} (own : ∀ c ∈ w, isBlank c = true) : ∀ c ∈ w, (!isBlank c) = false := by simpa using own
  have plain {w : List Char} (own : '*' ∉ w) : ∀ c ∈ w, (c == '*') = false :=
    fun c member => beq_eq_false_iff_ne.mpr fun same => own (same ▸ member)
  obtain ⟨_, _, same⟩ := append_cons_inj_of_free (p := (!isBlank ·)) (solid blank.1.1) (solid blank'.1.1) (by decide)
    (by decide) same
  obtain ⟨_, _, same⟩ := append_cons_inj_of_free (p := (!isBlank ·)) (solid blank.1.2) (solid blank'.1.2) (by decide)
    (by decide) same
  obtain ⟨_, _, same⟩ := append_cons_inj_of_free (p := (!isBlank ·)) (solid blank.2) (solid blank'.2) (by decide)
    (by decide) (List.cons.inj (List.cons.inj same).2).2
  exact (append_cons_inj_of_free (p := (· == '*')) (plain single) (plain single') (by decide) (by decide)
    (List.cons.inj same).2).1

theorem labelOf?_eq_some_iff {name : String} :
    labelOf? line = some name ↔ ∃ label, IsOpenItem line label ∧ String.ofList (trim label) = name := by
  have found : labelOf? line = (((chain itemParts).ways ⟨.ofText line, []⟩).head?.bind (Progress.kept? 1)).map
      fun label => String.ofList (trim label) := by
    rw [labelOf?, openItem, find?_textStart, Option.bind_map]
    rfl
  rw [found, Option.map_eq_some_iff]
  refine exists_congr fun label => and_congr_left fun _ => ?_
  rw [Option.bind_eq_some_iff]
  constructor
  · rintro ⟨m, first, kept⟩
    obtain ⟨own, item, kept'⟩ := isOpenItem_of_mem_ways (List.mem_of_mem_head? first)
    obtain rfl : own = label := Option.some.inj (kept'.symm.trans kept)
    exact item
  · intro item
    obtain ⟨m, others, ways⟩ := List.exists_cons_of_ne_nil item.ways_ne_nil
    obtain ⟨own, item', kept⟩ := isOpenItem_of_mem_ways (ways ▸ List.mem_cons_self)
    refine ⟨m, by rw [ways, List.head?_cons], ?_⟩
    rw [kept, item.unique item']

def endsOpen (line : List Char) : Bool :=
  !isHeading line && isOtherHeading line

theorem IsOpenItem.plain (item : IsOpenItem line label) : isHeading line = false ∧ endsOpen line = false := by
  obtain ⟨indent, space, space', rest, rfl, blank, _, _⟩ := item
  simp only [List.mem_append, or_imp, forall_and] at blank
  have start (w : List Char) : trimStart (indent ++ '-' :: w) = '-' :: w := by
    rw [trimStart, List.dropWhile_append_of_pos blank.1.1]
    exact List.dropWhile_cons_of_neg (by decide)
  rw [endsOpen, isHeading, isOtherHeading, start]
  simp [startsWith, List.isPrefixOf]

def readItem (x : Nat × List Char) : Option (Nat × String) :=
  (labelOf? x.2).map (x.1, ·)

theorem readItem_eq_some_iff {x : Nat × List Char} {number : Nat} {name : String} :
    readItem x = some (number, name) ↔ x.1 = number ∧ ∃ label, IsOpenItem x.2 label ∧ String.ofList (trim label) = name := by
  simp only [readItem, Option.map_eq_some_iff, labelOf?_eq_some_iff, Prod.mk.injEq]
  constructor
  · rintro ⟨_, item, own, rfl⟩
    exact ⟨own, item⟩
  · rintro ⟨own, item⟩
    exact ⟨name, item, own, rfl⟩

theorem plain_of_readItem {x : Nat × List Char} {item : Nat × String} (read : readItem x = some item) :
    isHeading x.2 = false ∧ endsOpen x.2 = false := by
  obtain ⟨_, label, isItem, _⟩ := readItem_eq_some_iff.mp read
  exact isItem.plain

/-- The open items are read below the heading. -/
theorem openItems_eq (text : List Char) :
    openItems text = (below isHeading endsOpen (numberedLines text)).filterMap readItem := by
  have unread : ∀ x : Nat × List Char, isHeading x.2 = true → readItem x = none := by
    intro x heading
    cases read : readItem x with
    | none => rfl
    | some item =>
      rw [(plain_of_readItem read).1] at heading
      cases heading
  have all : ∀ lines : List (Nat × List Char), (lines.filter fun x => !isHeading x.2).filterMap readItem =
      lines.filterMap readItem := by
    intro lines
    rw [List.filterMap_filter]
    refine congrArg (List.filterMap · lines) (funext fun x => ?_)
    cases heading : isHeading x.2 with
    | true => simp [unread x heading]
    | false => simp
  have whole : openItems text = ((((numberedLines text).dropWhile fun x => !isHeading x.2).takeWhile
      fun x => isHeading x.2 || !isOtherHeading x.2).filter fun x => !isHeading x.2).filterMap readItem := rfl
  have open_ : (fun x : Nat × List Char => isHeading x.2 || !isOtherHeading x.2) = fun x => !endsOpen x.2 := by
    funext x
    simp [endsOpen]
  rw [whole, all, below, open_]
  cases from_ : (numberedLines text).dropWhile fun x => !isHeading x.2 with
  | nil => rfl
  | cons first rest =>
    have heading : isHeading first.2 = true := by
      have stop := List.head?_dropWhile_not (fun x : Nat × List Char => !isHeading x.2) (numberedLines text)
      rw [from_] at stop
      simpa using stop
    rw [List.takeWhile_cons_of_pos (by simp [endsOpen, heading]), List.filterMap_cons_none (unread first heading)]
    rfl

theorem dropReturn_append {s w : List Char} (last : s.getLast? ≠ some '\r') : dropReturn (s ++ w) = s ++ dropReturn w := by
  rcases List.eq_nil_or_concat' w with rfl | ⟨w, c, rfl⟩
  · rw [List.append_nil, dropReturn, if_neg last]
    simp [dropReturn]
  · rw [← List.append_assoc, dropReturn, dropReturn, List.getLast?_concat, List.getLast?_concat, List.dropLast_concat,
      List.dropLast_concat]
    split
    · rfl
    · exact List.append_assoc ..

theorem IsOpenItem.goesOn {other : List Char} (item : IsOpenItem line label) (on : GoesOn line other) :
    IsOpenItem other label := by
  obtain ⟨indent, space, space', rest, rfl, blank, some, single⟩ := item
  obtain ⟨w, onward⟩ := on
  have cut (rest : List Char) :
      indent ++ '-' :: (space ++ '[' :: ' ' :: ']' :: (space' ++ '*' :: '*' :: (label ++ '*' :: '*' :: rest))) =
      indent ++ '-' :: (space ++ '[' :: ' ' :: ']' :: (space' ++ '*' :: '*' :: (label ++ ['*', '*']))) ++ rest := by simp
  have behind : ∃ rest', other =
      indent ++ '-' :: (space ++ '[' :: ' ' :: ']' :: (space' ++ '*' :: '*' :: (label ++ ['*', '*']))) ++ rest' := by
    rcases onward with rfl | rfl
    · exact ⟨rest ++ w, by rw [cut, List.append_assoc]⟩
    · refine ⟨dropReturn (rest ++ w), ?_⟩
      rw [cut, List.append_assoc, dropReturn_append]
      simp [List.getLast?_append, List.getLast?_cons]
  obtain ⟨rest', rfl⟩ := behind
  exact ⟨indent, space, space', rest', (cut rest').symm, blank, some, single⟩

theorem openItems_append (text more : List Char) : (openItems text).Sublist (openItems (text ++ more)) := by
  rw [openItems_eq, openItems_eq]
  refine (onward_lines text more).numbered.below_sublist ?_
  rintro a b ⟨number, on⟩ ⟨n, name⟩ read
  obtain ⟨own, label, item, named⟩ := readItem_eq_some_iff.mp read
  have item' := item.goesOn on
  exact ⟨readItem_eq_some_iff.mpr ⟨number ▸ own, label, item', named⟩, item'.plain.2⟩

end Conformance.Check.Debt
