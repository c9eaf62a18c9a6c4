import Conformance.Proofs.Source.Forms
import Conformance.Proofs.Text.Lines

namespace Conformance

namespace Source.Import

open Pattern

def front (name : List Char) : List Char :=
  "import \x7b ".toList ++ (name ++ " \x7d from ".toList)

def statement (name spec ending : List Char) : List Char :=
  front name ++ '\'' :: (spec ++ '\'' :: ';' :: ending)

section Statement

variable {name spec ending : List Char}

theorem isMark_ending (blank : ∀ c ∈ ending, Text.isBlank c = true) : ∀ c ∈ ';' :: ending, isMark c = false := by
  intro c member
  rw [Bool.eq_false_iff]
  intro mark
  rcases List.mem_cons.mp member with rfl | inner
  · cases mark
  · have isBlank := blank c inner
    rcases isMark_eq_true_iff.mp mark with rfl | rfl <;> revert isBlank <;> decide

theorem quotes_statement (ending : List Char) (free : ∀ c ∈ spec, isMark c = false) :
    Quotes (statement name spec ending) (front name) '\'' spec '\'' (';' :: ending) :=
  ⟨rfl, by decide, by decide, free⟩

def clause (name : List Char) : List Char :=
  " \x7b ".toList ++ (name ++ " \x7d ".toList)

theorem front_eq (name : List Char) : front name = "import".toList ++ (clause name ++ ("from".toList ++ [' '])) := by
  have early : "import \x7b ".toList = "import".toList ++ " \x7b ".toList := by decide
  have late : " \x7d from ".toList = " \x7d ".toList ++ ("from".toList ++ [' ']) := by decide
  calc front name
    _ = "import \x7b ".toList ++ (name ++ (" \x7d ".toList ++ ("from".toList ++ [' ']))) :=
      congrArg (fun l => "import \x7b ".toList ++ (name ++ l)) late
    _ = "import".toList ++ " \x7b ".toList ++ (name ++ (" \x7d ".toList ++ ("from".toList ++ [' ']))) :=
      congrArg (· ++ (name ++ (" \x7d ".toList ++ ("from".toList ++ [' '])))) early
    _ = "import".toList ++ (clause name ++ ("from".toList ++ [' '])) := by
      simp only [clause, List.append_assoc]

theorem inClause_clause (word : ∀ c ∈ name, Text.isWord c = true) : ∀ c ∈ clause name, inClause c = true := by
  have early : ∀ c ∈ " \x7b ".toList, inClause c = true := by decide
  have late : ∀ c ∈ " \x7d ".toList, inClause c = true := by decide
  intro c member
  rcases List.mem_append.mp member with first | more
  · exact early c first
  · rcases List.mem_append.mp more with inner | last
    · exact inClause_of_isWord (word c inner)
    · exact late c last

theorem leadsUp_front (word : ∀ c ∈ name, Text.isWord c = true) : Form.clause.LeadsUp (front name) := by
  have last : (clause name).getLast? = some ' ' := by
    rw [clause, List.getLast?_append, List.getLast?_append]
    rfl
  exact ⟨"import", by simp, clause name, [' '], front_eq name, inClause_clause word, ⟨' ', by simp [clause], by decide⟩,
    ⟨' ', by simp [last], by decide⟩, by decide⟩

theorem mem_fromClause_statement (word : ∀ c ∈ name, Text.isWord c = true) (free : ∀ c ∈ spec, isMark c = false)
    (present : spec ≠ []) :
    behind ⟨.ofText (statement name spec ending), []⟩ (front name) '\'' spec '\'' (';' :: ending) ∈
      fromClause.ways ⟨.ofText (statement name spec ending), []⟩ :=
  mem_ways_fromClause.mpr ⟨_, _, _, _, _, rfl, leadsUp_front word, quotes_statement ending free, present, rfl⟩

theorem fromClause_statement (word : ∀ c ∈ name, Text.isWord c = true) (free : ∀ c ∈ spec, isMark c = false)
    (blank : ∀ c ∈ ending, Text.isBlank c = true) {m : Progress}
    (member : m ∈ fromClause.ways ⟨.ofText (statement name spec ending), []⟩) :
    spec ≠ [] ∧ m = behind ⟨.ofText (statement name spec ending), []⟩ (front name) '\'' spec '\'' (';' :: ending) := by
  obtain ⟨_, a, w, b, u, _, _, quotes, some, same⟩ := mem_ways_fromClause.mp member
  have only : Quotes ([] ++ statement name spec ending) (front name) '\'' spec '\'' (';' :: ending) :=
    quotes_statement ending free
  obtain ⟨lead, rfl, rfl, rfl, rfl⟩ := only.unique (leadsUp_front word).free (isMark_ending blank) quotes
  rw [List.nil_append] at lead
  rw [lead] at same
  exact ⟨some, same⟩

/-- The second form finds nothing: in front of the module stands `from`. -/
theorem sideEffect_statement (word : ∀ c ∈ name, Text.isWord c = true) (free : ∀ c ∈ spec, isMark c = false)
    (blank : ∀ c ∈ ending, Text.isBlank c = true) {v u : List Char} (cut : statement name spec ending = v ++ u)
    {s m : Progress} (ahead : s.place.rest = u) : m ∉ sideEffect.ways s := by
  intro member
  obtain ⟨_, a, w, b, u', _, ⟨x, z, rfl, _, _, blanks⟩, quotes, _⟩ := mem_ways_sideEffect.mp member
  have only : Quotes (v ++ u) (front name) '\'' spec '\'' (';' :: ending) := cut ▸ quotes_statement ending free
  obtain ⟨lead, _⟩ := only.unique (leadsUp_front word).free (isMark_ending blank) (ahead ▸ quotes)
  have late : " \x7d from ".toList = " \x7d fro".toList ++ ['m', ' '] := by decide
  have shape : (v ++ (x ++ "impor".toList)) ++ 't' :: z =
      ("import \x7b ".toList ++ (name ++ " \x7d fro".toList)) ++ 'm' :: [' '] :=
    calc (v ++ (x ++ "impor".toList)) ++ 't' :: z
      _ = v ++ (x ++ ("impor".toList ++ 't' :: z)) := by simp only [List.append_assoc]
      _ = front name := lead
      _ = "import \x7b ".toList ++ (name ++ (" \x7d fro".toList ++ ['m', ' '])) :=
        congrArg (fun l => "import \x7b ".toList ++ (name ++ l)) late
      _ = ("import \x7b ".toList ++ (name ++ " \x7d fro".toList)) ++ ['m', ' '] := by simp only [List.append_assoc]
  obtain ⟨_, last⟩ := Text.append_blanks_inj (by decide) (by decide) blanks (by decide) shape
  cases last

theorem call_statement (word : ∀ c ∈ name, Text.isWord c = true) (free : ∀ c ∈ spec, isMark c = false)
    (blank : ∀ c ∈ ending, Text.isBlank c = true) {v u : List Char} (cut : statement name spec ending = v ++ u)
    {s m : Progress} (ahead : s.place.rest = u) : m ∉ call.ways s := by
  intro member
  obtain ⟨_, a, w, b, tail, u', _, ⟨_, _, z, z', rfl, _⟩, _, quotes, _⟩ := mem_ways_call.mp member
  have only : Quotes (v ++ u) (front name) '\'' spec '\'' (';' :: ending) := cut ▸ quotes_statement ending free
  obtain ⟨whole, _⟩ := only.unique (leadsUp_front word).free (isMark_ending blank) (ahead ▸ quotes)
  have passed := (leadsUp_front word).passes (by decide) '(' (by simp [← whole])
  exact absurd passed (by decide)

theorem found_eq_nil {text : List Char} {form : Pattern}
    (nothing : ∀ v u, text = v ++ u → ∀ m, m ∉ form.ways ⟨(Cursor.ofText text).beyond v u, []⟩) (index : Text.LineIndex) :
    found text index form = [] := by
  have none : form.searchFrom (.ofText text) = none := by
    apply searchFrom_eq_none
    intro v u cut
    exact List.eq_nil_iff_forall_not_mem.mpr (nothing v u cut)
  rw [found, findAll, matchesFrom_eq_nil none]
  rfl

/-- The first form finds the module of the statement and nothing else. -/
theorem found_fromClause_statement (word : ∀ c ∈ name, Text.isWord c = true) (free : ∀ c ∈ spec, isMark c = false)
    (blank : ∀ c ∈ ending, Text.isBlank c = true) (present : spec ≠ []) (index : Text.LineIndex) :
    found (statement name spec ending) index fromClause = [(0, ⟨String.ofList spec, index.lineOf 0⟩)] := by
  have first := matchAt?_of_unique (mem_fromClause_statement word free present)
    fun m member => (fromClause_statement word free blank member).2
  have moves : 0 < 0 + Text.byteLength (front name ++ '\'' :: (spec ++ ['\''])) := by
    have mark : '\''.utf8Size = 1 := by decide
    simp only [Text.byteLength_append, Text.byteLength_cons]
    omega
  have later : fromClause.searchFrom (behind ⟨.ofText (statement name spec ending), []⟩ (front name) '\'' spec '\''
      (';' :: ending)).place = none := by
    apply searchFrom_eq_none
    intro v u cut
    refine List.eq_nil_iff_forall_not_mem.mpr fun m member => ?_
    obtain ⟨_, a, w, b, u', _, _, quotes, _⟩ := mem_ways_fromClause.mp member
    have outer : a ∈ ';' :: ending := by
      have rest : ';' :: ending = v ++ u := cut
      have inner : u = _ := quotes.whole
      rw [rest, inner]
      simp
    exact Bool.false_ne_true ((isMark_ending blank a outer).symm.trans quotes.opens)
  rw [found, findAll, matchesFrom_succ (searchFrom_of_matchAt? first) moves, matchesFrom_eq_nil later]
  simp only [List.filterMap_cons, group?_behind, Option.map_some, List.filterMap_nil]
  rfl

theorem onCodeLine_first (text : List Char) (specifier : String) :
    onCodeLine (Text.lines ('i' :: text)) ⟨specifier, 1⟩ = true := by
  obtain ⟨line, first⟩ := Text.lines_head? (c := 'i') text (by decide) (by decide)
  rw [List.head?_eq_getElem?] at first
  have solid : Text.trimStart ('i' :: line) = 'i' :: line := by
    rw [Text.trimStart, List.dropWhile_cons_of_neg (by decide)]
  change (Text.lines ('i' :: text))[0]?.all (!isCommentLine ·) = true
  rw [first, Option.all_some, isCommentLine, solid]
  rfl

/-- In a source of one import statement, the module that it names is the only one, on line 1; a module
without a name is none. -/
theorem ofText_statement (word : ∀ c ∈ name, Text.isWord c = true) (free : ∀ c ∈ spec, isMark c = false)
    (blank : ∀ c ∈ ending, Text.isBlank c = true) :
    ofText (statement name spec ending) = if spec = [] then [] else [⟨String.ofList spec, 1⟩] := by
  have sideEffect := found_eq_nil (fun v u cut m => sideEffect_statement (m := m) word free blank cut rfl)
    (.ofText (statement name spec ending))
  have call := found_eq_nil (fun v u cut m => call_statement (m := m) word free blank cut rfl)
    (.ofText (statement name spec ending))
  have line : (Text.LineIndex.ofText (statement name spec ending)).lineOf 0 = 1 := by
    rw [Text.lineOf_ofText, Text.feedsBelow_eq_zero (Nat.zero_le _)]
  simp only [ofText, List.flatMap_cons, List.flatMap_nil, sideEffect, call]
  by_cases present : spec = []
  · have nothing : ∀ index, found (statement name spec ending) index fromClause = [] := by
      apply found_eq_nil
      intro v u cut m member
      obtain ⟨_, _, _, _, _, _, _, quotes, some, _⟩ := mem_ways_fromClause.mp member
      have only : Quotes (v ++ u) (front name) '\'' spec '\'' (';' :: ending) := cut ▸ quotes_statement ending free
      obtain ⟨_, _, same, _⟩ := only.unique (leadsUp_front word).free (isMark_ending blank) quotes
      exact some (same.trans present)
    rw [if_pos present, nothing]
    simp [dropRepeats]
  · rw [if_neg present, found_fromClause_statement word free blank present, line]
    have code : onCodeLine (Text.lines (statement name spec ending)) ⟨String.ofList spec, 1⟩ = true :=
      onCodeLine_first _ _
    simp [code, dropRepeats]

end Statement

end Source.Import

end Conformance
