import Conformance.Check.Freshness
import Conformance.Proofs.Calendar.Spelling
import Conformance.Proofs.Layout.Spelling
import Conformance.Proofs.Pattern.Members
import Conformance.Proofs.Text.Classes

namespace Conformance

namespace Freshness

open Pattern

def IsDateText (date : List Char) : Prop :=
  ∃ year month day, date = year ++ '-' :: (month ++ '-' :: day) ∧ year.length = 4 ∧ month.length = 2 ∧ day.length = 2 ∧
    ∀ c ∈ year ++ (month ++ day), Text.isDecimal c = true

def TellsBehind (text front date : List Char) : Prop :=
  ∃ gap back, text = front ++ ("Last updated:".toList ++ (gap ++ (date ++ back))) ∧
    (∀ c ∈ gap, Text.isBlank c = true) ∧ IsDateText date

def FirstTold (text date : List Char) : Prop :=
  ∃ front, TellsBehind text front date ∧ ∀ front' date', TellsBehind text front' date' → front.length ≤ front'.length

section Search

variable {s m : Progress} {place : Cursor} {text date : List Char}

theorem IsDateText.length (shaped : IsDateText date) : date.length = 10 := by
  obtain ⟨year, month, day, rfl, four, two, two', _⟩ := shaped
  simp [four, two, two']

theorem IsDateText.stops_isBlank (shaped : IsDateText date) (back : List Char) : Stops Text.isBlank (date ++ back) := by
  obtain ⟨year, month, day, rfl, four, _, _, decimal⟩ := shaped
  obtain ⟨c, year, rfl⟩ := List.exists_cons_of_length_eq_add_one four
  exact stops_cons.mpr (Text.isBlank_of_isDecimal (decimal c (by simp)))

theorem mem_ways_digits {n : Nat} {parts : List Pattern} :
    m ∈ (chain (List.replicate n (char Text.isDecimal) ++ parts)).ways s ↔ ∃ w u, s.place.rest = w ++ u ∧ w.length = n ∧
      (∀ c ∈ w, Text.isDecimal c = true) ∧ m ∈ (chain parts).ways (s.beyond w u) := by
  induction n generalizing s with
  | zero =>
    constructor
    · intro way
      exact ⟨[], s.place.rest, rfl, rfl, by simp, by rwa [Progress.beyond_nil rfl]⟩
    · rintro ⟨w, u, cut, none, _, way⟩
      obtain rfl := List.length_eq_zero_iff.mp none
      have cut : s.place.rest = u := cut
      rwa [Progress.beyond_nil cut] at way
  | succ n ih =>
    rw [List.replicate_succ, List.cons_append, mem_ways_chain_cons]
    constructor
    · rintro ⟨t, first, more⟩
      obtain ⟨c, rest, ahead, digit, rfl⟩ := mem_ways_char.mp first
      obtain ⟨w, u, cut, length, digits, way⟩ := ih.mp more
      have cut : rest = w ++ u := cut
      refine ⟨c :: w, u, by rw [ahead, cut]; rfl, by simp [length], by simpa [digit] using digits, ?_⟩
      rwa [Progress.beyond_beyond, List.singleton_append] at way
    · rintro ⟨w, u, cut, length, digits, way⟩
      obtain ⟨c, w, rfl⟩ := List.exists_cons_of_length_eq_add_one length
      refine ⟨s.beyond [c] (w ++ u), mem_ways_char.mpr ⟨c, w ++ u, cut, digits c (by simp), rfl⟩, ih.mpr ?_⟩
      refine ⟨w, u, rfl, by simpa using length, fun d member => digits d (by simp [member]), ?_⟩
      rwa [Progress.beyond_beyond, List.singleton_append]

def dateText : Pattern :=
  chain (List.replicate 4 (char Text.isDecimal) ++ Pattern.text "-" ::
    (List.replicate 2 (char Text.isDecimal) ++ Pattern.text "-" :: (List.replicate 2 (char Text.isDecimal) ++ [])))

theorem lastUpdated_eq : lastUpdated = chain [Pattern.text "Last updated:", blanks, group 1 dateText] := rfl

theorem mem_ways_dateText :
    m ∈ dateText.ways s ↔ ∃ date u, s.place.rest = date ++ u ∧ IsDateText date ∧ m = s.beyond date u := by
  have hyphen : "-".toList = ['-'] := rfl
  constructor
  · intro way
    obtain ⟨year, u, cut, four, digits, way⟩ := mem_ways_digits.mp way
    obtain ⟨t, first, way⟩ := mem_ways_chain_cons.mp way
    obtain ⟨u₁, cut₁, rfl⟩ := mem_ways_text.mp first
    obtain ⟨month, u₂, cut₂, two, digits', way⟩ := mem_ways_digits.mp way
    obtain ⟨t, second, way⟩ := mem_ways_chain_cons.mp way
    obtain ⟨u₃, cut₃, rfl⟩ := mem_ways_text.mp second
    obtain ⟨day, u₄, cut₄, two', digits'', way⟩ := mem_ways_digits.mp way
    rw [mem_ways_chain_nil] at way
    simp only [Progress.beyond_place, Cursor.beyond_rest, hyphen] at cut₁ cut₂ cut₃ cut₄
    subst cut₁ cut₂ cut₃ cut₄ way
    refine ⟨year ++ '-' :: (month ++ '-' :: day), u₄, by simpa using cut, ?_, by simp [hyphen]⟩
    refine ⟨year, month, day, rfl, four, two, two', fun c member => ?_⟩
    rcases List.mem_append.mp member with inYear | later
    · exact digits c inYear
    · exact (List.mem_append.mp later).elim (digits' c) (digits'' c)
  · rintro ⟨_, u, cut, ⟨year, month, day, rfl, four, two, two', digits⟩, rfl⟩
    refine mem_ways_digits.mpr ⟨year, '-' :: (month ++ '-' :: (day ++ u)), by simpa using cut, four,
      fun c member => digits c (by simp [member]), ?_⟩
    refine mem_ways_chain_cons.mpr ⟨_, mem_ways_text.mpr ⟨month ++ '-' :: (day ++ u), rfl, rfl⟩, ?_⟩
    refine mem_ways_digits.mpr ⟨month, '-' :: (day ++ u), rfl, two, fun c member => digits c (by simp [member]), ?_⟩
    refine mem_ways_chain_cons.mpr ⟨_, mem_ways_text.mpr ⟨day ++ u, rfl, rfl⟩, ?_⟩
    refine mem_ways_digits.mpr ⟨day, u, rfl, two', fun c member => digits c (by simp [member]), ?_⟩
    rw [mem_ways_chain_nil]
    simp [hyphen]

def told (place : Cursor) (gap date back : List Char) : Progress :=
  let start := place.beyond ("Last updated:".toList ++ gap) (date ++ back)
  let stop := place.beyond ("Last updated:".toList ++ (gap ++ date)) back
  ⟨stop, [⟨1, start, stop⟩]⟩

theorem mem_ways_lastUpdated : m ∈ lastUpdated.ways ⟨place, []⟩ ↔ ∃ gap date back,
    place.rest = "Last updated:".toList ++ (gap ++ (date ++ back)) ∧ (∀ c ∈ gap, Text.isBlank c = true) ∧
      IsDateText date ∧ m = told place gap date back := by
  rw [lastUpdated_eq]
  constructor
  · intro way
    obtain ⟨t, label, way⟩ := mem_ways_chain_cons.mp way
    obtain ⟨u, cut, rfl⟩ := mem_ways_text.mp label
    obtain ⟨t, spaces, way⟩ := mem_ways_chain_cons.mp way
    obtain ⟨gap, u₁, cut₁, blank, rfl⟩ := mem_ways_most.mp spaces
    obtain ⟨t, group, way⟩ := mem_ways_chain_cons.mp way
    obtain ⟨t, inner, rfl⟩ := mem_ways_group.mp group
    obtain ⟨date, back, cut₂, shaped, rfl⟩ := mem_ways_dateText.mp inner
    rw [mem_ways_chain_nil] at way
    simp only [Progress.beyond_place, Cursor.beyond_rest] at cut cut₁ cut₂
    subst cut₁ cut₂ way
    refine ⟨gap, date, back, cut, blank, shaped, ?_⟩
    simp [told, Progress.beyond, Progress.moveTo, Progress.keep]
  · rintro ⟨gap, date, back, cut, blank, shaped, rfl⟩
    refine mem_ways_chain_cons.mpr ⟨_, mem_ways_text.mpr ⟨_, cut, rfl⟩, ?_⟩
    refine mem_ways_chain_cons.mpr ⟨_, mem_ways_most.mpr ⟨gap, date ++ back, rfl, blank, rfl⟩, ?_⟩
    refine mem_ways_chain_cons.mpr ⟨_, mem_ways_group.mpr ⟨_, mem_ways_dateText.mpr ⟨date, back, rfl, shaped, rfl⟩, rfl⟩, ?_⟩
    rw [mem_ways_chain_nil]
    simp [told, Progress.beyond, Progress.moveTo, Progress.keep]

theorem tellsBehind_of_way {v u : List Char} (cut : text = v ++ u)
    (way : m ∈ lastUpdated.ways ⟨(Cursor.ofText text).beyond v u, []⟩) : ∃ date, TellsBehind text v date := by
  obtain ⟨gap, date, back, ahead, blank, shaped, _⟩ := mem_ways_lastUpdated.mp way
  have ahead : u = "Last updated:".toList ++ (gap ++ (date ++ back)) := ahead
  exact ⟨date, gap, back, by rw [cut, ahead], blank, shaped⟩

theorem group?_of_firstTold (first : FirstTold text date) : (lastUpdated.find? text).bind (·.group? 1) = some date := by
  obtain ⟨front, ⟨gap, back, whole, blank, shaped⟩, least⟩ := first
  let ahead := "Last updated:".toList ++ (gap ++ (date ++ back))
  have refused : ∀ v u, front = v ++ u → u ≠ [] → lastUpdated.ways ⟨(Cursor.ofText text).beyond v (u ++ ahead), []⟩ = [] := by
    intro v u cut some
    refine List.eq_nil_iff_forall_not_mem.mpr fun m way => ?_
    obtain ⟨date', tells⟩ := tellsBehind_of_way (by rw [whole, cut, List.append_assoc]) way
    have atMost := least v date' tells
    have positive := List.length_pos_iff.mpr some
    rw [cut, List.length_append] at atMost
    omega
  let place := (Cursor.ofText text).beyond front ahead
  have only : ∀ t ∈ lastUpdated.ways ⟨place, []⟩, t = told place gap date back := by
    intro t way
    obtain ⟨gap', date', back', same, blank', shaped', rfl⟩ := mem_ways_lastUpdated.mp way
    have same : gap ++ (date ++ back) = gap' ++ (date' ++ back') := List.append_cancel_left same
    -- the blanks end where the digits begin
    have gaps : gap = gap' := by
      by_contra differ
      obtain ⟨c, next, accepted⟩ := goes_of_shorter same (shaped'.stops_isBlank back') blank' blank differ
      exact Bool.false_ne_true ((shaped.stops_isBlank back c next).symm.trans accepted)
    obtain ⟨rfl, rfl⟩ := List.append_inj (List.append_cancel_left (gaps ▸ same)) (shaped.length.trans shaped'.length.symm)
    rw [gaps]
  have found : lastUpdated.matchAt? place = some ⟨place, (told place gap date back).place, (told place gap date back).captures⟩ :=
    matchAt?_of_unique (mem_ways_lastUpdated.mpr ⟨gap, date, back, rfl, blank, shaped, rfl⟩) only
  have passed : lastUpdated.find? text = lastUpdated.searchFrom place := searchFrom_skip whole refused
  rw [passed, searchFrom_of_matchAt? found, Option.bind_some]
  have kept : (place.beyond ("Last updated:".toList ++ gap) (date ++ back)).textTo
      (place.beyond ("Last updated:".toList ++ (gap ++ date)) back) = date := by
    rw [← List.append_assoc, ← Cursor.beyond_beyond place ("Last updated:".toList ++ gap) date (date ++ back)]
    exact Cursor.textTo_beyond rfl
  exact congrArg some kept

end Search

section Age

open Date

variable {d : Date} {text : List Char}

theorem isDecimal_of_isDigit {c : Char} (digit : c.isDigit = true) : Text.isDecimal c = true := by
  have small : c.toNat < 128 := Text.toNat_lt_of_isAlphanum (by rw [Char.isAlphanum, digit, Bool.or_true])
  rw [Text.isDecimal, if_pos small, digit]

theorem isDateText_written (d : Date) : IsDateText d.written := by
  refine ⟨_, _, _, rfl, length_padded _ _, length_padded _ _, length_padded _ _, fun c member => ?_⟩
  apply isDecimal_of_isDigit
  rcases List.mem_append.mp member with inYear | later
  · exact isDigit_of_mem_padded inYear
  · exact (List.mem_append.mp later).elim isDigit_of_mem_padded isDigit_of_mem_padded

def tooOld (days : Nat) (date : List Char) : String :=
  s!"{qualityReport} was last updated {days} days ago ({String.ofList date}). {hint}"

theorem ofText_of_valid (writable : d.Writable) (valid : d.isValid = true) (first : FirstTold text d.written) (today : Date) :
    ofText text today = if d.daysUntil today > maxAge then
      outdated s!"{qualityReport} was last updated {d.daysUntil today} days ago ({String.ofList d.written}). {hint}"
    else fresh := by
  rw [ofText, group?_of_firstTold first]
  simp only [parse_spelled writable, valid, if_true]

theorem stale_iff (writable : d.Writable) (valid : d.isValid = true) (first : FirstTold text d.written) (today : Date) :
    (ofText text today).stale = true ↔ 7 < d.daysUntil today := by
  rw [ofText_of_valid writable valid first]
  by_cases old : d.daysUntil today > maxAge
  · rw [if_pos old]
    exact ⟨fun _ => old, fun _ => rfl⟩
  · rw [if_neg old]
    exact ⟨fun stale => absurd stale Bool.false_ne_true, fun old' => absurd old' old⟩

theorem message_eq (writable : d.Writable) (valid : d.isValid = true) (first : FirstTold text d.written) {n : Nat}
    (old : 7 < n) : (ofText text (next^[n] d)).message = tooOld n d.written := by
  rw [ofText_of_valid writable valid first, daysUntil_iterate_next valid, if_pos (show (n : Int) > maxAge from Int.ofNat_lt.mpr old)]
  rfl

theorem stale_of_invalid (writable : d.Writable) (invalid : d.isValid = false) (first : FirstTold text d.written)
    (today : Date) : (ofText text today).stale = true := by
  rw [ofText, group?_of_firstTold first]
  simp only [parse_spelled writable, invalid, Bool.false_eq_true, if_false]
  rfl

theorem onDay_eq {repo : Repository} (read : repo.files.read (repo.layout.root / qualityReport) = .ok text) (today : Date) :
    onDay repo today = ofText text today := by
  simp only [onDay, FileSystem.isFile_of_read read, Bool.not_true, Bool.false_eq_true, if_false, read]

/-- The age of a report is counted in days of the calendar. If the first date that its text tells is one of the calendar, it
is out of date exactly from the eighth day after that date on, with the number of the days in the message; it is recent on all
earlier dates, and once it is out of date it stays so. If the calendar does not have the date, it is out of date on every day. -/
theorem onDay_dated {repo : Repository} {text : List Char} {d : Date}
    (read : repo.files.read (repo.layout.root / qualityReport) = .ok text) (writable : d.Writable)
    (first : FirstTold text d.written) :
    (d.isValid = true →
      (∀ n : Nat, ((onDay repo (next^[n] d)).stale = true ↔ 7 < n) ∧
        (7 < n → (onDay repo (next^[n] d)).message = tooOld n d.written)) ∧
      (∀ today : Date, today.isValid = true → today < d → (onDay repo today).stale = false) ∧
      ∀ today later : Date, today.isValid = true → later.isValid = true → today < later →
        (onDay repo today).stale = true → (onDay repo later).stale = true) ∧
    (d.isValid = false → ∀ today, (onDay repo today).stale = true) := by
  simp only [onDay_eq read]
  refine ⟨fun valid => ⟨fun n => ⟨?_, message_eq writable valid first⟩, ?_, ?_⟩, fun invalid today =>
    stale_of_invalid writable invalid first today⟩
  · rw [stale_iff writable valid first, daysUntil_iterate_next valid]
    exact Int.ofNat_lt
  · intro today calendar earlier
    have below := dayNumber_lt_of_lt calendar valid earlier
    rw [Bool.eq_false_iff, ne_eq, stale_iff writable valid first, daysUntil]
    omega
  · intro today later calendar calendar' ordered stale
    have below := dayNumber_lt_of_lt calendar calendar' ordered
    rw [stale_iff writable valid first, daysUntil] at stale ⊢
    omega

def gradesOf (d : Date) : List Char :=
  "# Grades\n".toList ++ ("Last updated:".toList ++ ([' '] ++ (d.written ++ ['\n'])))

def gradesRepository (d : Date) : Repository :=
  let docs := .dir [("quality-grades.md", .file (String.ofList (gradesOf d)).toUTF8)]
  ⟨⟨.dir [("repo", .dir [("docs", docs)])], []⟩, .ofRoot "/repo"⟩

theorem firstTold_gradesOf (d : Date) : FirstTold (gradesOf d) d.written := by
  have blank : ∀ c ∈ [' '], Text.isBlank c = true := by decide
  refine ⟨"# Grades\n".toList, ⟨[' '], ['\n'], rfl, blank, isDateText_written d⟩, ?_⟩
  rintro front date ⟨gap, back, whole, _⟩
  by_contra shorter
  -- the label begins with a letter that the heading does not have
  have label : (gradesOf d)[front.length]? = some 'L' := by
    simp [whole]
  have heading : ∀ c ∈ "# Grades\n".toList, c ≠ 'L' := by simp
  have inHeading : ("# Grades\n".toList)[front.length]? = some 'L' :=
    (List.getElem?_append_left (Nat.lt_of_not_le shorter)).symm.trans label
  exact heading 'L' (List.mem_of_getElem? inHeading) rfl

theorem read_gradesRepository (d : Date) : (gradesRepository d).files.read ((gradesRepository d).layout.root / qualityReport) =
    .ok (gradesOf d) := by
  have place : ("/repo" : Path) / (qualityReport : Path) = "/repo/docs/quality-grades.md" := by decide
  have leads : (gradesRepository d).files.node? "/repo/docs/quality-grades.md" =
      some (.file (String.ofList (gradesOf d)).toUTF8) := by rfl
  rw [show (gradesRepository d).layout.root = "/repo" from rfl, place, FileSystem.read_of_toUTF8 leads, String.toList_ofList]

theorem grades_dated :
    let repo := gradesRepository ⟨2000, 2, 24⟩
    (next^[8] ⟨2000, 2, 24⟩ = ⟨2000, 3, 3⟩ ∧ (onDay repo ⟨2000, 3, 3⟩).stale = true ∧
      (onDay repo ⟨2000, 3, 3⟩).message = tooOld 8 "2000-02-24".toList ∧ (onDay repo ⟨1999, 12, 31⟩).stale = false ∧
      (onDay repo ⟨2001, 1, 1⟩).stale = true) ∧
    (onDay (gradesRepository ⟨1900, 2, 29⟩) ⟨1900, 2, 28⟩).stale = true := by
  intro repo
  refine ⟨?_, ?_⟩
  · have eighth : next^[8] ⟨2000, 2, 24⟩ = ⟨2000, 3, 3⟩ := by decide
    have read := read_gradesRepository ⟨2000, 2, 24⟩
    obtain ⟨days, earlier, later⟩ := (onDay_dated read (by decide) (firstTold_gradesOf _)).1 (by decide)
    have own := days 8
    rw [eighth] at own
    have stale : (onDay repo ⟨2000, 3, 3⟩).stale = true := own.1.mpr (by decide)
    exact ⟨eighth, stale, own.2 (by decide), earlier _ (by decide) (by decide),
      later _ _ (by decide) (by decide) (by decide) stale⟩
  · have read := read_gradesRepository ⟨1900, 2, 29⟩
    exact (onDay_dated read (by decide) (firstTold_gradesOf _)).2 (by decide) _

end Age

end Freshness

end Conformance
