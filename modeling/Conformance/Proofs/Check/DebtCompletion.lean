import Conformance.Proofs.Check.OpenItems
import Conformance.Proofs.FileSystem.Growth
import Conformance.Proofs.Pattern.Following
import Conformance.Proofs.Text.Parts

namespace Conformance.Check.Debt

open Document Text FileSystem

variable {repo : Repository} {other : FileSystem}

section Evidence

namespace Evidence

theorem readAnd_iff {test : List Char → Bool} {p : Path} :
    readAnd repo test p = true ↔ ∃ text, repo.files.read p = .ok text ∧ test text = true := by
  rw [readAnd]
  cases repo.files.read p <;> simp

theorem holds_file_iff {path : String} {markers : List String} : (file path markers).holds repo = true ↔
    ∃ text, repo.files.read (repo.layout.root / path) = .ok text ∧ ∀ marker ∈ markers, marker.toList <:+: text := by
  rw [holds, readAnd_iff]
  simp only [List.all_eq_true, contains_iff]

theorem holds_usage_iff {scope : Scope} {pattern : Pattern} {least : Nat} {what : String} :
    (usage scope pattern least what).holds repo = true ↔ ∃ users : List Path, users.Sublist (scope.files repo) ∧
      least ≤ users.length ∧ ∀ p ∈ users, ∃ text, repo.files.read p = .ok text ∧ pattern.occursIn text = true := by
  simp only [holds, decide_eq_true_eq, ← readAnd_iff, List.countP_eq_length_filter]
  constructor
  · intro enough
    exact ⟨_, List.filter_sublist, enough, fun p member => List.of_mem_filter member⟩
  · rintro ⟨users, within, enough, each⟩
    have kept := within.filter (readAnd repo pattern.occursIn)
    rw [List.filter_eq_self.mpr each] at kept
    exact enough.trans kept.length_le

end Evidence

theorem files_grows (grows : repo.files.Grows other) (scope : Scope) :
    (scope.files repo).Sublist (scope.files ⟨other, repo.layout⟩) := by
  cases scope with
  | handlers => exact grows.collectFiles _ _ _
  | backendTests => exact grows.collectFiles _ _ _

def Evidence.lasts : Evidence → Bool
  | file _ _ => true
  | usage _ pattern _ _ => pattern.lasts

theorem rules_last : ∀ rule ∈ rules, ∀ e ∈ rule.evidence, e.lasts = true := by
  decide

theorem Evidence.holds_grows {e : Evidence} (lasts : e.lasts = true) (grows : repo.files.Grows other)
    (held : e.holds repo = true) : e.holds ⟨other, repo.layout⟩ = true := by
  cases e with
  | file path markers =>
    obtain ⟨text, read, marked⟩ := holds_file_iff.mp held
    obtain ⟨more, read'⟩ := grows.read read
    exact holds_file_iff.mpr ⟨_, read', fun marker listed => (marked marker listed).trans (List.prefix_append _ _).isInfix⟩
  | usage scope pattern least what =>
    obtain ⟨users, within, enough, each⟩ := holds_usage_iff.mp held
    refine holds_usage_iff.mpr ⟨users, within.trans (files_grows grows scope), enough, fun p member => ?_⟩
    obtain ⟨text, read, occurs⟩ := each p member
    obtain ⟨more, read'⟩ := grows.read read
    exact ⟨_, read', Pattern.occursIn_append_of_lasts lasts occurs more⟩

end Evidence

section Rules

def Rule.IsDone (repo : Repository) (rule : Rule) : Prop :=
  ∀ e ∈ rule.evidence, e.holds repo = true

def doneRule? (repo : Repository) (label : String) : Option Rule :=
  (rules.find? (·.label == label)).filter fun rule => rule.evidence.all (Evidence.holds repo)

theorem rules_distinct : rules.Pairwise fun a b => a.label ≠ b.label := by
  decide

theorem find?_rules {label : String} {rule : Rule} :
    rules.find? (·.label == label) = some rule ↔ rule ∈ rules ∧ rule.label = label := by
  constructor
  · intro found
    exact ⟨List.mem_of_find?_eq_some found, eq_of_beq (List.find?_some (p := fun r : Rule => r.label == label) found)⟩
  · rintro ⟨listed, rfl⟩
    obtain ⟨front, back, whole⟩ := List.append_of_mem listed
    have distinct := rules_distinct
    rw [whole, List.pairwise_append] at distinct
    refine List.find?_eq_some_iff_append.mpr ⟨beq_self_eq_true _, front, back, whole, fun earlier inside => ?_⟩
    have apart : earlier.label ≠ rule.label := distinct.2.2 earlier inside rule List.mem_cons_self
    simpa using apart

theorem doneRule?_eq_some_iff {label : String} {rule : Rule} :
    doneRule? repo label = some rule ↔ rule ∈ rules ∧ rule.IsDone repo ∧ rule.label = label := by
  rw [doneRule?, Option.filter_eq_some_iff, find?_rules, List.all_eq_true]
  exact ⟨fun ⟨⟨listed, own⟩, done⟩ => ⟨listed, done, own⟩, fun ⟨listed, done, own⟩ => ⟨⟨listed, own⟩, done⟩⟩

theorem doneRule?_grows (grows : repo.files.Grows other) {label : String} {rule : Rule}
    (done : doneRule? repo label = some rule) : doneRule? ⟨other, repo.layout⟩ label = some rule := by
  obtain ⟨listed, held, own⟩ := doneRule?_eq_some_iff.mp done
  have held' : rule.IsDone ⟨other, repo.layout⟩ :=
    fun e inside => Evidence.holds_grows (rules_last rule listed e inside) grows (held e inside)
  exact doneRule?_eq_some_iff.mpr ⟨listed, held', own⟩

end Rules

def doneItems (repo : Repository) (text : List Char) : List (Nat × Rule) :=
  (openItems text).filterMap fun item => (doneRule? repo item.2).map (item.1, ·)

variable {text : List Char}

theorem find_eq (read : repo.files.read (repo.layout.root / qualityReport) = .ok text) :
    find repo = (doneItems repo text).map fun item => violation item.1 item.2 := by
  rw [find, FileSystem.isFile_of_read read]
  simp only [Bool.not_true, Bool.false_eq_true, if_false, read]
  rw [doneItems, List.map_filterMap]
  refine congrArg (List.filterMap · (openItems text)) (funext fun item => ?_)
  obtain ⟨number, label⟩ := item
  rw [doneRule?]
  cases rules.find? (·.label == label) with
  | none => rfl
  | some rule =>
    simp only [Option.bind_eq_bind, Option.bind_some, Option.filter_some]
    cases rule.evidence.all (Evidence.holds repo) <;> rfl

theorem mem_doneItems {number : Nat} {rule : Rule} : (number, rule) ∈ doneItems repo text ↔
    rule ∈ rules ∧ rule.IsDone repo ∧ ∃ line label, Below isHeading endsOpen (numberedLines text) number line ∧
      IsOpenItem line label ∧ String.ofList (trim label) = rule.label := by
  rw [doneItems, openItems_eq, List.mem_filterMap]
  constructor
  · rintro ⟨⟨n, name⟩, inside, done⟩
    obtain ⟨⟨m, line⟩, lower, read⟩ := List.mem_filterMap.mp inside
    obtain ⟨found, done, same⟩ := Option.map_eq_some_iff.mp done
    obtain ⟨rfl, label, item, rfl⟩ := readItem_eq_some_iff.mp read
    cases same
    obtain ⟨listed, held, own⟩ := doneRule?_eq_some_iff.mp done
    exact ⟨listed, held, line, label, (mem_below (pairwise_numberedLines text)).mp lower, item, own.symm⟩
  · rintro ⟨listed, held, line, label, lower, item, own⟩
    refine ⟨(number, rule.label), List.mem_filterMap.mpr ⟨(number, line), ?_, ?_⟩, ?_⟩
    · exact (mem_below (pairwise_numberedLines text)).mpr lower
    · exact readItem_eq_some_iff.mpr ⟨rfl, label, item, own⟩
    · exact Option.map_eq_some_iff.mpr ⟨rule, doneRule?_eq_some_iff.mpr ⟨listed, held, rfl⟩, rfl⟩

theorem pairwise_doneItems (repo : Repository) (text : List Char) :
    (doneItems repo text).Pairwise fun a b => a.1 < b.1 := by
  have ordered := (pairwise_numberedLines text).sublist (below_sublist isHeading endsOpen (numberedLines text))
  rw [doneItems, openItems_eq, List.filterMap_filterMap]
  refine ordered.filterMap _ ?_
  have own : ∀ (x : Nat × List Char) (item : Nat × Rule),
      ((readItem x).bind fun y => (doneRule? repo y.2).map (y.1, ·)) = some item → item.1 = x.1 := by
    intro x item found
    obtain ⟨⟨n, name⟩, read, done⟩ := Option.bind_eq_some_iff.mp found
    obtain ⟨rule, _, rfl⟩ := Option.map_eq_some_iff.mp done
    exact (readItem_eq_some_iff.mp read).1.symm
  intro x y lt a first b second
  rw [own x a first, own y b second]
  exact lt

theorem filterMap_sublist {α β : Type} {f g : α → Option β} (kept : ∀ x y, f x = some y → g x = some y) (items : List α) :
    (items.filterMap f).Sublist (items.filterMap g) := by
  induction items with
  | nil => exact .slnil
  | cons x items ih =>
    cases own : f x with
    | none =>
      rw [List.filterMap_cons_none own, ← List.singleton_append, List.filterMap_append]
      exact ih.trans (List.sublist_append_right _ _)
    | some y =>
      rw [List.filterMap_cons_some own, List.filterMap_cons_some (kept x y own)]
      exact ih.cons_cons y

theorem doneItems_grows (grows : repo.files.Grows other) (text more : List Char) :
    (doneItems repo text).Sublist (doneItems ⟨other, repo.layout⟩ (text ++ more)) := by
  have kept : (doneItems repo text).Sublist (doneItems ⟨other, repo.layout⟩ text) := by
    refine filterMap_sublist (fun item done found => ?_) (openItems text)
    obtain ⟨rule, own, rfl⟩ := Option.map_eq_some_iff.mp found
    exact Option.map_eq_some_iff.mpr ⟨rule, doneRule?_grows grows own, rfl⟩
  exact kept.trans ((openItems_append text more).filterMap _)

/-- The violations are those of the open items that stand below the heading of the open debt, down to the next heading of
its level that is not such a heading, with a label that is that of a rule whose evidence all holds: one for each, in the
order of their lines. They all stay, in that order, when the tree grows: when directories, links and files are put into it
and text is put behind that of files, even behind the report. -/
theorem openDebt_exact :
    (∀ (repo : Repository) (text : List Char), repo.files.read (repo.layout.root / qualityReport) = .ok text →
      ∃ done : List (Nat × Rule), openDebt.find repo = .ok (done.map fun item => violation item.1 item.2) ∧
        done.Pairwise (fun a b => a.1 < b.1) ∧
        ∀ number rule, (number, rule) ∈ done ↔ rule ∈ rules ∧ (∀ e ∈ rule.evidence, e.holds repo = true) ∧
          ∃ line label, Below isHeading endsOpen (numberedLines text) number line ∧ IsOpenItem line label ∧
            String.ofList (trim label) = rule.label) ∧
    (∀ (repo : Repository) (text : List Char) (other : FileSystem),
      repo.files.read (repo.layout.root / qualityReport) = .ok text → repo.files.Grows other →
      ∃ found found', openDebt.find repo = .ok found ∧ openDebt.find ⟨other, repo.layout⟩ = .ok found' ∧
        found.Sublist found') ∧
    ∀ (files : FileSystem) (p : Path) (content : Option Content),
      files.root.WellFormed → files.Adds p content → files.Grows (files.put p content).files := by
  refine ⟨fun repo text read => ?_, fun repo text other read grows => ?_, fun files p content => grows_put⟩
  · exact ⟨doneItems repo text, congrArg Except.ok (find_eq read), pairwise_doneItems repo text, fun _ _ => mem_doneItems⟩
  · obtain ⟨more, read'⟩ := grows.read read
    refine ⟨_, _, congrArg Except.ok (find_eq read), congrArg Except.ok (find_eq read'), ?_⟩
    exact (doneItems_grows grows text more).map _

def sampleReport : String :=
  "## Active Tech Debt\n- [ ] **Shared test utilities**"

def importingTest : Node :=
  .file "'../test-utils/index.js'".toUTF8

def sampleTree (report : Node) (tests : List (String × Node)) : Node :=
  .dir [("docs", .dir [("quality-grades.md", report)]),
    ("packages", .dir [("functions", .dir [("src", .dir [("test-utils", .dir [("firestore-mock.ts", .file .empty),
      ("index.ts", .file .empty)]), ("tests", .dir tests)])])])]

def sampleTests : List (String × Node) :=
  [("b.test.ts", importingTest), ("c.test.ts", importingTest)]

def sampleRepo : Repository :=
  ⟨⟨sampleTree (.file sampleReport.toUTF8) (("a.test.ts", importingTest) :: sampleTests), []⟩, .ofRoot "/"⟩

def grownFiles : FileSystem :=
  ⟨sampleTree (.file (sampleReport.toUTF8 ++ (String.ofList "\n## More".toList).toUTF8))
    (("a.test.ts", importingTest) :: ("a2.test.ts", .file .empty) :: sampleTests), []⟩

theorem sampleRepo_grows : sampleRepo.files.Grows grownFiles := by
  have docs : Node.Grows (.dir [("quality-grades.md", .file sampleReport.toUTF8)])
      (.dir [("quality-grades.md", .file (sampleReport.toUTF8 ++ (String.ofList "\n## More".toList).toUTF8))]) :=
    .keep (.file _ _) .empty
  have tests : Node.Grows (.dir (("a.test.ts", importingTest) :: sampleTests))
      (.dir (("a.test.ts", importingTest) :: ("a2.test.ts", .file .empty) :: sampleTests)) :=
    .keep (.refl importingTest) (.add rfl (.refl (.dir sampleTests)))
  exact ⟨.keep docs (.keep (.keep (.keep (.keep (.refl _) (.keep tests .empty)) .empty) .empty) .empty), rfl⟩

theorem sampleRepo_openDebt : sampleRepo.files.read (sampleRepo.layout.root / qualityReport) = .ok sampleReport.toList ∧
    sampleRepo.files.Grows grownFiles ∧
    (∃ done : List (Nat × Rule), openDebt.find sampleRepo = .ok (done.map fun item => violation item.1 item.2) ∧
      done.map (fun item => violation item.1 item.2) = [violation 2 rules[2]]) ∧
    (∃ found found', openDebt.find sampleRepo = .ok found ∧ openDebt.find ⟨grownFiles, sampleRepo.layout⟩ = .ok found' ∧
      found.Sublist found') ∧
    sampleRepo.files.Grows (sampleRepo.files.put "/docs/notes.md" (some (.file "later".toUTF8))).files := by
  have read : sampleRepo.files.read (sampleRepo.layout.root / qualityReport) = .ok sampleReport.toList :=
    read_of_toUTF8 (by rfl)
  obtain ⟨done, found, _, _⟩ := openDebt_exact.1 sampleRepo sampleReport.toList read
  have own : rules[2].label = "Shared test utilities" := by rfl
  have holds : rules[2].IsDone sampleRepo := by
    simp only [Rule.IsDone, rules, List.getElem_cons_succ, List.getElem_cons_zero, List.forall_mem_cons]
    exact ⟨by decide +kernel, by decide +kernel, by decide +kernel, by simp⟩
  have complete : doneRule? sampleRepo "Shared test utilities" = some rules[2] :=
    doneRule?_eq_some_iff.mpr ⟨List.getElem_mem _, holds, own⟩
  have items : doneItems sampleRepo sampleReport.toList = [(2, rules[2])] := by
    rw [doneItems, show openItems sampleReport.toList = [(2, "Shared test utilities")] by decide +kernel]
    exact List.filterMap_cons_some (congrArg (Option.map (2, ·)) complete)
  have reported : openDebt.find sampleRepo = .ok [violation 2 rules[2]] := by
    refine congrArg Except.ok ((find_eq read).trans ?_)
    rw [items, List.map_cons, List.map_nil]
  have fresh : sampleRepo.files.Adds "/docs/notes.md" (some (.file "later".toUTF8)) := by
    intro _ _ old leads
    have free : (sampleRepo.files.makeParents "/docs/notes.md").files.node? "/docs/notes.md" = none := by rfl
    cases free.symm.trans leads
  exact ⟨read, sampleRepo_grows, ⟨done, found, Except.ok.inj (found.symm.trans reported)⟩,
    openDebt_exact.2.1 sampleRepo sampleReport.toList grownFiles read sampleRepo_grows,
    openDebt_exact.2.2 sampleRepo.files "/docs/notes.md" (some (.file "later".toUTF8)) (by decide) fresh⟩

end Conformance.Check.Debt
