import Conformance.Proofs.Check.Scan
import Conformance.Proofs.Document.Prose
import Conformance.Proofs.FileSystem.Overwrite

namespace Conformance

open FileSystem

/-- The other files have the same paths, and every path is read alike or as a text with other fenced code. -/
structure FileSystem.Refenced (files other : FileSystem) : Prop where
  shape : files.shape = other.shape
  texts : ∀ p, other.read p = files.read p ∨
    ∃ text text', files.read p = .ok text ∧ other.read p = .ok text' ∧ Document.Refenced text text'

namespace Check

def documentChecks : List Check :=
  [mapReferences, agentsReferences, documentLinks]

namespace References

variable {text other : List Char}

theorem onProse_of_refenced (refenced : Document.Refenced text other) (extract : List Char → List (List Char)) :
    onProse extract other = onProse extract text := by
  rw [onProse, onProse, Document.prose_of_refenced refenced]

theorem guideRows_of_refenced (refenced : Document.Refenced text other) : guideRows other = guideRows text := by
  rw [guideRows, guideRows, Document.prose_of_refenced refenced]

theorem agentsPaths_of_refenced (refenced : Document.Refenced text other) (repo : Repository) :
    agentsPaths repo other = agentsPaths repo text := by
  rw [agentsPaths, agentsPaths, onProse_of_refenced refenced]

theorem guideLinks_of_refenced (refenced : Document.Refenced text other) (repo : Repository) :
    guideLinks repo other = guideLinks repo text := by
  rw [guideLinks, guideLinks, guideRows_of_refenced refenced]

variable {files files' : FileSystem} (refenced : files.Refenced files') (layout : Layout)

include refenced

theorem agents_of_refenced : agents ⟨files', layout⟩ = agents ⟨files, layout⟩ := by
  have dangling := isDangling_of_shape refenced.shape layout
  have paths : ∀ text, agentsPaths ⟨files', layout⟩ text = agentsPaths ⟨files, layout⟩ text := fun text => by
    rw [agentsPaths, agentsPaths, dangling]
  have links : ∀ text, guideLinks ⟨files', layout⟩ text = guideLinks ⟨files, layout⟩ text := fun text => by
    simp only [guideLinks, guideViolation?, dangling]
  simp only [agents]
  rw [isFile_of_shape refenced.shape]
  rcases refenced.texts (layout.root / agentsFile) with same | ⟨text, text', read, read', fenced⟩
  · simp only [same, paths, links]
  · simp only [read, read', paths, links, agentsPaths_of_refenced fenced, guideLinks_of_refenced fenced]

end References

theorem find_of_refenced (scan : Scan) {files other : FileSystem} (refenced : files.Refenced other) (layout : Layout)
    (prose : ∀ repo p file text text', Document.Refenced text text' →
      scan.inspect repo p file text' = scan.inspect repo p file text) :
    scan.check.find ⟨other, layout⟩ = scan.check.find ⟨files, layout⟩ := by
  obtain ⟨paths, inspect⟩ := scan.blind refenced.shape layout
  rw [scan.find_eq, scan.find_eq, ← paths]
  refine congrArg Except.ok (List.flatMap_congr fun p _ => ?_)
  rw [← inspect]
  rcases refenced.texts p with same | ⟨text, text', read, read', fenced⟩
  · exact Repository.inspectFile_congr same _
  · simp only [Repository.inspectFile, Repository.relative, read, read', prose _ p _ text text' fenced]

theorem run_of_refencedFiles {files other : FileSystem} (refenced : files.Refenced other) (layout : Layout) {check : Check}
    (listed : check ∈ documentChecks) : run ⟨other, layout⟩ check = run ⟨files, layout⟩ check := by
  have found : check.find ⟨other, layout⟩ = check.find ⟨files, layout⟩ := by
    simp only [documentChecks, List.mem_cons, List.not_mem_nil, or_false] at listed
    rcases listed with rfl | rfl | rfl
    · refine find_of_refenced mapScan refenced layout fun repo p file text text' fenced => ?_
      simp only [mapScan, References.onProse_of_refenced fenced]
    · exact congrArg Except.ok (References.agents_of_refenced refenced layout)
    · refine find_of_refenced linkScan refenced layout fun repo p file text text' fenced => ?_
      simp only [linkScan, References.onProse_of_refenced fenced]
  unfold run
  rw [found]

theorem refenced_overwrite {files : FileSystem} {place : List String} {content : ByteArray} {text : String}
    {other : List Char} (held : files.root.at? place = some (.file content))
    (decoded : String.fromUTF8? content = some text) (refenced : Document.Refenced text.toList other) :
    files.Refenced (files.overwrite place (String.ofList other).toUTF8) where
  shape := (alikeOutside_overwrite files place _).shape
  texts p := (read_overwrite held decoded other p).imp_right fun reads => ⟨_, _, reads.1, reads.2, refenced⟩

/-- Other lines inside fenced code of a file change no result of the checks of documents: these see the prose of a text,
which is, in their order and with their numbers, the lines that are no fences and have an even number of fences above
them. -/
theorem run_of_refenced : (∀ text : List Char,
      ((Document.prose text).Pairwise fun x y => x.1 < y.1) ∧
      ∀ n line, (n, line) ∈ Document.prose text ↔ ∃ above below, Text.lines text = above ++ line :: below ∧
        n = above.length + 1 ∧ Document.isFence line = false ∧ Even (above.countP Document.isFence)) ∧
    ∀ check ∈ [mapReferences, agentsReferences, documentLinks], ∀ (files : FileSystem) (layout : Layout)
      (place : List String) (content : ByteArray) (text : String) (other : List Char),
      files.root.at? place = some (.file content) → String.fromUTF8? content = some text →
      Document.Refenced text.toList other →
      run ⟨files.overwrite place (String.ofList other).toUTF8, layout⟩ check = run ⟨files, layout⟩ check :=
  ⟨fun text => ⟨Document.pairwise_prose text, fun _ _ => Document.mem_prose⟩,
    fun _ listed _ layout _ _ _ _ held decoded refenced =>
      run_of_refencedFiles (refenced_overwrite held decoded refenced) layout listed⟩

def fencedGuide : String :=
  "# Agents\n```sh\nls `docs/a.md`\n\n```\nSee `docs/b.md`.\n| [b](b.md) |\n"

/-- The guide with the heading and a row of the table of guides in its fenced code. -/
def refencedGuide : List Char :=
  "# Agents\n```sh\n## Guides\n| [a](a.md) |\n```\nSee `docs/b.md`.\n| [b](b.md) |\n".toList

def guideFiles : FileSystem :=
  ⟨.dir [("repo", .dir [("AGENTS.md", .file fencedGuide.toUTF8)])], []⟩

theorem guideFiles_refenced : (run ⟨guideFiles, .ofRoot "/repo"⟩ agentsReferences).passed = false ∧
    Document.Refenced fencedGuide.toList refencedGuide ∧
    run ⟨guideFiles.overwrite ["repo", "AGENTS.md"] (String.ofList refencedGuide).toUTF8, .ofRoot "/repo"⟩ agentsReferences =
      run ⟨guideFiles, .ofRoot "/repo"⟩ agentsReferences := by
  have refenced : Document.Refenced fencedGuide.toList refencedGuide := by
    refine ⟨["# Agents".toList, "```sh".toList], ["ls `docs/a.md`".toList, []],
      ["## Guides".toList, "| [a](a.md) |".toList], ["```".toList, "See `docs/b.md`.".toList, "| [b](b.md) |".toList], ?_⟩
    decide +kernel
  have decoded := fromUTF8?_toUTF8 fencedGuide
  exact ⟨by decide +kernel, refenced, run_of_refenced.2 agentsReferences (by simp) guideFiles _ _ _ _ _ rfl decoded refenced⟩

end Check

end Conformance
