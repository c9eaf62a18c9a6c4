import Conformance.Check.References
import Conformance.Proofs.Document.Headings
import Conformance.Proofs.Document.Prose

namespace Conformance.Check.References

open Document

/-- The line of prose with this number stands strictly between the first heading of the guides and the next heading of
its level. -/
def InGuides (text : List Char) : Nat → List Char → Prop :=
  Below (leads "## Guides") (leads "## ") (prose text)

variable {text other : List Char}

theorem guideRows_eq (text : List Char) : guideRows text =
    (below (leads "## Guides") (leads "## ") (prose text)).filter fun row => leads "|" row.2 := rfl

theorem mem_guideRows {n : Nat} {line : List Char} :
    (n, line) ∈ guideRows text ↔ InGuides text n line ∧ leads "|" line = true := by
  rw [guideRows_eq, List.mem_filter, mem_below (pairwise_prose text)]
  rfl

theorem pairwise_guideRows (text : List Char) : (guideRows text).Pairwise fun a b => a.1 < b.1 := by
  rw [guideRows_eq]
  exact ((pairwise_prose text).sublist (below_sublist _ _ _)).filter _

theorem guideRows_congr (same : ∀ n line, InGuides text n line ↔ InGuides other n line) :
    guideRows text = guideRows other := by
  refine eq_of_mem_iff (pairwise_guideRows text) (pairwise_guideRows other) ?_
  rintro ⟨n, line⟩
  rw [mem_guideRows, mem_guideRows, same]

/-- The rows of the table of guides are exactly the lines of prose that begin with a bar and stand strictly between the
first heading of the guides and the next heading of that level, in their order and with their own numbers. So two texts
with the same numbered prose between these headings have the same violations of links, whatever stands elsewhere. -/
theorem guideLinks_of_guides :
    (∀ text, (guideRows text).Pairwise (fun a b => a.1 < b.1) ∧
      ∀ n line, (n, line) ∈ guideRows text ↔ InGuides text n line ∧ leads "|" line = true) ∧
    ∀ (repo : Repository) (text other : List Char), (∀ n line, InGuides text n line ↔ InGuides other n line) →
      guideLinks repo text = guideLinks repo other := by
  refine ⟨fun text => ⟨pairwise_guideRows text, fun _ _ => mem_guideRows⟩, fun repo text other same => ?_⟩
  rw [guideLinks, guideLinks, guideRows_congr same]

/-- A guide with tables above and below that of the guides, and a heading in fenced code. -/
def tabledGuide : List Char :=
  "| x |\n## Guides\n```\n## Code\n```\n| [a](docs/a.md) |\n## Other\n## Guides\n| y |".toList

def plainGuide : List Char :=
  "\n ## Guides on\n```\n\n```\n| [a](docs/a.md) |\n## Rest".toList

def guideless : Repository := ⟨⟨.dir [("AGENTS.md", .file ByteArray.empty)], []⟩, .ofRoot "/"⟩

theorem tabledGuide_links : (∀ n line, InGuides tabledGuide n line ↔ InGuides plainGuide n line) ∧
    guideRows tabledGuide = [(6, "| [a](docs/a.md) |".toList)] ∧
    guideLinks guideless tabledGuide = guideLinks guideless plainGuide := by
  have row : below (leads "## Guides") (leads "## ") (prose tabledGuide) = [(6, "| [a](docs/a.md) |".toList)] := by
    decide +kernel
  have row' : below (leads "## Guides") (leads "## ") (prose plainGuide) = [(6, "| [a](docs/a.md) |".toList)] := by
    decide +kernel
  have same : ∀ n line, InGuides tabledGuide n line ↔ InGuides plainGuide n line := by
    intro n line
    rw [InGuides, InGuides, ← mem_below (pairwise_prose _), ← mem_below (pairwise_prose _), row, row']
  refine ⟨same, ?_, guideLinks_of_guides.2 guideless tabledGuide plainGuide same⟩
  rw [guideRows_eq, row]
  rfl

end Conformance.Check.References
