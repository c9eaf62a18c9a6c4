import Conformance.Proofs.Check.EndpointAgreement
import Conformance.Proofs.Endpoint.Items

namespace Conformance.Check.Endpoints

open Endpoint

/-- The rules of a text that lists items are those of the items that have both parts. If they are the ones that
the entries of a manifest ask for, the check finds nothing wrong with the configuration. -/
theorem configuration_read {items : List Hosting.Item} {v : Json.Value} {text : List Char}
    (lists : Hosting.Lists items v) (written : Json.TextOf v text) :
    Hosting.rules text = .ok (items.filterMap Hosting.Item.rule?) ∧
    ∀ (repo : Repository) (entries : List Entry),
      repo.files.read (repo.layout.root / configurationName) = .ok text →
      items.filterMap Hosting.Item.rule? = HostingRule.expected entries → hostingViolations repo entries = [] := by
  have parsed := Hosting.rules_of_lists lists written
  refine ⟨parsed, ?_⟩
  intro repo entries reads same
  rw [hostingViolations_of_rules reads parsed, same, HostingRule.differences_self]
  rfl

section Sample

open Json Hosting

def sampleItems : List Item :=
  [⟨some "/api/dev/hook", some "devHook"⟩, ⟨none, none⟩, ⟨some "/api/dev/hook/**", some "devHook"⟩]

def sampleValue : Value :=
  let detailed := Value.object [("functionId".toList, .string "devHook".toList), ("region".toList, .list [.number])]
  let rules := Value.list
    [.object [("function".toList, detailed), ("source".toList, .string ('/' :: "api/dev/hook".toList))],
     .object [("source".toList, .null)],
     .object [("source".toList, .string ('/' :: "api/dev/hook/**".toList)), ("function".toList, .string "devHook".toList)]]
  .object [("v".toList, .number), ("hosting".toList, .object [("rewrites".toList, rules)])]

def sampleText : List Char :=
  " \x7b\"v\": -1.5e3,\n\"hosting\":\x7b\"rewrites\":[".toList ++
  "\x7b\"function\":\x7b\"functionId\":\"devHook\",\"region\":[1]\x7d,\"source\":\"\\/api/dev/hook\"\x7d,".toList ++
  "\x7b\"source\" :null\x7d,".toList ++
  "\x7b\"source\":\"\\u002Fapi/dev/hook/**\",\"function\":\"devHook\"\x7d]\x7d\x7d\n".toList

theorem sample_lists : Lists sampleItems sampleValue := by
  refine .mk (by decide) (by rfl) (.mk (by decide) (by rfl) ⟨_, rfl, .cons ?_ (.cons ?_ (.cons ?_ .nil))⟩)
  · refine .mk (by decide) (.value rfl) (.value ⟨.object (.mk (by decide) (by rfl) rfl), by decide⟩)
  · exact .mk (by decide) .null .absent
  · exact .mk (by decide) (.value rfl) (.value ⟨.text rfl, by decide⟩)

theorem sample_numeral (t : List Char) : NumeralInRange ('1' :: '.' :: '5' :: 'e' :: '3' :: t) t := by
  have digits : ∀ c ∈ ['1', '3', '5'], Digits [c] := by decide
  refine numeralInRange_of_le (digits '1' (by simp)) (by simp) (.point _ (digits '5' (by simp)))
    (.letter t (.inl rfl) (.inl rfl) (digits '3' (by simp))) (by decide) ?_
  have value : valueOf ['1', '5'] = 15 ∧ valueOf ['3'] = 3 := by decide
  have small : (1500 : ℚ) ≤ 10 ^ (4 : ℤ) := by norm_num
  refine le_trans ?_ (small.trans (zpow_le_zpow_right₀ (by norm_num) (by norm_num)))
  norm_num [value]

section Written

variable {d : Nat} {s : String} {v : Value} {ms : List (List Char × Value)} {l t : List Char}

theorem written_string (verbatim : Verbatim s) (t : List Char) :
    Written InRange d (.value (.string s.toList)) ('"' :: (s.toList ++ '"' :: t)) t :=
  .string (spells_verbatim verbatim t)

theorem written_lastMember (verbatim : Verbatim s) (own : Written InRange d (.value v) l ('\x7d' :: t)) :
    Written InRange d (.members [(s.toList, v)]) ('"' :: (s.toList ++ '"' :: ':' :: l)) t :=
  .lastMember (.refl _) (spells_verbatim verbatim _) (.refl _) (.refl _) own (.refl _)

theorem written_member (verbatim : Verbatim s) {l' : List Char} (own : Written InRange d (.value v) l (',' :: l'))
    (more : Written InRange d (.members ms) l' t) :
    Written InRange d (.members ((s.toList, v) :: ms)) ('"' :: (s.toList ++ '"' :: ':' :: l)) t :=
  .member (.refl _) (spells_verbatim verbatim _) (.refl _) (.refl _) own (.refl _) more

end Written

theorem sample_textOf : TextOf sampleValue sampleText := by
  have blank : ∀ {c : Char} (l : List Char), isSpace c = true → Spaces (c :: l) l := fun l space => ⟨[_], by simpa, rfl⟩
  have space : isSpace ' ' = true ∧ isSpace '\n' = true := by decide
  have source : Verbatim "source" := by decide
  have function : Verbatim "function" := by decide
  have name : Verbatim "devHook" := by decide
  have one : ∀ t, InRange ('1' :: t) t := fun t =>
    (WholeNumber.positive (by decide : Digits ['1']) (by simp) (by decide)).inRange
  have detailed : ∀ t, Written InRange 3 (.value (.object [_, _])) _ t := fun t =>
    .object (written_member function
      (.object (written_member (by decide : Verbatim "functionId") (written_string name _)
        (written_lastMember (by decide : Verbatim "region") (.list (.lastItem (.refl _) (.number (one _)) (.refl _))))))
      (written_lastMember source (.string (.escape (by decide : simpleEscape? '/' = some '/')
        (spells_verbatim (by decide : Verbatim "api/dev/hook") _)))))
  have empty : ∀ t, Written InRange 3 (.value (.object [_])) _ t := fun t =>
    .object (.lastMember (.refl _) (spells_verbatim source _) (blank _ space.1) (.refl _) .null (.refl _))
  have plain : ∀ t, Written InRange 3 (.value (.object [_, _])) _ t := fun t =>
    .object (written_member source
      (.string (.code (by decide : fourHex? ['0', '0', '2', 'F'] = some 0x2F) (by decide)
        (spells_verbatim (by decide : Verbatim "api/dev/hook/**") _)))
      (written_lastMember function (written_string name _)))
  have list : ∀ t, Written InRange 4 (.value (.list [_, _, _])) _ t := fun t =>
    .list (.item (.refl _) (detailed _) (.refl _) (.item (.refl _) (empty _) (.refl _)
      (.lastItem (.refl _) (plain _) (.refl _))))
  have whole : Written InRange 6 (.value sampleValue) _ ['\n'] :=
    .object (.member (.refl _) (spells_verbatim (by decide : Verbatim "v") _) (.refl _) (blank _ space.1)
      (.number (.negative (sample_numeral _))) (.refl _)
      (.lastMember (blank _ space.2) (spells_verbatim (by decide : Verbatim "hosting") _) (.refl _) (.refl _)
        (.object (written_lastMember (by decide : Verbatim "rewrites") (list _))) (.refl _)))
  exact ⟨6, _, ['\n'], ⟨[' '], by decide, by decide +kernel⟩, whole, blank _ space.2⟩

def hookRepository : Repository where
  files := ⟨.dir [("firebase.json", .file (String.ofList sampleText).toUTF8)], []⟩
  layout := .ofRoot "/"

theorem hookRepository_configuration_read :
    rules sampleText = .ok [⟨"/api/dev/hook", "devHook"⟩, ⟨"/api/dev/hook/**", "devHook"⟩] ∧
      hostingViolations hookRepository [{ route := "hook", handler := "hook", devOnly := true }] = [] := by
  obtain ⟨parsed, agrees⟩ := configuration_read sample_lists sample_textOf
  have found : hookRepository.files.node? (hookRepository.layout.root / configurationName) =
      some (.file (String.ofList sampleText).toUTF8) := by rfl
  have reads : hookRepository.files.read (hookRepository.layout.root / configurationName) = .ok sampleText := by
    rw [FileSystem.read_of_node? found, FileSystem.textOf_toUTF8, String.toList_ofList]
  exact ⟨parsed, agrees hookRepository _ reads (by decide)⟩

end Sample

end Conformance.Check.Endpoints
