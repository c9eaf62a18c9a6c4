import Conformance.Check.Endpoints
import Conformance.Proofs.Endpoint.EntryPoint

namespace Conformance.Check.Endpoints

open Pattern Endpoint

section Cases

variable {s m : Progress} {name handler : String}

end Cases

section Finding

variable {lines : List Line}

theorem importing_line (e : Entry) (after : List Char) :
    (Line.importing e).body ++ '\n' :: after = "import".toList ++ ([' '] ++ '\x7b' :: (' ' :: e.appName.toList ++ [' '] ++
      '\x7d' :: (" from ".toList ++ '\'' :: ((Line.handlerPath e).toList ++ '\'' :: ';' :: '\n' :: after)))) := by
  simp [Line.body, Line.words, Text.join]

theorem exporting_line (name : String) (value after : List Char) :
    (Line.exporting name value).body ++ '\n' :: after = "export".toList ++ ([' '] ++ 'c' :: ("onst".toList ++ ' ' ::
      (name.toList ++ ' ' :: '=' :: ' ' :: (value ++ '\n' :: after)))) := by
  simp [Line.body, Line.words, Text.join]

theorem blank_space : Blank [' '] := by
  simp only [Blank, List.mem_singleton, forall_eq]
  decide

theorem border_before {place : Cursor} {front word u : List Char} {c : Char} (outer : Text.isWord c = false)
    (some : word ≠ []) (inWord : ∀ d ∈ word, Text.isWord d = true) :
    (place.beyond (front ++ [c]) (word ++ u)).atWordBorder = true := by
  obtain ⟨d, word, rfl⟩ := List.exists_cons_of_ne_nil some
  simp [Cursor.atWordBorder, Cursor.beyond, outer, inWord d]

theorem border_behind {place : Cursor} {front word u : List Char} {c : Char} (outer : Text.isWord c = false)
    (some : word ≠ []) (inWord : ∀ d ∈ word, Text.isWord d = true) :
    (place.beyond (front ++ word) (c :: u)).atWordBorder = true := by
  have isWord : Text.isWord (word.getLast some) = true := inWord _ (List.getLast_mem some)
  simp [Cursor.atWordBorder, Cursor.beyond, List.getLast?_append, List.getLast?_eq_some_getLast some, isWord, outer]

theorem mem_ways_listed {s : Progress} {name : String} {u : List Char} (some : name.toList ≠ [])
    (inWord : ∀ c ∈ name.toList, Text.isWord c = true)
    (ahead : s.place.rest = '\x7b' :: (' ' :: name.toList ++ [' '] ++ '\x7d' :: u)) :
    s.beyond ('\x7b' :: ' ' :: (name.toList ++ [' ', '\x7d'])) u ∈ (listed name).ways s := by
  have space : ∀ c ∈ [' '], (c != '\x7d') = true := by decide
  refine mem_ways_chain_cons.mpr ⟨_, mem_ways_text.mpr ⟨_, ahead, rfl⟩, ?_⟩
  refine mem_ways_chain_cons.mpr ⟨_, mem_ways_most.mpr ⟨[' '], name.toList ++ ' ' :: '\x7d' :: u, by simp, space, rfl⟩, ?_⟩
  refine mem_ways_chain_cons.mpr ⟨_, mem_ways_wordBorder.mpr ⟨?_, rfl⟩, ?_⟩
  · rw [Progress.beyond_beyond]
    exact border_before (by decide) some inWord
  refine mem_ways_chain_cons.mpr ⟨_, mem_ways_text.mpr ⟨_, rfl, rfl⟩, ?_⟩
  refine mem_ways_chain_cons.mpr ⟨_, mem_ways_wordBorder.mpr ⟨?_, rfl⟩, ?_⟩
  · rw [Progress.beyond_beyond, Progress.beyond_beyond, ← List.append_assoc]
    exact border_behind (by decide) some inWord
  refine mem_ways_chain_cons.mpr ⟨_, mem_ways_most.mpr ⟨[' '], '\x7d' :: u, rfl, space, rfl⟩, ?_⟩
  refine mem_ways_chain_cons.mpr ⟨_, mem_ways_text.mpr ⟨u, rfl, rfl⟩, mem_ways_chain_nil.mpr ?_⟩
  simp

theorem appName_ne_nil (e : Entry) : e.appName.toList ≠ [] := by
  simp [Entry.appName]

theorem occursIn_of_importing {e : Entry} (regular : e.Regular) (member : Line.importing e ∈ lines) :
    (handlerImport e.appName e.handler).occursIn (entryPoint lines) = true := by
  obtain ⟨before, after, rfl⟩ := List.append_of_mem member
  rw [entryPoint_append, entryPoint_cons, importing_line]
  refine occursIn_iff.mpr ⟨entryPoint before, _, rfl, ?_⟩
  apply ways_chain_ne_nil (mem_ways_text.mpr ⟨_, rfl, rfl⟩)
  apply ways_chain_ne_nil (mem_ways_most.mpr ⟨[' '], _, rfl, blank_space, rfl⟩)
  apply ways_chain_ne_nil (mem_ways_listed (appName_ne_nil e)
    (fun c inName => Text.isWord_of_isAlphanum (isAlphanum_appName regular c inName)) rfl)
  apply ways_chain_ne_nil (mem_ways_most.mpr ⟨[' '], _, rfl, blank_space, rfl⟩)
  apply ways_chain_ne_nil (mem_ways_text.mpr ⟨_, rfl, rfl⟩)
  apply ways_chain_ne_nil (mem_ways_most.mpr ⟨[' '], _, rfl, blank_space, rfl⟩)
  apply ways_chain_ne_nil (mem_ways_char.mpr ⟨'\'', _, rfl, by decide, rfl⟩)
  apply ways_chain_ne_nil (mem_ways_text.mpr ⟨_, rfl, rfl⟩)
  exact ways_chain_ne_nil (mem_ways_char.mpr ⟨'\'', _, rfl, by decide, rfl⟩) ways_chain_nil_ne_nil

theorem isExported_of_exporting {e : Entry} {name : String} {value : List Char} (regular : e.Regular)
    (listed : name ∈ e.functionNames) (member : Line.exporting name value ∈ lines) :
    isExported (entryPoint lines) name = true := by
  obtain ⟨before, after, rfl⟩ := List.append_of_mem member
  refine Bool.or_eq_true_iff.mpr (Or.inl ?_)
  rw [entryPoint_append, entryPoint_cons, exporting_line]
  refine occursIn_iff.mpr ⟨entryPoint before, _, rfl, ?_⟩
  apply ways_chain_ne_nil (mem_ways_text.mpr ⟨_, rfl, rfl⟩)
  apply ways_chain_ne_nil (mem_ways_mostOne.mpr ⟨[' '], _, rfl, by simp, blank_space, rfl⟩)
  apply ways_chain_ne_nil (mem_ways_anyOf.mpr ⟨"const", by simp, _, rfl, rfl⟩)
  apply ways_chain_ne_nil (mem_ways_mostOne.mpr ⟨[' '], _, rfl, by simp, blank_space, rfl⟩)
  apply ways_chain_ne_nil (mem_ways_text.mpr ⟨_, rfl, rfl⟩)
  refine ways_chain_ne_nil (mem_ways_wordBorder.mpr ⟨?_, rfl⟩) ways_chain_nil_ne_nil
  rw [Progress.beyond_beyond]
  exact border_behind (by decide) (functionName_ne_nil listed)
    (fun c inName => isWord_of_isStemChar (isStemChar_functionName regular listed c inName))

end Finding

end Conformance.Check.Endpoints
