import RustyDb.Fixers.Insertion
import RustyDb.Fixers.Renaming

/-!
# When the Import Passes Add an Import

Each check of the two `add_missing_imports` fires on a regular-expression
search: a trigger that finds the imported name as a whole word anywhere in
the text, comments and strings included, and a few recognised forms of an
existing import, essentially `use` followed by whitespace and the path.
`imports_added_only_when_named` states the conditions without patterns:
an added `use P::N;` has the name `N` somewhere in the text as a whole word
and no `use P::N` before it. No check looks at nested groups under another prefix,
globs, aliases, other crates or local definitions
(`imports_added_despite_existing_name`).
-/

namespace RustyDb.Fixers

open RustyDb.Python

/-! ## §1 What a search finds -/

/-- `x` occurs in `s` as a whole word. -/
def WordIn (x s : List Char) : Prop := ∃ i, wordOcc x s i = true

/-- `use`, at least one whitespace character and then `q`, somewhere in `s`. -/
def UseOf (q s : List Char) : Prop :=
  ∃ i j, "use".toList.isPrefixOf (s.drop i) = true ∧ i + 3 < j ∧ AllIn .space s (i + 3) j ∧
    q.isPrefixOf (s.drop j) = true

theorem isPrefixOf_of_append {p q t : List Char} (h : (p ++ q).isPrefixOf t = true) :
    p.isPrefixOf t = true :=
  List.isPrefixOf_iff_prefix.2 ((List.prefix_append p q).trans (List.isPrefixOf_iff_prefix.1 h))

theorem add_length_le_of_isPrefixOf {p s : List Char} {i : Nat} (h : p.isPrefixOf (s.drop i) = true)
    (hp : p ≠ []) : i + p.length ≤ s.length := by
  have := (List.isPrefixOf_iff_prefix.1 h).length_le
  have := List.length_pos.2 hp
  simp only [List.length_drop] at *
  omega

theorem wordIn_of_occurs_wordPattern {x s : List Char} (hx : IsWordName x)
    (h : Occurs (wordPattern x) s) : WordIn x s := by
  obtain ⟨i, -, e, he⟩ := h
  rw [← mem_ends_iff_spans s _ i e [], wordPattern_ends s hx.wordEdged] at he
  refine ⟨i, ?_⟩
  by_contra hn
  simp [hn] at he

/-- A `use q` with more after `q` is found by the form `use\s+q`. -/
theorem occurs_usePath_of_useOf {q s : List Char} (r : List Char) (h : UseOf (q ++ r) s) :
    Occurs (usePath q) s := by
  obtain ⟨i, j, hu, hij, hall, hq⟩ := h
  have hi := add_length_le_of_isPrefixOf hu (by decide)
  refine ⟨i, by omega, j + q.length, ?_⟩
  have h3 : "use".toList.length = 3 := rfl
  simp only [usePath, Regex.seqs_cons_spans, Regex.lit_spans, Regex.rep_spans, Regex.seqs_nil_spans,
    Regex.plus, h3]
  exact ⟨i + 3, ⟨hu, rfl⟩, j, ⟨by omega, hall, by simp⟩, _, ⟨isPrefixOf_of_append hq, rfl⟩, rfl⟩

/-- A name at a word boundary with no word character after it is a whole word. -/
theorem wordOcc_of_boundary {x s : List Char} {i : Nat} (hx : IsWordName x)
    (hb : atBoundary s i = true) (hp : x.isPrefixOf (s.drop i) = true)
    (hnext : wordAt s (i + x.length) = false) : wordOcc x s i = true := by
  have h0 : wordAt s i = true := by simpa using wordAt_of_isPrefixOf s hx i 0 hp (length_pos_of_isWordName hx)
  simp only [atBoundary, h0] at hb
  simp only [wordOcc, hp, hnext, Bool.true_and, Bool.not_false, Bool.and_true]
  simpa using hb

/-- `\bx\s*t`, with `t` starting at a character that is not a word character, finds `x` as a
    whole word. -/
theorem wordIn_of_occurs_call {x s : List Char} {t : Regex} (hx : IsWordName x)
    (ht : ∀ j e, t.Spans s j e → wordAt s j = false)
    (h : Occurs (.seqs [.boundary, .lit x, Regex.star .space, t]) s) : WordIn x s := by
  obtain ⟨i₀, -, e, he⟩ := h
  simp only [Regex.seqs_cons_spans, Regex.boundary_spans, Regex.lit_spans, Regex.rep_spans,
    Regex.star, Regex.seqs_nil_spans] at he
  obtain ⟨i, ⟨rfl, hb⟩, _, ⟨hp, rfl⟩, m, ⟨hm, hall, -⟩, e', ht', -⟩ := he
  refine ⟨i, wordOcc_of_boundary hx hb hp ?_⟩
  rcases Nat.eq_or_lt_of_le hm with hm | hm
  · exact ht _ _ (by rwa [← Nat.add_zero (i + x.length), hm])
  · obtain ⟨c, hc, hsp⟩ := hall (i + x.length) (by omega) (by omega)
    simp [wordAt, hc, isWord_eq_false_of_isSpace hsp]

/-- `\bx::(...)\b` finds `x` as a whole word. -/
theorem wordIn_of_occurs_qualified {x s : List Char} {names : List (List Char)} (hx : IsWordName x)
    (h : Occurs (qualifiedPattern (x ++ "::".toList) names) s) : WordIn x s := by
  obtain ⟨i₀, -, e, he⟩ := h
  simp only [qualifiedPattern, Regex.seqs_cons_spans, Regex.boundary_spans, Regex.lit_spans] at he
  obtain ⟨i, ⟨rfl, hb⟩, _, ⟨hp, -⟩, -⟩ := he
  refine ⟨i, wordOcc_of_boundary hx hb (isPrefixOf_of_append hp) ?_⟩
  have hc := getElem?_of_isPrefixOf hp (show x.length < (x ++ "::".toList).length by simp)
  simp only [List.getElem?_append_right (le_refl _), Nat.sub_self] at hc
  simp only [wordAt, hc]
  rfl

/-! ## §2 The checks -/

/-- The conditions under which the amended statement allows adding the line `l`: it reads
    `use P::N;` for a name `N` that occurs in the text as a whole word, no `use P::N` occurs, and
    `l` itself is not in the text. -/
def AddedWhen (s l : List Char) : Prop :=
  ∃ P N, IsWordName N ∧ l = "use ".toList ++ P ++ "::".toList ++ N ++ [';'] ∧ WordIn N s ∧
    ¬ UseOf (P ++ "::".toList ++ N) s ∧ contains s l = false

/-- A check that fires adds its line `use P::N;` only under `AddedWhen`, when its triggers find
    `N` as a word and one of its forms finds `use P::N`. -/
theorem addedWhen_of_fires {k : ImportCheck} {s : List Char} (P N : List Char) (hN : IsWordName N)
    (hline : k.line = "use ".toList ++ P ++ "::".toList ++ N ++ [';'])
    (htrig : ∀ t ∈ k.triggers, Occurs t s → WordIn N s)
    (hform : ∃ f ∈ k.forms, UseOf (P ++ "::".toList ++ N) s → Occurs f s)
    (h : k.fires s = true) (hc : contains s k.line = false) : AddedWhen s k.line := by
  simp only [ImportCheck.fires, Bool.and_eq_true, List.any_eq_true, List.all_eq_true] at h
  obtain ⟨⟨t, ht, hts⟩, hforms⟩ := h
  obtain ⟨f, hf, hfu⟩ := hform
  refine ⟨P, N, hN, hline, htrig t ht ((search_isSome_iff t s).1 hts), fun hu => ?_, hc⟩
  exact absurd ((search_isSome_iff f s).2 (hfu hu)) (by simpa using hforms f hf)

/-- A `use P::N` is found by the form `use\s+P::N`. -/
theorem occurs_usePath_self {q s : List Char} (h : UseOf q s) : Occurs (usePath q) s :=
  occurs_usePath_of_useOf [] (by rwa [List.append_nil])

theorem addedWhen_of_fires_word' {k : ImportCheck} {s : List Char} (P N : List Char)
    (hN : IsWordName N) (hline : k.line = "use ".toList ++ P ++ "::".toList ++ N ++ [';'])
    (htrig : k.triggers = [wordPattern N])
    (hform : ∃ f ∈ k.forms, UseOf (P ++ "::".toList ++ N) s → Occurs f s)
    (h : k.fires s = true) (hc : contains s k.line = false) : AddedWhen s k.line := by
  refine addedWhen_of_fires P N hN hline (fun t ht hts => ?_) hform h hc
  rw [htrig, List.mem_singleton] at ht
  exact wordIn_of_occurs_wordPattern hN (ht ▸ hts)

/-- The common case: the trigger is `\bN\b` and `use\s+P::N` is one of the forms. -/
theorem addedWhen_of_fires_word {k : ImportCheck} {s : List Char} (P N : List Char)
    (hN : IsWordName N) (hline : k.line = "use ".toList ++ P ++ "::".toList ++ N ++ [';'])
    (htrig : k.triggers = [wordPattern N]) (hform : usePath (P ++ "::".toList ++ N) ∈ k.forms)
    (h : k.fires s = true) (hc : contains s k.line = false) : AddedWhen s k.line :=
  addedWhen_of_fires_word' P N hN hline htrig ⟨_, hform, occurs_usePath_self⟩ h hc

theorem finalImportChecks_addedWhen (s : List Char) :
    ∀ k ∈ finalImportChecks, k.fires s = true → contains s k.line = false → AddedWhen s k.line := by
  intro k hk
  simp only [finalImportChecks, List.mem_cons, List.not_mem_nil, or_false] at hk
  rcases hk with rfl | rfl | rfl | rfl | rfl | rfl | rfl | rfl <;>
    first
    | exact addedWhen_of_fires_word "std::collections".toList _ (by decide) rfl rfl
        (List.mem_cons_self _ _)
    | exact addedWhen_of_fires_word "std::time".toList _ (by decide) rfl rfl (List.mem_cons_self _ _)

theorem rustErrorsImportChecks_addedWhen (s path : List Char) :
    ∀ k ∈ rustErrorsImportChecks path, k.fires s = true → contains s k.line = false →
      AddedWhen s k.line := by
  intro k hk
  simp only [rustErrorsImportChecks, List.mem_append, List.mem_cons, List.not_mem_nil,
    or_false] at hk
  rcases hk with hk | rfl | rfl | rfl | rfl | rfl | rfl | rfl | rfl
  · split at hk
    · cases hk
    · rw [List.mem_singleton] at hk
      subst hk
      refine addedWhen_of_fires_word' "crate::error".toList "DbError".toList (by decide) rfl rfl
        ⟨usePath "crate::error".toList, by simp, fun hu => occurs_usePath_of_useOf "::DbError".toList
          (by rwa [List.append_assoc] at hu)⟩
  any_goals
    first
    | exact addedWhen_of_fires_word "std::collections".toList _ (by decide) rfl rfl
        (List.mem_cons_self _ _)
    | exact addedWhen_of_fires_word "std::sync".toList _ (by decide) rfl rfl (List.mem_cons_self _ _)
    | exact addedWhen_of_fires_word "tokio::sync".toList _ (by decide) rfl rfl (List.mem_cons_self _ _)
  · refine addedWhen_of_fires "tokio::time".toList "sleep".toList (by decide) rfl (fun t ht hts => ?_)
      ⟨_, List.mem_cons_self _ _, occurs_usePath_self⟩
    simp only [List.mem_cons, List.not_mem_nil, or_false] at ht
    rcases ht with rfl | rfl
    · refine wordIn_of_occurs_call (by decide) (fun j e hj => ?_) hts
      obtain ⟨-, c, hc, hk⟩ := hj
      simp only [CharSet.mem, beq_iff_eq] at hk
      simp [wordAt, hc, hk]
      rfl
    · refine wordIn_of_occurs_call (by decide) (fun j e hj => ?_) hts
      have hc := getElem?_of_isPrefixOf ((Regex.lit_spans s _ j e).1 hj).1
        (show 0 < ".await".toList.length by decide)
      simp only [Nat.add_zero] at hc
      simp only [wordAt, hc]
      rfl
  all_goals
    refine addedWhen_of_fires "std".toList _ (by decide) rfl (fun t ht hts => ?_)
      ⟨_, List.mem_singleton.2 rfl, occurs_usePath_self⟩
    rw [List.mem_singleton] at ht
    exact wordIn_of_occurs_qualified (by decide) (ht ▸ hts)

/-! ## §3 The passes -/

/-- `fix_file` of `fix_imports.py` changes a text only when one of its `needs_*` checks holds. -/
theorem fixFile_changes_only_when_needed {s : List Char} (h : fixFile s ≠ s) :
    needsMutexImport s = true ∨ needsSleepImport s = true ∨ needsIntervalImport s = true := by
  unfold fixFile at h
  split at h
  · rename_i hc
    simpa [Bool.or_eq_true, or_assoc] using hc
  · exact absurd rfl h

/-- **Imports are added only for names in the text.** Every import line the two
    `add_missing_imports` insert is `use P::N;` for a name `N` that occurs in the text as a whole
    word, in code, strings or comments, where no `use P::N` occurs and the line is not yet in the
    text; `fix_file` changes only texts holding `Mutex::new(`, `Mutex<`, `sleep(` or
    `interval(`, and adds `Mutex` only when neither `use parking_lot::Mutex` nor
    `use std::sync::Mutex` occurs. -/
theorem imports_added_only_when_named (setOrder : List (List Char) → List (List Char))
    (hset : ∀ xs, ∀ x ∈ setOrder xs, x ∈ xs) (s path : List Char) :
    (∃ news, (∀ l ∈ news, AddedWhen s l) ∧
      finalAddMissingImports setOrder s = unlines ((lines s).take (finalInsertPos (lines s)) ++
        news ++ (lines s).drop (finalInsertPos (lines s)))) ∧
    (∃ news, (∀ l ∈ news, AddedWhen s l) ∧
      rustErrorsAddMissingImports s path = unlines ((lines s).take (rustErrorsInsertPos (lines s)) ++
        news ++ (lines s).drop (rustErrorsInsertPos (lines s)))) ∧
    (fixFile s ≠ s → contains s "Mutex::new(".toList = true ∨ contains s "Mutex<".toList = true ∨
      contains s "sleep(".toList = true ∨ contains s "interval(".toList = true) ∧
    (needsMutexImport s = true → contains s "use parking_lot::Mutex".toList = false ∧
      contains s "use std::sync::Mutex".toList = false) := by
  refine ⟨?_, ?_, fun h => ?_, fun h => ?_⟩
  · obtain ⟨news, hnews, heq⟩ := finalAddMissingImports_inserts setOrder s
    refine ⟨news, fun l hl => ?_, heq⟩
    obtain ⟨hmem, hc⟩ := hnews l hl
    obtain ⟨k, hk, rfl⟩ := List.mem_map.1 (hset _ _ hmem)
    exact finalImportChecks_addedWhen s k (List.mem_filter.1 hk).1 (List.mem_filter.1 hk).2 hc
  · obtain ⟨news, hnews, heq⟩ := rustErrorsAddMissingImports_inserts s path
    refine ⟨news, fun l hl => ?_, heq⟩
    obtain ⟨k, hk, hf, rfl, hc⟩ := hnews l hl
    exact rustErrorsImportChecks_addedWhen s path k hk hf hc
  · rcases fixFile_changes_only_when_needed h with h | h | h
    · simp only [needsMutexImport, Bool.and_eq_true, Bool.or_eq_true] at h
      exact h.1.1.1.elim .inl (.inr ∘ .inl)
    · simp only [needsSleepImport, needsTokioTimeImport, Bool.and_eq_true] at h
      exact .inr (.inr (.inl h.1.1))
    · simp only [needsIntervalImport, needsTokioTimeImport, Bool.and_eq_true] at h
      exact .inr (.inr (.inr h.1.1))
  · simp only [needsMutexImport, Bool.and_eq_true, Bool.not_eq_true', Bool.or_eq_false_iff] at h
    exact h.1.1.2

/-- The order of `list(set(...))` is any order of the same imports; with the given order, on a
    text that uses `HashMap` without importing it: -/
theorem imports_added_only_when_named_in_given_order :
    (∀ xs : List (List Char), ∀ x ∈ id xs, x ∈ xs) ∧
    (∃ news, (∀ l ∈ news, AddedWhen "fn f(m: HashMap<u8, u8>) \x7b\x7d".toList l) ∧
      finalAddMissingImports id "fn f(m: HashMap<u8, u8>) \x7b\x7d".toList =
        unlines ((lines "fn f(m: HashMap<u8, u8>) \x7b\x7d".toList).take
            (finalInsertPos (lines "fn f(m: HashMap<u8, u8>) \x7b\x7d".toList)) ++
          news ++ (lines "fn f(m: HashMap<u8, u8>) \x7b\x7d".toList).drop
            (finalInsertPos (lines "fn f(m: HashMap<u8, u8>) \x7b\x7d".toList)))) ∧
    finalAddMissingImports id "fn f(m: HashMap<u8, u8>) \x7b\x7d".toList =
      "use std::collections::HashMap;\nfn f(m: HashMap<u8, u8>) \x7b\x7d".toList :=
  ⟨fun _ _ h => h,
    (imports_added_only_when_named id (fun _ _ h => h) "fn f(m: HashMap<u8, u8>) \x7b\x7d".toList []).1,
    by decide⟩

/-- An existing import of the name is not recognised: in a nested group, only in a comment, or
    from another crate. -/
theorem imports_added_despite_existing_name :
    finalAddMissingImports id
        "use std::\x7bcollections::HashMap, sync::Arc\x7d;\nfn f(m: HashMap<u8, u8>) \x7b\x7d".toList =
      "use std::\x7bcollections::HashMap, sync::Arc\x7d;\nuse std::collections::HashMap;\nfn f(m: HashMap<u8, u8>) \x7b\x7d".toList ∧
    finalAddMissingImports id "// HashMap\nfn f() \x7b\x7d".toList =
      "// HashMap\nuse std::collections::HashMap;\nfn f() \x7b\x7d".toList ∧
    finalAddMissingImports id "use chrono::Duration;\nfn f(d: Duration) \x7b\x7d".toList =
      "use chrono::Duration;\nuse std::time::Duration;\nfn f(d: Duration) \x7b\x7d".toList := by
  decide

end RustyDb.Fixers
