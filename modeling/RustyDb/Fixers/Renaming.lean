import RustyDb.Python.RegexSpec
import RustyDb.Fixers.FixRustErrors

/-!
# The Word Renames of `fix_final.py` and `fix_rust_errors.py`

`fix_snake_case_variables` and `fix_specific_patterns` run `re.sub` with
`\bx\b` patterns, two of them guarded by `(?!\s*[=:])`. Every such pattern
matches with the one width `|x|`, so by `subWith_fixed` each substitution is
a left-to-right scan that replaces the whole-word occurrences of `x`.

The statement of the renames is written here in plain terms (`wordOcc`,
`definedAt`, `renameWord`) and `renames_eq_renameWordsSpec` shows that the
scripts compute it. Nothing in it looks at string literals, comments or
whether `y` is already in use.
-/

namespace RustyDb.Fixers

open RustyDb.Python

/-! ## §1 The renames, stated directly -/

/-- `x` occurs at index `i` of `s` as a whole word: it starts there, and the characters just
    before and just after it, where there are any, are not word characters. -/
def wordOcc (x s : List Char) (i : Nat) : Bool :=
  x.isPrefixOf (s.drop i) && !(i != 0 && wordAt s (i - 1)) && !wordAt s (i + x.length)

/-- After optional whitespace from index `j`, the next character is `=` or `:`. -/
def definedAt (s : List Char) (j : Nat) : Bool :=
  (((s.drop j).dropWhile isSpace).head?.map fun c => c == '=' || c == ':').getD false

/-- Replace every whole-word occurrence of `x` by `y`, left to right; when `guarded`, keep the
    occurrences followed by optional whitespace and `=` or `:`. -/
def renameWord (x y : List Char) (guarded : Bool) (s : List Char) : List Char :=
  scanReplace (fun i => wordOcc x s i && !(guarded && definedAt s (i + x.length))) x.length y 0 0 s

/-- The renames of a list of `(x, y, guarded)`, applied in order. -/
def renameWordsSpec (pairs : List (List Char × List Char × Bool)) (s : List Char) : List Char :=
  pairs.foldl (fun c p => renameWord p.1 p.2.1 p.2.2 c) s

/-- The pairs of `fix_snake_case_variables`; only `filename` is guarded. -/
def snakeCaseRenames : List (List Char × List Char × Bool) :=
  [("pageid".toList, "page_id".toList, false), ("tablename".toList, "table_name".toList, false),
   ("numnodes".toList, "num_nodes".toList, false),
   ("numpartitions".toList, "num_partitions".toList, false),
   ("blocksize".toList, "block_size".toList, false),
   ("buffersize".toList, "buffer_size".toList, false),
   ("pagesize".toList, "page_size".toList, false), ("filename".toList, "file_name".toList, true)]

/-- The pairs of `fix_specific_patterns`; only `_value` is guarded. -/
def specificRenames : List (List Char × List Char × Bool) :=
  [("_value".toList, "value".toList, true), ("_writes_count".toList, "writes_count".toList, false),
   ("_flush_count".toList, "flush_count".toList, false)]

/-! ## §2 The patterns have one width -/

/-- A name the patterns can rename: non-empty, of word characters only. -/
def IsWordName (x : List Char) : Prop := x ≠ [] ∧ ∀ c ∈ x, isWord c = true

instance (x : List Char) : Decidable (IsWordName x) := inferInstanceAs (Decidable (_ ∧ _))

/-- What `\bx\b` needs of `x` to match with width `|x|`: `x` is non-empty and starts and ends
    with a word character (`let _value` does too). -/
def WordEdged (x : List Char) : Prop := x ≠ [] ∧ wordAt x 0 = true ∧ wordAt x (x.length - 1) = true

instance (x : List Char) : Decidable (WordEdged x) := inferInstanceAs (Decidable (_ ∧ _))

section WordName

variable {x : List Char} (s : List Char)

theorem wordAt_of_isPrefixOf (hx : IsWordName x) (i k : Nat) (h : x.isPrefixOf (s.drop i) = true) (hk : k < x.length) :
    wordAt s (i + k) = true := by
  simp only [wordAt, getElem?_of_isPrefixOf h hk, List.getElem?_eq_getElem hk, Option.map_some',
    Option.getD_some]
  exact hx.2 _ (List.getElem_mem hk)

theorem length_pos_of_isWordName (hx : IsWordName x) : 0 < x.length := List.length_pos.2 hx.1

theorem wordAt_add_of_isPrefixOf {i k : Nat} (h : x.isPrefixOf (s.drop i) = true) (hk : k < x.length) :
    wordAt s (i + k) = wordAt x k := by
  simp only [wordAt, getElem?_of_isPrefixOf h hk]

theorem IsWordName.wordEdged (hx : IsWordName x) : WordEdged x := by
  have hlen := length_pos_of_isWordName hx
  refine ⟨hx.1, ?_, ?_⟩
  · simpa [wordAt, List.getElem?_eq_getElem hlen] using hx.2 _ (List.getElem_mem hlen)
  · have hl : x.length - 1 < x.length := by omega
    simpa [wordAt, List.getElem?_eq_getElem hl] using hx.2 _ (List.getElem_mem hl)

/-- With a word name, `\bx\b` tests exactly `wordOcc`. -/
theorem wordPattern_ends (hx : WordEdged x) (i : Nat) (cs : Caps) :
    (wordPattern x).ends s i cs = if wordOcc x s i then [(i + x.length, cs)] else [] := by
  have hlen := List.length_pos.2 hx.1
  simp only [wordPattern, Regex.seqs]
  rw [Regex.seq_ends_of_test (Regex.boundary_ends s i cs),
    Regex.seq_ends_of_test (Regex.lit_ends s x i cs), Regex.boundary_ends]
  by_cases hp : x.isPrefixOf (s.drop i) = true
  · have h0 : wordAt s i = true := by simpa [hx.2.1] using wordAt_add_of_isPrefixOf s hp hlen
    have h1 : wordAt s (i + x.length - 1) = true := by
      simpa [Nat.add_sub_assoc hlen, hx.2.2] using
        wordAt_add_of_isPrefixOf s hp (show x.length - 1 < x.length by omega)
    have hne : (i + x.length != 0) = true := by simpa using (by omega : i + x.length ≠ 0)
    simp only [wordOcc, hp, atBoundary, h0, h1, hne, Bool.true_and]
    cases (i != 0 && wordAt s (i - 1)) <;> cases wordAt s (i + x.length) <;> rfl
  · simp only [wordOcc, hp, Bool.false_and, Bool.and_false]
    split <;> rfl

/-- `(?!\s*[=:])` at index `j` holds exactly when `definedAt` does not. -/
theorem notDefinition_ends (j : Nat) (cs : Caps) :
    notDefinition.ends s j cs = if definedAt s j then [] else [(j, cs)] := by
  have key : (∃ e, (Regex.seq (Regex.star .space) (.set (.ofList "=:".toList))).Spans s j e) ↔
      definedAt s j = true := by
    have hsp : isSpace = CharSet.space.mem := rfl
    simp only [definedAt, hsp, dropWhile_eq_drop_runLen, List.drop_drop, List.head?_drop]
    simp only [Regex.Spans, Regex.star, allIn_iff_le_runLen, Option.mem_def, reduceCtorEq,
      false_implies, implies_true, and_true, Nat.add_zero]
    constructor
    · rintro ⟨_, m, ⟨hjm, hmR⟩, -, c, hc, hmem⟩
      have hc2 : c = '=' ∨ c = ':' := by simpa [CharSet.ofList, CharSet.mem] using hmem
      rcases Nat.lt_or_ge m (j + runLen .space (s.drop j)) with hlt | hge
      · obtain ⟨c', hc', hsp'⟩ := (le_runLen_iff .space (s.drop j) _).1 (le_refl _) (m - j) (by omega)
        rw [List.getElem?_drop, Nat.add_sub_cancel' hjm, hc, Option.some.injEq] at hc'
        subst hc'
        exact absurd hsp' (by rcases hc2 with rfl | rfl <;> decide)
      · rw [show m = j + runLen .space (s.drop j) by omega] at hc
        rcases hc2 with rfl | rfl <;> simp [hc]
    · intro h
      cases hc : s[j + runLen .space (s.drop j)]? with
      | none => simp [hc] at h
      | some c =>
        refine ⟨_, _, ⟨by omega, le_refl _⟩, rfl, c, hc, ?_⟩
        simpa [hc, CharSet.ofList, CharSet.mem] using h
  have hE := isEmpty_ends_iff s ((Regex.star .space).seq (.set (.ofList "=:".toList))) j cs
  rw [key] at hE
  rw [notDefinition, Regex.ahead_ends]
  by_cases hd : definedAt s j = true
  · have : (Regex.ends s ((Regex.star .space).seq (.set (.ofList "=:".toList))) j cs).isEmpty = false :=
      Bool.eq_false_iff.2 fun h => hE.1 h hd
    rw [this]
    simp [hd]
  · rw [hE.2 hd]
    simp [hd]

/-- With a word name, `\bx\b(?!\s*[=:])` tests `wordOcc` and that no `=` or `:` follows. -/
theorem guardedPattern_ends (hx : WordEdged x) (i : Nat) (cs : Caps) :
    (Regex.seq (wordPattern x) notDefinition).ends s i cs =
      if wordOcc x s i && !definedAt s (i + x.length) then [(i + x.length, cs)] else [] := by
  rw [Regex.ends, wordPattern_ends s hx]
  by_cases ho : wordOcc x s i = true
  · simp only [ho, if_true, List.flatMap_cons, List.flatMap_nil, List.append_nil, notDefinition_ends]
    cases definedAt s (i + x.length) <;> simp
  · simp [ho]

end WordName

/-! ## §3 The scripts compute the renames -/

theorem add_length_le_of_wordOcc {x s : List Char} {j : Nat} (hx : WordEdged x)
    (h : wordOcc x s j = true) : j + x.length ≤ s.length := by
  have hp : x <+: s.drop j := List.isPrefixOf_iff_prefix.1 (by simp_all [wordOcc])
  have := hp.length_le
  have := List.length_pos.2 hx.1
  simp only [List.length_drop] at *
  omega

theorem sub_wordPattern {x : List Char} (hx : WordEdged x) (y s : List Char) :
    sub (wordPattern x) [.text y] s = renameWord x y false s := by
  rw [sub_text, renameWord]
  refine subWith_fixed (fun i cs => ?_) (List.length_pos.2 hx.1)
    (fun j hj => add_length_le_of_wordOcc hx (by simpa using hj)) y
  simpa using wordPattern_ends s hx i cs

theorem sub_guardedPattern {x : List Char} (hx : WordEdged x) (y s : List Char) :
    sub (.seq (wordPattern x) notDefinition) [.text y] s = renameWord x y true s := by
  rw [sub_text, renameWord]
  refine subWith_fixed (fun i cs => ?_) (List.length_pos.2 hx.1)
    (fun j hj => add_length_le_of_wordOcc hx (by simp_all)) y
  simpa using guardedPattern_ends s hx i cs

/-- Each substitution of a table is the rename of its pair, so the whole table is. -/
theorem applyReplacements_eq_renameWordsSpec {rs : List (Regex × List Char)}
    {pairs : List (List Char × List Char × Bool)}
    (h : List.Forall₂ (fun r p => ∀ c, sub r.1 [.text r.2] c = renameWord p.1 p.2.1 p.2.2 c) rs pairs)
    (s : List Char) : applyReplacements rs s = renameWordsSpec pairs s := by
  induction h generalizing s with
  | nil => rfl
  | cons hrp _ ih =>
    simp only [applyReplacements, renameWordsSpec, List.foldl_cons] at ih ⊢
    rw [hrp]
    exact ih _

theorem fixSnakeCaseVariables_eq_renameWordsSpec (s : List Char) :
    fixSnakeCaseVariables s = renameWordsSpec snakeCaseRenames s := by
  refine @applyReplacements_eq_renameWordsSpec snakeCaseReplacements snakeCaseRenames ?_ s
  simp only [snakeCaseReplacements, snakeCaseRenames]
  exact .cons (sub_wordPattern (by decide) _) <| .cons (sub_wordPattern (by decide) _) <|
    .cons (sub_wordPattern (by decide) _) <| .cons (sub_wordPattern (by decide) _) <|
    .cons (sub_wordPattern (by decide) _) <| .cons (sub_wordPattern (by decide) _) <|
    .cons (sub_wordPattern (by decide) _) <| .cons (sub_guardedPattern (by decide) _) .nil

theorem fixSpecificPatterns_eq_renameWordsSpec (s : List Char) :
    fixSpecificPatterns s = renameWordsSpec specificRenames s := by
  refine @applyReplacements_eq_renameWordsSpec specificReplacements specificRenames ?_ s
  simp only [specificReplacements, specificRenames]
  exact .cons (sub_guardedPattern (by decide) _) <| .cons (sub_wordPattern (by decide) _) <|
    .cons (sub_wordPattern (by decide) _) .nil

/-- **The renames are whole-word replacements.** `fix_snake_case_variables` and
    `fix_specific_patterns` replace, pair by pair, every whole-word occurrence of `x` by `y`,
    in code, strings and comments alike, keeping only the guarded occurrences that a `=` or
    `:` follows. -/
theorem renames_replace_whole_words (s : List Char) :
    fixSnakeCaseVariables s = renameWordsSpec snakeCaseRenames s ∧
      fixSpecificPatterns s = renameWordsSpec specificRenames s :=
  ⟨fixSnakeCaseVariables_eq_renameWordsSpec s, fixSpecificPatterns_eq_renameWordsSpec s⟩

/-- The renames are not consistent: a guarded binder keeps its name while its uses are renamed,
    comments are rewritten, and two names merge into one. -/
theorem renames_inconsistent :
    fixSnakeCaseVariables "let filename = a; f(filename); // pageid".toList =
      "let filename = a; f(file_name); // page_id".toList ∧
    fixSnakeCaseVariables "let page_id = 1; let pageid = 2;".toList =
      "let page_id = 1; let page_id = 2;".toList ∧
    fixSpecificPatterns "let _value = x; g(_value)".toList = "let _value = x; g(value)".toList := by
  simp only [fixSnakeCaseVariables_eq_renameWordsSpec, fixSpecificPatterns_eq_renameWordsSpec]
  decide

end RustyDb.Fixers
