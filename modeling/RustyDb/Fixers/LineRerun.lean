import RustyDb.Fixers.StructFields
import RustyDb.Fixers.FixRustErrors
import RustyDb.Python.Substitution

/-!
# A Second Run of the Line Scanners

`fix_struct_semicolons` (`fix_duplicates.py`) and `fix_let_semicolons`
(`fix_rust_errors.py`) scan the lines with a state that reads two things of
each line, whether `\s*(pub\s+)?struct\s+\w+` matches it and its count of `{`
minus `}`, and rewrite a line by stripping its trailing blanks and one kind
of separator and appending the other: `;` becomes `,` in a struct field, `,`
becomes `;` after a `let`.

The rewritten line keeps both things the state reads (§1): the strip and the
new separator touch no brace, and a struct start's match ends with a word
character, before the stripped tail. It also ends with the new separator, and
the patterns that select a line to rewrite end with the old one, blanks and
the end of the line, so they no longer match it. A second run therefore goes
through the states of the first and changes nothing
(`fixStructSemicolons_idempotent`, `fixLetSemicolons_idempotent`).
-/

namespace RustyDb.Fixers

open RustyDb.Python

/-! ## §1 Trailing edits -/

/-- What `s.rstrip(chars)` removes satisfies the test it strips by. -/
theorem exists_strip_suffix (p : Char → Bool) (s : List Char) :
    ∃ u, s = (s.reverse.dropWhile p).reverse ++ u ∧ ∀ c ∈ u, p c = true := by
  refine ⟨(s.reverse.takeWhile p).reverse, ?_,
    fun c hc => List.mem_takeWhile_imp (List.mem_reverse.1 hc)⟩
  conv_lhs => rw [← List.reverse_reverse s, ← List.takeWhile_append_dropWhile p s.reverse,
    List.reverse_append]

/-- `line.rstrip().rstrip(x)` removes blanks and `x` from the end of the line. -/
theorem rstrip_split (x : Char) (l : List Char) :
    ∃ u, l = rstripChars [x] (rstrip l) ++ u ∧ ∀ c ∈ u, isSpace c = true ∨ c = x := by
  obtain ⟨t₁, h₁, ht₁⟩ := exists_strip_suffix isSpace l
  obtain ⟨t₂, h₂, ht₂⟩ := exists_strip_suffix ([x].contains ·) (rstrip l)
  refine ⟨t₂ ++ t₁, ?_, fun c hc => ?_⟩
  · rw [← List.append_assoc]
    exact h₁.trans (congrArg (· ++ t₁) h₂)
  · rcases List.mem_append.1 hc with hc | hc
    · exact .inr (by simpa using ht₂ c hc)
    · exact .inl (ht₁ c hc)

/-- A tail without braces leaves the count of braces. -/
theorem braceDelta_append_of_no_brace {p u : List Char} (hu : ∀ c ∈ u, c ≠ '{' ∧ c ≠ '}') :
    braceDelta (p ++ u) = braceDelta p := by
  have h₁ : u.count '{' = 0 := List.count_eq_zero.2 fun hm => (hu _ hm).1 rfl
  have h₂ : u.count '}' = 0 := List.count_eq_zero.2 fun hm => (hu _ hm).2 rfl
  simp [braceDelta, countChar, List.count_append, h₁, h₂]

/-- Blanks and separators are no braces. -/
theorem no_brace_of_strip {x : Char} (hx : x ≠ '{' ∧ x ≠ '}') {u : List Char}
    (hu : ∀ c ∈ u, isSpace c = true ∨ c = x) : ∀ c ∈ u, c ≠ '{' ∧ c ≠ '}' := by
  intro c hc
  rcases hu c hc with h | rfl
  · exact ⟨fun h' => by subst h'; exact absurd h (by decide),
      fun h' => by subst h'; exact absurd h (by decide)⟩
  · exact hx

/-- A struct start's match ends with a word character, so it ends inside `p` when the rest of
    the line has none, and then it is a match of `p` followed by anything else without one. -/
theorem structStart_spans_append {p u u' : List Char} (hu : ∀ c ∈ u, isWord c = false) {e : Nat}
    (h : structStartPattern.Spans (p ++ u) 0 e) : structStartPattern.Spans (p ++ u') 0 e := by
  have hlast : e ≤ p.length := by
    have h' := h
    simp only [structStartPattern, Regex.seqs_cons_spans, Regex.seqs_nil_spans] at h'
    obtain ⟨_, -, _, -, _, -, m, -, m', ⟨hm, hall, -⟩, he⟩ := h'
    rw [he]
    obtain ⟨c, hc, hw⟩ := hall (m' - 1) (by omega) (by omega)
    by_contra hlt
    rw [List.getElem?_append_right (by omega)] at hc
    have hword : isWord c = true := hw
    rw [hu c (List.getElem?_mem hc)] at hword
    cases hword
  have hlocal : structStartPattern.Local = true := by
    simp only [structStartPattern, Regex.seqs, Regex.Local, Regex.optional, Regex.star, Regex.plus,
      Regex.lit_local, Bool.and_self, Bool.and_true]
  refine Regex.Spans.congr hlocal (fun x _ hx => ?_) h
  rw [List.getElem?_append_left (by omega), List.getElem?_append_left (by omega)]

/-- Whether a line starts a struct does not depend on a tail without word characters. -/
theorem isStructStart_append {p u u' : List Char} (hu : ∀ c ∈ u, isWord c = false)
    (hu' : ∀ c ∈ u', isWord c = false) : isStructStart (p ++ u) = isStructStart (p ++ u') := by
  refine Bool.eq_iff_iff.2 ?_
  show (matchAt structStartPattern (p ++ u) 0 false).isSome = true ↔
    (matchAt structStartPattern (p ++ u') 0 false).isSome = true
  rw [matchAt_false_isSome, matchAt_false_isSome]
  exact ⟨fun ⟨e, h⟩ => ⟨e, structStart_spans_append hu h⟩,
    fun ⟨e, h⟩ => ⟨e, structStart_spans_append hu' h⟩⟩

/-- Stripping blanks and a separator `x` and appending a separator `y`, neither a brace nor a
    word character, keeps the two things the scanners read of a line. -/
theorem strip_append_keeps {x y : Char} (hx : x ≠ '{' ∧ x ≠ '}') (hy : y ≠ '{' ∧ y ≠ '}')
    (hxw : isWord x = false) (hyw : isWord y = false) (l : List Char) :
    isStructStart (rstripChars [x] (rstrip l) ++ [y]) = isStructStart l ∧
      braceDelta (rstripChars [x] (rstrip l) ++ [y]) = braceDelta l := by
  obtain ⟨u, hl, hu⟩ := rstrip_split x l
  have hw : ∀ c ∈ u, isWord c = false := fun c hc =>
    (hu c hc).elim isWord_eq_false_of_isSpace fun h => h ▸ hxw
  constructor
  · conv_rhs => rw [hl]
    exact isStructStart_append (by simpa using hyw) hw
  · conv_rhs => rw [hl]
    rw [braceDelta_append_of_no_brace (by simpa using hy),
      braceDelta_append_of_no_brace (no_brace_of_strip hx hu)]

/-- **A pattern that ends with `a`, blanks and `$` matches no line that ends with another
    character `b`**, when `b` is no blank and no newline. -/
theorem rematch_ends_with_isSome {a b : Char} (xs : List Regex) (hab : b ≠ a)
    (hb : isSpace b = false) (hnl : b ≠ '\n') (p : List Char) :
    (rematch (Regex.seqs (xs ++ [.set (.chr a), Regex.star .space, .endText])) (p ++ [b])).isSome =
      false := by
  rw [Bool.eq_false_iff]
  intro hne
  obtain ⟨e, h⟩ := (matchAt_false_isSome _ _ _).1 hne
  rw [Regex.seqs_append_spans] at h
  simp only [Regex.seqs_cons_spans, Regex.seqs_nil_spans] at h
  obtain ⟨k, -, j, ⟨hj, c, hc, ha⟩, m, ⟨-, hsp, -⟩, _, ⟨-, hend⟩, -⟩ := h
  have hn : (p ++ [b])[p.length]? = some b := by simp
  have hk := (List.getElem?_eq_some_iff.1 hc).1
  simp only [List.length_append, List.length_singleton] at hk
  have hm : m = p.length + 1 := by
    simp only [atEndText, Bool.or_eq_true, beq_iff_eq, Bool.and_eq_true, List.length_append,
      List.length_singleton] at hend
    rcases hend with h | ⟨h₁, h₂⟩
    · exact h
    · obtain rfl : m = p.length := by omega
      rw [hn] at h₂
      exact absurd (by simpa using h₂) hnl
  rcases Nat.lt_or_ge k p.length with hlt | hge
  · -- `b` would be one of the blanks after the `a`
    obtain ⟨d, hd, hsd⟩ := hsp p.length (by omega) (by omega)
    rw [hn] at hd
    cases hd
    rw [show CharSet.space.mem b = isSpace b from rfl, hb] at hsd
    cases hsd
  · -- `b` would be the `a`
    obtain rfl : k = p.length := by omega
    rw [hn] at hc
    cases hc
    exact hab (by simpa [CharSet.mem] using ha)

/-! ## §2 `fix_struct_semicolons` -/

theorem isSemicolonField_commaField (l : List Char) : isSemicolonField (commaField l) = false :=
  rematch_ends_with_isSome [Regex.star .space,
    Regex.optional (.group 1 (.seq (.lit "pub".toList) (Regex.plus .space))),
    .set lowerOrUnderscore, Regex.star identTail, Regex.star .space, .set (.chr ':'),
    Regex.star .space, Regex.plus (.compl (.union (.chr ',') (.chr ';')))] (by decide) (by decide)
    (by decide) _

/-- A line the pass changed is read again as it was: the state after it is the same, and it is
    kept. -/
theorem structStep_rerun (st : StructScan) (l : List Char) :
    (structStep st (structStep st l).2).1 = (structStep st l).1 ∧
      (structStep st (structStep st l).2).2 = (structStep st l).2 := by
  by_cases he : ((structStep st l).1.inStruct && isSemicolonField l) = true
  · have hl : (structStep st l).2 = commaField l := by rw [structStep_snd, if_pos he]
    obtain ⟨hs, hb⟩ := strip_append_keeps (x := ';') (y := ',') (by decide) (by decide) (by decide)
      (by decide) l
    have hfst : (structStep st (commaField l)).1 = (structStep st l).1 := by
      rw [structStep_fst, structStep_fst, commaField, hs, hb]
    refine ⟨hl ▸ hfst, ?_⟩
    rw [hl, structStep_snd, hfst, isSemicolonField_commaField, Bool.and_false]
    rfl
  · have hl : (structStep st l).2 = l := by rw [structStep_snd, if_neg he]
    rw [hl]
    exact ⟨rfl, hl⟩

theorem structLines_rerun :
    ∀ (st : StructScan) (ls : List (List Char)), structLines st (structLines st ls) = structLines st ls
  | _, [] => rfl
  | st, l :: rest => by
    obtain ⟨h₁, h₂⟩ := structStep_rerun st l
    rw [structLines, structLines, h₁, h₂, structLines_rerun]

/-- Appending a separator to a stripped line adds no line end. -/
theorem newline_not_mem_strip_append {x y : Char} (hy : y ≠ '\n') {l : List Char} (hl : '\n' ∉ l) :
    '\n' ∉ rstripChars [x] (rstrip l) ++ [y] := by
  obtain ⟨u, hu, -⟩ := rstrip_split x l
  rw [hu] at hl
  simp only [List.mem_append, List.mem_singleton, not_or]
  exact ⟨fun h => hl (List.mem_append_left _ h), Ne.symm hy⟩

/-- A line scan that keeps each line or rewrites it without a line end gives back its lines when
    its output is split again. -/
theorem lines_unlines_scan {f : List (List Char) → List (List Char)} (content : List Char)
    (hlen : (f (lines content)).length = (lines content).length)
    (hnl : ∀ l ∈ f (lines content), '\n' ∉ l) : lines (unlines (f (lines content))) = f (lines content) := by
  refine lines_unlines_of_forall hnl fun h0 => ?_
  rw [h0] at hlen
  exact List.splitOnP_ne_nil _ _ (List.length_eq_zero.1 hlen.symm)

theorem structLines_length :
    ∀ (st : StructScan) (ls : List (List Char)), (structLines st ls).length = ls.length
  | _, [] => rfl
  | st, _ :: rest => by rw [structLines, List.length_cons, List.length_cons, structLines_length]

theorem newline_not_mem_structLines :
    ∀ (st : StructScan) (ls : List (List Char)), (∀ l ∈ ls, '\n' ∉ l) →
      ∀ l ∈ structLines st ls, '\n' ∉ l
  | _, [], _ => fun _ h => nomatch h
  | st, l :: rest, h => by
    rw [structLines]
    intro l' hl'
    rcases List.mem_cons.1 hl' with rfl | hl'
    · rw [structStep_snd]
      split
      · exact newline_not_mem_strip_append (by decide) (h l (.head _))
      · exact h l (.head _)
    · exact newline_not_mem_structLines _ rest (fun l hl => h l (.tail _ hl)) l' hl'

/-- **`fix_struct_semicolons` is idempotent.** For every text, a second run on its output changes
    nothing: the lines it turned into comma fields are no semicolon fields, and they keep every
    struct start and every brace count, so the second scan passes through the same states. -/
theorem fixStructSemicolons_idempotent (content : List Char) :
    fixStructSemicolons (fixStructSemicolons content) = fixStructSemicolons content := by
  rw [fixStructSemicolons, fixStructSemicolons, lines_unlines_scan content
    (structLines_length _ _) (newline_not_mem_structLines _ _ fun _ hl =>
      newline_not_mem_of_mem_lines hl), structLines_rerun]

/-! ## §3 `fix_let_semicolons` -/

theorem letDeclComma_commaToSemicolon (l : List Char) :
    (rematch letDeclCommaPattern (commaToSemicolon l)).isSome = false :=
  rematch_ends_with_isSome (letNamePrefix ++ [Regex.star .space, .set (.chr ':'), Regex.star .space,
    Regex.plus .word, Regex.star .space]) (by decide) (by decide) (by decide) _

theorem letInitComma_commaToSemicolon (l : List Char) :
    (rematch letInitCommaPattern (commaToSemicolon l)).isSome = false :=
  rematch_ends_with_isSome (letNamePrefix ++ [Regex.star .space,
    Regex.optional (.group 2 (.seqs [.set (.chr ':'), Regex.star .space, Regex.plus .word])),
    Regex.star .space, .set (.chr '='), Regex.star .notNewline]) (by decide) (by decide) (by decide) _

/-- A line the loop rewrote is left as it is. -/
theorem letLine_commaToSemicolon (inStruct : Bool) (l : List Char) :
    letLine inStruct (commaToSemicolon l) = commaToSemicolon l := by
  simp [letLine, letDeclComma_commaToSemicolon, letInitComma_commaToSemicolon]

/-- One line of the loop is kept or rewritten once: a line the first test rewrote fails the
    second. -/
theorem letLine_cases (inStruct : Bool) (l : List Char) :
    letLine inStruct l = l ∨ letLine inStruct l = commaToSemicolon l := by
  by_cases hd : (!inStruct && (rematch letDeclCommaPattern l).isSome) = true
  · exact .inr (by simp only [letLine, if_pos hd, letInitComma_commaToSemicolon]; simp)
  · simp only [letLine, if_neg hd]
    split
    · exact .inr rfl
    · exact .inl rfl

theorem letLines_rerun :
    ∀ (inStruct : Bool) (depth : Int) (ls : List (List Char)),
      letLines inStruct depth (letLines inStruct depth ls) = letLines inStruct depth ls
  | _, _, [] => rfl
  | inStruct, depth, l :: rest => by
    have hkeep : ∀ b, (rematch structStartPattern (letLine b l)).isSome =
        (rematch structStartPattern l).isSome ∧ braceDelta (letLine b l) = braceDelta l := fun b => by
      rcases letLine_cases b l with h | h <;> rw [h]
      · exact ⟨rfl, rfl⟩
      · exact strip_append_keeps (by decide) (by decide) (by decide) (by decide) l
    simp only [letLines, (hkeep _).1, (hkeep _).2]
    rcases letLine_cases ((inStruct || (rematch structStartPattern l).isSome) &&
        depth + braceDelta l != 0) l with h | h
    · rw [h, h, letLines_rerun]
    · rw [h, letLine_commaToSemicolon, letLines_rerun]

theorem letLines_length :
    ∀ (inStruct : Bool) (depth : Int) (ls : List (List Char)), (letLines inStruct depth ls).length = ls.length
  | _, _, [] => rfl
  | _, _, _ :: rest => by rw [letLines, List.length_cons, List.length_cons, letLines_length]

theorem newline_not_mem_letLines :
    ∀ (inStruct : Bool) (depth : Int) (ls : List (List Char)), (∀ l ∈ ls, '\n' ∉ l) →
      ∀ l ∈ letLines inStruct depth ls, '\n' ∉ l
  | _, _, [], _ => fun _ h => nomatch h
  | inStruct, depth, l :: rest, h => by
    rw [letLines]
    intro l' hl'
    rcases List.mem_cons.1 hl' with rfl | hl'
    · rcases letLine_cases ((inStruct || (rematch structStartPattern l).isSome) &&
          depth + braceDelta l != 0) l with he | he <;> rw [he]
      · exact h l (.head _)
      · exact newline_not_mem_strip_append (by decide) (h l (.head _))
    · exact newline_not_mem_letLines _ _ rest (fun l hl => h l (.tail _ hl)) l' hl'

/-- **`fix_let_semicolons` is idempotent.** For every text, a second run on its output changes
    nothing: a `let` line it ended with `;` matches neither of its patterns, which end with `,`,
    and keeps its struct test and its braces, so the second loop tracks the same context. -/
theorem fixLetSemicolons_idempotent (content : List Char) :
    fixLetSemicolons (fixLetSemicolons content) = fixLetSemicolons content := by
  rw [fixLetSemicolons, fixLetSemicolons, lines_unlines_scan content (letLines_length _ _ _)
    (newline_not_mem_letLines _ _ _ fun _ hl => newline_not_mem_of_mem_lines hl), letLines_rerun]

end RustyDb.Fixers
