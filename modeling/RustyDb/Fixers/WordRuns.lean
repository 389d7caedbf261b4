import RustyDb.Fixers.LetBinders

/-!
# The Renames Act on Whole Identifiers, and a Second Run Changes Nothing

`renameWord`, the scan `re.sub` computes for `\bx\b`, is stated over indices.
Here the same rename is read one level up. A text is a sequence of maximal
runs of word characters and of single other characters, and `mapWords f`
rewrites each run `w` to `f w d`, where `d` says whether a `=` or `:`
follows the run past blanks: what the guard `(?!\s*[=:])` looks at.
`renameWord_eq_mapWords` shows that the scan is `mapWords` of a rename of
one run, for every word name `x`.

At that level the passes compose run by run (`mapWords_mapWords`): a rename
maps runs to runs and keeps every other character, so the blanks and the `=`
after a run stay where they were. A pass is then idempotent when the rename of
one run is. In the tables of `fix_snake_case_variables` and
`fix_specific_patterns` no replacement is itself a name the table renames,
so a second run of either pass changes nothing (`renames_idempotent`).
-/

namespace RustyDb.Fixers

open RustyDb.Python

/-! ## §1 Identifier runs -/

/-- The text with every maximal run `w` of word characters replaced by `f w d`, where `d` is
    `definedAt` of the text after the run; every other character stays. -/
def mapWords (f : List Char → Bool → List Char) : List Char → List Char
  | [] => []
  | c :: t =>
    if isWord c then
      f (c :: t.takeWhile isWord) (definedAt (t.dropWhile isWord) 0) ++
        mapWords f (t.dropWhile isWord)
    else c :: mapWords f t
termination_by s => s.length
decreasing_by
  all_goals simp_wf
  exact Nat.lt_succ_of_le (List.dropWhile_suffix isWord).length_le

@[simp] theorem mapWords_nil (f : List Char → Bool → List Char) : mapWords f [] = [] := by
  rw [mapWords]

theorem mapWords_cons_of_not_word (f : List Char → Bool → List Char) {c : Char}
    (hc : isWord c = false) (t : List Char) : mapWords f (c :: t) = c :: mapWords f t := by
  rw [mapWords, if_neg (by simp [hc])]

/-- A run followed by a text that does not start with a word character is rewritten as a
    whole. -/
theorem mapWords_run (f : List Char → Bool → List Char) {w rest : List Char} (hw : IsWordName w)
    (hr : wordAt rest 0 = false) : mapWords f (w ++ rest) = f w (definedAt rest 0) ++ mapWords f rest := by
  obtain ⟨c, w', rfl⟩ := List.exists_cons_of_ne_nil hw.1
  have hw' : ∀ a ∈ w', isWord a = true := fun a ha => hw.2 a (List.mem_cons_of_mem _ ha)
  have hstop : rest.takeWhile isWord = [] ∧ rest.dropWhile isWord = rest := by
    cases rest with
    | nil => exact ⟨rfl, rfl⟩
    | cons a r =>
      have ha : isWord a = false := by simpa [wordAt] using hr
      simp [ha]
  rw [List.cons_append, mapWords, if_pos (hw.2 c (List.mem_cons_self _ _)),
    List.takeWhile_append_of_pos hw', List.dropWhile_append_of_pos hw', hstop.1, hstop.2,
    List.append_nil]

/-- **Texts split into runs.** A text is empty, a character that is not a word character before
    a text, or a maximal run of word characters before a text that does not start with one. -/
theorem runs_induction {motive : List Char → Prop} (nil : motive [])
    (sep : ∀ c t, isWord c = false → motive t → motive (c :: t))
    (run : ∀ w rest, IsWordName w → wordAt rest 0 = false → motive rest → motive (w ++ rest)) :
    ∀ s, motive s
  | [] => nil
  | c :: t => by
    by_cases hc : isWord c = true
    · have hw : IsWordName (c :: t.takeWhile isWord) :=
        ⟨List.cons_ne_nil _ _, fun a ha => (List.mem_cons.1 ha).elim (· ▸ hc) List.mem_takeWhile_imp⟩
      have hr : wordAt (t.dropWhile isWord) 0 = false := by
        have hnot := List.head?_dropWhile_not isWord t
        cases h : t.dropWhile isWord with
        | nil => rfl
        | cons a r => simp only [h, List.head?_cons] at hnot; simpa [wordAt] using hnot
      have key := run _ _ hw hr (runs_induction nil sep run (t.dropWhile isWord))
      rwa [List.cons_append, List.takeWhile_append_dropWhile] at key
    · exact sep c t (by simpa using hc) (runs_induction nil sep run t)
termination_by s => s.length
decreasing_by
  all_goals simp_wf
  exact Nat.lt_succ_of_le (List.dropWhile_suffix isWord).length_le

theorem mapWords_keep (s : List Char) : mapWords (fun w _ => w) s = s := by
  induction s using runs_induction with
  | nil => exact mapWords_nil _
  | sep c t hc ih => rw [mapWords_cons_of_not_word _ hc, ih]
  | run w rest hw hr ih => rw [mapWords_run _ hw hr, ih]

theorem mapWords_congr {f f' : List Char → Bool → List Char}
    (h : ∀ w d, IsWordName w → f w d = f' w d) (s : List Char) : mapWords f s = mapWords f' s := by
  induction s using runs_induction with
  | nil => simp only [mapWords_nil]
  | sep c t hc ih => rw [mapWords_cons_of_not_word f hc, mapWords_cons_of_not_word f' hc, ih]
  | run w rest hw hr ih => rw [mapWords_run f hw hr, mapWords_run f' hw hr, h w _ hw, ih]

/-! ## §2 What follows a run is kept -/

theorem definedAt_cons (c : Char) (u : List Char) :
    definedAt (c :: u) 0 = if isSpace c then definedAt u 0 else (c == '=' || c == ':') := by
  by_cases h : isSpace c <;> simp [definedAt, List.dropWhile_cons, h]

/-- A text that starts with a word character is not followed by a definition. -/
theorem definedAt_run_append {w : List Char} (hw : IsWordName w) (u : List Char) :
    definedAt (w ++ u) 0 = false := by
  obtain ⟨c, w', rfl⟩ := List.exists_cons_of_ne_nil hw.1
  have hc := hw.2 c (List.mem_cons_self _ _)
  have hsp : isSpace c = false := by
    cases h : isSpace c
    · rfl
    · rw [isWord_eq_false_of_isSpace h] at hc; cases hc
  have heq : c ≠ '=' := fun h => absurd (h ▸ hc) (by decide)
  have hcolon : c ≠ ':' := fun h => absurd (h ▸ hc) (by decide)
  rw [List.cons_append, definedAt_cons, if_neg (by simp [hsp])]
  simp [heq, hcolon]

section RunMaps

variable {f : List Char → Bool → List Char} (hf : ∀ w d, IsWordName w → IsWordName (f w d))
include hf

/-- A map that sends runs to runs keeps what follows each run. -/
theorem definedAt_mapWords (s : List Char) : definedAt (mapWords f s) 0 = definedAt s 0 := by
  induction s using runs_induction with
  | nil => rw [mapWords_nil]
  | sep c t hc ih => rw [mapWords_cons_of_not_word f hc, definedAt_cons, definedAt_cons, ih]
  | run w rest hw hr _ =>
    rw [mapWords_run f hw hr, definedAt_run_append (hf w _ hw), definedAt_run_append hw]

omit hf in
theorem wordAt_mapWords_zero {s : List Char} (h : wordAt s 0 = false) :
    wordAt (mapWords f s) 0 = false := by
  cases s with
  | nil => rw [mapWords_nil]; rfl
  | cons c t =>
    have hc : isWord c = false := by simpa [wordAt] using h
    rw [mapWords_cons_of_not_word f hc]
    simpa [wordAt] using hc

/-- **Run maps compose run by run.** -/
theorem mapWords_mapWords (g : List Char → Bool → List Char) (s : List Char) :
    mapWords g (mapWords f s) = mapWords (fun w d => g (f w d) d) s := by
  induction s using runs_induction with
  | nil => simp only [mapWords_nil]
  | sep c t hc ih =>
    rw [mapWords_cons_of_not_word f hc, mapWords_cons_of_not_word g hc,
      mapWords_cons_of_not_word _ hc, ih]
  | run w rest hw hr ih =>
    rw [mapWords_run f hw hr, mapWords_run g (hf w _ hw) (wordAt_mapWords_zero hr),
      definedAt_mapWords hf, ih, mapWords_run _ hw hr]

end RunMaps

/-! ## §3 The scan of `renameWord` is a run map -/

/-- The test the scan of `renameWord` makes at index `j`. -/
def renameAt (x : List Char) (guarded : Bool) (s : List Char) (j : Nat) : Bool :=
  wordOcc x s j && !(guarded && definedAt s (j + x.length))

/-- One pair's rename of a run `w`: `y` when `w` is `x` and, for a guarded pair, no `=` or `:`
    follows (`d` is false). -/
def renameRun (x y : List Char) (guarded : Bool) (w : List Char) (d : Bool) : List Char :=
  if w = x ∧ (guarded && d) = false then y else w

theorem wordAt_of_drop_eq {s t : List Char} {i : Nat} (h : s.drop i = t) (k : Nat) :
    wordAt s (i + k) = wordAt t k := by
  rw [← h]
  simp [wordAt, List.getElem?_drop]

theorem definedAt_eq_drop (s : List Char) (j : Nat) : definedAt s j = definedAt (s.drop j) 0 := by
  simp [definedAt]

/-- A word name that starts a run, where the text has no word character after it, is the run. -/
theorem eq_run_of_isPrefixOf {x w rest : List Char} (hx : IsWordName x) (hw : IsWordName w)
    (hr : wordAt rest 0 = false) (hp : x.isPrefixOf (w ++ rest) = true)
    (hend : wordAt (w ++ rest) x.length = false) : x = w := by
  obtain ⟨u, hu⟩ := List.isPrefixOf_iff_prefix.1 hp
  rcases Nat.lt_trichotomy x.length w.length with hlt | heq | hgt
  · -- a word character of the run follows `x`
    have := wordAt_of_isPrefixOf (w ++ rest) hw 0 x.length (by simp) hlt
    rw [Nat.zero_add, hend] at this
    cases this
  · exact (List.append_inj hu heq).1
  · -- `x` would take the first character after the run
    have := wordAt_of_isPrefixOf (w ++ rest) hx 0 w.length (by simpa using hp) hgt
    rw [Nat.zero_add, ← Nat.add_zero w.length, wordAt_append_right, hr] at this
    cases this

section Scan

variable {x : List Char} (hx : IsWordName x) (y : List Char) (guarded : Bool) (s : List Char)
include hx

theorem isPrefixOf_eq_false_of_not_word {c : Char} (hc : isWord c = false) (t : List Char) :
    x.isPrefixOf (c :: t) = false := by
  obtain ⟨a, x', rfl⟩ := List.exists_cons_of_ne_nil hx.1
  have hac : a ≠ c := fun h => by
    have ha := hx.2 a (List.mem_cons_self _ _)
    rw [h, hc] at ha
    cases ha
  simp [List.isPrefixOf, hac]

/-- The scan from any index where a run can start computes the run map of the rest of the
    text. -/
theorem scanReplace_eq_mapWords : ∀ (t : List Char) (i : Nat), s.drop i = t →
    (i = 0 ∨ wordAt s (i - 1) = false ∨ wordAt s i = false) →
    scanReplace (renameAt x guarded s) x.length y i 0 t = mapWords (renameRun x y guarded) t := by
  intro t
  induction t using runs_induction with
  | nil => intro i _ _; simp [scanReplace]
  | sep c t hc ih =>
    intro i hdrop _
    have hocc : renameAt x guarded s i = false := by
      simp [renameAt, wordOcc, hdrop, isPrefixOf_eq_false_of_not_word hx hc]
    have hsi : wordAt s (i + 0) = false := by
      rw [wordAt_of_drop_eq hdrop]
      simpa [wordAt] using hc
    rw [scanReplace_copy _ _ _ i 1 (c :: t) (by simp) fun j hj hj' => by
        obtain rfl : j = i := by omega
        exact hocc,
      mapWords_cons_of_not_word _ hc]
    simp only [List.take_succ_cons, List.take_zero, List.drop_succ_cons, List.drop_zero,
      List.singleton_append]
    rw [ih (i + 1) (by rw [← List.tail_drop, hdrop]; rfl) (.inr (.inl (by simpa using hsi)))]
  | run w rest hw hr ih =>
    intro i hdrop hb
    have hat := wordAt_of_drop_eq hdrop
    have hrest : s.drop (i + w.length) = rest := by rw [← List.drop_drop, hdrop, List.drop_left]
    have hend : wordAt s (i + w.length) = false := by
      rw [hat, ← Nat.add_zero w.length, wordAt_append_right, hr]
    have hleft : i = 0 ∨ wordAt s (i - 1) = false := by
      refine hb.imp_right fun h => h.resolve_right fun h' => ?_
      have := wordAt_of_isPrefixOf (w ++ rest) hw 0 0 (by simp) (length_pos_of_isWordName hw)
      rw [← hat, Nat.add_zero, h'] at this
      cases this
    by_cases hcase : w = x ∧ (guarded && definedAt rest 0) = false
    · -- the run is `x`, and the scan replaces it
      obtain ⟨rfl, hg⟩ := hcase
      have hocc : renameAt w guarded s i = true := by
        have hp : w.isPrefixOf (s.drop i) = true := by
          rw [hdrop]
          exact List.isPrefixOf_iff_prefix.2 (List.prefix_append _ _)
        rw [renameAt, definedAt_eq_drop, hrest, hg]
        simpa [wordOcc_eq_true, hp, hend] using hleft
      rw [scanReplace_occ _ _ _ i (w ++ rest) (List.append_ne_nil_of_left_ne_nil hw.1 rest)
          (length_pos_of_isWordName hw) hocc, List.drop_left, ih (i + w.length) hrest
          (.inr (.inr hend)), mapWords_run _ hw hr, renameRun, if_pos ⟨rfl, hg⟩]
    · -- the run stays: no index of it starts a replaced occurrence
      have hno : ∀ j, i ≤ j → j < i + w.length → renameAt x guarded s j = false := by
        intro j hij hjw
        rcases Nat.eq_or_lt_of_le hij with rfl | hlt
        · cases ho : wordOcc x s i with
          | false => simp [renameAt, ho]
          | true =>
            obtain ⟨hp, -, hxe⟩ := wordOcc_eq_true.1 ho
            rw [hdrop] at hp
            obtain rfl := eq_run_of_isPrefixOf hx hw hr hp (by rwa [hat] at hxe)
            rw [renameAt, ho, definedAt_eq_drop, hrest]
            simpa using hcase
        · -- inside the run the character before is a word character
          have := wordAt_of_isPrefixOf (w ++ rest) hw 0 (j - 1 - i) (by simp) (by omega)
          rw [Nat.zero_add, ← hat, show i + (j - 1 - i) = j - 1 by omega] at this
          simp [renameAt, wordOcc, this, show j ≠ 0 by omega]
      rw [scanReplace_copy _ _ _ i w.length (w ++ rest) (by simp) hno, List.take_left,
        List.drop_left, ih (i + w.length) hrest (.inr (.inr hend)), mapWords_run _ hw hr, renameRun,
        if_neg hcase]

/-- **The rename of one pair is a run map**: it replaces the runs equal to `x`, except, for a
    guarded pair, those a `=` or `:` follows, and keeps every other character. -/
theorem renameWord_eq_mapWords : renameWord x y guarded s = mapWords (renameRun x y guarded) s :=
  scanReplace_eq_mapWords hx y guarded s s 0 rfl (.inl rfl)

end Scan

/-! ## §4 A second run -/

/-- The renames of a list of pairs, applied in order to one run. -/
def renameRuns (pairs : List (List Char × List Char × Bool)) (w : List Char) (d : Bool) :
    List Char :=
  pairs.foldl (fun w p => renameRun p.1 p.2.1 p.2.2 w d) w

section Pairs

variable {pairs : List (List Char × List Char × Bool)}

/-- The renames leave a run as it is or make it one of the replacements. -/
theorem renameRuns_cases (d : Bool) :
    ∀ (pairs : List (List Char × List Char × Bool)) (w : List Char),
      renameRuns pairs w d = w ∨ ∃ p ∈ pairs, renameRuns pairs w d = p.2.1
  | [], _ => .inl rfl
  | p :: ps, w => by
    show renameRuns ps (renameRun p.1 p.2.1 p.2.2 w d) d = w ∨
      ∃ q ∈ p :: ps, renameRuns ps (renameRun p.1 p.2.1 p.2.2 w d) d = q.2.1
    rcases renameRuns_cases d ps (renameRun p.1 p.2.1 p.2.2 w d) with h | ⟨q, hq, h⟩
    · rw [h, renameRun]
      split
      · exact .inr ⟨p, .head _, rfl⟩
      · exact .inl rfl
    · exact .inr ⟨q, .tail _ hq, h⟩

theorem renameRuns_of_forall_ne (d : Bool) :
    ∀ (pairs : List (List Char × List Char × Bool)) (w : List Char),
      (∀ p ∈ pairs, p.1 ≠ w) → renameRuns pairs w d = w
  | [], _, _ => rfl
  | p :: ps, w, h => by
    show renameRuns ps (renameRun p.1 p.2.1 p.2.2 w d) d = w
    rw [renameRun, if_neg fun h' => h p (.head _) h'.1.symm]
    exact renameRuns_of_forall_ne d ps w fun q hq => h q (.tail _ hq)

variable (hpairs : ∀ p ∈ pairs, IsWordName p.1 ∧ IsWordName p.2.1)
include hpairs

theorem renameRuns_isWordName {w : List Char} (hw : IsWordName w) (d : Bool) :
    IsWordName (renameRuns pairs w d) := by
  rcases renameRuns_cases d pairs w with h | ⟨p, hp, h⟩
  · rw [h]; exact hw
  · rw [h]; exact (hpairs p hp).2

/-- The renames of a table are the run map of their composite. -/
theorem renameWordsSpec_eq_mapWords (s : List Char) :
    renameWordsSpec pairs s = mapWords (renameRuns pairs) s := by
  induction pairs generalizing s with
  | nil => exact (mapWords_keep s).symm
  | cons p ps ih =>
    have hp := hpairs p (.head _)
    show renameWordsSpec ps (renameWord p.1 p.2.1 p.2.2 s) = _
    rw [ih (fun q hq => hpairs q (.tail _ hq)), renameWord_eq_mapWords hp.1,
      mapWords_mapWords fun w d hw => ?_]
    · rfl
    · unfold renameRun
      split
      exacts [hp.2, hw]

/-- **Idempotence of a table of renames.** When no replacement is a name the table renames,
    a second run of the renames changes nothing. -/
theorem renameWordsSpec_idempotent (hT : ∀ p ∈ pairs, ∀ q ∈ pairs, p.2.1 ≠ q.1) (s : List Char) :
    renameWordsSpec pairs (renameWordsSpec pairs s) = renameWordsSpec pairs s := by
  rw [renameWordsSpec_eq_mapWords hpairs, renameWordsSpec_eq_mapWords hpairs,
    mapWords_mapWords fun w d hw => renameRuns_isWordName hpairs hw d]
  refine mapWords_congr (fun w d _ => ?_) s
  rcases renameRuns_cases d pairs w with h | ⟨p, hp, h⟩
  · rw [h, h]
  · rw [h]
    exact renameRuns_of_forall_ne d pairs _ fun q hq => (hT p hp q hq).symm

end Pairs

/-- **A second run of the rename passes changes nothing.** For every text, running
    `fix_snake_case_variables` on its own output returns that output, and so does
    `fix_specific_patterns`: every name they rename is gone from the output as a whole word,
    except the guarded ones a `=` or `:` still follows, and no replacement is a name either
    table renames. -/
theorem renames_idempotent (s : List Char) :
    fixSnakeCaseVariables (fixSnakeCaseVariables s) = fixSnakeCaseVariables s ∧
      fixSpecificPatterns (fixSpecificPatterns s) = fixSpecificPatterns s := by
  simp only [fixSnakeCaseVariables_eq_renameWordsSpec, fixSpecificPatterns_eq_renameWordsSpec]
  exact ⟨renameWordsSpec_idempotent (by decide) (by decide) s,
    renameWordsSpec_idempotent (by decide) (by decide) s⟩

end RustyDb.Fixers
