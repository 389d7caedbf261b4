import RustyDb.Fixers.FixBuild
import RustyDb.Python.Substitution

/-!
# A Run of the Build Fixer

`main` of `fix_build.py` runs two loops over the errors `parse_errors` read: the `E0425` loop
renames `let` bindings, the `E0412` loop adds imports. Both have the body `applyFix`, and
`applyFix_cases` says once what one step can do. From it:

* `fixBuild_writes_only_named_files`: a run changes only files that exist and that an `E0425`
  or `E0412` error of the output names; it creates no file.
* `typeFixes_idempotent`: after the `E0412` loop, the same loop over the same errors writes
  nothing and counts nothing. An import is added to a file once, however many errors report its
  type, because `add_import` finds the import in the text, and later insertions keep it there.
* `valueFixes_keep_line_numbers`: the `E0425` loop keeps the number of lines of every file and
  changes only lines its errors name, so the line numbers of one `cargo check` stay valid while
  their errors are fixed one after another.
-/

namespace RustyDb.Fixers

open RustyDb.Python

/-! ## §1 One step of a fix loop -/

@[simp] theorem Files.write_apply (files : Files) (path text p : List Char) :
    files.write path text p = if p = path then some text else files p := rfl

/-- One step of a fix loop leaves the state as it is, or writes the text its fix returned to the
    error's file and counts one fix. -/
theorem applyFix_cases (namePattern : Regex)
    (fix : Files → CargoError → List Char → Option (List Char)) (st : Files × Nat) (err : CargoError) :
    applyFix namePattern fix st err = st ∨
      ∃ m text, search namePattern err.message = some m ∧ fix st.1 err (m.group err.message 1) = some text ∧
        applyFix namePattern fix st err = (st.1.write err.file text, st.2 + 1) := by
  unfold applyFix
  split
  · exact .inl rfl
  · split
    · exact .inr ⟨_, _, ‹_›, ‹_›, rfl⟩
    · exact .inl rfl

/-- A fix reads the error's file before it writes it. -/
def ReadsFile (fix : Files → CargoError → List Char → Option (List Char)) : Prop :=
  ∀ files err name text, fix files err name = some text → files err.file ≠ none

theorem readsFile_fixValue :
    ReadsFile fun files err name => fixUnderscoreVariable files err.file err.line name := by
  intro files err name text h hnone
  simp [fixUnderscoreVariable, hnone] at h

theorem readsFile_fixType : ReadsFile fun files err name => fixMissingTypeIn files err.file name := by
  intro files err name text h hnone
  simp [fixMissingTypeIn, hnone] at h

/-! ## §2 What a run writes -/

/-- **Frame of a fix loop.** A path changes only if it held a file and an error of the loop
    names it. -/
theorem foldl_applyFix_frame {namePattern : Regex}
    {fix : Files → CargoError → List Char → Option (List Char)} (hfix : ReadsFile fix) (p : List Char) :
    ∀ (errs : List CargoError) (st : Files × Nat),
      (errs.foldl (applyFix namePattern fix) st).1 p = st.1 p ∨
        (st.1 p ≠ none ∧ ∃ err ∈ errs, err.file = p)
  | [], _ => .inl rfl
  | err :: errs, st => by
    rw [List.foldl_cons]
    rcases applyFix_cases namePattern fix st err with h | ⟨m, text, -, hf, h⟩
    · rw [h]
      exact (foldl_applyFix_frame hfix p errs st).imp_right
        fun ⟨hne, e, he, hp⟩ => ⟨hne, e, .tail _ he, hp⟩
    · rw [h]
      by_cases hp : p = err.file
      · exact .inr ⟨hp ▸ hfix _ _ _ _ hf, err, .head _, hp.symm⟩
      · rcases foldl_applyFix_frame hfix p errs _ with h' | ⟨hne, e, he, hep⟩
        · exact .inl (h'.trans (by simp [hp]))
        · exact .inr ⟨by simpa [hp] using hne, e, .tail _ he, hep⟩

/-- **A run writes only the files its errors name.** Every path whose content `main` changes held
    a file before, and an `E0425` or `E0412` error of the output names it. -/
theorem fixBuild_writes_only_named_files (output : List Char) (files : Files) (p : List Char)
    (hp : (fixBuild output files).1 p ≠ files p) :
    files p ≠ none ∧ ∃ e ∈ parseErrors output, e.file = p ∧
      (e.code = "E0425".toList ∨ e.code = "E0412".toList) := by
  dsimp only [fixBuild] at hp
  split at hp
  · exact absurd rfl hp
  · have hvalue := @foldl_applyFix_frame valueNamePattern _ readsFile_fixValue p
      (byCode (parseErrors output) "E0425".toList) (files, 0)
    have hmem : ∀ c e, e ∈ byCode (parseErrors output) c → e ∈ parseErrors output ∧ e.code = c :=
      fun c e he => by simpa [byCode] using he
    rcases @foldl_applyFix_frame typeNamePattern _ readsFile_fixType p
      (byCode (parseErrors output) "E0412".toList) _ with h | ⟨hne, e, he, hep⟩
    · rcases hvalue with h' | ⟨hne, e, he, hep⟩
      · exact absurd (h.trans h') hp
      · exact ⟨hne, e, (hmem _ _ he).1, hep, .inl (hmem _ _ he).2⟩
    · refine ⟨?_, e, (hmem _ _ he).1, hep, .inr (hmem _ _ he).2⟩
      rcases hvalue with h' | ⟨hne', -⟩
      · exact fun hn => hne (h'.trans hn)
      · exact hne'

/-- The run on one `E0412` error for `Arc` writes the file the error names. -/
theorem fixBuild_writes_only_named_files_on_arc :
    (fixBuild "a.rs:1:1: error[E0412]: cannot find type `Arc` in this scope".toList
        (Files.write (fun _ => none) "a.rs".toList "fn main() {}".toList)).1 "a.rs".toList ≠
      Files.write (fun _ => none) "a.rs".toList "fn main() {}".toList "a.rs".toList ∧
    Files.write (fun _ => none) "a.rs".toList "fn main() {}".toList "a.rs".toList ≠ none ∧
      ∃ e ∈ parseErrors "a.rs:1:1: error[E0412]: cannot find type `Arc` in this scope".toList,
        e.file = "a.rs".toList ∧ (e.code = "E0425".toList ∨ e.code = "E0412".toList) :=
  ⟨by decide, fixBuild_writes_only_named_files _ _ _ (by decide)⟩

/-! ## §3 The import loop adds each import once -/

theorem cr_not_mem_universalNewlines (x : List Char) : '\r' ∉ universalNewlines x := by
  induction x using universalNewlines.induct with
  | case1 => simp [universalNewlines]
  | case2 cs ih => simpa [universalNewlines] using ih
  | case3 cs h ih => rw [universalNewlines.eq_3 cs h]; simpa using ih
  | case4 c cs h₁ h₂ ih =>
    rw [universalNewlines.eq_4 c cs h₁ h₂]
    exact List.not_mem_cons_of_ne_of_not_mem (Ne.symm h₂) ih

/-- Reading a text without `\r` in text mode gives it back. -/
theorem universalNewlines_of_cr_not_mem {x : List Char} (h : '\r' ∉ x) : universalNewlines x = x := by
  induction x with
  | nil => rfl
  | cons c cs ih =>
    have hc : c ≠ '\r' := fun hc => h (hc ▸ List.mem_cons_self _ _)
    rw [universalNewlines.eq_4 c cs (fun _ h' => absurd h' hc) hc,
      ih fun h' => h (List.mem_cons_of_mem _ h')]

/-- The statements of the import table are single lines. -/
theorem missingTypeImports_line {name stmt : List Char}
    (h : missingTypeImports.lookup name = some stmt) : '\n' ∉ stmt ∧ '\r' ∉ stmt := by
  have hall : ∀ p ∈ missingTypeImports, '\n' ∉ p.2 ∧ '\r' ∉ p.2 := by decide
  obtain ⟨l₁, l₂, heq, -⟩ := List.lookup_eq_some_iff.1 h
  exact hall _ (heq ▸ List.mem_append_right _ (List.mem_cons_self _ _))

/-- What `add_import` writes has no `\r` when the text and the statement have none. -/
theorem cr_not_mem_insertImport {t stmt : List Char} (ht : '\r' ∉ t) (hs : '\r' ∉ stmt) (k : Nat) :
    '\r' ∉ unlines (insertAt (lines t) k stmt) := fun h =>
  (mem_of_mem_unlines h).elim (by decide) fun ⟨l, hl, hc⟩ =>
    (mem_insertAt.1 hl).elim (fun hl => hs (hl ▸ hc)) fun hl => ht (mem_of_mem_lines hl hc)

/-- The import an `E0412` error asks for is in its file, read in text mode; or the error asks
    for none (its message names no type, the table has no import for the type, or the file is
    missing). -/
def ImportPresent (files : Files) (err : CargoError) : Prop :=
  ∀ m stmt text, search typeNamePattern err.message = some m →
    missingTypeImports.lookup (m.group err.message 1) = some stmt →
    files err.file = some text → contains (universalNewlines text) stmt = true

/-- What one step of the `E0412` loop does: it leaves the state as it is, and then the
    error's import is present; or the import is missing from the file, and the step writes the
    file with the import's line inserted and counts one fix. -/
theorem fixTypeError_cases (st : Files × Nat) (err : CargoError) :
    (fixTypeError st err = st ∧ ImportPresent st.1 err) ∨
      ∃ m stmt text, search typeNamePattern err.message = some m ∧
        missingTypeImports.lookup (m.group err.message 1) = some stmt ∧ st.1 err.file = some text ∧
        contains (universalNewlines text) stmt = false ∧
        fixTypeError st err = (st.1.write err.file (unlines (insertAt (lines (universalNewlines text))
          (addImportPos (lines (universalNewlines text))) stmt)), st.2 + 1) := by
  simp only [fixTypeError, applyFix]
  rcases hm : search typeNamePattern err.message with _ | m
  · exact .inl ⟨rfl, fun _ _ _ h => nomatch h.symm.trans hm⟩
  rcases hl : missingTypeImports.lookup (m.group err.message 1) with _ | stmt
  · refine .inl ⟨by simp [fixMissingTypeIn, fixMissingType, hl], fun m' _ _ h h' => ?_⟩
    cases hm.symm.trans h
    exact nomatch h'.symm.trans hl
  rcases hf : st.1 err.file with _ | text
  · exact .inl ⟨by simp [fixMissingTypeIn, hf], fun _ _ _ _ _ h => nomatch h.symm.trans hf⟩
  cases hc : contains (universalNewlines text) stmt
  · exact .inr ⟨m, stmt, text, rfl, hl, rfl, hc, by simp [fixMissingTypeIn, hf, fixMissingType, hl, addImport, hc]⟩
  · refine .inl ⟨by simp [fixMissingTypeIn, hf, fixMissingType, hl, addImport, hc], ?_⟩
    intro m' stmt' text' h h' h''
    cases hm.symm.trans h
    cases hl.symm.trans h'
    cases hf.symm.trans h''
    exact hc

/-- One step of the `E0412` loop makes its own error's import present and keeps every import
    that was present: an inserted line splits no other line. -/
theorem fixTypeError_present (st : Files × Nat) (err : CargoError) :
    ImportPresent (fixTypeError st err).1 err ∧
      ∀ e, ImportPresent st.1 e → ImportPresent (fixTypeError st err).1 e := by
  rcases fixTypeError_cases st err with ⟨h, hp⟩ | ⟨m, stmt, text, hm, hl, hf, -, h⟩
  · rw [h]
    exact ⟨hp, fun _ => id⟩
  rw [h]
  have hcr := cr_not_mem_insertImport (cr_not_mem_universalNewlines text) (missingTypeImports_line hl).2
    (addImportPos (lines (universalNewlines text)))
  refine ⟨fun m' stmt' text' h h' h'' => ?_, fun e he m' stmt' text' h h' h'' => ?_⟩
  · cases hm.symm.trans h
    cases hl.symm.trans h'
    simp only [Files.write_apply, ↓reduceIte, Option.some.injEq] at h''
    rw [← h'', universalNewlines_of_cr_not_mem hcr]
    exact contains_unlines_insertAt_self _ _ _
  · simp only [Files.write_apply] at h''
    split at h''
    · rename_i hef
      cases h''
      rw [universalNewlines_of_cr_not_mem hcr]
      exact contains_unlines_insertAt (he m' stmt' text h h' (hef ▸ hf))
        (missingTypeImports_line h').1 _ _
    · exact he m' stmt' text' h h' h''

/-- **Run lemma of the `E0412` loop.** After the loop, the import of every error it went over is
    present, and so is every import that was present before. -/
theorem foldl_fixTypeError_present :
    ∀ (errs : List CargoError) (st : Files × Nat) (e : CargoError),
      ImportPresent st.1 e ∨ e ∈ errs → ImportPresent (errs.foldl fixTypeError st).1 e
  | [], _, _, h => h.resolve_right (List.not_mem_nil _)
  | err :: errs, st, e, h => by
    refine foldl_fixTypeError_present errs _ e ?_
    rcases h with h | h
    · exact .inl ((fixTypeError_present st err).2 e h)
    · rcases List.mem_cons.1 h with rfl | h
      · exact .inl (fixTypeError_present st e).1
      · exact .inr h

/-- When every error's import is present, the `E0412` loop writes nothing and counts nothing. -/
theorem foldl_fixTypeError_of_present {files : Files} :
    ∀ (errs : List CargoError) (n : Nat), (∀ e ∈ errs, ImportPresent files e) →
      errs.foldl fixTypeError (files, n) = (files, n)
  | [], _, _ => rfl
  | err :: errs, n, h => by
    rw [List.foldl_cons]
    rcases fixTypeError_cases (files, n) err with ⟨hst, -⟩ | ⟨m, stmt, text, hm, hl, hf, hc, -⟩
    · rw [hst]
      exact foldl_fixTypeError_of_present errs n fun e he => h e (.tail _ he)
    · exact absurd (h err (.head _) m stmt text hm hl hf) (by simp [hc])

/-- **The import loop is idempotent.** Running the `E0412` loop again over the same errors, on
    the files the first run left, writes nothing and counts no fix: every import the first run
    added is still in its file, and `add_import` finds it there. -/
theorem typeFixes_idempotent (errs : List CargoError) (st : Files × Nat) (n : Nat) :
    errs.foldl fixTypeError ((errs.foldl fixTypeError st).1, n) = ((errs.foldl fixTypeError st).1, n) :=
  foldl_fixTypeError_of_present errs n fun e he => foldl_fixTypeError_present errs st e (.inr he)

/-! ## §4 The rename loop keeps every line number

`main` takes the line numbers of all errors from one run of `cargo check` and fixes them one
after another, so an `E0425` fix must not move the lines a later error of the same file names.
It does not: `readlines` then `writelines` gives a file's text back (`flatten_readlines`), the
rename of one line keeps it one line (`KeepsLine`), and so the lines read back after a write are
the old lines with the one line replaced (`readlines_flatten`). -/

/-- The shape of what `readlines` returns: lines that end with their only `\n`, and possibly a
    last non-empty line without one. -/
def IsLines : List (List Char) → Prop
  | [] => True
  | l :: ls => (∃ x, l = x ++ ['\n'] ∧ '\n' ∉ x ∧ IsLines ls) ∨ (l ≠ [] ∧ '\n' ∉ l ∧ ls = [])

/-- **Lines split after a newline.** The one equation the round trip rests on. -/
theorem readlines_append_newline {x : List Char} (hx : '\n' ∉ x) (rest : List Char) :
    readlines (x ++ '\n' :: rest) = (x ++ ['\n']) :: readlines rest := by
  induction x with
  | nil => simp [readlines]
  | cons c x ih =>
    have hc : c ≠ '\n' := fun h => hx (h ▸ List.mem_cons_self _ _)
    rw [List.cons_append, readlines.eq_2, if_neg hc, ih fun h => hx (List.mem_cons_of_mem _ h)]
    rfl

/-- A non-empty text without a newline is one line. -/
theorem readlines_of_newline_not_mem {x : List Char} (hx : '\n' ∉ x) (hne : x ≠ []) :
    readlines x = [x] := by
  induction x with
  | nil => exact absurd rfl hne
  | cons c x ih =>
    have hc : c ≠ '\n' := fun h => hx (h ▸ List.mem_cons_self _ _)
    rw [readlines.eq_2, if_neg hc]
    cases x with
    | nil => rfl
    | cons d x => rw [ih (fun h => hx (List.mem_cons_of_mem _ h)) (List.cons_ne_nil _ _)]

/-- `writelines(readlines())` writes the text back. -/
theorem flatten_readlines (s : List Char) : (readlines s).flatten = s := by
  induction s with
  | nil => rfl
  | cons c cs ih =>
    rw [readlines.eq_2]
    split
    · rw [List.flatten_cons, ih, ‹c = '\n'›]
      rfl
    · split
      · rename_i hcs
        rw [hcs] at ih
        simp [← ih]
      · rename_i l ls hcs
        rw [hcs] at ih
        simp [← ih]

theorem isLines_readlines (s : List Char) : IsLines (readlines s) := by
  induction s with
  | nil => trivial
  | cons c cs ih =>
    rw [readlines.eq_2]
    split
    · exact .inl ⟨[], by simp [‹c = '\n'›], List.not_mem_nil _, ih⟩
    · rename_i hc
      have hc' : '\n' ∉ [c] := List.not_mem_cons_of_ne_of_not_mem (Ne.symm hc) (List.not_mem_nil _)
      split
      · exact .inr ⟨List.cons_ne_nil _ _, hc', rfl⟩
      · rename_i l ls hcs
        rw [hcs] at ih
        rcases ih with ⟨x, rfl, hx, h⟩ | ⟨-, hl, rfl⟩
        · exact .inl ⟨c :: x, rfl, List.not_mem_cons_of_ne_of_not_mem (Ne.symm hc) hx, h⟩
        · exact .inr ⟨List.cons_ne_nil _ _, List.not_mem_cons_of_ne_of_not_mem (Ne.symm hc) hl, rfl⟩

/-- `readlines` reads back the lines `writelines` wrote, when they have its shape. -/
theorem readlines_flatten {ls : List (List Char)} (h : IsLines ls) : readlines ls.flatten = ls := by
  induction ls with
  | nil => rfl
  | cons l ls ih =>
    rcases h with ⟨x, rfl, hx, h⟩ | ⟨hne, hl, rfl⟩
    · rw [List.flatten_cons, List.append_assoc, List.singleton_append, readlines_append_newline hx,
        ih h]
    · rw [List.flatten_cons, List.flatten_nil, List.append_nil, readlines_of_newline_not_mem hl hne]

/-- An edit of one line that keeps it a line of its file: a line ending with `\n` keeps its only
    `\n` at the end, and a last line without one stays non-empty without one. -/
structure KeepsLine (f : List Char → List Char) : Prop where
  terminated : ∀ x, '\n' ∉ x → ∃ x', f (x ++ ['\n']) = x' ++ ['\n'] ∧ '\n' ∉ x'
  last : ∀ x, x ≠ [] → '\n' ∉ x → f x ≠ [] ∧ '\n' ∉ f x

theorem IsLines.set_apply {f : List Char → List Char} (hf : KeepsLine f) :
    ∀ {ls : List (List Char)}, IsLines ls → ∀ i l, ls[i]? = some l → IsLines (ls.set i (f l))
  | [], _, _, _, h => nomatch h
  | l₀ :: ls, h, 0, l, hl => by
    obtain rfl : l₀ = l := by simpa using hl
    rw [List.set_cons_zero]
    rcases h with ⟨x, rfl, hx, h⟩ | ⟨hne, hl', rfl⟩
    · obtain ⟨x', hfx, hx'⟩ := hf.terminated x hx
      exact .inl ⟨x', hfx, hx', h⟩
    · exact .inr ⟨(hf.last _ hne hl').1, (hf.last _ hne hl').2, rfl⟩
  | l₀ :: ls, h, i + 1, l, hl => by
    rw [List.set_cons_succ]
    rcases h with ⟨x, rfl, hx, h⟩ | ⟨-, -, rfl⟩
    · exact .inl ⟨x, rfl, hx, IsLines.set_apply hf h i l (by simpa using hl)⟩
    · simp at hl

/-- The character the octal escape `\1dd` stands for is `chr(64 + ...)`, no line end. -/
theorem toNat_ofNat_cases (N : Nat) : (Char.ofNat N).toNat = N ∨ (Char.ofNat N).toNat = 0 := by
  unfold Char.ofNat
  split
  · exact .inl (by simp [Char.ofNatAux, Char.toNat, UInt32.toNat])
  · exact .inr rfl

theorem ofNat_ne_newline {N : Nat} (h : 64 ≤ N) : Char.ofNat N ≠ '\n' ∧ Char.ofNat N ≠ '\r' := by
  have h10 : ('\n' : Char).toNat = 10 := rfl
  have h13 : ('\r' : Char).toNat = 13 := rfl
  constructor <;> intro h' <;> have := congrArg Char.toNat h' <;>
    rcases toNat_ofNat_cases N with h'' | h'' <;> omega

/-- A replacement of the `let` template holds the group the pattern captured, characters of the
    name, and otherwise no line end. -/
theorem mem_expand_underscoreLetTemplate {v s : List Char} {m : Match} {tmpl : List Piece}
    {c : Char} (ht : underscoreLetTemplate v = some tmpl) (hc : c ∈ expand s m tmpl) :
    c ∈ m.group s 1 ∨ c ∈ v ∨ (c ≠ '\n' ∧ c ≠ '\r') := by
  have hlet : ∀ c ∈ "let ".toList, c ≠ '\n' ∧ c ≠ '\r' := by decide
  unfold underscoreLetTemplate at ht
  split at ht
  · rename_i d rest
    split at ht
    · split at ht
      · rename_i e rest'
        split at ht
        · cases ht
          simp only [expand, List.append_nil, List.mem_append, List.mem_cons] at hc
          rcases hc with hc | rfl | hc
          · exact .inr (.inr (hlet c hc))
          · exact .inr (.inr (ofNat_ne_newline (by omega)))
          · exact .inr (.inl (List.mem_cons_of_mem _ (List.mem_cons_of_mem _ hc)))
        · cases ht
      · cases ht
    · cases ht
      simp only [expand, List.append_nil, List.mem_append] at hc
      rcases hc with hc | hc | hc
      · exact .inr (.inr (hlet c hc))
      · exact .inl hc
      · exact .inr (.inl hc)
  · cases ht
    simp only [expand, List.append_nil, List.mem_append] at hc
    exact hc.elim (fun hc => .inr (.inr (hlet c hc))) .inl

theorem expand_underscoreLetTemplate_ne_nil {v s : List Char} {m : Match} {tmpl : List Piece}
    (ht : underscoreLetTemplate v = some tmpl) : expand s m tmpl ≠ [] := by
  unfold underscoreLetTemplate at ht
  repeat' split at ht
  all_goals cases ht <;> simp [expand]

/-- A match of the `let` pattern ends with the name, so it never takes a line's `\n`. -/
theorem stop_le_of_mem_finditer_underscoreLet {v x t : List Char} {m : Match} (hv : '\n' ∉ v)
    (ht : t = [] ∨ t = ['\n']) (hm : m ∈ finditer (underscoreLetPattern v) (x ++ t)) :
    m.stop ≤ x.length := by
  have hsp := Regex.spans_of_mem_ends (ends_of_mem_finditer hm)
  simp only [underscoreLetPattern, Regex.seqs_cons_spans, Regex.seqs_nil_spans,
    Regex.boundary_spans, Regex.lit_spans] at hsp
  obtain ⟨_, -, _, -, _, -, q, -, e, ⟨hpre, rfl⟩, _, ⟨rfl, -⟩, hstop⟩ := hsp
  rw [hstop]
  have hget := getElem?_of_isPrefixOf hpre (k := v.length) (by simp)
  obtain ⟨c, hc⟩ : ∃ c, ('_' :: v)[v.length]? = some c := ⟨_, List.getElem?_eq_getElem (by simp)⟩
  have hcv := List.getElem?_mem hc
  rw [hc] at hget
  by_contra hlt
  rw [List.getElem?_append_right (by simp only [List.length_cons] at hlt ⊢; omega)] at hget
  rcases ht with rfl | rfl
  · simp at hget
  · have hidx : q + v.length - x.length = 0 := by
      have := (List.getElem?_eq_some_iff.1 hget).1
      simp only [List.length_singleton] at this
      omega
    rw [hidx] at hget
    obtain rfl : '\n' = c := by simpa using hget
    rcases List.mem_cons.1 hcv with h | h
    · exact absurd h (by decide)
    · exact hv h

theorem spliceFrom_zero_ne_nil {s : List Char} {f : Match → List Char} {ms : List Match}
    (hs : s ≠ []) (hf : ∀ m ∈ ms, f m ≠ []) : spliceFrom s f 0 ms ≠ [] := by
  cases ms with
  | nil => simpa [spliceFrom] using hs
  | cons m ms => simp [spliceFrom, hf m (.head _)]

/-- **The rename of one line.** Its matches lie before the line's `\n`, and its replacements bring
    no line end but the captured group's and the name's characters. -/
theorem sub_underscoreLet_append {v x t : List Char} {tmpl : List Piece} (hv : '\n' ∉ v)
    (ht : t = [] ∨ t = ['\n']) (htmpl : underscoreLetTemplate v = some tmpl) :
    ∃ x', sub (underscoreLetPattern v) tmpl (x ++ t) = x' ++ t ∧
      (∀ c ∈ x', c ∈ x ∨ c ∈ v ∨ (c ≠ '\n' ∧ c ≠ '\r')) ∧ (x ≠ [] → x' ≠ []) := by
  have hstop : ∀ m ∈ finditer (underscoreLetPattern v) (x ++ t), m.stop ≤ x.length :=
    fun _ hm => stop_le_of_mem_finditer_underscoreLet hv ht hm
  refine ⟨_, spliceFrom_append_right _ 0 _ (Nat.zero_le _) (chain_finditerAux _ _ _ _ _) hstop,
    fun c hc => ?_, fun hne => spliceFrom_zero_ne_nil hne fun _ _ =>
      expand_underscoreLetTemplate_ne_nil htmpl⟩
  rcases mem_spliceFrom hc with hc | ⟨m, hm, hc⟩
  · exact .inl hc
  rcases mem_expand_underscoreLetTemplate htmpl hc with hc | hc | hc
  · obtain ⟨j, -, hj, hjc⟩ := Match.mem_group (ends_of_mem_finditer hm) hc
    rw [List.getElem?_append_left (by have := hstop m hm; omega)] at hjc
    exact .inl (List.getElem?_mem hjc)
  · exact .inr (.inl hc)
  · exact .inr (.inr hc)

theorem newline_not_mem_of_forall {x x' v : List Char} (hx : '\n' ∉ x) (hv : '\n' ∉ v)
    (h : ∀ c ∈ x', c ∈ x ∨ c ∈ v ∨ (c ≠ '\n' ∧ c ≠ '\r')) : '\n' ∉ x' := fun hn =>
  (h _ hn).elim hx fun h => h.elim hv fun h => h.1 rfl

theorem keepsLine_sub_underscoreLet {v : List Char} {tmpl : List Piece} (hv : '\n' ∉ v)
    (htmpl : underscoreLetTemplate v = some tmpl) : KeepsLine (sub (underscoreLetPattern v) tmpl) where
  terminated x hx := by
    obtain ⟨x', h, hmem, -⟩ := sub_underscoreLet_append (x := x) hv (.inr rfl) htmpl
    exact ⟨x', h, newline_not_mem_of_forall hx hv hmem⟩
  last x hne hx := by
    obtain ⟨x', h, hmem, hne'⟩ := sub_underscoreLet_append (x := x) hv (.inl rfl) htmpl
    rw [List.append_nil, List.append_nil] at h
    exact h ▸ ⟨hne' hne, newline_not_mem_of_forall hx hv hmem⟩

/-- Each line `readlines` returns is a text without `\n`, then a `\n` or nothing. -/
theorem IsLines.shape {ls : List (List Char)} (h : IsLines ls) :
    ∀ l ∈ ls, ∃ x t, l = x ++ t ∧ '\n' ∉ x ∧ (t = [] ∨ t = ['\n']) := by
  induction ls with
  | nil => intro _ h; cases h
  | cons l₀ ls ih =>
    intro l hl
    rcases h with ⟨x, rfl, hx, h⟩ | ⟨-, hl₀, rfl⟩
    · rcases List.mem_cons.1 hl with rfl | hl
      · exact ⟨x, _, rfl, hx, .inr rfl⟩
      · exact ih h l hl
    · obtain rfl := List.mem_singleton.1 hl
      exact ⟨l, [], (List.append_nil l).symm, hl₀, .inl rfl⟩

/-- `cannot find value` names a word. -/
theorem isWord_of_mem_group_valueNamePattern {msg : List Char} {m : Match}
    (hm : search valueNamePattern msg = some m) : ∀ c ∈ m.group msg 1, isWord c = true := by
  obtain ⟨-, -, -, hends⟩ := searchFrom_bounds hm
  intro c hc
  unfold Match.group at hc
  split at hc
  · rename_i a b hab
    obtain ⟨body, hb, hsp⟩ := Match.span_spans hends Nat.one_ne_zero hab
    have hbodies : valueNamePattern.groupBodies = [(1, Regex.plus .word)] := rfl
    obtain rfl : body = Regex.plus .word := by simpa [hbodies] using hb
    exact mem_of_allIn hsp.2.1 c hc
  · cases hc

/-- The lines of a file as `readlines` reads them in text mode; `none` where there is no file. -/
def fileLines (files : Files) (p : List Char) : Option (List (List Char)) :=
  (files p).map fun t => readlines (universalNewlines t)

/-- **What `fix_underscore_variable` writes.** Read back, the file it wrote has the lines it read,
    with the line the error's number selects replaced: a rename splits and joins no line. -/
theorem fixUnderscoreVariable_lines {files : Files} {p : List Char} {n : Nat} {v text : List Char}
    (hv : ∀ c ∈ v, isWord c = true) (h : fixUnderscoreVariable files p n v = some text) :
    ∃ ls i l', fileLines files p = some ls ∧ lineIndex ls.length n = some i ∧
      readlines (universalNewlines text) = ls.set i l' := by
  unfold fixUnderscoreVariable at h
  simp only [Option.bind_eq_bind, Option.bind_eq_some] at h
  obtain ⟨text₀, hf, h⟩ := h
  split at h
  swap
  · cases h
  simp only [Option.bind_eq_bind, Option.bind_eq_some] at h
  obtain ⟨i, hi, line, hl, tmpl, ht, h⟩ := h
  split at h
  swap
  · cases h
  obtain rfl := (Option.some_inj.1 h).symm
  have hnv : '\n' ∉ v := fun hn => absurd (hv _ hn) (by decide)
  have hlines := isLines_readlines (universalNewlines text₀)
  refine ⟨_, i, sub (underscoreLetPattern v) tmpl line, by simp [fileLines, hf], hi, ?_⟩
  have hcr : '\r' ∉ ((readlines (universalNewlines text₀)).set i
      (sub (underscoreLetPattern v) tmpl line)).flatten := by
    intro hc
    obtain ⟨l, hl', hcl⟩ := List.mem_flatten.1 hc
    have hold : ∀ l ∈ readlines (universalNewlines text₀), '\r' ∉ l := fun l hl hcl =>
      cr_not_mem_universalNewlines text₀
        (flatten_readlines (universalNewlines text₀) ▸ List.mem_flatten.2 ⟨l, hl, hcl⟩)
    rcases List.mem_or_eq_of_mem_set hl' with hl' | rfl
    · exact hold l hl' hcl
    obtain ⟨x, t, rfl, -, htt⟩ := hlines.shape line (List.getElem?_mem hl)
    obtain ⟨x', hsub, hmem, -⟩ := sub_underscoreLet_append (x := x) hnv htt ht
    rw [hsub] at hcl
    rcases List.mem_append.1 hcl with hcl | hcl
    · rcases hmem _ hcl with hcl | hcl | hcl
      · exact hold _ (List.getElem?_mem hl) (List.mem_append_left _ hcl)
      · exact absurd (hv _ hcl) (by decide)
      · exact hcl.2 rfl
    · exact hold _ (List.getElem?_mem hl) (List.mem_append_right _ hcl)
  rw [universalNewlines_of_cr_not_mem hcr,
    readlines_flatten (hlines.set_apply (keepsLine_sub_underscoreLet hnv ht) i line hl)]

/-- One step of the `E0425` loop changes the lines of one file only, the error's, where it
    replaces the line the error's number selects. -/
theorem fixValueError_fileLines (st : Files × Nat) (err : CargoError) (p : List Char) :
    fileLines (fixValueError st err).1 p = fileLines st.1 p ∨
      p = err.file ∧ ∃ ls i l', fileLines st.1 p = some ls ∧ lineIndex ls.length err.line = some i ∧
        fileLines (fixValueError st err).1 p = some (ls.set i l') := by
  have hdef : fixValueError st err = applyFix valueNamePattern
      (fun files err name => fixUnderscoreVariable files err.file err.line name) st err := rfl
  rcases applyFix_cases valueNamePattern _ st err with h | ⟨m, text, hm, hf, h⟩
  · exact .inl (by rw [hdef, h])
  have hw : (fixValueError st err).1 = st.1.write err.file text := by rw [hdef, h]
  by_cases hp : p = err.file
  · subst hp
    obtain ⟨ls, i, l', hls, hi, hread⟩ :=
      fixUnderscoreVariable_lines (isWord_of_mem_group_valueNamePattern hm) hf
    exact .inr ⟨rfl, ls, i, l', hls, hi, by simp [fileLines, hw, hread]⟩
  · exact .inl (by simp [fileLines, hw, hp])

/-- **Run lemma of the `E0425` loop.** A file keeps its number of lines, and a line that changes
    is one that an error of the loop names by file and number. -/
theorem foldl_fixValueError_lines (p : List Char) :
    ∀ (errs : List CargoError) (st : Files × Nat) (ls : List (List Char)),
      fileLines st.1 p = some ls →
      ∃ ls', fileLines (errs.foldl fixValueError st).1 p = some ls' ∧ ls'.length = ls.length ∧
        ∀ j, ls'[j]? ≠ ls[j]? → ∃ err ∈ errs, err.file = p ∧ lineIndex ls.length err.line = some j
  | [], _, ls, h => ⟨ls, h, rfl, fun _ hj => absurd rfl hj⟩
  | err :: errs, st, ls, h => by
    rw [List.foldl_cons]
    rcases fixValueError_fileLines st err p with h' | ⟨hpe, ls₀, i, l', h₀, hi, h'⟩
    · obtain ⟨ls', h₁, hlen, hj⟩ := foldl_fixValueError_lines p errs _ ls (h'.trans h)
      exact ⟨ls', h₁, hlen, fun j hne => (hj j hne).imp fun e he => ⟨.tail _ he.1, he.2⟩⟩
    obtain rfl := Option.some_inj.1 (h₀.symm.trans h)
    obtain ⟨ls', h₁, hlen, hj⟩ := foldl_fixValueError_lines p errs _ _ h'
    rw [List.length_set] at hlen hj
    refine ⟨ls', h₁, hlen, fun j hne => ?_⟩
    by_cases hji : j = i
    · exact ⟨err, .head _, hpe.symm, hji ▸ hi⟩
    · obtain ⟨e, he, hep, hei⟩ := hj j (by rwa [List.getElem?_set_ne (Ne.symm hji)])
      exact ⟨e, .tail _ he, hep, hei⟩

/-- **The rename loop keeps every line number.** Over any errors and any files, the `E0425` loop of
    `main` leaves every file with as many lines as it had, and changes only lines that an error of
    the loop names by file and number. So the line number `cargo check` reported for an error
    still selects the same line when the error's turn comes. -/
theorem valueFixes_keep_line_numbers (errs : List CargoError) (st : Files × Nat) (p : List Char) :
    (fileLines (errs.foldl fixValueError st).1 p).map List.length = (fileLines st.1 p).map List.length ∧
      ∀ ls ls', fileLines st.1 p = some ls → fileLines (errs.foldl fixValueError st).1 p = some ls' →
        ∀ j, ls'[j]? ≠ ls[j]? → ∃ err ∈ errs, err.file = p ∧ lineIndex ls.length err.line = some j := by
  cases h : fileLines st.1 p with
  | none =>
    have hnone : st.1 p = none := by simpa [fileLines] using h
    rcases @foldl_applyFix_frame valueNamePattern _ readsFile_fixValue p errs st with h' | ⟨hne, -⟩
    · exact ⟨by simp [fileLines, show (errs.foldl fixValueError st).1 p = none from h'.trans hnone],
        fun _ _ h₀ => nomatch h₀⟩
    · exact absurd hnone hne
  | some ls =>
    obtain ⟨ls', h₁, hlen, hj⟩ := foldl_fixValueError_lines p errs st ls h
    refine ⟨by simp [h₁, hlen], fun _ _ h₀ h₁' => ?_⟩
    cases h₀
    cases h₁.symm.trans h₁'
    exact hj

end RustyDb.Fixers
