import RustyDb.Fixers.FixBuild
import RustyDb.Python.RegexSpec
import Mathlib.Data.Nat.Digits

/-!
# What `parse_errors` Returns

`parse_errors` of `fix_build.py` keeps the lines of the output of `cargo check` that
`re.match` accepts with `errorLinePattern`. Every record it returns is well formed
(`parseErrors_wellFormed`), and the records printed the way cargo prints them parse back to
themselves (`parseErrors_render`): the parser loses nothing of a well-formed error.

Each field of an accepted line is closed by a character its class excludes: a `:` ends the
path and the two numbers, the `e` of `error` ends the blank, `]` ends the code. All matches
of the pattern up to `]:` therefore agree (`ErrorHead.unique`). Only the blank before the
message can end in more than one place, and there `sre` takes the longest run
(`Regex.head_ends_seq_rep`): a message starts with whitespace only when it is a single
whitespace character.
-/

namespace RustyDb.Fixers

open RustyDb.Python

/-! ## §1 Well-formed records -/

/-- The records `parse_errors` can return. -/
structure CargoError.WellFormed (e : CargoError) : Prop where
  /-- The path is not empty. -/
  file_ne : e.file ≠ []
  /-- The path holds neither `:` nor a newline. -/
  file_chars : ∀ c ∈ e.file, c ≠ ':' ∧ c ≠ '\n'
  /-- The code is `E` and at least one digit. -/
  code_digits : ∃ ds, e.code = 'E' :: ds ∧ ds ≠ [] ∧ ∀ c ∈ ds, digit.mem c = true
  /-- The message is not empty. -/
  message_ne : e.message ≠ []
  /-- The message holds no newline. -/
  message_chars : '\n' ∉ e.message
  /-- The message starts with whitespace only when it is that one character. -/
  message_head : ∀ c, e.message.head? = some c → isSpace c = true → e.message.length = 1

/-- The line `cargo check --message-format=short` prints for an error:
    `file:line:col: error[code]: message`. -/
def CargoError.render (e : CargoError) : List Char :=
  e.file ++ ':' :: (Nat.toDigits 10 e.line ++ ':' :: (Nat.toDigits 10 e.col ++ ':' :: ' ' ::
    ("error[".toList ++ (e.code ++ ']' :: ':' :: ' ' :: e.message))))

/-! ## §2 Decimal numbers -/

theorem digitChar_toNat : ∀ k < 10, (Nat.digitChar k).toNat = k + 48 := by decide

theorem digit_mem_digitChar : ∀ k < 10, digit.mem (Nat.digitChar k) = true := by decide

/-- `int` reads back the digits `toDigitsCore` prepends. -/
theorem decimal_toDigitsCore (f n : Nat) (ds : List Char) (hn : n < f) :
    (Nat.toDigitsCore 10 f n ds).foldl decimalStep 0 = ds.foldl decimalStep n := by
  induction f generalizing n ds with
  | zero => omega
  | succ f ih =>
    have hd : decimalStep (n / 10) (Nat.digitChar (n % 10)) = n := by
      rw [decimalStep, digitChar_toNat _ (Nat.mod_lt _ (by omega))]
      show 10 * (n / 10) + (n % 10 + 48 - 48) = n
      omega
    simp only [Nat.toDigitsCore]
    split
    · rename_i h0
      rw [List.foldl_cons, ← h0, hd]
    · rw [ih _ _ (by omega), List.foldl_cons, hd]

theorem decimal_toDigits (n : Nat) : decimal (Nat.toDigits 10 n) = n :=
  decimal_toDigitsCore _ _ _ (Nat.lt_succ_self n)

theorem mem_toDigitsCore {f n : Nat} {ds : List Char} {c : Char} (hc : c ∈ Nat.toDigitsCore 10 f n ds) :
    c ∈ ds ∨ digit.mem c = true := by
  induction f generalizing n ds with
  | zero => exact .inl hc
  | succ f ih =>
    simp only [Nat.toDigitsCore] at hc
    split at hc
    · rcases List.mem_cons.1 hc with rfl | hc
      · exact .inr (digit_mem_digitChar _ (Nat.mod_lt _ (by omega)))
      · exact .inl hc
    · rcases ih hc with hc | hc
      · rcases List.mem_cons.1 hc with rfl | hc
        · exact .inr (digit_mem_digitChar _ (Nat.mod_lt _ (by omega)))
        · exact .inl hc
      · exact .inr hc

theorem digit_mem_of_mem_toDigits {n : Nat} {c : Char} (hc : c ∈ Nat.toDigits 10 n) :
    digit.mem c = true :=
  (mem_toDigitsCore hc).resolve_left (List.not_mem_nil c)

theorem mem_toDigitsCore_of_mem {f n : Nat} {ds : List Char} {c : Char} (hc : c ∈ ds) :
    c ∈ Nat.toDigitsCore 10 f n ds := by
  induction f generalizing n ds with
  | zero => exact hc
  | succ f ih =>
    simp only [Nat.toDigitsCore]
    split
    · exact .tail _ hc
    · exact ih (.tail _ hc)

theorem toDigits_ne_nil (n : Nat) : Nat.toDigits 10 n ≠ [] := by
  simp only [Nat.toDigits, Nat.toDigitsCore]
  split
  · exact List.cons_ne_nil _ _
  · exact List.ne_nil_of_mem (mem_toDigitsCore_of_mem (List.mem_singleton_self _))

/-! ## §3 Runs closed by a character -/

/-- A run of `k` that the next character stops is the whole run from its start. -/
theorem eq_add_runLen {k : CharSet} {s : List Char} {i e : Nat} {c : Char} (hie : i ≤ e)
    (h : AllIn k s i e) (hc : s[e]? = some c) (hk : k.mem c = false) :
    e = i + runLen k (s.drop i) := by
  refine le_antisymm ((allIn_iff_le_runLen k s i e).1 h) (Nat.not_lt.1 fun hlt => ?_)
  obtain ⟨c', hc', hk'⟩ := (allIn_iff_le_runLen k s i (e + 1)).2 (by omega) e hie (by omega)
  obtain rfl := Option.some.inj (hc.symm.trans hc')
  simp [hk] at hk'

theorem runLen_append_cons {k : CharSet} {x y : List Char} {c : Char}
    (hx : ∀ d ∈ x, k.mem d = true) (hc : k.mem c = false) : runLen k (x ++ c :: y) = x.length := by
  induction x with
  | nil => simp [runLen, hc]
  | cons d x ih => simp [runLen, hx d (.head _), ih fun d h => hx d (.tail _ h)]

/-- The characters of a field lie in the field's class. -/
theorem mem_slice_of_allIn {k : CharSet} {s : List Char} {a b : Nat} (h : AllIn k s a b)
    {c : Char} (hc : c ∈ (s.drop a).take (b - a)) : k.mem c = true := by
  obtain ⟨i, hi⟩ := List.mem_iff_getElem?.1 hc
  have hib : i < b - a := by
    by_contra hn
    rw [List.getElem?_take_eq_none (by omega)] at hi
    cases hi
  rw [List.getElem?_take_of_lt hib, List.getElem?_drop] at hi
  obtain ⟨c', hc', hk⟩ := h (a + i) (by omega) (by omega)
  obtain rfl := Option.some.inj (hi.symm.trans hc')
  exact hk

/-! ## §4 The fields of an accepted line -/

/-- The pattern up to `]:`. -/
def errorHead : List Regex :=
  [.group 1 (Regex.plus (.compl (.chr ':'))), .set (.chr ':'), .group 2 (Regex.plus digit),
    .set (.chr ':'), .group 3 (Regex.plus digit), .set (.chr ':'), Regex.plus .space,
    .lit "error[E".toList, .group 4 (Regex.plus digit), .lit "]:".toList]

/-- The blank and the message after `]:`. -/
def errorTail : List Regex := [Regex.plus .space, .group 5 (Regex.plus .notNewline), .endText]

theorem errorLinePattern_eq : errorLinePattern = .seqs (errorHead ++ errorTail) := rfl

/-- Where the fields of a line end, as a match of `errorHead` reads them: the path before `p₁`,
    the line number before `p₂`, the column before `p₃`, the blank before `p₄` and the code's
    digits before `p₅`; `]:` follows. -/
structure ErrorHead (l : List Char) (p₁ p₂ p₃ p₄ p₅ : Nat) : Prop where
  file_pos : 0 < p₁
  file : AllIn (.compl (.chr ':')) l 0 p₁
  colon₁ : l[p₁]? = some ':'
  line_pos : p₁ + 1 < p₂
  line : AllIn digit l (p₁ + 1) p₂
  colon₂ : l[p₂]? = some ':'
  col_pos : p₂ + 1 < p₃
  col : AllIn digit l (p₂ + 1) p₃
  colon₃ : l[p₃]? = some ':'
  blank_pos : p₃ + 1 < p₄
  blank : AllIn .space l (p₃ + 1) p₄
  error : "error[E".toList.isPrefixOf (l.drop p₄) = true
  code_pos : p₄ + 7 < p₅
  code : AllIn digit l (p₄ + 7) p₅
  close : "]:".toList.isPrefixOf (l.drop p₅) = true

namespace ErrorHead

variable {l : List Char} {p₁ p₂ p₃ p₄ p₅ : Nat} (h : ErrorHead l p₁ p₂ p₃ p₄ p₅)
include h

/-- Each field ends where the run of its class does. -/
theorem eq_runLen :
    p₁ = runLen (.compl (.chr ':')) l ∧ p₂ = p₁ + 1 + runLen digit (l.drop (p₁ + 1)) ∧
      p₃ = p₂ + 1 + runLen digit (l.drop (p₂ + 1)) ∧
      p₄ = p₃ + 1 + runLen .space (l.drop (p₃ + 1)) ∧
      p₅ = p₄ + 7 + runLen digit (l.drop (p₄ + 7)) := by
  have he : l[p₄]? = some 'e' := by simpa using getElem?_of_isPrefixOf h.error (k := 0) (by decide)
  have hb : l[p₅]? = some ']' := by simpa using getElem?_of_isPrefixOf h.close (k := 0) (by decide)
  refine ⟨?_, eq_add_runLen h.line_pos.le h.line h.colon₂ (by decide),
    eq_add_runLen h.col_pos.le h.col h.colon₃ (by decide), eq_add_runLen h.blank_pos.le h.blank he (by decide),
    eq_add_runLen h.code_pos.le h.code hb (by decide)⟩
  simpa using eq_add_runLen (Nat.zero_le _) h.file h.colon₁ (by decide)

/-- All matches of `errorHead` on a line end their fields at the same places. -/
theorem unique {q₁ q₂ q₃ q₄ q₅ : Nat} (h' : ErrorHead l q₁ q₂ q₃ q₄ q₅) :
    p₁ = q₁ ∧ p₂ = q₂ ∧ p₃ = q₃ ∧ p₄ = q₄ ∧ p₅ = q₅ := by
  obtain ⟨e₁, e₂, e₃, e₄, e₅⟩ := h.eq_runLen
  obtain ⟨f₁, f₂, f₃, f₄, f₅⟩ := h'.eq_runLen
  obtain rfl : p₁ = q₁ := e₁.trans f₁.symm
  obtain rfl : p₂ = q₂ := e₂.trans f₂.symm
  obtain rfl : p₃ = q₃ := e₃.trans f₃.symm
  obtain rfl : p₄ = q₄ := e₄.trans f₄.symm
  exact ⟨rfl, rfl, rfl, rfl, e₅.trans f₅.symm⟩

end ErrorHead

/-- A match of `errorHead` from the start of a line: its fields and the captures of groups
    1 to 4. -/
theorem errorHead_of_mem {l : List Char} {j : Nat} {cs : Caps}
    (h : (j, cs) ∈ (Regex.seqs errorHead).ends l 0 []) :
    ∃ p₁ p₂ p₃ p₄ p₅, ErrorHead l p₁ p₂ p₃ p₄ p₅ ∧ j = p₅ + 2 ∧
      cs = [(4, p₄ + 7, p₅), (3, p₂ + 1, p₃), (2, p₁ + 1, p₂), (1, 0, p₁)] := by
  simp only [errorHead, Regex.seqs] at h
  obtain ⟨p₁, ⟨hp₁, hfile, -⟩, h⟩ := Regex.mem_ends_seq_group (by rfl) h
  obtain ⟨_, ⟨rfl, c₁, hc₁, hk₁⟩, h⟩ := Regex.mem_ends_seq_plain (by rfl) h
  obtain ⟨p₂, ⟨hp₂, hline, -⟩, h⟩ := Regex.mem_ends_seq_group (by rfl) h
  obtain ⟨_, ⟨rfl, c₂, hc₂, hk₂⟩, h⟩ := Regex.mem_ends_seq_plain (by rfl) h
  obtain ⟨p₃, ⟨hp₃, hcol, -⟩, h⟩ := Regex.mem_ends_seq_group (by rfl) h
  obtain ⟨_, ⟨rfl, c₃, hc₃, hk₃⟩, h⟩ := Regex.mem_ends_seq_plain (by rfl) h
  obtain ⟨p₄, ⟨hp₄, hblank, -⟩, h⟩ := Regex.mem_ends_seq_plain (by rfl) h
  obtain ⟨_, hlit, h⟩ := Regex.mem_ends_seq_plain (by rfl) h
  obtain ⟨herror, rfl⟩ := (Regex.lit_spans _ _ _ _).1 hlit
  obtain ⟨p₅, ⟨hp₅, hcode, -⟩, h⟩ := Regex.mem_ends_seq_group (by rfl) h
  obtain rfl := beq_iff_eq.1 hk₁
  obtain rfl := beq_iff_eq.1 hk₂
  obtain rfl := beq_iff_eq.1 hk₃
  rw [Regex.lit_ends] at h
  split at h
  · obtain ⟨rfl, rfl⟩ := Prod.mk.inj (List.mem_singleton.1 h)
    exact ⟨p₁, p₂, p₃, p₄, p₅, ⟨by omega, hfile, hc₁, by omega, hline, hc₂, by omega, hcol, hc₃,
      by omega, hblank, herror, by simp at hp₅; omega, hcode, ‹_›⟩, rfl, rfl⟩
  · cases h

/-- A match of `errorTail` from `j`: the blank up to `p₆`, and the message from there to the end
    of the line in group 5. -/
theorem errorTail_of_mem {l : List Char} {j e : Nat} {cs cs' : Caps}
    (h : (e, cs') ∈ (Regex.seqs errorTail).ends l j cs) :
    ∃ p₆, j < p₆ ∧ AllIn .space l j p₆ ∧ p₆ < e ∧ AllIn .notNewline l p₆ e ∧
      atEndText l e = true ∧ cs' = (5, p₆, e) :: cs := by
  simp only [errorTail, Regex.seqs] at h
  obtain ⟨p₆, ⟨hp₆, hblank, -⟩, h⟩ := Regex.mem_ends_seq_plain (by rfl) h
  obtain ⟨e', ⟨he', hmsg, -⟩, h⟩ := Regex.mem_ends_seq_group (by rfl) h
  obtain ⟨rfl, hend⟩ := Regex.spans_of_mem_ends h
  exact ⟨p₆, by omega, hblank, by omega, hmsg, hend, caps_of_groupBodies_nil (by rfl) h⟩

theorem mem_errorLinePattern_ends {l : List Char} {e : Nat} {cs : Caps} :
    (e, cs) ∈ errorLinePattern.ends l 0 [] ↔
      ∃ x ∈ (Regex.seqs errorHead).ends l 0 [], (e, cs) ∈ (Regex.seqs errorTail).ends l x.1 x.2 := by
  rw [errorLinePattern_eq, Regex.ends_seqs_append _ (by simp [errorHead]) (by simp [errorTail]),
    List.mem_flatMap]

/-- Every match of the pattern on a line: the fields it reads and its captures. -/
theorem errorLine_of_mem {l : List Char} {e : Nat} {cs : Caps}
    (h : (e, cs) ∈ errorLinePattern.ends l 0 []) :
    ∃ p₁ p₂ p₃ p₄ p₅ p₆, ErrorHead l p₁ p₂ p₃ p₄ p₅ ∧ p₅ + 2 < p₆ ∧ AllIn .space l (p₅ + 2) p₆ ∧
      p₆ < e ∧ AllIn .notNewline l p₆ e ∧ atEndText l e = true ∧
      cs = [(5, p₆, e), (4, p₄ + 7, p₅), (3, p₂ + 1, p₃), (2, p₁ + 1, p₂), (1, 0, p₁)] := by
  obtain ⟨⟨j, cs₁⟩, hx, ht⟩ := mem_errorLinePattern_ends.1 h
  obtain ⟨p₁, p₂, p₃, p₄, p₅, hh, rfl, rfl⟩ := errorHead_of_mem hx
  obtain ⟨p₆, h₁, h₂, h₃, h₄, h₅, rfl⟩ := errorTail_of_mem ht
  exact ⟨p₁, p₂, p₃, p₄, p₅, p₆, hh, h₁, h₂, h₃, h₄, h₅, rfl⟩

/-- **The match `re.match` reports takes the longest blank** before the message, so the message
    starts with whitespace only when it is that one character. -/
theorem errorLine_head {l : List Char} {e : Nat} {cs : Caps}
    (h : (errorLinePattern.ends l 0 []).head? = some (e, cs)) :
    ∃ p₁ p₂ p₃ p₄ p₅ p₆, ErrorHead l p₁ p₂ p₃ p₄ p₅ ∧ p₅ + 2 < p₆ ∧ AllIn .space l (p₅ + 2) p₆ ∧
      p₆ < e ∧ AllIn .notNewline l p₆ e ∧ atEndText l e = true ∧
      (∀ c, l[p₆]? = some c → isSpace c = true → e = p₆ + 1) ∧
      cs = [(5, p₆, e), (4, p₄ + 7, p₅), (3, p₂ + 1, p₃), (2, p₁ + 1, p₂), (1, 0, p₁)] := by
  obtain ⟨⟨j, cs₁⟩, hx, -⟩ := mem_errorLinePattern_ends.1 (List.mem_of_mem_head? h)
  obtain ⟨p₁, p₂, p₃, p₄, p₅, hh, rfl, rfl⟩ := errorHead_of_mem hx
  have hall : ∀ y ∈ (Regex.seqs errorHead).ends l 0 [],
      y = (p₅ + 2, [(4, p₄ + 7, p₅), (3, p₂ + 1, p₃), (2, p₁ + 1, p₂), (1, 0, p₁)]) := by
    rintro ⟨j', cs'⟩ hy
    obtain ⟨q₁, q₂, q₃, q₄, q₅, hq, rfl, rfl⟩ := errorHead_of_mem hy
    obtain ⟨rfl, rfl, rfl, rfl, rfl⟩ := hh.unique hq
    rfl
  rw [errorLinePattern_eq, Regex.ends_seqs_append _ (by simp [errorHead]) (by simp [errorTail]),
    head?_flatMap_of_forall_eq hx hall] at h
  obtain ⟨p₆, ⟨hp₆, hblank, -⟩, hhead, hlonger⟩ := Regex.head_ends_seq_rep (t := .seqs [.group 5 (Regex.plus .notNewline), .endText]) h
  obtain ⟨e', ⟨he', hmsg, -⟩, hend⟩ := Regex.mem_ends_seq_group (by rfl) (List.mem_of_mem_head? hhead)
  obtain ⟨rfl, hatEnd⟩ := Regex.spans_of_mem_ends hend
  obtain rfl := caps_of_groupBodies_nil (by rfl) hend
  refine ⟨p₁, p₂, p₃, p₄, p₅, p₆, hh, by omega, hblank, by omega, hmsg, hatEnd, fun c hc hsp => ?_, rfl⟩
  by_contra hne
  have hspan : (Regex.seqs [.group 5 (Regex.plus .notNewline), .endText]).Spans l (p₆ + 1) e :=
    ⟨e, ⟨by omega, fun k hk hke => hmsg k (by omega) hke, nofun⟩, rfl, hatEnd⟩
  have hrun : (Regex.rep .space 1 none).Spans l (p₅ + 2) (p₆ + 1) :=
    ⟨by omega, fun k hk hke => if hkp : k < p₆ then hblank k hk hkp else ⟨c, by rwa [show k = p₆ by omega], hsp⟩,
      nofun⟩
  have hnil := hlonger (p₆ + 1) (by omega) hrun
  obtain ⟨cs', hcs'⟩ := (mem_map_fst _ _).1 ((mem_ends_iff_spans _ _ _ _ _).2 hspan)
  rw [hnil] at hcs'
  cases hcs'

/-! ## §5 Every record is well formed -/

/-- A line without a newline ends where `$` matches. -/
theorem eq_length_of_atEndText {l : List Char} {e : Nat} (hl : '\n' ∉ l) (h : atEndText l e = true) :
    e = l.length := by
  simp only [atEndText, Bool.or_eq_true, beq_iff_eq, Bool.and_eq_true] at h
  rcases h with h | ⟨-, h⟩
  · exact h
  · exact absurd (List.getElem?_mem h) hl

/-- The record of an accepted line: the path before `p₁`, the numbers and code between the
    delimiters, the message from `p₆` to the end. -/
theorem parseErrorLine_fields {l : List Char} {e : CargoError} (hl : '\n' ∉ l)
    (h : parseErrorLine l = some e) :
    ∃ p₁ p₂ p₃ p₄ p₅ p₆, ErrorHead l p₁ p₂ p₃ p₄ p₅ ∧ p₅ + 2 < p₆ ∧ AllIn .space l (p₅ + 2) p₆ ∧
      p₆ < l.length ∧
      AllIn .notNewline l p₆ l.length ∧ (∀ c, l[p₆]? = some c → isSpace c = true → l.length = p₆ + 1) ∧
      e = ⟨l.take p₁, decimal ((l.drop (p₁ + 1)).take (p₂ - (p₁ + 1))),
        decimal ((l.drop (p₂ + 1)).take (p₃ - (p₂ + 1))), 'E' :: (l.drop (p₄ + 7)).take (p₅ - (p₄ + 7)),
        (l.drop p₆).take (l.length - p₆)⟩ := by
  rw [parseErrorLine, rematch_eq_head?, Option.map_map, Option.map_eq_some'] at h
  obtain ⟨⟨stop, cs⟩, hhead, rfl⟩ := h
  obtain ⟨p₁, p₂, p₃, p₄, p₅, p₆, hh, hp₆, hblank, hstop, hmsg, hend, hspace, rfl⟩ := errorLine_head hhead
  obtain rfl := eq_length_of_atEndText hl hend
  exact ⟨p₁, p₂, p₃, p₄, p₅, p₆, hh, hp₆, hblank, hstop, hmsg, hspace, by simp [Match.group, Match.span]⟩

theorem parseErrorLine_wellFormed {l : List Char} {e : CargoError} (hl : '\n' ∉ l)
    (h : parseErrorLine l = some e) : e.WellFormed := by
  obtain ⟨p₁, p₂, p₃, p₄, p₅, p₆, hh, hp₆, -, hstop, hmsg, hspace, rfl⟩ := parseErrorLine_fields hl h
  have hp₁ : p₁ < l.length := (List.getElem?_eq_some_iff.1 hh.colon₁).1
  have hp₅ : p₅ < l.length := by
    have := (List.isPrefixOf_iff_prefix.1 hh.close).length_le
    simp at this
    omega
  have hslice : ∀ a b, a < b → b ≤ l.length → (l.drop a).take (b - a) ≠ [] := fun a b hab hb =>
    List.ne_nil_of_length_pos (by simp; omega)
  refine ⟨by simpa using hslice 0 p₁ hh.file_pos hp₁.le, fun c hc => ⟨?_, ?_⟩,
    ⟨_, rfl, hslice _ _ hh.code_pos hp₅.le, fun c hc => mem_slice_of_allIn hh.code hc⟩,
    hslice _ _ hstop le_rfl, fun hn => ?_, fun c hc hsp => ?_⟩
  · simpa [CharSet.mem] using mem_slice_of_allIn hh.file (by simpa using hc)
  · exact fun h => hl (h ▸ List.mem_of_mem_take hc)
  · simpa [CharSet.mem] using mem_slice_of_allIn hmsg hn
  · rw [List.head?_take, if_neg (by omega), List.head?_drop] at hc
    simp [hspace c hc hsp]

/-- **`parse_errors` returns only well-formed records**: a non-empty path without `:`, the code
    `E` and digits, and a non-empty message on one line that starts with whitespace only when it
    is a single character. -/
theorem parseErrors_wellFormed (output : List Char) : ∀ e ∈ parseErrors output, e.WellFormed := by
  intro e he
  obtain ⟨l, hl, h⟩ := List.mem_filterMap.1 he
  exact parseErrorLine_wellFormed (newline_not_mem_of_mem_lines hl) h

/-- A record of a line of `cargo check`'s output. -/
theorem parseErrors_wellFormed_on_cargo_line :
    (⟨"src/lib.rs".toList, 12, 5, "E0425".toList, "cannot find value `x` in this scope".toList⟩ :
        CargoError) ∈ parseErrors "src/lib.rs:12:5: error[E0425]: cannot find value `x` in this scope".toList ∧
      (⟨"src/lib.rs".toList, 12, 5, "E0425".toList, "cannot find value `x` in this scope".toList⟩ :
        CargoError).WellFormed :=
  ⟨by decide, parseErrors_wellFormed
    "src/lib.rs:12:5: error[E0425]: cannot find value `x` in this scope".toList _ (by decide)⟩

/-- A blank after `]:` leaves its last character as the message. -/
example : (parseErrors "a.rs:1:2: error[E1]:   ".toList).map (·.message) = [" ".toList] := by decide

/-! ## §6 Well-formed records parse back -/

theorem getElem?_of_drop_eq {s t : List Char} {i : Nat} {c : Char} (h : s.drop i = c :: t) :
    s[i]? = some c := by
  rw [← Nat.add_zero i, ← List.getElem?_drop, h, List.getElem?_cons_zero]

theorem allIn_of_drop_eq {k : CharSet} {s x t : List Char} {i : Nat} (h : s.drop i = x ++ t)
    (hx : ∀ c ∈ x, k.mem c = true) : AllIn k s i (i + x.length) := by
  intro j hj hje
  have hlt : j - i < x.length := by omega
  obtain ⟨c, hc⟩ : ∃ c, x[j - i]? = some c := ⟨_, List.getElem?_eq_getElem hlt⟩
  refine ⟨c, ?_, hx c (List.getElem?_mem hc)⟩
  rw [show j = i + (j - i) by omega, ← List.getElem?_drop, h, List.getElem?_append_left hlt, hc]

theorem isPrefixOf_of_drop_eq {s w t : List Char} {i : Nat} (h : s.drop i = w ++ t) :
    w.isPrefixOf (s.drop i) = true := by
  rw [h, List.isPrefixOf_iff_prefix]
  exact List.prefix_append w t

theorem drop_add_of_drop_eq {s x t : List Char} {i : Nat} (h : s.drop i = x ++ t) :
    s.drop (i + x.length) = t := by
  rw [← List.drop_drop, h, List.drop_left]

/-- Fields closed as `ErrorHead` says, a blank, and a message to the end of the line make a match
    of the whole pattern. -/
theorem errorLinePattern_spans {l : List Char} {p₁ p₂ p₃ p₄ p₅ p₆ e : Nat}
    (hh : ErrorHead l p₁ p₂ p₃ p₄ p₅) (h₆ : p₅ + 2 < p₆) (hblank : AllIn .space l (p₅ + 2) p₆)
    (he : p₆ < e) (hmsg : AllIn .notNewline l p₆ e) (hend : atEndText l e = true) :
    errorLinePattern.Spans l 0 e := by
  have hE : "error[E".toList.length = 7 := rfl
  have hB : "]:".toList.length = 2 := rfl
  simp only [errorLinePattern, Regex.seqs_cons_spans, Regex.seqs_nil_spans, Regex.group_spans,
    Regex.rep_spans, Regex.set_spans, Regex.lit_spans, Regex.plus, hE, hB]
  exact ⟨p₁, ⟨by have := hh.file_pos; omega, hh.file, nofun⟩, p₁ + 1, ⟨rfl, ':', hh.colon₁, rfl⟩,
    p₂, ⟨by have := hh.line_pos; omega, hh.line, nofun⟩, p₂ + 1, ⟨rfl, ':', hh.colon₂, rfl⟩,
    p₃, ⟨by have := hh.col_pos; omega, hh.col, nofun⟩, p₃ + 1, ⟨rfl, ':', hh.colon₃, rfl⟩,
    p₄, ⟨by have := hh.blank_pos; omega, hh.blank, nofun⟩, p₄ + 7, ⟨hh.error, rfl⟩,
    p₅, ⟨by have := hh.code_pos; omega, hh.code, nofun⟩, p₅ + 2, ⟨hh.close, rfl⟩,
    p₆, ⟨by omega, hblank, nofun⟩, e, ⟨by omega, hmsg, nofun⟩, e, ⟨rfl, hend⟩, rfl⟩

theorem drop_succ_of_drop_eq {s t : List Char} {i : Nat} {c : Char} (h : s.drop i = c :: t) :
    s.drop (i + 1) = t :=
  drop_add_of_drop_eq (x := [c]) h

theorem allIn_succ_of_drop_eq {k : CharSet} {s t : List Char} {i : Nat} {c : Char}
    (h : s.drop i = c :: t) (hc : k.mem c = true) : AllIn k s i (i + 1) :=
  allIn_of_drop_eq (x := [c]) h (by simpa using hc)

theorem newline_not_mem_render {e : CargoError} (he : e.WellFormed) : '\n' ∉ e.render := by
  obtain ⟨ds, hcode, -, hdig⟩ := he.code_digits
  have hd : ∀ n, '\n' ∉ Nat.toDigits 10 n := fun n h => absurd (digit_mem_of_mem_toDigits h) (by decide)
  have hds : '\n' ∉ ds := fun h => absurd (hdig _ h) (by decide)
  have hf : '\n' ∉ e.file := fun h => (he.file_chars _ h).2 rfl
  have herr : '\n' ∉ "error[".toList := by decide
  simp [CargoError.render, hcode, hd, hds, hf, herr, he.message_chars]

/-- **A well-formed record parses back from the line cargo prints for it.** -/
theorem parseErrorLine_render {e : CargoError} (he : e.WellFormed) :
    parseErrorLine e.render = some e := by
  obtain ⟨ds, hcode, hds, hdig⟩ := he.code_digits
  have hA := toDigits_ne_nil e.line
  have hB := toDigits_ne_nil e.col
  have hE : "error[E".toList.length = 7 := rfl
  have hC : "]:".toList.length = 2 := rfl
  -- where each field of the printed line starts
  have s₀ : e.render.drop 0 = e.file ++ ':' :: (Nat.toDigits 10 e.line ++ ':' :: (Nat.toDigits 10 e.col ++
      ':' :: ' ' :: ("error[E".toList ++ (ds ++ ("]:".toList ++ ' ' :: e.message))))) := by
    rw [List.drop_zero, CargoError.render, hcode]
    rfl
  have s₁ := drop_succ_of_drop_eq (drop_add_of_drop_eq s₀)
  have s₂ := drop_succ_of_drop_eq (drop_add_of_drop_eq s₁)
  have s₃ := drop_succ_of_drop_eq (drop_add_of_drop_eq s₂)
  have s₄ := drop_succ_of_drop_eq s₃
  have s₅ := drop_add_of_drop_eq s₄
  have s₆ := drop_add_of_drop_eq s₅
  have s₇ := drop_add_of_drop_eq s₆
  have s₈ := drop_succ_of_drop_eq s₇
  rw [hE] at s₅ s₆ s₇ s₈
  rw [hC] at s₇ s₈
  have hm : 0 < e.message.length := List.length_pos.2 he.message_ne
  have hlen : e.render.length = 0 + e.file.length + 1 + (Nat.toDigits 10 e.line).length + 1 +
      (Nat.toDigits 10 e.col).length + 1 + 1 + 7 + ds.length + 2 + 1 + e.message.length := by
    have := congrArg List.length s₈
    simp only [List.length_drop] at this
    omega
  have hh : ErrorHead e.render (0 + e.file.length) (0 + e.file.length + 1 + (Nat.toDigits 10 e.line).length)
      (0 + e.file.length + 1 + (Nat.toDigits 10 e.line).length + 1 + (Nat.toDigits 10 e.col).length)
      (0 + e.file.length + 1 + (Nat.toDigits 10 e.line).length + 1 + (Nat.toDigits 10 e.col).length + 1 + 1)
      (0 + e.file.length + 1 + (Nat.toDigits 10 e.line).length + 1 + (Nat.toDigits 10 e.col).length + 1 + 1 +
        7 + ds.length) :=
    ⟨by simpa using List.length_pos.2 he.file_ne,
      allIn_of_drop_eq s₀ fun c hc => by simpa [CharSet.mem] using (he.file_chars c hc).1,
      getElem?_of_drop_eq (drop_add_of_drop_eq s₀), by simpa using List.length_pos.2 hA,
      allIn_of_drop_eq s₁ fun c hc => digit_mem_of_mem_toDigits hc,
      getElem?_of_drop_eq (drop_add_of_drop_eq s₁), by simpa using List.length_pos.2 hB,
      allIn_of_drop_eq s₂ fun c hc => digit_mem_of_mem_toDigits hc,
      getElem?_of_drop_eq (drop_add_of_drop_eq s₂), by omega,
      allIn_succ_of_drop_eq s₃ rfl, isPrefixOf_of_drop_eq s₄,
      by simpa using List.length_pos.2 hds, allIn_of_drop_eq s₅ hdig, isPrefixOf_of_drop_eq s₆⟩
  -- the printed line is accepted
  have hmsg := allIn_of_drop_eq (k := .notNewline) (s₈.trans (List.append_nil _).symm) fun c hc => by
    simp only [CharSet.mem, bne_iff_ne, ne_eq]
    rintro rfl
    exact he.message_chars hc
  have hspans := errorLinePattern_spans hh (by omega) (allIn_succ_of_drop_eq s₇ rfl) (by omega) hmsg
    (by simp [atEndText, hlen])
  obtain ⟨cs, hcs⟩ := (mem_map_fst _ _).1 ((mem_ends_iff_spans _ _ _ _ _).2 hspans)
  obtain ⟨e', he'⟩ : ∃ e', parseErrorLine e.render = some e' := by
    rw [parseErrorLine, rematch_eq_head?]
    cases hx : (errorLinePattern.ends e.render 0 []).head? with
    | none => rw [List.head?_eq_none_iff] at hx; rw [hx] at hcs; cases hcs
    | some x => exact ⟨_, rfl⟩
  -- and read as the record it prints
  obtain ⟨q₁, q₂, q₃, q₄, q₅, q₆, hq, hq₆, hqblank, hq₆len, -, -, rfl⟩ :=
    parseErrorLine_fields (newline_not_mem_render he) he'
  obtain ⟨rfl, rfl, rfl, rfl, rfl⟩ := hq.unique hh
  obtain rfl : q₆ = _ + 7 + ds.length + 2 + 1 := by
    refine le_antisymm (Nat.not_lt.1 fun hlt => ?_) hq₆
    obtain ⟨c, hc, hsp⟩ := hqblank _ (by omega) hlt
    have hhead : e.message.head? = some c := by rw [← s₈, List.head?_drop]; exact hc
    have := he.message_head c hhead hsp
    omega
  have r₀ : e.render = _ := (List.drop_zero e.render).symm.trans s₀
  rw [he', s₁, s₂, s₅, s₈, hlen, r₀]
  simp only [Nat.zero_add, Nat.add_sub_cancel_left, List.take_left, List.take_length, decimal_toDigits]
  rw [← hcode]

/-- **Round trip.** Well-formed errors printed one per line, as cargo prints them, parse back to
    the same errors in the same order. -/
theorem parseErrors_render {es : List CargoError} (h : ∀ e ∈ es, e.WellFormed) :
    parseErrors (unlines (es.map CargoError.render)) = es := by
  by_cases hne : es = []
  · subst hne
    rfl
  have hnl : ∀ l ∈ es.map CargoError.render, '\n' ∉ l := by
    simp only [List.mem_map]
    rintro _ ⟨e, he, rfl⟩
    exact newline_not_mem_render (h e he)
  rw [parseErrors, lines_unlines_of_forall hnl (by simpa using hne), List.filterMap_map]
  conv => rhs; rw [← List.filterMap_some es]
  exact List.filterMap_congr fun e he => parseErrorLine_render (h e he)

/-- One error of `cargo check`, printed and parsed back. -/
theorem parseErrors_render_on_one_error :
    (∀ e ∈ [(⟨"src/lib.rs".toList, 12, 5, "E0425".toList, "cannot find value `x`".toList⟩ : CargoError)],
      e.WellFormed) ∧
    parseErrors (unlines ([(⟨"src/lib.rs".toList, 12, 5, "E0425".toList, "cannot find value `x`".toList⟩ :
      CargoError)].map CargoError.render)) =
      [⟨"src/lib.rs".toList, 12, 5, "E0425".toList, "cannot find value `x`".toList⟩] := by
  have h : ∀ e ∈ [(⟨"src/lib.rs".toList, 12, 5, "E0425".toList, "cannot find value `x`".toList⟩ :
      CargoError)], e.WellFormed := by
    simp only [List.mem_singleton, forall_eq]
    exact ⟨by decide, by decide, ⟨"0425".toList, rfl, by decide, by decide⟩, by decide, by decide,
      fun c hc hs => by simp at hc; subst hc; exact absurd hs (by decide)⟩
  exact ⟨h, parseErrors_render h⟩

end RustyDb.Fixers
