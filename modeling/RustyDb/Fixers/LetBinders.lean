import RustyDb.Fixers.FixFinal
import RustyDb.Fixers.Renaming
import RustyDb.Python.Substitution

/-!
# The Reverse Loop of `fix_let_underscore_in_file`

`fix_let_underscore_in_file` (`fix_final.py`) walks the matches of
`\blet\s+(mut\s+)?(_[a-z][a-z0-9_]*)\s*=` from last to first. For each binder
`_v` it searches the current text after the match for `\bv\b` and, on a hit,
writes `v` over the name at the offsets of the original match.

This module proves that the loop deletes the `_` of exactly the binders whose
`v` occurs as a whole word after the match in the original text, and changes
nothing else (`fixLetUnderscoreInFile_eq_eraseAt`). Two facts carry the proof:

- a rename deletes one `_` past the end of every earlier match, so the offsets
  of the earlier matches stay valid (`eraseAt_binders_cons`);
- deleting the `_` of a later binder `_w` turns the word `_w` into `w`, and `w`
  already occurs after that binder, so no earlier binder changes its answer
  (`wordIn_eraseAt_binders`).
-/

namespace RustyDb.Fixers

open RustyDb.Python

/-! ## §1 Whole words -/

/-- `v` occurs in `t` as a whole word. -/
def wordIn (v t : List Char) : Bool := (List.range (t.length + 1)).any (wordOcc v t)

theorem wordIn_iff {v t : List Char} : wordIn v t = true ↔ ∃ k ≤ t.length, wordOcc v t k = true := by
  simp [wordIn, Nat.lt_succ_iff]

theorem wordOcc_eq_true {v t : List Char} {k : Nat} :
    wordOcc v t k = true ↔ v.isPrefixOf (t.drop k) = true ∧ (k = 0 ∨ wordAt t (k - 1) = false) ∧
      wordAt t (k + v.length) = false := by
  simp [wordOcc, Bool.and_eq_false_iff, and_assoc]

theorem wordAt_append_left {x y : List Char} {i : Nat} (h : i < x.length) :
    wordAt (x ++ y) i = wordAt x i := by
  simp [wordAt, List.getElem?_append_left h]

theorem wordAt_append_right (x y : List Char) (i : Nat) :
    wordAt (x ++ y) (x.length + i) = wordAt y i := by
  simp [wordAt, List.getElem?_append_right]

/-- An occurrence that ends before the last character of `x` is one in `x ++ y`. -/
theorem wordOcc_append_left {v x y : List Char} {k : Nat} (h : k + v.length < x.length) :
    wordOcc v (x ++ y) k = wordOcc v x k := by
  have hpre : v.isPrefixOf ((x ++ y).drop k) = v.isPrefixOf (x.drop k) := by
    rw [List.drop_append_of_le_length (by omega)]
    apply Bool.eq_iff_iff.2
    simp only [List.isPrefixOf_iff_prefix]
    exact ⟨fun hp => List.prefix_of_prefix_length_le hp (List.prefix_append _ _)
      (by simp only [List.length_drop]; omega), fun hp => hp.trans (List.prefix_append _ _)⟩
  simp only [wordOcc, hpre, wordAt_append_left (show k - 1 < x.length by omega),
    wordAt_append_left h]

/-- After an `x` whose last character is not a word character, the occurrences in `y` are those
    in `x ++ y`. -/
theorem wordOcc_append_right {v x y : List Char} (hx : wordAt x (x.length - 1) = false) (k : Nat) :
    wordOcc v (x ++ y) (x.length + k) = wordOcc v y k := by
  have hl : (x.length + k != 0 && wordAt (x ++ y) (x.length + k - 1)) =
      (k != 0 && wordAt y (k - 1)) := by
    rcases Nat.eq_zero_or_pos k with rfl | hk
    · rcases Nat.eq_zero_or_pos x.length with h0 | h0
      · simp [h0]
      · simp [wordAt_append_left (show x.length - 1 < x.length by omega), hx]
    · rw [show x.length + k - 1 = x.length + (k - 1) by omega, wordAt_append_right,
        bne_iff_ne.2 (show x.length + k ≠ 0 by omega), bne_iff_ne.2 (show k ≠ 0 by omega)]
  simp only [wordOcc, List.drop_append, hl, Nat.add_assoc, wordAt_append_right]

/-- An occurrence of a non-empty `v` ends inside the text. -/
theorem wordOcc_end_le {v t : List Char} {k : Nat} (hv : 0 < v.length) (h : wordOcc v t k = true) :
    k + v.length ≤ t.length := by
  have := (List.isPrefixOf_iff_prefix.1 (wordOcc_eq_true.1 h).1).length_le
  rw [List.length_drop] at this
  omega

section WholeWords

variable {v : List Char} (hv : IsWordName v)
include hv

/-- **Whole words split at a character that is not a word character**: an occurrence in `x ++ y`
    lies in `x` or in `y` when the last character of `x` is not a word character. -/
theorem wordIn_append {x y : List Char} (hx : wordAt x (x.length - 1) = false) :
    wordIn v (x ++ y) = (wordIn v x || wordIn v y) := by
  have hlen := length_pos_of_isWordName hv
  apply Bool.eq_iff_iff.2
  simp only [Bool.or_eq_true, wordIn_iff, List.length_append]
  constructor
  · rintro ⟨k, hk, hocc⟩
    rcases Nat.lt_or_ge (k + v.length) x.length with h | h
    · exact .inl ⟨k, by omega, wordOcc_append_left h ▸ hocc⟩
    rcases Nat.lt_or_ge k x.length with h' | h'
    · -- the last character of `x` would be a character of `v`
      have := wordAt_of_isPrefixOf (x ++ y) hv k (x.length - 1 - k) (wordOcc_eq_true.1 hocc).1
        (by omega)
      rw [show k + (x.length - 1 - k) = x.length - 1 by omega,
        wordAt_append_left (by omega), hx] at this
      exact absurd this (by decide)
    · obtain ⟨k, rfl⟩ : ∃ k', k = x.length + k' := ⟨k - x.length, by omega⟩
      exact .inr ⟨k, by omega, wordOcc_append_right hx k ▸ hocc⟩
  · rintro (⟨k, hk, hocc⟩ | ⟨k, hk, hocc⟩)
    · have hend := wordOcc_end_le hlen hocc
      have hlt : k + v.length < x.length := by
        by_contra hge
        have := wordAt_of_isPrefixOf x hv k (v.length - 1) (wordOcc_eq_true.1 hocc).1 (by omega)
        rw [show k + (v.length - 1) = x.length - 1 by omega, hx] at this
        exact absurd this (by decide)
      exact ⟨k, by omega, (wordOcc_append_left hlt).trans hocc⟩
    · exact ⟨x.length + k, by omega, (wordOcc_append_right hx k).trans hocc⟩

/-- **A run of word characters followed by no other word character holds one whole word, the
    run.** -/
theorem wordIn_run {M : List Char} {q : Nat} (hq : q ≤ M.length)
    (hw : ∀ k < q, wordAt M k = true) (hB : ∀ k, q ≤ k → wordAt M k = false) :
    wordIn v M = true ↔ v = M.take q := by
  have hlen := length_pos_of_isWordName hv
  constructor
  · intro h
    obtain ⟨k, -, hocc⟩ := wordIn_iff.1 h
    obtain ⟨hpre, hleft, hright⟩ := wordOcc_eq_true.1 hocc
    have hword := fun j (hj : j < v.length) => wordAt_of_isPrefixOf M hv k j hpre hj
    have hkq : k < q := by
      by_contra hge
      have := hword 0 hlen
      rw [Nat.add_zero, hB k (by omega)] at this
      exact absurd this (by decide)
    obtain rfl : k = 0 := by
      rcases hleft with h0 | h0
      · exact h0
      · rw [hw _ (by omega)] at h0; exact absurd h0 (by decide)
    have hvq : v.length = q := by
      rcases Nat.lt_trichotomy v.length q with h | h | h
      · rw [Nat.zero_add, hw _ h] at hright; exact absurd hright (by decide)
      · exact h
      · have := hword q h
        rw [Nat.zero_add, hB q le_rfl] at this
        exact absurd this (by decide)
    rw [← hvq]
    exact List.prefix_iff_eq_take.1 (List.isPrefixOf_iff_prefix.1 (by simpa using hpre))
  · rintro rfl
    refine wordIn_iff.2 ⟨0, Nat.zero_le _, wordOcc_eq_true.2 ⟨?_, .inl rfl, ?_⟩⟩
    · rw [List.drop_zero, List.isPrefixOf_iff_prefix]
      exact List.take_prefix _ _
    · rw [Nat.zero_add, List.length_take, Nat.min_eq_left hq]
      exact hB q le_rfl

end WholeWords

/-- `re.search(rf'\b{v}\b', t)` finds a match exactly when `v` occurs in `t` as a whole word. -/
theorem search_wordPattern {v : List Char} (hv : WordEdged v) (t : List Char) :
    (search (wordPattern v) t).isSome = wordIn v t := by
  apply Bool.eq_iff_iff.2
  rw [search_isSome_iff, wordIn_iff]
  have hsp : ∀ i e, (wordPattern v).Spans t i e ↔ wordOcc v t i = true ∧ e = i + v.length := by
    intro i e
    rw [← mem_ends_iff_spans t _ i e [], wordPattern_ends t hv]
    split <;> simp [*, eq_comm]
  simp only [Occurs, hsp]
  exact ⟨fun ⟨i, hi, e, h, _⟩ => ⟨i, hi, h⟩, fun ⟨i, hi, h⟩ => ⟨i, hi, _, h, rfl⟩⟩

/-! ## §2 Slices and erased characters -/

/-- `s[i:j]`. -/
def slice (s : List Char) (i j : Nat) : List Char := (s.drop i).take (j - i)

theorem length_slice {s : List Char} {i j : Nat} (h : j ≤ s.length) : (slice s i j).length = j - i := by
  simp only [slice, List.length_take, List.length_drop]; omega

theorem wordAt_slice {s : List Char} {i j k : Nat} (h : k < j - i) :
    wordAt (slice s i j) k = wordAt s (i + k) := by
  simp [wordAt, slice, List.getElem?_take_of_lt h]

/-- `s[i:j] + s[j:k] == s[i:k]`. -/
theorem slice_append_slice {s : List Char} {i j k : Nat} (hij : i ≤ j) (hjk : j ≤ k) :
    slice s i j ++ slice s j k = slice s i k := by
  simp only [slice]
  rw [show k - i = (j - i) + (k - j) by omega, List.take_add, List.drop_drop, Nat.add_sub_cancel' hij]

/-- `s[i:j] + s[j:] == s[i:]`. -/
theorem slice_append_drop {s : List Char} {i j : Nat} (hij : i ≤ j) :
    slice s i j ++ s.drop j = s.drop i := by
  rw [show s.drop j = (s.drop i).drop (j - i) by rw [List.drop_drop, Nat.add_sub_cancel' hij], slice,
    List.take_append_drop]

theorem slice_cons {s : List Char} {i j : Nat} {d : Char} (hd : s[i]? = some d) (hij : i < j) :
    slice s i j = d :: slice s (i + 1) j := by
  have hi : i < s.length := (List.getElem?_eq_some_iff.1 hd).1
  rw [slice, List.drop_eq_getElem_cons hi, (List.getElem?_eq_some_iff.1 hd).2,
    show j - i = j - (i + 1) + 1 by omega, List.take_succ_cons, slice]

/-- `s`, read from index `i` of a text, without the characters at the indices `ps`. -/
def eraseAt (ps : List Nat) : Nat → List Char → List Char
  | _, [] => []
  | i, c :: s => if i ∈ ps then eraseAt ps (i + 1) s else c :: eraseAt ps (i + 1) s

theorem eraseAt_append (ps : List Nat) (s t : List Char) :
    ∀ i, eraseAt ps i (s ++ t) = eraseAt ps i s ++ eraseAt ps (i + s.length) t := by
  induction s with
  | nil => intro i; rfl
  | cons c s ih =>
    intro i
    rw [List.cons_append, eraseAt, eraseAt, ih, List.length_cons, ← Nat.add_assoc, Nat.add_right_comm]
    split <;> rfl

/-- Where no index is erased, `eraseAt` keeps the text. -/
theorem eraseAt_of_forall {ps : List Nat} :
    ∀ {i : Nat} {s : List Char}, (∀ p ∈ ps, p < i ∨ i + s.length ≤ p) → eraseAt ps i s = s
  | _, [], _ => rfl
  | i, c :: s, h => by
    have hi : i ∉ ps := fun hm => by have := h i hm; simp only [List.length_cons] at this; omega
    rw [eraseAt, if_neg hi, eraseAt_of_forall fun p hp => ?_]
    have := h p hp
    simp only [List.length_cons] at this
    omega

/-- `eraseAt` reads only the indices in its range. -/
theorem eraseAt_congr {ps qs : List Nat} :
    ∀ {i : Nat} {s : List Char}, (∀ p, i ≤ p → p < i + s.length → (p ∈ ps ↔ p ∈ qs)) →
      eraseAt ps i s = eraseAt qs i s
  | _, [], _ => rfl
  | i, c :: s, h => by
    have hi := h i le_rfl (by simp)
    rw [eraseAt, eraseAt, eraseAt_congr fun p h1 h2 => h p (by omega) (by simp at h2 ⊢; omega)]
    by_cases hm : i ∈ ps
    · rw [if_pos hm, if_pos (hi.1 hm)]
    · rw [if_neg hm, if_neg (mt hi.2 hm)]

/-! ## §3 The matches of the let pattern -/

/-- The characters of `[a-z0-9_]` are word characters. -/
theorem isWord_of_identTail {d : Char} (h : identTail.mem d = true) : isWord d = true := by
  simp only [identTail, lower, CharSet.mem, isWord, Char.isAlphanum, Char.isAlpha, Char.isLower,
    Char.isDigit, Char.isUpper, Bool.or_eq_true, Bool.and_eq_true, decide_eq_true_eq,
    beq_iff_eq] at h ⊢
  rcases h with h | h | h
  · exact .inl (.inl (.inr h))
  · exact .inl (.inr h)
  · exact .inr h

theorem wordAt_of_getElem? {s : List Char} {k : Nat} {d : Char} (h : s[k]? = some d) :
    wordAt s k = isWord d := by
  simp [wordAt, h]

/-- What a match `m` of `\blet\s+(mut\s+)?(_[a-z][a-z0-9_]*)\s*=` looks like around its name
    `s[a:b]`, where `a = m.start(2)` and `b = m.end(2)`. -/
structure LetBinder (s : List Char) (m : Match) : Prop where
  /-- Group 2 takes part. -/
  span : m.span 2 = some (m.startOf 2, m.stopOf 2)
  /-- `let` and whitespace come first. -/
  start_lt : m.start < m.startOf 2
  /-- The name is `_` and at least one more character. -/
  name_len : m.startOf 2 + 1 < m.stopOf 2
  /-- `\s*=` follows the name. -/
  stop_lt : m.stopOf 2 < m.stop
  /-- The match lies in the text. -/
  stop_le : m.stop ≤ s.length
  /-- Whitespace comes just before the name. -/
  before : wordAt s (m.startOf 2 - 1) = false
  /-- The name starts with `_`. -/
  underscore : s[m.startOf 2]? = some '_'
  /-- A letter `[a-z]` follows the `_`. -/
  letter : ∃ d, s[m.startOf 2 + 1]? = some d ∧ lower.mem d = true
  /-- The name is made of word characters. -/
  word : ∀ k, m.startOf 2 ≤ k → k < m.stopOf 2 → wordAt s k = true
  /-- `\s*=` holds no word character. -/
  after : ∀ k, m.stopOf 2 ≤ k → k < m.stop → wordAt s k = false

/-- Every match of the let pattern is a `LetBinder`: the parse of the pattern, read off the
    match's captures. -/
theorem letBinder_of_mem {s : List Char} {m : Match} (hm : m ∈ finditer letUnderscorePattern s) :
    LetBinder s m := by
  have hends := ends_of_mem_finditer hm
  simp only [letUnderscorePattern, Regex.seqs] at hends
  obtain ⟨i₁, cs₁, hb, h⟩ := Regex.mem_ends_seq.1 hends
  obtain ⟨i₂, cs₂, hlet, h⟩ := Regex.mem_ends_seq.1 h
  obtain ⟨x, cs₃, hsp, h⟩ := Regex.mem_ends_seq.1 h
  obtain ⟨a, cs₄, hopt, h⟩ := Regex.mem_ends_seq.1 h
  obtain ⟨b, cs₅, hg, h⟩ := Regex.mem_ends_seq.1 h
  obtain ⟨cs₆, hbody, rfl⟩ := Regex.mem_ends_group.1 hg
  obtain ⟨y, cs₇, hws, heq⟩ := Regex.mem_ends_seq.1 h
  have hcaps : m.caps = (2, a, b) :: cs₆ :=
    (caps_of_groupBodies_nil (by rfl) heq).trans (caps_of_groupBodies_nil (by rfl) hws)
  have hspan : m.span 2 = some (a, b) := by simp [Match.span, hcaps]
  have ha : m.startOf 2 = a := by simp [Match.startOf, hspan]
  have hb' : m.stopOf 2 = b := by simp [Match.stopOf, hspan]
  obtain ⟨rfl, -⟩ := Regex.spans_of_mem_ends hb
  obtain ⟨-, rfl⟩ := (Regex.lit_spans _ _ _ _).1 (Regex.spans_of_mem_ends hlet)
  obtain ⟨hx, hxs, -⟩ := Regex.spans_of_mem_ends hsp
  obtain ⟨_, ⟨rfl, d0, hd0, hk0⟩, _, ⟨rfl, d1, hd1, hk1⟩, hby, htail, -⟩ :=
    Regex.spans_of_mem_ends hbody
  obtain ⟨hyb, hys, -⟩ := Regex.spans_of_mem_ends hws
  obtain ⟨hstop, d2, hd2, hk2⟩ := Regex.spans_of_mem_ends heq
  obtain rfl : d0 = '_' := beq_iff_eq.1 hk0
  obtain rfl : d2 = '=' := beq_iff_eq.1 hk2
  have hlet3 : "let".toList.length = 3 := rfl
  -- the character before the name is the last of `\s+`, after `let` or after `mut`
  have hbefore : x ≤ a ∧ ∃ d, s[a - 1]? = some d ∧ isSpace d = true := by
    rcases Regex.spans_of_mem_ends hopt with ⟨z, hmut, hz, hzs, -⟩ | rfl
    · obtain ⟨-, rfl⟩ := (Regex.lit_spans _ _ _ _).1 hmut
      obtain ⟨d, hd, hsd⟩ := hzs (a - 1) (by omega) (by omega)
      exact ⟨by omega, d, hd, hsd⟩
    · obtain ⟨d, hd, hsd⟩ := hxs (a - 1) (by omega) (by omega)
      exact ⟨le_rfl, d, hd, hsd⟩
  obtain ⟨hxa, d, hd, hsd⟩ := hbefore
  have hy := (List.getElem?_eq_some_iff.1 hd2).1
  refine ⟨by rw [ha, hb']; exact hspan, by omega, by omega, by omega, by omega, ?_, ha ▸ hd0,
    ⟨d1, ha ▸ hd1, hk1⟩, fun k hka hkb => ?_, fun k hka hkb => ?_⟩
  · rw [ha, wordAt_of_getElem? hd, isWord_eq_false_of_isSpace hsd]
  · rcases Nat.lt_trichotomy k (a + 1) with hk | rfl | hk
    · obtain rfl : k = a := by omega
      rw [wordAt_of_getElem? hd0]; rfl
    · rw [wordAt_of_getElem? hd1]
      exact isWord_of_identTail (show (lower.mem d1 || _) = true by rw [hk1]; rfl)
    · obtain ⟨d, hd, hk⟩ := htail k (by omega) (by omega)
      rw [wordAt_of_getElem? hd]
      exact isWord_of_identTail hk
  · rcases Nat.lt_or_ge k y with hk | hk
    · obtain ⟨d, hd, hk⟩ := hys k (by omega) hk
      rw [wordAt_of_getElem? hd]
      exact isWord_eq_false_of_isSpace hk
    · obtain rfl : k = y := by omega
      rw [wordAt_of_getElem? hd2]; rfl

theorem wordAt_eq_false_of_le {s : List Char} {k : Nat} (h : s.length ≤ k) : wordAt s k = false := by
  simp [wordAt, List.getElem?_eq_none h]

namespace LetBinder

variable {s : List Char} {m : Match} (hm : LetBinder s m)
include hm

/-- `m.group(2)` is `s[a:b]`. -/
theorem group_two : m.group s 2 = slice s (m.startOf 2) (m.stopOf 2) := by
  simp [Match.group, hm.span, slice]

/-- The plain name `underscore_var[1:]` is `s[a+1:b]`. -/
theorem plain_eq : (m.group s 2).drop 1 = slice s (m.startOf 2 + 1) (m.stopOf 2) := by
  rw [hm.group_two, slice_cons hm.underscore (by have := hm.name_len; omega)]
  rfl

/-- The plain name is a non-empty run of word characters. -/
theorem isWordName_plain : IsWordName ((m.group s 2).drop 1) := by
  have := hm.name_len; have := hm.stop_lt; have := hm.stop_le
  rw [hm.plain_eq]
  have hlen := length_slice (s := s) (i := m.startOf 2 + 1) (show m.stopOf 2 ≤ s.length by omega)
  refine ⟨List.ne_nil_of_length_pos (by omega), fun d hd => ?_⟩
  obtain ⟨k, hk, rfl⟩ := List.getElem_of_mem hd
  have hw := wordAt_slice (s := s) (show k < m.stopOf 2 - (m.startOf 2 + 1) by omega)
  rw [hm.word _ (by omega) (by omega)] at hw
  simpa [wordAt, List.getElem?_eq_getElem hk] using hw

/-- The plain name starts with a letter, not with `_`. -/
theorem plain_head : ((m.group s 2).drop 1).head? ≠ some '_' := by
  obtain ⟨d, hd, hl⟩ := hm.letter
  rw [hm.plain_eq, slice_cons hd (by have := hm.name_len; omega)]
  rintro ⟨⟩
  exact absurd hl (by decide)

/-- The text from `p` to the name ends with whitespace. -/
theorem wordAt_before {p : Nat} (hp : p ≤ m.start) :
    wordAt (slice s p (m.startOf 2)) ((slice s p (m.startOf 2)).length - 1) = false := by
  have := hm.start_lt; have := hm.name_len; have := hm.stop_lt; have := hm.stop_le
  rw [length_slice (by omega), wordAt_slice (by omega), show p + (m.startOf 2 - p - 1) =
    m.startOf 2 - 1 by omega]
  exact hm.before

/-- The rest of the match from `j` ends with `=`. -/
theorem wordAt_last {j : Nat} (hj : j < m.stop) :
    wordAt (slice s j m.stop) ((slice s j m.stop).length - 1) = false := by
  have := hm.stop_lt; have := hm.stop_le
  rw [length_slice hm.stop_le, wordAt_slice (by omega), show j + (m.stop - j - 1) = m.stop - 1 by omega]
  exact hm.after _ (by omega) (by omega)

/-- From inside the name, the rest of the match holds one whole word: the rest of the name. -/
theorem wordIn_slice {v : List Char} (hv : IsWordName v) {j : Nat} (hja : m.startOf 2 ≤ j)
    (hjb : j < m.stopOf 2) :
    wordIn v (slice s j m.stop) = true ↔ v = slice s j (m.stopOf 2) := by
  have := hm.stop_lt; have := hm.stop_le
  have hlen := length_slice (s := s) (i := j) hm.stop_le
  rw [wordIn_run hv (q := m.stopOf 2 - j) (by omega) (fun k hk => ?_) (fun k hk => ?_)]
  · rw [slice, slice, List.take_take, Nat.min_eq_left (by omega)]
  · rw [wordAt_slice (by omega)]
    exact hm.word _ (by omega) (by omega)
  · rcases Nat.lt_or_ge k (m.stop - j) with hk' | hk'
    · rw [wordAt_slice hk']
      exact hm.after _ (by omega) (by omega)
    · exact wordAt_eq_false_of_le (by omega)

end LetBinder

/-! ## §4 The loop renames the binders all at once -/

/-- Whether the binder of `m` is renamed: its plain name occurs as a whole word in the text after
    the match. -/
def renamesBinder (s : List Char) (m : Match) : Bool :=
  wordIn ((m.group s 2).drop 1) (s.drop m.stop)

/-- The indices of the `_` of the binders among `ms` that are renamed. -/
def binderUnderscores (s : List Char) (ms : List Match) : List Nat :=
  (ms.filter (renamesBinder s)).map (·.startOf 2)

theorem binderUnderscores_cons (s : List Char) (m : Match) (ms : List Match) :
    binderUnderscores s (m :: ms) =
      if renamesBinder s m then m.startOf 2 :: binderUnderscores s ms else binderUnderscores s ms := by
  simp only [binderUnderscores, List.filter_cons]
  split <;> rfl

/-- The `_` of the binders of matches from `p` on lie past `p`. -/
theorem binderUnderscores_gt {s : List Char} :
    ∀ {p : Nat} {ms : List Match}, Chain s p ms → (∀ m ∈ ms, LetBinder s m) →
      ∀ x ∈ binderUnderscores s ms, p < x
  | _, [], _, _ => by simp [binderUnderscores]
  | p, m :: ms, ⟨hp, hle, _, hch⟩, hb => by
    intro x hx
    have hm := hb m (.head _)
    have ih := binderUnderscores_gt hch fun m' h => hb m' (.tail _ h)
    rw [binderUnderscores_cons] at hx
    split at hx
    · rcases List.mem_cons.1 hx with rfl | hx
      · have := hm.start_lt; omega
      · have := ih x hx; omega
    · have := ih x hx; omega

theorem chain_mono {s : List Char} {p q : Nat} (hqp : q ≤ p) :
    ∀ {ms : List Match}, Chain s p ms → Chain s q ms
  | [], _ => trivial
  | _ :: _, ⟨h1, h2⟩ => ⟨by omega, h2⟩


/-- **The erased text around one binder.** Nothing is erased before the name, its `_` is erased
    when the binder is renamed, and past the match the later binders take over. -/
theorem eraseAt_binders_cons {s : List Char} {p : Nat} {m : Match} {ms : List Match}
    (hch : Chain s p (m :: ms)) (hb : ∀ m' ∈ m :: ms, LetBinder s m') :
    eraseAt (binderUnderscores s (m :: ms)) p (s.drop p) =
      slice s p (m.startOf 2) ++
        ((if renamesBinder s m then slice s (m.startOf 2 + 1) m.stop else slice s (m.startOf 2) m.stop) ++
          eraseAt (binderUnderscores s ms) m.stop (s.drop m.stop)) := by
  obtain ⟨hp, -, -, hch⟩ := hch
  have hm := hb m (.head _)
  have hgt := binderUnderscores_gt hch fun m' h => hb m' (.tail _ h)
  have := hm.start_lt; have := hm.name_len; have := hm.stop_lt; have := hm.stop_le
  have hmem : ∀ x, x ∈ binderUnderscores s (m :: ms) ↔
      (renamesBinder s m = true ∧ x = m.startOf 2) ∨ x ∈ binderUnderscores s ms := by
    intro x
    rw [binderUnderscores_cons]
    split <;> simp [*]
  have hsplit : s.drop p = slice s p (m.startOf 2) ++
      ('_' :: (slice s (m.startOf 2 + 1) m.stop ++ s.drop m.stop)) := by
    rw [← List.cons_append, ← slice_cons hm.underscore (by omega), slice_append_drop (by omega),
      slice_append_drop (by omega)]
  have hbefore : eraseAt (binderUnderscores s (m :: ms)) p (slice s p (m.startOf 2)) =
      slice s p (m.startOf 2) := eraseAt_of_forall fun x hx => by
    rw [length_slice (by omega)]
    rcases (hmem x).1 hx with ⟨-, rfl⟩ | hx
    · right; omega
    · have := hgt x hx; right; omega
  have hname : eraseAt (binderUnderscores s (m :: ms)) (m.startOf 2 + 1)
      (slice s (m.startOf 2 + 1) m.stop) = slice s (m.startOf 2 + 1) m.stop :=
    eraseAt_of_forall fun x hx => by
      rw [length_slice (by omega)]
      rcases (hmem x).1 hx with ⟨-, rfl⟩ | hx
      · left; omega
      · have := hgt x hx; right; omega
  have hlater : eraseAt (binderUnderscores s (m :: ms)) m.stop (s.drop m.stop) =
      eraseAt (binderUnderscores s ms) m.stop (s.drop m.stop) :=
    eraseAt_congr fun x hx _ => by
      rw [hmem]
      exact ⟨fun h => h.resolve_left fun h' => by omega, .inr⟩
  have hunder : m.startOf 2 ∈ binderUnderscores s (m :: ms) ↔ renamesBinder s m = true := by
    rw [hmem]
    exact ⟨fun h => h.elim And.left fun h' => absurd (hgt _ h') (by omega), fun h => .inl ⟨h, rfl⟩⟩
  rw [hsplit, eraseAt_append, hbefore, length_slice (by omega), Nat.add_sub_cancel' (by omega),
    eraseAt, eraseAt_append, hname, length_slice (by omega),
    show m.startOf 2 + 1 + (m.stop - (m.startOf 2 + 1)) = m.stop by omega, hlater]
  by_cases hr : renamesBinder s m = true
  · rw [if_pos (hunder.2 hr), if_pos hr]
  · rw [if_neg (mt hunder.1 hr), if_neg hr, slice_cons hm.underscore (by omega), List.cons_append]

/-- **Erasing the `_` of later renamed binders changes no answer of the test.** A plain name `v`
    occurs as a whole word in the erased text from `p` exactly when it does in the original: the
    erasure turns each renamed `_w` into `w`, and `w` occurs after that binder anyway. -/
theorem wordIn_eraseAt_binders {s v : List Char} (hv : IsWordName v) (hv0 : v.head? ≠ some '_') :
    ∀ {p : Nat} {ms : List Match}, Chain s p ms → (∀ m ∈ ms, LetBinder s m) →
      wordIn v (eraseAt (binderUnderscores s ms) p (s.drop p)) = wordIn v (s.drop p)
  | p, [], _, _ => by rw [eraseAt_of_forall (by simp [binderUnderscores])]
  | p, m :: ms, hch, hb => by
    have hm := hb m (.head _)
    have ih := wordIn_eraseAt_binders hv hv0 hch.2.2.2 fun m' h => hb m' (.tail _ h)
    have := hm.start_lt; have := hm.name_len; have := hm.stop_lt; have := hch.1
    have hsplit : s.drop p = slice s p (m.startOf 2) ++
        (slice s (m.startOf 2) m.stop ++ s.drop m.stop) := by
      rw [slice_append_drop (by omega), slice_append_drop (by omega)]
    have hA := hm.wordAt_before hch.1
    -- `v` is not the name `_w` itself
    have hname : wordIn v (slice s (m.startOf 2) m.stop) = false := by
      refine Bool.eq_false_iff.2 fun h => hv0 ?_
      rw [(hm.wordIn_slice hv le_rfl (by omega)).1 h, slice_cons hm.underscore (by omega)]
      rfl
    -- and it is `w` only when `w` occurs after the binder
    have hplain : renamesBinder s m = true → wordIn v (slice s (m.startOf 2 + 1) m.stop) = true →
        wordIn v (s.drop m.stop) = true := fun hr h => by
      have hrw := (hm.wordIn_slice hv (by omega) (by omega)).1 h
      rw [← hm.plain_eq] at hrw
      subst hrw
      exact hr
    rw [eraseAt_binders_cons hch hb, hsplit, wordIn_append hv hA, wordIn_append hv hA,
      wordIn_append hv (hm.wordAt_last (by omega)), hname]
    split
    · rename_i hr
      rw [wordIn_append hv (hm.wordAt_last (by omega)), ih]
      cases h : wordIn v (slice s (m.startOf 2 + 1) m.stop)
      · rfl
      · simp [hplain hr h]
    · rw [wordIn_append hv (hm.wordAt_last (by omega)), hname, ih]

theorem renameLetsBackward_append (s : List Char) :
    ∀ (content : List Char) (l₁ l₂ : List Match),
      renameLetsBackward s content (l₁ ++ l₂) = renameLetsBackward s (renameLetsBackward s content l₁) l₂
  | _, [], _ => rfl
  | _, _ :: l₁, l₂ => renameLetsBackward_append s _ l₁ l₂

/-- One pass of the loop, read off its definition. -/
theorem renameLetsBackward_singleton (c content : List Char) (m : Match) :
    renameLetsBackward c content [m] =
      if (search (wordPattern ((m.group c 2).drop 1)) (content.drop m.stop)).isSome then
        splice content (m.startOf 2) (m.stopOf 2) ((m.group c 2).drop 1) else content := rfl

/-- **One pass of the loop.** Once the later binders are done, the pass for `m` searches the same
    answer as on the original text, and its rename erases the `_` of the binder. -/
theorem renameLetsBackward_step {s : List Char} {m : Match} {ms : List Match}
    (hch : Chain s 0 (m :: ms)) (hb : ∀ m' ∈ m :: ms, LetBinder s m') :
    renameLetsBackward s (eraseAt (binderUnderscores s ms) 0 s) [m] =
      eraseAt (binderUnderscores s (m :: ms)) 0 s := by
  have hm := hb m (.head _)
  have hgt := binderUnderscores_gt hch.2.2.2 fun m' h => hb m' (.tail _ h)
  have := hm.start_lt; have := hm.name_len; have := hm.stop_lt; have := hm.stop_le
  have htake : (s.take m.stop).length = m.stop := by simp; omega
  -- the erased text agrees with `s` up to the end of the match
  have hD : eraseAt (binderUnderscores s ms) 0 s =
      s.take m.stop ++ eraseAt (binderUnderscores s ms) m.stop (s.drop m.stop) := by
    rw [show eraseAt (binderUnderscores s ms) 0 s =
        eraseAt (binderUnderscores s ms) 0 (s.take m.stop ++ s.drop m.stop) by
      rw [List.take_append_drop], eraseAt_append, eraseAt_of_forall fun x hx => .inr (by have := hgt x hx; omega), htake,
      Nat.zero_add]
  have htest : (search (wordPattern ((m.group s 2).drop 1))
      ((eraseAt (binderUnderscores s ms) 0 s).drop m.stop)).isSome = renamesBinder s m := by
    rw [search_wordPattern hm.isWordName_plain.wordEdged, hD, List.drop_left' htake,
      wordIn_eraseAt_binders hm.isWordName_plain hm.plain_head hch.2.2.2
        fun m' h => hb m' (.tail _ h)]
    rfl
  have hE := eraseAt_binders_cons hch hb
  rw [List.drop_zero] at hE
  rw [renameLetsBackward_singleton, htest]
  by_cases hr : renamesBinder s m = true
  · rw [if_pos hr, hE, if_pos hr, hD, splice, hm.plain_eq,
      List.take_append_of_le_length (by omega), List.take_take, Nat.min_eq_left (by omega),
      List.drop_append_of_le_length (by omega), List.drop_take, ← slice, List.append_assoc,
      ← List.append_assoc (slice s _ _), slice_append_slice (by omega) (by omega)]
    rfl
  · rw [if_neg hr, binderUnderscores_cons, if_neg hr]

/-- **The loop erases the `_` of the renamed binders.** Run over the matches from last to first,
    it returns the original text without the `_` of every binder `renamesBinder` selects. -/
theorem renameLetsBackward_eq_eraseAt {s : List Char} :
    ∀ {ms : List Match}, Chain s 0 ms → (∀ m ∈ ms, LetBinder s m) →
      renameLetsBackward s s ms.reverse = eraseAt (binderUnderscores s ms) 0 s
  | [], _, _ => (eraseAt_of_forall (by simp [binderUnderscores])).symm
  | m :: ms, hch, hb => by
    rw [List.reverse_cons, renameLetsBackward_append,
      renameLetsBackward_eq_eraseAt (chain_mono (Nat.zero_le _) hch.2.2.2) fun m' h => hb m' (.tail _ h),
      renameLetsBackward_step hch hb]

/-- **`fix_let_underscore_in_file` renames the binders all at once.** It returns the text with the
    `_` deleted from exactly those binders `let [mut] _v =` whose `v` occurs as a whole word after
    the binder's match, and no other change. -/
theorem fixLetUnderscoreInFile_eq_eraseAt (content : List Char) :
    fixLetUnderscoreInFile content =
      eraseAt (binderUnderscores content (finditer letUnderscorePattern content)) 0 content :=
  renameLetsBackward_eq_eraseAt (chain_finditerAux _ _ _ _ _) fun _ => letBinder_of_mem

/-- `a` is used, so `_a` is renamed; `b` is not, so `_b` stays. -/
example : fixLetUnderscoreInFile "let _a = 1; let mut _b = a;".toList =
    "let a = 1; let mut _b = a;".toList := by
  decide

end RustyDb.Fixers
