import Mathlib.Data.List.Basic
import Mathlib.Data.List.Infix

/-!
# Python Strings

The fixer scripts and the WebSocket client manipulate Python `str` values.
A `str` is modelled as a `List Char`, and every method the scripts call is
written here once, by structural recursion, with the small lemmas later
proofs rewrite with.

Lean's `Char` excludes the surrogate code points that a Python `str` may
hold; no modelled function produces one except the JSON decoder, which maps
them to U+FFFD (see `WebSocket/Json.lean`).
-/

namespace RustyDb.Python

/-! ## §1 Character classes -/

/-- `str.isspace` on one character; also what `\s` matches in a `str` pattern. -/
def isSpace (c : Char) : Bool :=
  let n := c.toNat
  (9 ≤ n && n ≤ 13) || (28 ≤ n && n ≤ 32) || n == 0x85 || n == 0xA0 || n == 0x1680 ||
    (0x2000 ≤ n && n ≤ 0x200A) || n == 0x2028 || n == 0x2029 || n == 0x202F ||
    n == 0x205F || n == 0x3000

/-- `\w` and the word test of `\b`: ASCII letters and digits and `_`.
    Python also counts non-ASCII alphanumerics; the model does not. -/
def isWord (c : Char) : Bool := c.isAlphanum || c == '_'

/-- No whitespace character is a word character. -/
theorem isWord_eq_false_of_isSpace {c : Char} (h : isSpace c = true) : isWord c = false := by
  by_cases hu : c = '_'
  · subst hu
    exact absurd h (by decide)
  · have hu' : (c == '_') = false := by simpa using hu
    have h48 : (UInt32.toBitVec 48).toNat = 48 := rfl
    have h57 : (UInt32.toBitVec 57).toNat = 57 := rfl
    have h65 : (UInt32.toBitVec 65).toNat = 65 := rfl
    have h90 : (UInt32.toBitVec 90).toNat = 90 := rfl
    have h97 : (UInt32.toBitVec 97).toNat = 97 := rfl
    have h122 : (UInt32.toBitVec 122).toNat = 122 := rfl
    simp only [isSpace, isWord, Char.isAlphanum, Char.isAlpha, Char.isUpper, Char.isLower,
      Char.isDigit, hu', Bool.or_false, Char.toNat, UInt32.le_def, UInt32.toNat] at *
    simp only [BitVec.le_def, Bool.or_eq_true, Bool.and_eq_true, decide_eq_true_eq, beq_iff_eq,
      Bool.or_eq_false_iff, Bool.and_eq_false_iff, decide_eq_false_iff_not, h48, h57, h65, h90, h97,
      h122] at *
    omega

/-! ## §2 Stripping, prefixes and containment -/

/-- `s.lstrip()`. -/
def lstrip (s : List Char) : List Char := s.dropWhile isSpace

/-- `s.rstrip()`. -/
def rstrip (s : List Char) : List Char := (s.reverse.dropWhile isSpace).reverse

/-- `s.strip()`. -/
def strip (s : List Char) : List Char := rstrip (lstrip s)

/-- `s.rstrip(chars)`. -/
def rstripChars (chars s : List Char) : List Char :=
  (s.reverse.dropWhile (chars.contains ·)).reverse

/-- `s.startswith(p)`. -/
def startswith (s p : List Char) : Bool := p.isPrefixOf s

/-- `s.endswith(p)`. -/
def endswith (s p : List Char) : Bool := p.isSuffixOf s

/-- `p in s`. -/
def contains (s p : List Char) : Bool :=
  match s with
  | [] => p.isEmpty
  | c :: cs => p.isPrefixOf (c :: cs) || contains cs p

/-- `s.find(p, i)`, with `none` for Python's `-1`. -/
def findFrom (s p : List Char) (i : Nat) : Option Nat :=
  go (s.drop i) i
where
  /-- Scan the suffix that starts at absolute index `j`. -/
  go : List Char → Nat → Option Nat
    | [], j => if p.isEmpty then some j else none
    | c :: cs, j => if p.isPrefixOf (c :: cs) then some j else go cs (j + 1)

/-- `s.count(c)` for a one-character `c`. -/
def countChar (s : List Char) (c : Char) : Nat := s.count c

/-! ## §3 Replacing, splitting and joining -/

/-- `s.replace(old, new, limit)` after `fuel` steps of the scan; `limit = none` is Python's `-1`.
    Each step either copies one character or replaces one occurrence. -/
def replaceAux (old new : List Char) : Nat → Option Nat → List Char → List Char
  | 0, _, s => s
  | _ + 1, some 0, s => s
  | _ + 1, _, [] => if old.isEmpty then new else []
  | n + 1, lim, c :: cs =>
    if old.isEmpty then new ++ c :: replaceAux old new n (lim.map (· - 1)) cs
    else if old.isPrefixOf (c :: cs) then
      new ++ replaceAux old new n (lim.map (· - 1)) ((c :: cs).drop old.length)
    else c :: replaceAux old new n lim cs

/-- `s.replace(old, new)`, or `s.replace(old, new, k)` when `limit = some k`. -/
def replace (s old new : List Char) (limit : Option Nat) : List Char :=
  replaceAux old new (s.length + 1) limit s

/-- `s.split(sep)` for a non-empty `sep`, after `fuel` steps; `cur` is the piece being read. -/
def splitAux (sep : List Char) : Nat → List Char → List Char → List (List Char)
  | 0, cur, s => [cur ++ s]
  | _ + 1, cur, [] => [cur]
  | n + 1, cur, c :: cs =>
    if !sep.isEmpty && sep.isPrefixOf (c :: cs) then
      cur :: splitAux sep n [] ((c :: cs).drop sep.length)
    else splitAux sep n (cur ++ [c]) cs

/-- `s.split(sep)` with a separator string. -/
def splitStr (s sep : List Char) : List (List Char) := splitAux sep (s.length + 1) [] s

/-- `s.split('\n')`. -/
def lines (s : List Char) : List (List Char) := s.splitOn '\n'

/-- `'\n'.join(ls)`. -/
def unlines (ls : List (List Char)) : List Char := ['\n'].intercalate ls

/-- `s.split()` with no argument: the maximal runs of non-space characters. -/
def words (s : List Char) : List (List Char) :=
  (s.splitOnP isSpace).filter (!·.isEmpty)

/-- `xs.insert(i, x)` of a Python list. -/
def insertAt {α : Type} (xs : List α) (i : Nat) (x : α) : List α :=
  xs.take i ++ x :: xs.drop i

/-- `xs[i]`, which raises `IndexError` (here `none`) past the end. -/
def index? {α : Type} (xs : List α) (i : Nat) : Option α := xs[i]?

/-! ## §4 Lemmas -/

@[simp] theorem lines_unlines (s : List Char) : unlines (lines s) = s :=
  List.intercalate_splitOn s '\n'

/-- No line of `s.split('\n')` holds a newline. -/
theorem newline_not_mem_of_mem_lines {s l : List Char} (hl : l ∈ lines s) : '\n' ∉ l := by
  induction s generalizing l with
  | nil =>
    rw [lines, List.splitOn_nil, List.mem_singleton] at hl
    simp [hl]
  | cons c s ih =>
    rw [lines, List.splitOn, List.splitOnP_cons] at hl
    split at hl
    · rcases List.mem_cons.1 hl with rfl | hl
      · simp
      · exact ih hl
    · rename_i hc
      obtain ⟨x, xs, hxs⟩ := List.exists_cons_of_ne_nil (List.splitOnP_ne_nil (· == '\n') s)
      have hmem : ∀ y ∈ x :: xs, '\n' ∉ y := fun y hy => ih (by rw [lines, List.splitOn, hxs]; exact hy)
      rw [hxs, List.modifyHead_cons] at hl
      rcases List.mem_cons.1 hl with rfl | hl
      · exact List.not_mem_cons_of_ne_of_not_mem (fun h => hc (by simpa using h.symm)) (hmem x (.head _))
      · exact hmem _ (.tail _ hl)

/-- Splitting the join of lines without newlines gives them back. -/
theorem lines_unlines_of_forall {ls : List (List Char)} (h : ∀ l ∈ ls, '\n' ∉ l) (hne : ls ≠ []) :
    lines (unlines ls) = ls :=
  List.splitOn_intercalate _ '\n' h hne

@[simp] theorem contains_nil_left (s : List Char) : contains s [] = true := by
  cases s <;> simp [contains]

theorem contains_iff_infixOf (s p : List Char) : contains s p = true ↔ p <:+: s := by
  induction s with
  | nil => cases p <;> simp [contains]
  | cons c cs ih =>
    simp only [contains, Bool.or_eq_true, List.isPrefixOf_iff_prefix, ih]
    constructor
    · rintro (h | h)
      · exact h.isInfix
      · exact h.trans (List.suffix_cons c cs).isInfix
    · intro h
      exact (List.infix_cons_iff.mp h).imp_right id

theorem unlines_cons_cons (l l' : List Char) (ls : List (List Char)) :
    unlines (l :: l' :: ls) = l ++ '\n' :: unlines (l' :: ls) := by
  simp [unlines, List.intercalate]

@[simp] theorem unlines_singleton (l : List Char) : unlines [l] = l := by
  simp [unlines, List.intercalate]

theorem infix_unlines_of_mem {l : List Char} {ls : List (List Char)} (hl : l ∈ ls) :
    l <:+: unlines ls := by
  induction ls with
  | nil => cases hl
  | cons l₀ ls ih =>
    cases ls with
    | nil =>
      obtain rfl := List.mem_singleton.1 hl
      simp
    | cons l₁ ls =>
      rw [unlines_cons_cons]
      rcases List.mem_cons.1 hl with rfl | hl
      · exact (List.prefix_append _ _).isInfix
      · exact (ih hl).trans ((List.suffix_cons _ _).trans (List.suffix_append _ _)).isInfix

theorem mem_of_mem_unlines {c : Char} {ls : List (List Char)} (h : c ∈ unlines ls) :
    c = '\n' ∨ ∃ l ∈ ls, c ∈ l := by
  induction ls with
  | nil => simp [unlines, List.intercalate] at h
  | cons l ls ih =>
    cases ls with
    | nil => exact .inr ⟨l, .head _, by simpa using h⟩
    | cons l' ls =>
      rw [unlines_cons_cons] at h
      rcases List.mem_append.1 h with h | h
      · exact .inr ⟨l, .head _, h⟩
      · rcases List.mem_cons.1 h with h | h
        · exact .inl h
        · exact (ih h).imp_right fun ⟨l₀, hl₀, h₀⟩ => ⟨l₀, .tail _ hl₀, h₀⟩

theorem mem_of_mem_lines {c : Char} {s l : List Char} (hl : l ∈ lines s) (hc : c ∈ l) : c ∈ s :=
  lines_unlines s ▸ (infix_unlines_of_mem hl).subset hc

/-- A text without a newline that occurs across a newline occurs on one side of it. -/
theorem infix_append_newline {s x y : List Char} (h : s <:+: x ++ '\n' :: y) (hs : '\n' ∉ s) :
    s <:+: x ∨ s <:+: y := by
  obtain ⟨u, v, huv⟩ := h
  rcases List.append_eq_append_iff.1 huv with ⟨a, rfl, -⟩ | ⟨c, hc, hv⟩
  · exact .inl ⟨u, a, rfl⟩
  · cases c with
    | nil =>
      rw [List.append_nil] at hc
      exact .inl ⟨u, [], by rw [List.append_nil, hc]⟩
    | cons d c =>
      obtain ⟨rfl, rfl⟩ := List.cons.inj hv
      rcases List.append_eq_append_iff.1 hc with ⟨a, rfl, hs'⟩ | ⟨b, rfl, hb⟩
      · exact absurd (hs' ▸ List.mem_append_right _ (List.mem_cons_self _ _)) hs
      · cases b with
        | nil =>
          rw [List.nil_append] at hb
          exact absurd (hb ▸ List.mem_cons_self _ _) hs
        | cons d' b =>
          obtain ⟨rfl, rfl⟩ := List.cons.inj hb
          exact .inr ⟨b, v, rfl⟩

/-- A text without a newline that occurs in a text occurs in one of its lines. -/
theorem exists_mem_lines_of_infix {s t : List Char} (h : s <:+: t) (hs : '\n' ∉ s) :
    ∃ l ∈ lines t, s <:+: l := by
  have key : ∀ ls : List (List Char), ls ≠ [] → s <:+: unlines ls → ∃ l ∈ ls, s <:+: l := by
    intro ls
    induction ls with
    | nil => exact fun h => absurd rfl h
    | cons l ls ih =>
      intro _ hu
      cases ls with
      | nil => exact ⟨l, List.mem_singleton_self _, by simpa using hu⟩
      | cons l' ls =>
        rw [unlines_cons_cons] at hu
        rcases infix_append_newline hu hs with hl | hr
        · exact ⟨l, List.mem_cons_self _ _, hl⟩
        · obtain ⟨l₀, hl₀, h₀⟩ := ih (List.cons_ne_nil _ _) hr
          exact ⟨l₀, List.mem_cons_of_mem _ hl₀, h₀⟩
  exact key _ (List.splitOnP_ne_nil _ _) (by rwa [lines_unlines])

theorem mem_insertAt {α : Type} {xs : List α} {k : Nat} {x y : α} :
    y ∈ insertAt xs k x ↔ y = x ∨ y ∈ xs := by
  conv_rhs => rw [← List.take_append_drop k xs]
  simp only [insertAt, List.mem_append, List.mem_cons]
  exact or_left_comm

/-- **Inserting a line keeps what the text contained**: every text without a newline. -/
theorem contains_unlines_insertAt {t s : List Char} (ht : contains t s = true) (hs : '\n' ∉ s)
    (k : Nat) (x : List Char) : contains (unlines (insertAt (lines t) k x)) s = true := by
  obtain ⟨l, hl, hsl⟩ := exists_mem_lines_of_infix ((contains_iff_infixOf _ _).1 ht) hs
  exact (contains_iff_infixOf _ _).2 (hsl.trans (infix_unlines_of_mem (mem_insertAt.2 (.inr hl))))

theorem contains_unlines_insertAt_self (ls : List (List Char)) (k : Nat) (x : List Char) :
    contains (unlines (insertAt ls k x)) x = true :=
  (contains_iff_infixOf _ _).2 (infix_unlines_of_mem (by simp [insertAt]))

/-- A text that starts and ends with a non-space character is its own `strip()`. -/
theorem strip_of_ends (c d : Char) (X : List Char) (hc : isSpace c = false) (hd : isSpace d = false) :
    strip (c :: (X ++ [d])) = c :: (X ++ [d]) := by
  simp [strip, lstrip, rstrip, hc, hd]

theorem eq_append_drop_of_isPrefixOf {p t : List Char} (h : p.isPrefixOf t = true) :
    t = p ++ t.drop p.length := by
  obtain ⟨u, rfl⟩ := List.isPrefixOf_iff_prefix.1 h
  simp

/-- A text that starts with a non-blank occurs in blanks followed by `d` only if it occurs in
    `d`. -/
theorem contains_blanks_append {w d p : List Char} (hw : ∀ c ∈ w, isSpace c = true)
    (hp : (p.head?.any fun c => !isSpace c) = true) : contains (w ++ d) p = contains d p := by
  induction w with
  | nil => rfl
  | cons c w ih =>
    rw [← ih fun c hc => hw c (.tail _ hc)]
    cases p with
    | nil => simp at hp
    | cons a p =>
      have ha : a ≠ c := fun h => by simp [h, hw c (.head _)] at hp
      simp [contains, ha]

@[simp] theorem length_insertAt {α : Type} (xs : List α) (i : Nat) (x : α) :
    (insertAt xs i x).length = xs.length + 1 := by
  simp [insertAt]; omega

end RustyDb.Python
