import RustyDb.Python.Str

/-!
# Python Regular Expressions

The fragment of Python's `re` that the fixer scripts use, with `sre`'s
backtracking semantics. Every repetition in the scripts' patterns repeats a
single character class, so a repetition is a primitive here and the matcher
is structurally recursive on the pattern.

`Regex.ends s r i caps` lists every way `r` can match `s` from index `i`, in
the order `sre` tries them: the first element is the match Python reports.
On top of it sit the module functions the scripts call: `search`, `rematch`,
`finditer`, `findall` and `sub`, with Python 3.7's rule that a search after
an empty match must advance.

## Scope

- `\w` and `\b` use `isWord` (ASCII word characters, see `Str.lean`).
- Lookaheads keep the captures from before them; no lookahead in the
  modelled patterns holds a group.
-/

namespace RustyDb.Python

/-! ## §1 Syntax -/

/-- A character class of the pattern syntax. -/
inductive CharSet where
  /-- One literal character. -/
  | chr (c : Char)
  /-- A range `lo-hi` inside brackets. -/
  | range (lo hi : Char)
  /-- `\s`. -/
  | space
  /-- `\w`. -/
  | word
  /-- `.` without `DOTALL`: anything but a newline. -/
  | notNewline
  /-- `.` under `DOTALL`. -/
  | anyChar
  /-- The union of two classes, as in `[a-z0-9_]`. -/
  | union (a b : CharSet)
  /-- A negated class `[^...]`. -/
  | compl (a : CharSet)
  deriving Repr, DecidableEq

/-- Whether a character belongs to a class. -/
def CharSet.mem : CharSet → Char → Bool
  | .chr d, c => c == d
  | .range lo hi, c => decide (lo ≤ c) && decide (c ≤ hi)
  | .space, c => isSpace c
  | .word, c => isWord c
  | .notNewline, c => c != '\n'
  | .anyChar, _ => true
  | .union a b, c => a.mem c || b.mem c
  | .compl a, c => !a.mem c

/-- `[c₁c₂...]`: the union of some literal characters. -/
def CharSet.ofList : List Char → CharSet
  | [] => .compl .anyChar
  | [c] => .chr c
  | c :: cs => .union (.chr c) (ofList cs)

/-- The fragment of the pattern syntax the scripts use. -/
inductive Regex where
  /-- The empty pattern. -/
  | eps
  /-- One character of a class. -/
  | set (k : CharSet)
  /-- Greedy `k{lo,hi}`; `hi = none` is unbounded (`*` is `lo = 0`, `+` is `lo = 1`). -/
  | rep (k : CharSet) (lo : Nat) (hi : Option Nat)
  /-- Concatenation. -/
  | seq (r t : Regex)
  /-- Alternation `r|t`, tried left first. -/
  | alt (r t : Regex)
  /-- Capturing group number `n`. -/
  | group (n : Nat) (r : Regex)
  /-- `$` under `MULTILINE`: at the end or before a newline. -/
  | endLine
  /-- `$` without `MULTILINE`: at the end or before a final newline. -/
  | endText
  /-- `\b`. -/
  | boundary
  /-- `(?=r)`, or `(?!r)` when `neg`. -/
  | ahead (neg : Bool) (r : Regex)
  /-- `(?<!k)`: the previous character is not in `k`. -/
  | notAfter (k : CharSet)
  deriving Repr, DecidableEq

namespace Regex

/-- A literal string. -/
def lit : List Char → Regex
  | [] => .eps
  | [c] => .set (.chr c)
  | c :: cs => .seq (.set (.chr c)) (lit cs)

/-- The concatenation of a list of patterns. -/
def seqs : List Regex → Regex
  | [] => .eps
  | [r] => r
  | r :: rs => .seq r (seqs rs)

/-- `r₁|r₂|…`, tried left to right; the empty alternation never matches. -/
def alts : List Regex → Regex
  | [] => .set (.ofList [])
  | [r] => r
  | r :: rs => .alt r (alts rs)

/-- `k*`. -/
def star (k : CharSet) : Regex := .rep k 0 none

/-- `k+`. -/
def plus (k : CharSet) : Regex := .rep k 1 none

/-- `k?`. -/
def opt (k : CharSet) : Regex := .rep k 0 (some 1)

/-- `(?:r)?`. -/
def optional (r : Regex) : Regex := .alt r .eps

end Regex

/-! ## §2 Backtracking semantics -/

/-- Captured spans, most recent first: `(group, start, stop)`. -/
abbrev Caps := List (Nat × Nat × Nat)

/-- The length of the longest run of `k`-characters at the front of `s`. -/
def runLen (k : CharSet) : List Char → Nat
  | [] => 0
  | c :: cs => if k.mem c then runLen k cs + 1 else 0

/-- Whether the character at index `i` exists and is a word character. -/
def wordAt (s : List Char) (i : Nat) : Bool := (s[i]?.map isWord).getD false

/-- `\b` at index `i`. -/
def atBoundary (s : List Char) (i : Nat) : Bool :=
  (i != 0 && wordAt s (i - 1)) != wordAt s i

/-- `$` under `MULTILINE` at index `i`. -/
def atEndLine (s : List Char) (i : Nat) : Bool :=
  match s[i]? with
  | none => true
  | some c => c == '\n'

/-- `$` without `MULTILINE` at index `i`. -/
def atEndText (s : List Char) (i : Nat) : Bool :=
  i == s.length || (i + 1 == s.length && s[i]? == some '\n')

/-- Every match of `r` in `s` from index `i`, as `(stop, caps)`, in `sre`'s order. -/
def Regex.ends (s : List Char) : Regex → Nat → Caps → List (Nat × Caps)
  | .eps, i, cs => [(i, cs)]
  | .set k, i, cs =>
    match s[i]? with
    | some c => if k.mem c then [(i + 1, cs)] else []
    | none => []
  | .rep k lo hi, i, cs =>
    let n := match hi with
      | none => runLen k (s.drop i)
      | some h => min (runLen k (s.drop i)) h
    (List.range (n + 1 - lo)).map fun d => (i + n - d, cs)
  | .seq r t, i, cs => (r.ends s i cs).flatMap fun e => t.ends s e.1 e.2
  | .alt r t, i, cs => r.ends s i cs ++ t.ends s i cs
  | .group n r, i, cs => (r.ends s i cs).map fun e => (e.1, (n, i, e.1) :: e.2)
  | .endLine, i, cs => if atEndLine s i then [(i, cs)] else []
  | .endText, i, cs => if atEndText s i then [(i, cs)] else []
  | .boundary, i, cs => if atBoundary s i then [(i, cs)] else []
  | .ahead neg r, i, cs => if (r.ends s i cs).isEmpty == neg then [(i, cs)] else []
  | .notAfter k, i, cs =>
    if i == 0 || !(s[i - 1]?.map k.mem).getD false then [(i, cs)] else []

/-! ## §3 Match objects and module functions -/

/-- A match object: the span of group 0 and the captured groups. -/
structure Match where
  /-- `m.start()`. -/
  start : Nat
  /-- `m.end()`. -/
  stop : Nat
  /-- The spans of the groups that took part. -/
  caps : Caps
  deriving Repr, DecidableEq

namespace Match

/-- `(m.start(g), m.end(g))`, or `none` when group `g` did not take part. -/
def span (m : Match) (g : Nat) : Option (Nat × Nat) :=
  if g = 0 then some (m.start, m.stop) else (m.caps.find? (·.1 == g)).map (·.2)

/-- `m.group(g)` in `s`; a group that did not take part reads as `''`, as in `sub` templates. -/
def group (s : List Char) (m : Match) (g : Nat) : List Char :=
  match m.span g with
  | some (a, b) => (s.drop a).take (b - a)
  | none => []

/-- `m.start(g)` (`0` for a group that did not take part). -/
def startOf (m : Match) (g : Nat) : Nat := ((m.span g).map (·.1)).getD 0

/-- `m.end(g)` (`0` for a group that did not take part). -/
def stopOf (m : Match) (g : Nat) : Nat := ((m.span g).map (·.2)).getD 0

end Match

/-- The match `sre` reports at exactly index `i`; after an empty match the next
    search must advance, which refuses an empty match at `i`. -/
def matchAt (r : Regex) (s : List Char) (i : Nat) (mustAdvance : Bool) : Option Match :=
  ((r.ends s i []).find? fun e => !(mustAdvance && e.1 == i)).map fun e => ⟨i, e.1, e.2⟩

/-- Try the start indices `i, i+1, …` for `k` more steps. -/
def searchAux (r : Regex) (s : List Char) : Nat → Nat → Bool → Option Match
  | 0, _, _ => none
  | k + 1, i, ma => (matchAt r s i ma).orElse fun _ => searchAux r s k (i + 1) false

/-- The first match starting at index `i` or later. -/
def searchFrom (r : Regex) (s : List Char) (i : Nat) (mustAdvance : Bool) : Option Match :=
  searchAux r s (s.length + 1 - i) i mustAdvance

/-- `re.search(r, s)`. -/
def search (r : Regex) (s : List Char) : Option Match := searchFrom r s 0 false

/-- `re.match(r, s)`. -/
def rematch (r : Regex) (s : List Char) : Option Match := matchAt r s 0 false

/-- The matches `finditer` yields from index `i`, for `k` more searches. -/
def finditerAux (r : Regex) (s : List Char) : Nat → Nat → Bool → List Match
  | 0, _, _ => []
  | k + 1, i, ma =>
    match searchFrom r s i ma with
    | none => []
    | some m => m :: finditerAux r s k m.stop (m.stop == m.start)

/-- `re.finditer(r, s)`: two searches per index always suffice (see `finditer_fuel`). -/
def finditer (r : Regex) (s : List Char) : List Match :=
  finditerAux r s (2 * s.length + 2) 0 false

/-- `re.findall(r, s)` for a pattern with exactly one group. -/
def findall (r : Regex) (s : List Char) : List (List Char) :=
  (finditer r s).map fun m => m.group s 1

/-- One item of a replacement template. -/
inductive Piece where
  /-- Literal text. -/
  | text (t : List Char)
  /-- A group reference `\n`. -/
  | ref (g : Nat)
  deriving Repr, DecidableEq

/-- The text a template stands for at one match. -/
def expand (s : List Char) (m : Match) : List Piece → List Char
  | [] => []
  | .text t :: ps => t ++ expand s m ps
  | .ref g :: ps => m.group s g ++ expand s m ps

/-- Splice the replacements `f m` of the matches `ms` into `s`, copying from index `i`. -/
def spliceFrom (s : List Char) (f : Match → List Char) : Nat → List Match → List Char
  | i, [] => s.drop i
  | i, m :: ms => (s.drop i).take (m.start - i) ++ f m ++ spliceFrom s f m.stop ms

/-- `re.sub(r, f, s, count)` with a function `f`; `count = none` replaces every match. -/
def subWith (r : Regex) (f : Match → List Char) (s : List Char) (count : Option Nat) :
    List Char :=
  let ms := finditer r s
  spliceFrom s f 0 (match count with | none => ms | some k => ms.take k)

/-- `re.sub(r, template, s)`. -/
def sub (r : Regex) (template : List Piece) (s : List Char) : List Char :=
  subWith r (fun m => expand s m template) s none

end RustyDb.Python
