import RustyDb.Python.Regex

/-!
# Shared Pieces of the Fixer Scripts

The build-repair scripts (`fix_final.py`, `fix_remaining.py`,
`fix_duplicates.py`, `fix_rust_errors.py`, `fix_imports.py`, `fix_build.py`)
rewrite Rust source files with regular expressions and line loops. The
pattern fragments, the import-check tables and the brace scanner that
several of them repeat are written here once; each script's module applies
them with that script's own constants.
-/

namespace RustyDb.Fixers

open RustyDb.Python

/-! ## §1 Pattern fragments -/

/-- `[a-z]`. -/
def lower : CharSet := .range 'a' 'z'

/-- `[a-z0-9_]`. -/
def identTail : CharSet := .union lower (.union (.range '0' '9') (.chr '_'))

/-- `[a-z_]`. -/
def lowerOrUnderscore : CharSet := .union lower (.chr '_')

/-- `\bname\b` for a name without metacharacters, as `rf'\b{name}\b'` builds it. -/
def wordPattern (name : List Char) : Regex := .seqs [.boundary, .lit name, .boundary]

/-- `(?!\s*[=:])`: not followed, after optional whitespace, by `=` or `:`. -/
def notDefinition : Regex := .ahead true (.seq (Regex.star .space) (.set (.ofList "=:".toList)))

/-- `use\s+` followed by a literal path. -/
def usePath (path : List Char) : Regex := .seqs [.lit "use".toList, Regex.plus .space, .lit path]

/-- `use\s+prefix\{[^}]*name`: `name` inside a brace group after `prefix`. -/
def useGroup (pre name : List Char) : Regex :=
  .seqs [.lit "use".toList, Regex.plus .space, .lit pre, .set (.chr '{'),
    Regex.star (.compl (.chr '}')), .lit name]

/-- `(_[a-z][a-z0-9_]*)\s*:`: an underscore parameter name and its colon. -/
def underscoreParamPattern : Regex :=
  .seqs [.group 1 (.seqs [.set (.chr '_'), .set lower, Regex.star identTail]),
    Regex.star .space, .set (.chr ':')]

/-- `\s*(pub\s+)?struct\s+\w+`, matched at the start of a line. -/
def structStartPattern : Regex :=
  .seqs [Regex.star .space, Regex.optional (.group 1 (.seq (.lit "pub".toList) (Regex.plus .space))),
    .lit "struct".toList, Regex.plus .space, Regex.plus .word]

/-! ## §2 Import checks -/

/-- One block of an `add_missing_imports`: when a `triggers` pattern matches and no `forms`
    pattern does, the script adds `line`. -/
structure ImportCheck where
  triggers : List Regex
  forms : List Regex
  line : List Char

/-- Whether a check asks for its import in `content`. -/
def ImportCheck.fires (k : ImportCheck) (content : List Char) : Bool :=
  k.triggers.any (fun t => (search t content).isSome) && k.forms.all fun f => (search f content).isNone

/-- The plain and grouped forms `use path::name` and `use path::{... name`. -/
def stdForms (path name : List Char) : List Regex :=
  [usePath (path ++ name), useGroup path name]

/-- The common check: `name` used as a word, not imported in the two `std` forms. -/
def stdCheck (path name : List Char) : ImportCheck :=
  ⟨[wordPattern name], stdForms path name, "use ".toList ++ path ++ name ++ [';']⟩

/-- `line.strip().startswith('use ')`. -/
def isUseLine (line : List Char) : Bool := startswith (strip line) "use ".toList

/-- A line that is neither blank, a `//` comment nor an attribute. -/
def isCodeLine (line : List Char) : Bool :=
  !(strip line).isEmpty && !startswith (strip line) "//".toList &&
    !startswith (strip line) "#".toList

/-! ## §3 The brace scanner -/

/-- The `while pos < len(content) and brace_count > 0` loop: the index after the brace that
    closes `count` open braces, scanning from `pos`, for at most `fuel` characters. -/
def braceEnd (content : List Char) : Nat → Nat → Nat → Nat
  | 0, _, pos => pos
  | fuel + 1, count, pos =>
    if pos < content.length ∧ 0 < count then
      match content[pos]? with
      | some '{' => braceEnd content fuel (count + 1) (pos + 1)
      | some '}' => braceEnd content fuel (count - 1) (pos + 1)
      | _ => braceEnd content fuel count (pos + 1)
    else pos

/-- `line.count('{') - line.count('}')`. -/
def braceDelta (line : List Char) : Int := (countChar line '{' : Int) - countChar line '}'

/-- The body `content[brace_start:pos]` the scripts cut out after an opening brace. -/
def bodyFrom (content : List Char) (braceStart : Nat) : List Char :=
  let stop := braceEnd content content.length 1 (braceStart + 1)
  (content.drop braceStart).take (stop - braceStart)

/-- `s[:i] + mid + s[j:]`. -/
def splice (s : List Char) (i j : Nat) (mid : List Char) : List Char :=
  s.take i ++ mid ++ s.drop j

end RustyDb.Fixers
