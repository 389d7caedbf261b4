import RustyDb.Fixers.Common

/-!
# `fix_build.py`

The build fixer reads the short output of `cargo check`, parses its error lines
(`parse_errors`), and repairs two kinds of error in the files they name: `E0425`
(a value not found) by renaming a `let _name` binding on the reported line
(`fix_underscore_variable`), and `E0412` (a type not found) by adding an import from
a fixed table (`fix_missing_type` and `add_import`). `run_cargo_check` runs a
process: its output is the input of the model, as is the content of the files.

## Files

The files are a map from the path an error names to the file's text, `none` where
`open` raises. A read in text mode applies universal newlines, so a file the script
rewrites comes back with `\n` line ends. A fix that raises or changes nothing
returns `False` and writes nothing.
-/

namespace RustyDb.Fixers

open RustyDb.Python

/-! ## §1 `parse_errors` -/

/-- `\d`, on ASCII digits. -/
def digit : CharSet := .range '0' '9'

/-- `^([^:]+):(\d+):(\d+):\s+error\[E(\d+)\]:\s+(.+)$`; `re.match` anchors it at the start,
    so the `^` adds nothing. -/
def errorLinePattern : Regex :=
  .seqs [.group 1 (Regex.plus (.compl (.chr ':'))), .set (.chr ':'), .group 2 (Regex.plus digit),
    .set (.chr ':'), .group 3 (Regex.plus digit), .set (.chr ':'), Regex.plus .space,
    .lit "error[E".toList, .group 4 (Regex.plus digit), .lit "]:".toList, Regex.plus .space,
    .group 5 (Regex.plus .notNewline), .endText]

/-- The dictionary `parse_errors` builds for one error. -/
structure CargoError where
  file : List Char
  line : Nat
  col : Nat
  code : List Char
  message : List Char
  deriving Repr, DecidableEq

/-- One digit of `int(s)`. -/
def decimalStep (n : Nat) (c : Char) : Nat := 10 * n + (c.toNat - '0'.toNat)

/-- `int(s)` for a string of ASCII digits. -/
def decimal (s : List Char) : Nat := s.foldl decimalStep 0

/-- The error one line of the output reports, when `re.match` accepts the line. -/
def parseErrorLine (l : List Char) : Option CargoError :=
  (rematch errorLinePattern l).map fun m =>
    ⟨m.group l 1, decimal (m.group l 2), decimal (m.group l 3), 'E' :: m.group l 4, m.group l 5⟩

/-- `parse_errors(output)`. -/
def parseErrors (output : List Char) : List CargoError := (lines output).filterMap parseErrorLine

/-! ## §2 Files -/

/-- The files the script opens: the text of each path, or `none` where `open` raises. -/
abbrev Files := List Char → Option (List Char)

/-- The files after `text` is written to `path`. -/
def Files.write (files : Files) (path text : List Char) : Files :=
  fun p => if p = path then some text else files p

/-- What a read in text mode returns: universal newlines turn `\r\n` and a lone `\r` into
    `\n`. -/
def universalNewlines : List Char → List Char
  | [] => []
  | '\r' :: '\n' :: cs => '\n' :: universalNewlines cs
  | '\r' :: cs => '\n' :: universalNewlines cs
  | c :: cs => c :: universalNewlines cs

/-- `f.readlines()`: the lines of a text, each with its `\n`; a last line without one is kept.
    `f.writelines(lines)` writes their concatenation. -/
def readlines : List Char → List (List Char)
  | [] => []
  | c :: cs =>
    if c = '\n' then ['\n'] :: readlines cs
    else match readlines cs with
      | [] => [[c]]
      | l :: ls => (c :: l) :: ls

/-! ## §3 `fix_underscore_variable` -/

/-- `[0-7]`, Python's `OCTDIGITS`. -/
def octal : CharSet := .range '0' '7'

/-- `\blet\s+(mut\s+)?_{var_name}\b`. -/
def underscoreLetPattern (varName : List Char) : Regex :=
  .seqs [.boundary, .lit "let".toList, Regex.plus .space,
    Regex.optional (.group 1 (.seq (.lit "mut".toList) (Regex.plus .space))), .lit ('_' :: varName),
    .boundary]

/-- The replacement `rf'let \1{var_name}'` as `re` parses it: `let `, group 1 and the name.
    A name that starts with a digit continues the group number: `\1d` names a group the pattern
    does not have (`re.error`), and `\1dd` with two octal digits is the octal escape of one
    character. -/
def underscoreLetTemplate (varName : List Char) : Option (List Piece) :=
  match varName with
  | d :: rest =>
    if digit.mem d then
      match rest with
      | e :: rest' =>
        if octal.mem d && octal.mem e then
          some [.text ("let ".toList ++ Char.ofNat (64 + 8 * (d.toNat - 48) + (e.toNat - 48)) :: rest')]
        else none
      | [] => none
    else some [.text "let ".toList, .ref 1, .text varName]
  | [] => some [.text "let ".toList, .ref 1]

/-- The index `lines[line_num - 1]` reads: `line_num = 0` is `lines[-1]`, the last line, which
    raises `IndexError` in a file without lines. -/
def lineIndex (count lineNum : Nat) : Option Nat :=
  if lineNum = 0 then (if count = 0 then none else some (count - 1)) else some (lineNum - 1)

/-- `fix_underscore_variable(file_path, line_num, var_name)`: the text it writes, or `none` when
    it returns `False` (no such file, a line past the end, an exception, or no change). -/
def fixUnderscoreVariable (files : Files) (filePath : List Char) (lineNum : Nat)
    (varName : List Char) : Option (List Char) := do
  let text ← files filePath
  let ls := readlines (universalNewlines text)
  if lineNum ≤ ls.length then
    let i ← lineIndex ls.length lineNum
    let line ← ls[i]?
    let template ← underscoreLetTemplate varName
    let newLine := sub (underscoreLetPattern varName) template line
    if newLine ≠ line then some (ls.set i newLine).flatten else none
  else none

/-! ## §4 `add_import` and `fix_missing_type` -/

/-- The line `add_import` inserts before: the first `use` line, or the first line that is
    neither blank nor starts with `//`, `/*`, `*` or `#`. -/
def addImportPos (ls : List (List Char)) : Nat :=
  (ls.findIdx? fun l => isUseLine l ||
    (!(strip l).isEmpty && !startswith (strip l) "//".toList &&
      !startswith (strip l) "/*".toList && !startswith (strip l) "*".toList &&
      !startswith (strip l) "#".toList)).getD 0

/-- `add_import`: the new content, or `none` when the statement is already in the text
    (the script then returns `False` and writes nothing). -/
def addImport (content importStatement : List Char) : Option (List Char) :=
  if contains content importStatement then none
  else some (unlines (insertAt (lines content) (addImportPos (lines content)) importStatement))

/-- The `imports` table of `fix_missing_type`. -/
def missingTypeImports : List (List Char × List Char) :=
  [("Duration", "use std::time::Duration;"), ("Instant", "use std::time::Instant;"),
   ("SystemTime", "use std::time::SystemTime;"), ("HashSet", "use std::collections::HashSet;"),
   ("HashMap", "use std::collections::HashMap;"), ("VecDeque", "use std::collections::VecDeque;"),
   ("BTreeMap", "use std::collections::BTreeMap;"), ("BTreeSet", "use std::collections::BTreeSet;"),
   ("BinaryHeap", "use std::collections::BinaryHeap;"), ("Mutex", "use std::sync::Mutex;"),
   ("RwLock", "use std::sync::RwLock;"), ("Arc", "use std::sync::Arc;"),
   ("Rc", "use std::rc::Rc;"), ("RefCell", "use std::cell::RefCell;"),
   ("Cell", "use std::cell::Cell;"), ("Cow", "use std::borrow::Cow;"),
   ("NonZeroU64", "use std::num::NonZeroU64;"), ("NonZeroU32", "use std::num::NonZeroU32;"),
   ("NonZeroUsize", "use std::num::NonZeroUsize;")].map fun p => (p.1.toList, p.2.toList)

/-- `fix_missing_type`: `add_import` with the table's statement; `none` when nothing is written. -/
def fixMissingType (content typeName : List Char) : Option (List Char) :=
  (missingTypeImports.lookup typeName).bind (addImport content)

/-- `fix_missing_type(file_path, type_name)` on the files: `add_import` opens and reads the file. -/
def fixMissingTypeIn (files : Files) (filePath typeName : List Char) : Option (List Char) :=
  (files filePath).bind fun text => fixMissingType (universalNewlines text) typeName

/-! ## §5 `main` -/

/-- `cannot find value ` followed by a backquoted `(\w+)`. -/
def valueNamePattern : Regex :=
  .seqs [.lit "cannot find value `".toList, .group 1 (Regex.plus .word), .set (.chr '`')]

/-- `cannot find type ` followed by a backquoted `(\w+)`. -/
def typeNamePattern : Regex :=
  .seqs [.lit "cannot find type `".toList, .group 1 (Regex.plus .word), .set (.chr '`')]

/-- `by_code[code]`: the errors with that code, in order. -/
def byCode (errors : List CargoError) (code : List Char) : List CargoError :=
  errors.filter (·.code == code)

/-- The body of one of `main`'s fix loops: search the message for the name, apply the fix to the
    error's file, and count it when it wrote. -/
def applyFix (namePattern : Regex) (fix : Files → CargoError → List Char → Option (List Char))
    (st : Files × Nat) (err : CargoError) : Files × Nat :=
  match search namePattern err.message with
  | none => st
  | some m =>
    match fix st.1 err (m.group err.message 1) with
    | some text => (st.1.write err.file text, st.2 + 1)
    | none => st

/-- The body of the `E0425` loop. -/
def fixValueError : Files × Nat → CargoError → Files × Nat :=
  applyFix valueNamePattern fun files err name => fixUnderscoreVariable files err.file err.line name

/-- The body of the `E0412` loop. -/
def fixTypeError : Files × Nat → CargoError → Files × Nat :=
  applyFix typeNamePattern fun files err name => fixMissingTypeIn files err.file name

/-- `main` after `run_cargo_check`: the files after both loops, and `fixes`. -/
def fixBuild (output : List Char) (files : Files) : Files × Nat :=
  let errors := parseErrors output
  if errors.isEmpty then (files, 0)
  else
    let st := (byCode errors "E0425".toList).foldl fixValueError (files, 0)
    (byCode errors "E0412".toList).foldl fixTypeError st

end RustyDb.Fixers
