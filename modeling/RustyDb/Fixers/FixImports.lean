import RustyDb.Fixers.Common

/-!
# `fix_imports.py`

`fix_file` decides from the file's text whether it needs `Mutex`, `sleep`
or `interval`, then edits the list of lines: it extends the first matching
`use` group or inserts a new `use` line after the import section. The new
lines carry their own `'\n'`, as the script writes them. Any exception
(here the `IndexError` of `parts[0].split('{')[1]`) leaves the file as it
was.
-/

namespace RustyDb.Fixers

open RustyDb.Python

/-! ## §1 The `needs_*` checks -/

/-- `'use parking_lot::' in content or 'use parking_lot::{' in content`. -/
def hasParkingLotImport (content : List Char) : Bool :=
  contains content "use parking_lot::".toList || contains content "use parking_lot::\x7b".toList

/-- `head in content and name in content.split(head)[1].split('}')[0]`. -/
def groupMentions (content head name : List Char) : Bool :=
  contains content head &&
    contains (((splitStr content head).getD 1 []).splitOn '}' |>.headD []) name

/-- `needs_mutex_import`. -/
def needsMutexImport (content : List Char) : Bool :=
  (contains content "Mutex::new(".toList || contains content "Mutex<".toList) &&
    !(contains content "use parking_lot::Mutex".toList ||
      contains content "use std::sync::Mutex".toList) &&
    !groupMentions content "use parking_lot::\x7b".toList "Mutex".toList &&
    !groupMentions content "use std::sync::\x7b".toList "Mutex".toList

/-- `needs_sleep_import` and `needs_interval_import`: a call `name(` and no
    `use tokio::time::name` nor `name` in the first `use tokio::time::{` group. -/
def needsTokioTimeImport (name content : List Char) : Bool :=
  contains content (name ++ ['(']) &&
    !contains content ("use tokio::time::".toList ++ name) &&
    !groupMentions content "use tokio::time::\x7b".toList name

/-- `needs_sleep_import`. -/
def needsSleepImport (content : List Char) : Bool := needsTokioTimeImport "sleep".toList content

/-- `needs_interval_import`. -/
def needsIntervalImport (content : List Char) : Bool :=
  needsTokioTimeImport "interval".toList content

/-! ## §2 The line edits -/

/-- The loop of `find_import_section_end` from line `i`, with `last_use_line` as an option
    (`none` for `-1`). -/
def importSectionEndFrom : Option Nat → Nat → List (List Char) → Nat
  | last, _, [] => last.getD 0
  | last, i, line :: rest =>
    if startswith (strip line) "use ".toList then importSectionEndFrom (some i) (i + 1) rest
    else if last.isSome && !(strip line).isEmpty && !startswith (strip line) "//".toList then
      last.getD 0
    else importSectionEndFrom last (i + 1) rest

/-- `find_import_section_end`: the last `use` line before the first other code line. -/
def findImportSectionEnd (ls : List (List Char)) : Nat := importSectionEndFrom none 0 ls

/-- `parts = line.split('}'); items = parts[0].split('{')[1]`, then `parts[0] + ', name}' +
    '}'.join(parts[1:])` unless `name` is in `items`; `none` for the `IndexError`. -/
def extendGroupLine (name line : List Char) : Option (List Char) :=
  let parts := line.splitOn '}'
  let head := parts.headD []
  match (head.splitOn '{')[1]? with
  | none => none
  | some items =>
    some (if contains items name then line
      else head ++ ", ".toList ++ name ++ ['}'] ++ ['}'].intercalate parts.tail)

/-- The loop all `add_*_import` share: rewrite the first line satisfying `p` with `f`,
    or, when there is none, insert `imp` after the import section. -/
def rewriteFirstOrInsert (p : List Char → Bool) (f : List Char → Option (List Char))
    (imp : List Char) (ls : List (List Char)) : Option (List (List Char)) :=
  match ls.findIdx? p with
  | some i => (ls.set i ·) <$> f (ls.getD i [])
  | none => some (insertAt ls (findImportSectionEnd ls + 1) imp)

/-- The three branches of `add_mutex_import`'s `parking_lot` loop, for the line they stop at. -/
def parkingLotMutexLine (line : List Char) : Option (List Char) :=
  if startswith (strip line) "use parking_lot::RwLock;".toList then
    some (replace line "use parking_lot::RwLock;".toList
      "use parking_lot::\x7bRwLock, Mutex\x7d;".toList none)
  else if startswith (strip line) "use parking_lot::".toList then
    some ("use parking_lot::\x7b".toList ++ rstripChars [';'] ((strip line).drop 17) ++
      ", Mutex\x7d;\n".toList)
  else extendGroupLine "Mutex".toList line

/-- `add_mutex_import`. -/
def addMutexImport (ls : List (List Char)) (useParkingLot : Bool) : Option (List (List Char)) :=
  if useParkingLot then
    rewriteFirstOrInsert (fun l => startswith (strip l) "use parking_lot::".toList ||
        contains l "use parking_lot::\x7b".toList)
      parkingLotMutexLine "use parking_lot::Mutex;\n".toList ls
  else
    rewriteFirstOrInsert (fun l => contains l "use std::sync::\x7b".toList && contains l "Arc".toList)
      (extendGroupLine "Mutex".toList) "use std::sync::Mutex;\n".toList ls

/-- `add_sleep_import`. -/
def addSleepImport (ls : List (List Char)) : Option (List (List Char)) :=
  rewriteFirstOrInsert (contains · "use tokio::time::\x7b".toList) (extendGroupLine "sleep".toList)
    "use tokio::time::sleep;\n".toList ls

/-- `add_interval_import`: as `add_sleep_import`, and a plain `use tokio::time::sleep;` line
    becomes a group. -/
def addIntervalImport (ls : List (List Char)) : Option (List (List Char)) :=
  rewriteFirstOrInsert
    (fun l => contains l "use tokio::time::\x7b".toList || strip l == "use tokio::time::sleep;".toList)
    (fun l => if contains l "use tokio::time::\x7b".toList then extendGroupLine "interval".toList l
      else some "use tokio::time::\x7bsleep, interval\x7d;\n".toList)
    "use tokio::time::interval;\n".toList ls

/-! ## §3 `fix_file` -/

/-- `if needed: add(lines)`. -/
def whenNeeded (needed : Bool) (add : List (List Char) → Option (List (List Char)))
    (ls : List (List Char)) : Option (List (List Char)) :=
  if needed then add ls else some ls

/-- The edits `fix_file` makes for the needs computed on `content`; `none` when one raises. -/
def fixFileLines (content : List Char) (ls : List (List Char)) : Option (List (List Char)) :=
  (whenNeeded (needsMutexImport content) (addMutexImport · (hasParkingLotImport content)) ls).bind
    fun ls => (whenNeeded (needsSleepImport content) addSleepImport ls).bind
      fun ls => whenNeeded (needsIntervalImport content) addIntervalImport ls

/-- `fix_file`: the file's content afterwards. -/
def fixFile (content : List Char) : List Char :=
  if needsMutexImport content || needsSleepImport content || needsIntervalImport content then
    ((fixFileLines content (lines content)).map unlines).getD content
  else content

end RustyDb.Fixers
