import RustyDb.Fixers.Common

/-!
# `fix_duplicates.py`

`process_file` applies `fix_struct_semicolons`, then `fix_duplicate_imports`,
which first runs `fix_duplicate_mutex_imports` and then drops repeated `use`
lines.
-/

namespace RustyDb.Fixers

open RustyDb.Python

/-! ## §1 `fix_struct_semicolons` -/

/-- `\s*(pub\s+)?[a-z_][a-z0-9_]*\s*:\s*[^,;]+;\s*$`. -/
def semicolonFieldPattern : Regex :=
  .seqs [Regex.star .space, Regex.optional (.group 1 (.seq (.lit "pub".toList) (Regex.plus .space))),
    .set lowerOrUnderscore, Regex.star identTail, Regex.star .space, .set (.chr ':'),
    Regex.star .space, Regex.plus (.compl (.union (.chr ',') (.chr ';'))), .set (.chr ';'),
    Regex.star .space, .endText]

/-- The state of the line loop: `in_struct`, `brace_depth`, `struct_brace_depth`. -/
structure StructScan where
  inStruct : Bool
  braceDepth : Int
  structBraceDepth : Int

/-- One iteration of the loop: the state after `line` and the line it appends. -/
def structStep (st : StructScan) (line : List Char) : StructScan × List Char :=
  let st1 := if (rematch structStartPattern line).isSome then
      { st with inStruct := true, structBraceDepth := st.braceDepth + 1 } else st
  let depth := st1.braceDepth + braceDelta line
  let st2 := { st1 with braceDepth := depth,
                        inStruct := st1.inStruct && !decide (depth < st1.structBraceDepth) }
  let line' := if st2.inStruct && (rematch semicolonFieldPattern line).isSome then
      rstripChars [';'] (rstrip line) ++ [','] else line
  (st2, line')

/-- The loop over the remaining lines. -/
def structLines : StructScan → List (List Char) → List (List Char)
  | _, [] => []
  | st, line :: rest => (structStep st line).2 :: structLines (structStep st line).1 rest

/-- `fix_struct_semicolons`. -/
def fixStructSemicolons (content : List Char) : List Char :=
  unlines (structLines ⟨false, 0, 0⟩ (lines content))

/-! ## §2 `fix_duplicate_mutex_imports` and `fix_duplicate_imports` -/

/-- `use std::sync::Mutex;\n?`. -/
def stdMutexLinePattern : Regex :=
  .seq (.lit "use std::sync::Mutex;".toList) (Regex.opt (.chr '\n'))

/-- `,\s*Mutex(?=\s*[,}])`. -/
def groupMutexPattern : Regex :=
  .seqs [.set (.chr ','), Regex.star .space, .lit "Mutex".toList,
    .ahead false (.seq (Regex.star .space) (.set (.ofList [',', '}'])))]

/-- `fix_duplicate_mutex_imports`: when `parking_lot`'s `Mutex` is imported, delete the `std`
    one and every `, Mutex` before a `,` or `}`. -/
def fixDuplicateMutexImports (content : List Char) : List Char :=
  if contains content "use parking_lot::\x7bMutex".toList ||
      contains content "use parking_lot::Mutex".toList then
    sub groupMutexPattern [] (sub stdMutexLinePattern [] content)
  else content

/-- The line loop of `fix_duplicate_imports` with the set `seen` of stripped `use` lines. -/
def dropRepeatedUseLines : List (List Char) → List (List Char) → List (List Char)
  | _, [] => []
  | seen, line :: rest =>
    if isUseLine line then
      if seen.contains (strip line) then dropRepeatedUseLines seen rest
      else line :: dropRepeatedUseLines (seen ++ [strip line]) rest
    else line :: dropRepeatedUseLines seen rest

/-- `fix_duplicate_imports`. -/
def fixDuplicateImports (content : List Char) : List Char :=
  unlines (dropRepeatedUseLines [] (lines (fixDuplicateMutexImports content)))

/-- The passes of `process_file`. -/
def duplicatesProcess (content : List Char) : List Char :=
  fixDuplicateImports (fixStructSemicolons content)

end RustyDb.Fixers
