import RustyDb.Fixers.Common

/-!
# `fix_final.py`

The six passes `process_file` applies to each `.rs` file, in order:
`fix_broken_format_macro`, `fix_snake_case_variables`,
`remove_duplicate_dbderror_import`, `add_missing_imports`,
`fix_let_underscore_in_file` and `fix_fn_param_underscore`.

`add_missing_imports` turns its list of imports into a `set` and back; the
order Python's string hashing gives that list is the parameter `setOrder`.
-/

namespace RustyDb.Fixers

open RustyDb.Python

/-! ## §1 `fix_broken_format_macro` -/

/-- `(format!\([^;]+);(\s*$)` under `re.MULTILINE`. -/
def brokenFormatPattern : Regex :=
  .seqs [.group 1 (.seq (.lit "format!(".toList) (Regex.plus (.compl (.chr ';')))),
    .set (.chr ';'), .group 2 (.seq (Regex.star .space) .endLine)]

/-- `fix_broken_format_macro`: substitute `\1);\2` for every match. -/
def fixBrokenFormatMacro (content : List Char) : List Char :=
  sub brokenFormatPattern [.ref 1, .text ");".toList, .ref 2] content

/-- A call whose `)` is already there gets a second one: `[^;]+` runs over the call's own `)`. -/
theorem fixBrokenFormatMacro_closes_complete_call :
    fixBrokenFormatMacro "let s = format!(\"\x7b\x7d\", x);".toList =
      "let s = format!(\"\x7b\x7d\", x));".toList := by
  decide

/-! ## §2 `fix_snake_case_variables` -/

/-- The `replacements` of `fix_snake_case_variables`, applied in order. -/
def snakeCaseReplacements : List (Regex × List Char) :=
  [(wordPattern "pageid".toList, "page_id".toList),
   (wordPattern "tablename".toList, "table_name".toList),
   (wordPattern "numnodes".toList, "num_nodes".toList),
   (wordPattern "numpartitions".toList, "num_partitions".toList),
   (wordPattern "blocksize".toList, "block_size".toList),
   (wordPattern "buffersize".toList, "buffer_size".toList),
   (wordPattern "pagesize".toList, "page_size".toList),
   (.seq (wordPattern "filename".toList) notDefinition, "file_name".toList)]

/-- Apply `re.sub(pattern, replacement, content)` for each pair in order. -/
def applyReplacements (rs : List (Regex × List Char)) (content : List Char) : List Char :=
  rs.foldl (fun c p => sub p.1 [.text p.2] c) content

/-- `fix_snake_case_variables`. -/
def fixSnakeCaseVariables (content : List Char) : List Char :=
  applyReplacements snakeCaseReplacements content

/-! ## §3 `remove_duplicate_dbderror_import` -/

/-- `\s*error::DbError,?\s*`. -/
def dbErrorItemPattern : Regex :=
  .seqs [Regex.star .space, .lit "error::DbError".toList, Regex.opt (.chr ','), Regex.star .space]

/-- The loop's test whether a line imports `DbError`. -/
def importsDbError (line : List Char) : Bool :=
  contains line "use crate::error::DbError".toList || contains line "crate::error::DbError".toList

/-- The loop of `remove_duplicate_dbderror_import` over the remaining lines; `seen` is
    `has_dberror_import`. -/
def dropDuplicateDbError : Bool → List (List Char) → List (List Char)
  | _, [] => []
  | seen, line :: rest =>
    if importsDbError line then
      if seen then
        if contains line "error::DbError,".toList then
          let line' := sub dbErrorItemPattern [] line
          if strip line' == "use crate::\x7b".toList || strip line' == "\x7d;".toList then
            dropDuplicateDbError true rest
          else line' :: dropDuplicateDbError true rest
        else dropDuplicateDbError true rest
      else line :: dropDuplicateDbError true rest
    else line :: dropDuplicateDbError seen rest

/-- `remove_duplicate_dbderror_import`. -/
def removeDuplicateDbErrorImport (content : List Char) : List Char :=
  unlines (dropDuplicateDbError false (lines content))

/-! ## §4 `add_missing_imports` -/

/-- The checks of `add_missing_imports` in `fix_final.py`, in order. -/
def finalImportChecks : List ImportCheck :=
  [stdCheck "std::collections::".toList "HashMap".toList,
   stdCheck "std::time::".toList "SystemTime".toList,
   stdCheck "std::time::".toList "UNIX_EPOCH".toList,
   { stdCheck "std::time::".toList "Duration".toList with
     forms := stdForms "std::time::".toList "Duration".toList ++
       [usePath "tokio::time::Duration".toList] },
   { stdCheck "std::time::".toList "Instant".toList with
     forms := stdForms "std::time::".toList "Instant".toList ++
       [usePath "tokio::time::Instant".toList] },
   stdCheck "std::collections::".toList "HashSet".toList,
   stdCheck "std::collections::".toList "BTreeMap".toList,
   stdCheck "std::collections::".toList "VecDeque".toList]

/-- `insert_pos` of `fix_final.py`: after the last `use` line, or else at the first code line. -/
def finalInsertPos (ls : List (List Char)) : Nat :=
  let afterUse := ls.enum.foldl (fun pos il => if isUseLine il.2 then il.1 + 1 else pos) 0
  if afterUse == 0 then (ls.findIdx? isCodeLine).getD 0 else afterUse

/-- `for imp in imports: lines.insert(insert_pos, imp); insert_pos += 1`. -/
def insertEach (ls : List (List Char)) (pos : Nat) : List (List Char) → List (List Char)
  | [] => ls
  | imp :: imps => insertEach (insertAt ls pos imp) (pos + 1) imps

/-- `add_missing_imports` of `fix_final.py`; `setOrder` is the order `list(set(...))` gives. -/
def finalAddMissingImports (setOrder : List (List Char) → List (List Char))
    (content : List Char) : List Char :=
  let toAdd := (finalImportChecks.filter (·.fires content)).map (·.line)
  if toAdd.isEmpty then content
  else
    let ls := lines content
    let imps := (setOrder toAdd).filter fun imp => !contains content imp
    unlines (insertEach ls (finalInsertPos ls) imps)

/-! ## §5 `fix_let_underscore_in_file` -/

/-- `\blet\s+(mut\s+)?(_[a-z][a-z0-9_]*)\s*=`. -/
def letUnderscorePattern : Regex :=
  .seqs [.boundary, .lit "let".toList, Regex.plus .space,
    Regex.optional (.group 1 (.seq (.lit "mut".toList) (Regex.plus .space))),
    .group 2 (.seqs [.set (.chr '_'), .set lower, Regex.star identTail]),
    Regex.star .space, .set (.chr '=')]

/-- The loop of `fix_let_underscore_in_file` over the matches of the original text, last first. -/
def renameLetsBackward (original : List Char) : List Char → List Match → List Char
  | content, [] => content
  | content, m :: ms =>
    let plain := (m.group original 2).drop 1
    let content' :=
      if (search (wordPattern plain) (content.drop m.stop)).isSome then
        splice content (m.startOf 2) (m.stopOf 2) plain
      else content
    renameLetsBackward original content' ms

/-- `fix_let_underscore_in_file`: the matches of the original text, processed in reverse. -/
def fixLetUnderscoreInFile (content : List Char) : List Char :=
  renameLetsBackward content content (finditer letUnderscorePattern content).reverse

/-! ## §6 `fix_fn_param_underscore` -/

/-- `(fn\s+\w+\s*(?:<[^>]*>)?\s*\([^)]*_[a-z][a-z0-9_]*\s*:[^)]*\))`. -/
def fnSignaturePattern : Regex :=
  .group 1 (.seqs [.lit "fn".toList, Regex.plus .space, Regex.plus .word, Regex.star .space,
    Regex.optional (.seqs [.set (.chr '<'), Regex.star (.compl (.chr '>')), .set (.chr '>')]),
    Regex.star .space, .set (.chr '('), Regex.star (.compl (.chr ')')), .set (.chr '_'),
    .set lower, Regex.star identTail, Regex.star .space, .set (.chr ':'),
    Regex.star (.compl (.chr ')')), .set (.chr ')')])

/-- The inner loop over the underscore parameters of one signature match `m`; the offsets of
    `m` are those of the text the outer loop started from. -/
def renameParams (m : Match) (sig : List Char) (content : List Char) : List (List Char) → List Char
  | [] => content
  | p :: ps =>
    let plain := p.drop 1
    match findFrom content "\x7b".toList m.stop with
    | none => renameParams m sig content ps
    | some braceStart =>
      let body := bodyFrom content braceStart
      let content' :=
        if (search (wordPattern plain) body).isSome then
          splice content m.start m.stop (replace sig (p ++ [':']) (plain ++ [':']) none)
        else content
      renameParams m sig content' ps

/-- The outer loop of `fix_fn_param_underscore` over the matches of the original text. -/
def renameSignatures (original : List Char) : List Char → List Match → List Char
  | content, [] => content
  | content, m :: ms =>
    let sig := m.group original 1
    renameSignatures original (renameParams m sig content (findall underscoreParamPattern sig)) ms

/-- `fix_fn_param_underscore`. -/
def fixFnParamUnderscore (content : List Char) : List Char :=
  renameSignatures content content (finditer fnSignaturePattern content)

/-! ## §7 `process_file` -/

/-- The passes of `process_file`, in order. -/
def finalProcess (setOrder : List (List Char) → List (List Char)) (content : List Char) :
    List Char :=
  fixFnParamUnderscore (fixLetUnderscoreInFile (finalAddMissingImports setOrder
    (removeDuplicateDbErrorImport (fixSnakeCaseVariables (fixBrokenFormatMacro content)))))

end RustyDb.Fixers
