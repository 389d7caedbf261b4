import RustyDb.Fixers.FixFinal

/-!
# `fix_remaining.py`

`process_file` applies `remove_duplicate_use_items`,
`fix_underscore_variables`, `fix_broken_format_strings` and
`fix_function_param_underscores`, in order. A pass that raises (here
`remove_duplicate_use_items` on a blank group item, an `IndexError`) makes
`process_file` leave the file as it was.
-/

namespace RustyDb.Fixers

open RustyDb.Python

/-! ## §1 `remove_duplicate_use_items` -/

/-- `use\s+(.+);`, matched at the start of the stripped line. -/
def useStatementPattern : Regex :=
  .seqs [.lit "use".toList, Regex.plus .space, .group 1 (Regex.plus .notNewline), .set (.chr ';')]

/-- `\{([^}]+)\}`. -/
def braceItemsPattern : Regex :=
  .seqs [.set (.chr '{'), .group 1 (Regex.plus (.compl (.chr '}'))), .set (.chr '}')]

/-- `s.strip().split()[0]`, with `none` for the `IndexError` a blank `s` raises. -/
def firstWord (s : List Char) : Option (List Char) := (words (strip s)).head?

/-- The items loop of a brace group: `(imported, new_items)` after the items. -/
def recordItems : List (List Char) × List (List Char) → List (List Char) →
    List (List Char) × List (List Char)
  | acc, [] => acc
  | (imported, fresh), item :: items =>
    if !item.isEmpty && !imported.contains item then recordItems (imported ++ [item], fresh ++ [item]) items
    else recordItems (imported, fresh) items

/-- The loop of `remove_duplicate_use_items` over the remaining lines, with the set `imported`;
    `none` when it raises `IndexError`. -/
def dedupUseLines : List (List Char) → List (List Char) → Option (List (List Char))
  | _, [] => some []
  | imported, line :: rest =>
    let stripped := strip line
    let keep := fun imported' => (line :: ·) <$> dedupUseLines imported' rest
    if startswith stripped "use ".toList && endswith stripped ";".toList then
      match rematch useStatementPattern stripped with
      | none => keep imported
      | some m =>
        let importPath := m.group stripped 1
        if contains importPath "::".toList then
          let parts := splitStr importPath "::".toList
          if contains (parts.getLastD []) "\x7b".toList then
            match search braceItemsPattern importPath with
            | none => keep imported
            | some im =>
              match (splitStr (im.group importPath 1) ",".toList).mapM firstWord with
              | none => none
              | some items =>
                let (imported', fresh) := recordItems (imported, []) items
                if fresh.isEmpty then dedupUseLines imported' rest
                else if fresh.length < items.length then
                  let base := "::".toList.intercalate parts.dropLast
                  let newLine := "use ".toList ++ base ++ "::\x7b".toList ++
                    ", ".toList.intercalate fresh ++ "\x7d;".toList
                  (newLine :: ·) <$> dedupUseLines imported' rest
                else keep imported'
          else
            match firstWord (parts.getLastD []) with
            | none => none
            | some name =>
              if imported.contains name then dedupUseLines imported rest
              else keep (imported ++ [name])
        else keep imported
    else keep imported

/-- `remove_duplicate_use_items`; `none` when it raises. -/
def removeDuplicateUseItems (content : List Char) : Option (List Char) :=
  unlines <$> dedupUseLines [] (lines content)

/-! ## §2 `fix_underscore_variables` -/

/-- `(?<![a-z_])name(?![a-z0-9_])`: a use of `name` outside a longer lowercase name. -/
def plainUsePattern (name : List Char) : Regex :=
  .seqs [.notAfter lowerOrUnderscore, .lit name, .ahead true (.set identTail)]

/-- The loop of `fix_underscore_variables` over the matches of the original text, in order,
    splicing the current text at the original offsets. -/
def renameLetsForward (original : List Char) : List Char → List Match → List Char
  | content, [] => content
  | content, m :: ms =>
    let plain := (m.group original 2).drop 1
    let content' :=
      if (search (plainUsePattern plain) (content.drop m.stop)).isSome then
        splice content (m.startOf 2) (m.stopOf 2) plain
      else content
    renameLetsForward original content' ms

/-- The `replacements` of `fix_underscore_variables`, applied after the loop. -/
def underscoreLetReplacements : List (Regex × List Char) :=
  [(wordPattern "let _value".toList, "let value".toList),
   (wordPattern "let mut _value".toList, "let mut value".toList),
   (wordPattern "let _writes_count".toList, "let writes_count".toList),
   (wordPattern "let mut _writes_count".toList, "let mut writes_count".toList),
   (wordPattern "let _flush_count".toList, "let flush_count".toList),
   (wordPattern "let mut _flush_count".toList, "let mut flush_count".toList),
   (wordPattern "let _result".toList, "let result".toList),
   (wordPattern "let mut _result".toList, "let mut result".toList)]

/-- `fix_underscore_variables` of `fix_remaining.py`. -/
def fixUnderscoreVariables (content : List Char) : List Char :=
  applyReplacements underscoreLetReplacements
    (renameLetsForward content content (finditer letUnderscorePattern content))

/-! ## §3 `fix_broken_format_strings` -/

/-- `(format!\([^)]+),\s*(\w+);`. -/
def brokenFormatStringPattern : Regex :=
  .seqs [.group 1 (.seq (.lit "format!(".toList) (Regex.plus (.compl (.chr ')')))),
    .set (.chr ','), Regex.star .space, .group 2 (Regex.plus .word), .set (.chr ';')]

/-- `fix_broken_format_strings`: substitute `\1, \2)` for every match. -/
def fixBrokenFormatStrings (content : List Char) : List Char :=
  sub brokenFormatStringPattern [.ref 1, .text ", ".toList, .ref 2, .text ")".toList] content

/-! ## §4 `fix_function_param_underscores` -/

/-- `fn\s+\w+[^{]*\(([^)]*)\)[^{]*\{` (its `DOTALL` flag changes nothing: it has no `.`). -/
def fnHeaderPattern : Regex :=
  .seqs [.lit "fn".toList, Regex.plus .space, Regex.plus .word, Regex.star (.compl (.chr '{')),
    .set (.chr '('), .group 1 (Regex.star (.compl (.chr ')'))), .set (.chr ')'),
    Regex.star (.compl (.chr '{')), .set (.chr '{')]

/-- The inner loop over the underscore parameters of one header match `m`. -/
def renameHeaderParams (m : Match) (params : List Char) (content : List Char) :
    List (List Char) → List Char
  | [] => content
  | p :: ps =>
    let plain := p.drop 1
    let stop := braceEnd content content.length 1 m.stop
    let body := (content.drop m.stop).take (stop - m.stop)
    let content' :=
      if (search (wordPattern plain) body).isSome then
        content.take m.start ++
          replace (content.drop m.start) params (replace params (p ++ [':']) (plain ++ [':']) none)
            (some 1)
      else content
    renameHeaderParams m params content' ps

/-- The outer loop of `fix_function_param_underscores` over the matches of the original text. -/
def renameHeaders (original : List Char) : List Char → List Match → List Char
  | content, [] => content
  | content, m :: ms =>
    let params := m.group original 1
    renameHeaders original
      (renameHeaderParams m params content (findall underscoreParamPattern params)) ms

/-- `fix_function_param_underscores`. -/
def fixFunctionParamUnderscores (content : List Char) : List Char :=
  renameHeaders content content (finditer fnHeaderPattern content)

/-! ## §5 `process_file` -/

/-- The passes of `process_file`; when one raises, the file keeps its content. -/
def remainingProcess (content : List Char) : List Char :=
  match removeDuplicateUseItems content with
  | none => content
  | some c => fixFunctionParamUnderscores (fixBrokenFormatStrings (fixUnderscoreVariables c))

end RustyDb.Fixers
