import RustyDb.Fixers.FixFinal

/-!
# `fix_rust_errors.py`

The passes `fix_let_semicolons`, `fix_underscore_variables`,
`fix_specific_patterns` and `add_missing_imports`, and `process_file`, which
runs them in that order. `fix_underscore_variables` renames `let` and `for`
binders over the whole text, and parameters line by line in its inner
`fix_fn_params`; the `fix_params` helper and the `param_pattern` and
`fn_pattern` it defines are never used.
-/

namespace RustyDb.Fixers

open RustyDb.Python

/-! ## §1 `fix_let_semicolons` -/

/-- `\s*let\s+(mut\s+)?[a-z_][a-z0-9_]*`: the start both `let` patterns share. -/
def letNamePrefix : List Regex :=
  [Regex.star .space, .lit "let".toList, Regex.plus .space,
    Regex.optional (.group 1 (.seq (.lit "mut".toList) (Regex.plus .space))),
    .set lowerOrUnderscore, Regex.star identTail]

/-- `\s*let\s+(mut\s+)?[a-z_][a-z0-9_]*\s*:\s*\w+\s*,\s*$`: a typed declaration ending in `,`. -/
def letDeclCommaPattern : Regex :=
  .seqs (letNamePrefix ++ [Regex.star .space, .set (.chr ':'), Regex.star .space,
    Regex.plus .word, Regex.star .space, .set (.chr ','), Regex.star .space, .endText])

/-- `\s*let\s+(mut\s+)?[a-z_][a-z0-9_]*\s*(:\s*\w+)?\s*=.*,\s*$`: an initialised `let` ending
    in `,`. -/
def letInitCommaPattern : Regex :=
  .seqs (letNamePrefix ++ [Regex.star .space,
    Regex.optional (.group 2 (.seqs [.set (.chr ':'), Regex.star .space, Regex.plus .word])),
    Regex.star .space, .set (.chr '='), Regex.star .notNewline, .set (.chr ','),
    Regex.star .space, .endText])

/-- `line.rstrip().rstrip(',') + ';'`. -/
def commaToSemicolon (line : List Char) : List Char := rstripChars [','] (rstrip line) ++ [';']

/-- One line of the loop, given `in_struct` after the line's own updates. -/
def letLine (inStruct : Bool) (line : List Char) : List Char :=
  let line1 := if !inStruct && (rematch letDeclCommaPattern line).isSome then
      commaToSemicolon line else line
  if !inStruct && (rematch letInitCommaPattern line1).isSome &&
      !endswith (rstrip line1) "(,".toList && !endswith (rstrip line1) "[,".toList then
    commaToSemicolon line1
  else line1

/-- The loop over the remaining lines, with `in_struct` and `brace_depth`. -/
def letLines : Bool → Int → List (List Char) → List (List Char)
  | _, _, [] => []
  | inStruct, depth, line :: rest =>
    let inStruct1 := inStruct || (rematch structStartPattern line).isSome
    let depth' := depth + braceDelta line
    let inStruct2 := inStruct1 && depth' != 0
    letLine inStruct2 line :: letLines inStruct2 depth' rest

/-- `fix_let_semicolons`. -/
def fixLetSemicolons (content : List Char) : List Char :=
  unlines (letLines false 0 (lines content))

/-- The first line of a multi-line `vec!` is cut off by a `;`. -/
theorem fixLetSemicolons_cuts_multiline_vec :
    fixLetSemicolons "let v = vec![1,\n    2];".toList = "let v = vec![1;\n    2];".toList := by
  decide

/-! ## §2 `fix_specific_patterns` -/

/-- The substitutions of `fix_specific_patterns`, in order. -/
def specificReplacements : List (Regex × List Char) :=
  [(.seq (wordPattern "_value".toList) notDefinition, "value".toList),
   (wordPattern "_writes_count".toList, "writes_count".toList),
   (wordPattern "_flush_count".toList, "flush_count".toList)]

/-- `fix_specific_patterns`. -/
def fixSpecificPatterns (content : List Char) : List Char :=
  applyReplacements specificReplacements content

/-! ## §3 `add_missing_imports` -/

/-- `\bpre(a|b|...)\b`. -/
def qualifiedPattern (pre : List Char) (names : List (List Char)) : Regex :=
  .seqs [.boundary, .lit pre, .group 1 (.alts (names.map .lit)), .boundary]

/-- The checks of `add_missing_imports` in `fix_rust_errors.py`, in order; the `DbError` check
    is skipped for a path containing `error.rs`. -/
def rustErrorsImportChecks (filepath : List Char) : List ImportCheck :=
  (if contains filepath "error.rs".toList then [] else
    [⟨[wordPattern "DbError".toList],
      [.seqs [.lit "use".toList, Regex.plus .space, Regex.star .notNewline, .lit "DbError".toList],
       usePath "crate::error".toList], "use crate::error::DbError;".toList⟩]) ++
  [stdCheck "std::collections::".toList "HashSet".toList,
   stdCheck "std::collections::".toList "BTreeMap".toList,
   stdCheck "std::collections::".toList "VecDeque".toList,
   { stdCheck "std::sync::".toList "Mutex".toList with
     forms := stdForms "std::sync::".toList "Mutex".toList ++
       [usePath "tokio::sync::Mutex".toList, usePath "parking_lot::Mutex".toList] },
   ⟨[wordPattern "oneshot".toList], [usePath "tokio::sync::oneshot".toList],
     "use tokio::sync::oneshot;".toList⟩,
   ⟨[.seqs [.boundary, .lit "sleep".toList, Regex.star .space, .set (.chr '(')],
     .seqs [.boundary, .lit "sleep".toList, Regex.star .space, .lit ".await".toList]],
     stdForms "tokio::time::".toList "sleep".toList, "use tokio::time::sleep;".toList⟩,
   ⟨[qualifiedPattern "fmt::".toList
      ["Display".toList, "Formatter".toList, "Debug".toList, "Write".toList]],
     [usePath "std::fmt".toList], "use std::fmt;".toList⟩,
   ⟨[qualifiedPattern "io::".toList
      ["Read".toList, "Write".toList, "Seek".toList, "BufReader".toList, "BufWriter".toList]],
     [usePath "std::io".toList], "use std::io;".toList⟩]

/-- `insert_pos` of `fix_rust_errors.py`: the first `use` or `mod` line or code line. -/
def rustErrorsInsertPos (ls : List (List Char)) : Nat :=
  (ls.findIdx? fun l => isUseLine l || startswith (strip l) "mod ".toList || isCodeLine l).getD 0

/-- `for imp in imports_to_add: if imp not in content: lines.insert(insert_pos, imp); ...`. -/
def insertMissing (content : List Char) (ls : List (List Char)) (pos : Nat) :
    List (List Char) → List (List Char)
  | [] => ls
  | imp :: imps =>
    if contains content imp then insertMissing content ls pos imps
    else insertMissing content (insertAt ls pos imp) (pos + 1) imps

/-- `add_missing_imports` of `fix_rust_errors.py`. -/
def rustErrorsAddMissingImports (content filepath : List Char) : List Char :=
  let toAdd := ((rustErrorsImportChecks filepath).filter (·.fires content)).map (·.line)
  if toAdd.isEmpty then content
  else
    let ls := lines content
    unlines (insertMissing content ls (rustErrorsInsertPos ls) toAdd)

/-! ## §4 `fix_underscore_variables` -/

/-- `_[a-z][a-z0-9_]*`: an underscore name. -/
def underscoreName : Regex := .seqs [.set (.chr '_'), .set lower, Regex.star identTail]

/-- `\blet\s+(mut\s+)?(_[a-z][a-z0-9_]*)\s*[=:]`. -/
def letUnderscoreBinderPattern : Regex :=
  .seqs [.boundary, .lit "let".toList, Regex.plus .space,
    Regex.optional (.group 1 (.seq (.lit "mut".toList) (Regex.plus .space))), .group 2 underscoreName,
    Regex.star .space, .set (.ofList "=:".toList)]

/-- `\blet\s+{var}\b`. -/
def letVarPattern (var : List Char) : Regex :=
  .seqs [.boundary, .lit "let".toList, Regex.plus .space, .lit var, .boundary]

/-- `\blet\s+mut\s+{var}\b`. -/
def letMutVarPattern (var : List Char) : Regex :=
  .seqs [.boundary, .lit "let".toList, Regex.plus .space, .lit "mut".toList, Regex.plus .space,
    .lit var, .boundary]

/-- One turn of the loop over the `let` matches: when the plain name is a word of the text as it
    is now, rename both binder forms. -/
def renameLetVar (content var : List Char) : List Char :=
  let plainVar := var.drop 1
  if (search (wordPattern plainVar) content).isSome then
    sub (letMutVarPattern var) [.text ("let mut ".toList ++ plainVar)]
      (sub (letVarPattern var) [.text ("let ".toList ++ plainVar)] content)
  else content

/-- `for\s+(_[a-z][a-z0-9_]*)\s+in`. -/
def forUnderscorePattern : Regex :=
  .seqs [.lit "for".toList, Regex.plus .space, .group 1 underscoreName, Regex.plus .space,
    .lit "in".toList]

/-- `for\s+{var}\s+in`. -/
def forVarPattern (var : List Char) : Regex :=
  .seqs [.lit "for".toList, Regex.plus .space, .lit var, Regex.plus .space, .lit "in".toList]

/-- One turn of the loop over the `for` matches. -/
def renameForVar (content var : List Char) : List Char :=
  let plainVar := var.drop 1
  if (search (wordPattern plainVar) content).isSome then
    sub (forVarPattern var) [.text ("for ".toList ++ plainVar ++ " in".toList)] content
  else content

/-- `fn\s+\w+.*\(([^)]*_[a-z][a-z0-9_]*[^)]*)\)`: a signature whose parameters hold an
    underscore name. -/
def fnUnderscoreParamsPattern : Regex :=
  .seqs [.lit "fn".toList, Regex.plus .space, Regex.plus .word, Regex.star .notNewline,
    .set (.chr '('),
    .group 1 (.seqs [Regex.star (.compl (.chr ')')), underscoreName, Regex.star (.compl (.chr ')'))]),
    .set (.chr ')')]

/-- The look-ahead of `fix_fn_params` for a function's body: the lines after the signature while
    the braces it counts stay open. -/
def bodyLines : Int → List (List Char) → List (List Char)
  | _, [] => []
  | count, l :: ls => if count > 0 then l :: bodyLines (count + braceDelta l) ls else []

/-- `\b{param}\s*:`. -/
def paramColonPattern (param : List Char) : Regex :=
  .seqs [.boundary, .lit param, Regex.star .space, .set (.chr ':')]

/-- One turn of the loop over a signature's underscore parameters: rename the parameter in the
    signature line when its plain name is a word of the function's lines. -/
def renameParamIn (fnBody line param : List Char) : List Char :=
  if (search (wordPattern (param.drop 1)) fnBody).isSome then
    sub (paramColonPattern param) [.text (param.drop 1 ++ [':'])] line
  else line

/-- The `while` loop of `fix_fn_params` over the lines; `fn_body` is read from the lines as they
    were given. -/
def fnParamLines : List (List Char) → List (List Char)
  | [] => []
  | line :: rest =>
    (match search fnUnderscoreParamsPattern line with
      | none => line
      | some m =>
        let fnBody := unlines (line :: bodyLines (braceDelta line) rest)
        (findall underscoreParamPattern (m.group line 1)).foldl (renameParamIn fnBody) line) ::
      fnParamLines rest

/-- `fix_fn_params`. -/
def fixFnParams (content : List Char) : List Char := unlines (fnParamLines (lines content))

/-- `fix_underscore_variables` of `fix_rust_errors.py`: the `let` loop over the matches of the
    text it was given, the `for` loop over the matches after it, then `fix_fn_params`. -/
def rustErrorsFixUnderscoreVariables (content : List Char) : List Char :=
  let content1 := ((finditer letUnderscoreBinderPattern content).map fun m => m.group content 2).foldl
    renameLetVar content
  let content2 := (findall forUnderscorePattern content1).foldl renameForVar content1
  fixFnParams content2

/-! ## §5 `process_file` -/

/-- The passes of `process_file`, in order, on the text read from `filepath`. -/
def rustErrorsProcess (content filepath : List Char) : List Char :=
  rustErrorsAddMissingImports
    (fixSpecificPatterns (rustErrorsFixUnderscoreVariables (fixLetSemicolons content))) filepath

end RustyDb.Fixers
