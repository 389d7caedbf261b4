import RustyDb.Fixers.FixRemaining
import RustyDb.Fixers.FixDuplicates

/-!
# What the Import-Deduplication Passes Keep

The three passes that remove repeated imports work line by line over the
whole file. The line loop of `fix_duplicate_imports` (`dropRepeatedUseLines`)
drops a `use` line whose stripped text an earlier line already had;
`remove_duplicate_use_items` (`dedupUseLines`) rewrites or drops one-line
`use` declarations by the names it has recorded; and
`remove_duplicate_dbderror_import` (`dropDuplicateDbError`) drops or shortens
the lines mentioning `crate::error::DbError` after the first.

The three line loops keep every other line, verbatim and in order
(`dedup_passes_keep_other_lines`). None of them knows about modules: a `use`
repeated inside `mod tests { ... }` counts as a duplicate of the file's own.
Two steps reach past import lines: the `, Mutex` deletion that
`fix_duplicate_imports` runs first works on the whole text, and the
`DbError` loop counts any line naming `crate::error::DbError` as an import
(`dedup_passes_rewrite_code_lines`).
-/

namespace RustyDb.Fixers

open RustyDb.Python

/-! ## §1 `fix_duplicate_imports`: repeated `use` lines -/

/-- The loop's result is the input with some lines left out. -/
theorem dropRepeatedUseLines_sublist (seen ls : List (List Char)) :
    List.Sublist (dropRepeatedUseLines seen ls) ls := by
  induction ls generalizing seen with
  | nil => exact .slnil
  | cons l ls ih =>
    simp only [dropRepeatedUseLines]
    split
    · split
      · exact (ih _).cons l
      · exact (ih _).cons₂ l
    · exact (ih _).cons₂ l

/-- Only `use` lines are left out. -/
theorem dropRepeatedUseLines_filter (seen ls : List (List Char)) :
    (dropRepeatedUseLines seen ls).filter (fun l => !isUseLine l) = ls.filter fun l => !isUseLine l := by
  induction ls generalizing seen with
  | nil => rfl
  | cons l ls ih =>
    simp only [dropRepeatedUseLines]
    split
    · split <;> simp [*]
    · simp [*]

/-- Every stripped `use` line of the input was seen before or is still there. -/
theorem dropRepeatedUseLines_keeps_use (seen ls : List (List Char)) (l : List Char) (hl : l ∈ ls)
    (hu : isUseLine l = true) :
    strip l ∈ seen ∨ ∃ l' ∈ dropRepeatedUseLines seen ls, strip l' = strip l := by
  induction ls generalizing seen with
  | nil => cases hl
  | cons x ls ih =>
    simp only [dropRepeatedUseLines]
    rcases List.mem_cons.1 hl with rfl | hl
    · simp only [hu, if_true]
      split
      · exact .inl (List.elem_iff.1 ‹_›)
      · exact .inr ⟨l, .head _, rfl⟩
    · split
      · split
        · exact ih seen hl
        · rcases ih (seen ++ [strip x]) hl with h | ⟨l', h1, h2⟩
          · rcases List.mem_append.1 h with h | h
            · exact .inl h
            · exact .inr ⟨x, .head _, (List.mem_singleton.1 h).symm⟩
          · exact .inr ⟨l', .tail _ h1, h2⟩
      · rcases ih seen hl with h | ⟨l', h1, h2⟩
        · exact .inl h
        · exact .inr ⟨l', .tail _ h1, h2⟩

/-! ## §2 `remove_duplicate_use_items`: one-line `use` declarations -/

/-- A line `remove_duplicate_use_items` treats as a one-line `use` declaration: stripped, it starts
    with `use ` and ends with `;`. -/
def isSimpleUse (line : List Char) : Bool :=
  startswith (strip line) "use ".toList && endswith (strip line) ";".toList

theorem isSimpleUse_use_decl (X : List Char) : isSimpleUse ("use ".toList ++ X ++ ";".toList) = true := by
  show isSimpleUse ('u' :: (('s' :: 'e' :: ' ' :: X) ++ [';'])) = true
  rw [isSimpleUse, strip_of_ends _ _ _ (by decide) (by decide)]
  simpa [startswith, endswith] using List.suffix_append ('u' :: 's' :: 'e' :: ' ' :: X) [';']

theorem isSimpleUse_group_decl (A B : List Char) :
    isSimpleUse ("use ".toList ++ A ++ "::\x7b".toList ++ B ++ "\x7d;".toList) = true := by
  rw [show "\x7d;".toList = "\x7d".toList ++ ";".toList from rfl]
  simpa only [List.append_assoc] using isSimpleUse_use_decl (A ++ "::\x7b".toList ++ B ++ "\x7d".toList)

/-- One step of the loop: the line is kept, or it is a one-line `use` declaration and is dropped
    or replaced by another. -/
theorem dedupUseLines_cons_some {imported rest out : List (List Char)} {line : List Char}
    (h : dedupUseLines imported (line :: rest) = some out) :
    ∃ imported' out', dedupUseLines imported' rest = some out' ∧
      (out = line :: out' ∨ isSimpleUse line = true ∧
        (out = out' ∨ ∃ x, isSimpleUse x = true ∧ out = x :: out')) := by
  simp only [dedupUseLines] at h
  split at h
  · rename_i hs
    repeat' split at h
    all_goals try simp only [Option.map_eq_map, Option.map_eq_some'] at h
    all_goals try obtain ⟨o', h', rfl⟩ := h
    all_goals first
      | cases h
      | exact ⟨_, _, h, .inr ⟨hs, .inl rfl⟩⟩
      | exact ⟨_, _, h', .inl rfl⟩
      | exact ⟨_, _, h', .inr ⟨hs, .inr ⟨_, isSimpleUse_group_decl _ _, rfl⟩⟩⟩
  · simp only [Option.map_eq_map, Option.map_eq_some'] at h
    obtain ⟨o', h', rfl⟩ := h
    exact ⟨_, _, h', .inl rfl⟩

/-- Every line that is not a one-line `use` declaration is kept, in order. -/
theorem dedupUseLines_filter {imported ls out : List (List Char)}
    (h : dedupUseLines imported ls = some out) :
    out.filter (fun l => !isSimpleUse l) = ls.filter fun l => !isSimpleUse l := by
  induction ls generalizing imported out with
  | nil =>
    cases h
    rfl
  | cons line rest ih =>
    obtain ⟨_, _, h', hout⟩ := dedupUseLines_cons_some h
    have hrest := ih h'
    rcases hout with rfl | ⟨hs, rfl | ⟨x, hx, rfl⟩⟩
    · simp only [List.filter_cons, hrest]
    · simp [List.filter_cons, hs, hrest]
    · simp [List.filter_cons, hs, hx, hrest]

/-! ## §3 `remove_duplicate_dbderror_import`: lines importing `DbError` -/

/-- Every line not mentioning `crate::error::DbError` is kept, in order. -/
theorem dropDuplicateDbError_keeps_others (seen : Bool) (ls : List (List Char)) :
    List.Sublist (ls.filter fun l => !importsDbError l) (dropDuplicateDbError seen ls) := by
  induction ls generalizing seen with
  | nil => exact .slnil
  | cons line rest ih =>
    simp only [dropDuplicateDbError]
    by_cases hl : importsDbError line = true
    · simp only [hl, if_true, List.filter_cons, Bool.not_true, Bool.false_eq_true, if_false]
      split
      · split
        · split
          · exact ih true
          · exact (ih true).cons _
        · exact ih true
      · exact (ih true).cons _
    · simp only [hl, Bool.false_eq_true, if_false, List.filter_cons, Bool.not_false, if_true]
      exact (ih seen).cons₂ _

/-- The first line mentioning `crate::error::DbError` is kept, and so is everything before it. -/
theorem dropDuplicateDbError_keeps_first (pre post : List (List Char)) (l : List Char)
    (hpre : ∀ x ∈ pre, importsDbError x = false) (hl : importsDbError l = true) :
    dropDuplicateDbError false (pre ++ l :: post) = pre ++ l :: dropDuplicateDbError true post := by
  induction pre with
  | nil => simp [dropDuplicateDbError, hl]
  | cons x pre ih =>
    show dropDuplicateDbError false (x :: (pre ++ l :: post)) = x :: (pre ++ l :: _)
    simp only [dropDuplicateDbError, hpre x (.head _), Bool.false_eq_true, if_false]
    rw [ih fun y hy => hpre y (.tail _ hy)]

/-! ## §4 The passes together -/

/-- **The deduplication passes keep every other line.** For every text: the line loop of
    `fix_duplicate_imports` leaves out only `use` lines, and only repeats of a stripped `use`
    line that stays; `remove_duplicate_use_items`, when it does not raise, keeps every line that
    is not a one-line `use` declaration; `remove_duplicate_dbderror_import`'s loop keeps every
    line not mentioning `crate::error::DbError` and the first one that does. -/
theorem dedup_passes_keep_other_lines (t : List Char) :
    (List.Sublist (dropRepeatedUseLines [] (lines t)) (lines t) ∧
      (dropRepeatedUseLines [] (lines t)).filter (fun l => !isUseLine l) =
        (lines t).filter (fun l => !isUseLine l) ∧
      ∀ l ∈ lines t, isUseLine l = true → ∃ l' ∈ dropRepeatedUseLines [] (lines t), strip l' = strip l) ∧
    (∀ out, dedupUseLines [] (lines t) = some out →
      out.filter (fun l => !isSimpleUse l) = (lines t).filter fun l => !isSimpleUse l) ∧
    List.Sublist ((lines t).filter fun l => !importsDbError l) (dropDuplicateDbError false (lines t)) ∧
    ∀ pre l post, lines t = pre ++ l :: post → (∀ x ∈ pre, importsDbError x = false) →
      importsDbError l = true →
      dropDuplicateDbError false (lines t) = pre ++ l :: dropDuplicateDbError true post := by
  refine ⟨⟨dropRepeatedUseLines_sublist _ _, dropRepeatedUseLines_filter _ _, fun l hl hu => ?_⟩,
    fun _ h => dedupUseLines_filter h, dropDuplicateDbError_keeps_others _ _,
    fun pre l post ht hpre hl => ht ▸ dropDuplicateDbError_keeps_first pre post l hpre hl⟩
  simpa using dropRepeatedUseLines_keeps_use [] _ l hl hu

/-- Imports are tracked per file, not per module, and by the first word of an item: a `use`
    repeated in a nested module is removed, and so is an import of `Foo` after `Foo as Bar`. -/
example :
    fixDuplicateImports "use std::fmt;\nmod tests \x7b\n    use std::fmt;\n\x7d".toList =
      "use std::fmt;\nmod tests \x7b\n\x7d".toList ∧
    removeDuplicateUseItems "use std::fmt;\nmod tests \x7b\n    use std::fmt;\n\x7d".toList =
      some "use std::fmt;\nmod tests \x7b\n\x7d".toList ∧
    removeDuplicateUseItems "use a::Foo as Bar;\nuse b::Foo;\nfn f(x: Foo) \x7b\x7d".toList =
      some "use a::Foo as Bar;\nfn f(x: Foo) \x7b\x7d".toList := by
  decide

/-- Two passes edit lines that import nothing: `fix_duplicate_mutex_imports` deletes every
    `, Mutex` before a `,` or `}` in the whole file, an enum's variant included, and
    `remove_duplicate_dbderror_import` drops every later line that names `crate::error::DbError`,
    a function signature included. -/
theorem dedup_passes_rewrite_code_lines :
    fixDuplicateImports "use parking_lot::Mutex;\nenum LockKind \x7b RwLock, Mutex \x7d".toList =
      "use parking_lot::Mutex;\nenum LockKind \x7b RwLock \x7d".toList ∧
    removeDuplicateDbErrorImport
        "use crate::error::DbError;\nfn f() -> Result<(), crate::error::DbError> \x7b Ok(()) \x7d".toList =
      "use crate::error::DbError;".toList := by
  decide

end RustyDb.Fixers
