import RustyDb.Fixers.FixBuild
import RustyDb.Fixers.FixFinal
import RustyDb.Fixers.FixRemaining
import RustyDb.Fixers.FixDuplicates
import RustyDb.Fixers.FixRustErrors

/-!
# Running a Fixer over the Source Tree

`fix_final.py`, `fix_remaining.py`, `fix_duplicates.py` and
`fix_rust_errors.py` end the same way. `main` walks the source tree and calls
`process_file` on every `.rs` file; `process_file` reads the file in text
mode, runs the script's passes, writes the result when it differs from what
it read, and reports whether it wrote; `main` counts the files written.
`walkFix` is that loop with the passes as a parameter, and each script's
`main` is `walkFix` applied to its own passes.

`os.walk` lists each file once, so every file is processed on the text it
had before the run. `walkFix_eq` states the whole run at once: the files
after it are the files with each walked `.rs` file replaced by its fixed
text where the passes change it, and the count printed is the number of
those files.
-/

namespace RustyDb.Fixers

open RustyDb.Python

/-! ## §1 `process_file` and `main` -/

/-- `process_file(filepath)` with a script's passes: the text it writes, or `none` when it returns
    `False` (no such file, or the passes change nothing). The passes get the path, which only
    `add_missing_imports` of `fix_rust_errors.py` reads. -/
def processFile (passes : List Char → List Char → List Char) (files : Files) (path : List Char) :
    Option (List Char) :=
  (files path).bind fun content =>
    let original := universalNewlines content
    let fixed := passes original path
    if fixed ≠ original then some fixed else none

/-- One file of the walk: `process_file` on a `.rs` file, counted when it wrote. -/
def walkStep (passes : List Char → List Char → List Char) (st : Files × Nat) (path : List Char) :
    Files × Nat :=
  if endswith path ".rs".toList then
    match processFile passes st.1 path with
    | some fixed => (st.1.write path fixed, st.2 + 1)
    | none => st
  else st

/-- `main`: the walk over the files `os.walk` lists, in its order; the files after it and the
    count it prints. -/
def walkFix (passes : List Char → List Char → List Char) (walk : List (List Char)) (files : Files) :
    Files × Nat :=
  walk.foldl (walkStep passes) (files, 0)

/-- `main` of `fix_final.py`. -/
def finalMain (setOrder : List (List Char) → List (List Char)) :
    List (List Char) → Files → Files × Nat :=
  walkFix fun content _ => finalProcess setOrder content

/-- `main` of `fix_remaining.py`. -/
def remainingMain : List (List Char) → Files → Files × Nat :=
  walkFix fun content _ => remainingProcess content

/-- `main` of `fix_duplicates.py`. -/
def duplicatesMain : List (List Char) → Files → Files × Nat :=
  walkFix fun content _ => duplicatesProcess content

/-- `main` of `fix_rust_errors.py`. -/
def rustErrorsMain : List (List Char) → Files → Files × Nat :=
  walkFix rustErrorsProcess

/-! ## §2 The whole walk at once -/

section
variable (passes : List Char → List Char → List Char)

/-- The text `main` writes to a path when the walk reaches it: the fixed text of a `.rs` file
    whose passes change it. -/
def fixedBy (files : Files) (p : List Char) : Option (List Char) :=
  if endswith p ".rs".toList then processFile passes files p else none

/-- The files after the walk, stated without a loop: each walked path holds its fixed text, or
    what it held. -/
def walkedFiles (walk : List (List Char)) (files : Files) : Files :=
  fun p => if p ∈ walk then (fixedBy passes files p).or (files p) else files p

theorem fixedBy_congr {files files' : Files} {p : List Char} (h : files' p = files p) :
    fixedBy passes files' p = fixedBy passes files p := by
  simp only [fixedBy, processFile, h]

theorem walkStep_eq (files : Files) (n : Nat) (q : List Char) :
    walkStep passes (files, n) q =
      (fun p => if p = q then (fixedBy passes files q).or (files q) else files p,
        n + if (fixedBy passes files q).isSome then 1 else 0) := by
  have hkeep : (fun p => if p = q then files q else files p) = files :=
    funext fun p => by split <;> simp_all
  unfold walkStep fixedBy
  split
  · cases processFile passes files q
    · simp [hkeep]
    · simp only [Option.or_some, Option.isSome_some, if_true]
      rfl
  · simp [hkeep]

theorem foldl_walkStep :
    ∀ (walk : List (List Char)) (files : Files) (n : Nat), walk.Nodup →
      walk.foldl (walkStep passes) (files, n) =
        (walkedFiles passes walk files, n + (walk.filter fun p => (fixedBy passes files p).isSome).length)
  | [], files, n, _ => Prod.ext (funext fun p => by simp [walkedFiles]) (by simp)
  | q :: rest, files, n, hnd => by
    obtain ⟨hq, hrest⟩ := List.nodup_cons.1 hnd
    rw [List.foldl_cons, walkStep_eq, foldl_walkStep rest _ _ hrest]
    have hframe : ∀ p ∈ rest, fixedBy passes
        (fun p => if p = q then (fixedBy passes files q).or (files q) else files p) p =
          fixedBy passes files p := fun p hp =>
      fixedBy_congr passes (if_neg (show p ≠ q from fun h => hq (h ▸ hp)))
    congr 1
    · funext p
      by_cases hp : p ∈ rest
      · have hpq : p ≠ q := fun h => hq (h ▸ hp)
        simp [walkedFiles, hp, hframe p hp, hpq]
      · by_cases hpq : p = q
        · subst hpq
          simp [walkedFiles, hp]
        · simp [walkedFiles, hp, hpq]
    · rw [List.filter_congr fun p hp => congrArg Option.isSome (hframe p hp), List.filter_cons]
      cases (fixedBy passes files q).isSome
      · simp
      · simp only [if_true, List.length_cons]
        omega

end

/-- **A run of a fixer's `main`.** When the walk lists each file once, as `os.walk` does, the
    files after `main` are the files with every walked `.rs` file whose passes change its text
    replaced by the fixed text, computed from the text before the run; every other path keeps
    what it held, and the count `main` prints is the number of files replaced. -/
theorem walkFix_eq (passes : List Char → List Char → List Char) {walk : List (List Char)}
    (hwalk : walk.Nodup) (files : Files) :
    walkFix passes walk files =
      (walkedFiles passes walk files, (walk.filter fun p => (fixedBy passes files p).isSome).length) := by
  rw [walkFix, foldl_walkStep passes walk files 0 hwalk, Nat.zero_add]


/-- A walk that lists two files, applied to `fix_rust_errors.py`. -/
theorem walkFix_eq_on_two_files :
    ["a.rs".toList, "b.rs".toList].Nodup ∧
      walkFix rustErrorsProcess ["a.rs".toList, "b.rs".toList] (fun _ => none) =
        (walkedFiles rustErrorsProcess ["a.rs".toList, "b.rs".toList] (fun _ => none),
          (["a.rs".toList, "b.rs".toList].filter fun p =>
            (fixedBy rustErrorsProcess (fun _ => none) p).isSome).length) :=
  ⟨by decide, walkFix_eq rustErrorsProcess (by decide) _⟩
end RustyDb.Fixers
