import RustyDb.Fixers.FixRustErrors
import RustyDb.Python.Substitution
import Mathlib.Data.List.Forall2

/-!
# The Parameter Pass of `fix_rust_errors.py` Keeps the Lines

`fix_fn_params`, the last phase of `fix_underscore_variables`, splits the
text into lines and edits each signature line on its own: for every
underscore parameter whose plain name is a word of the function's lines, it
rewrites `_name :` to `name:`. Each rewrite deletes the underscore and the
blanks before the colon and adds nothing, so the pass returns as many lines
as it was given, each line a sublist of the line at its place, and only
lines its signature pattern matches change (`fixFnParams_only_deletes`).

§1 shows that a match of `\b{param}\s*:` holds the parameter, blanks and
the colon, so its replacement keeps characters of the match in order; §2
follows the loops.
-/

namespace RustyDb.Fixers

open RustyDb.Python

/-! ## §1 One rename -/

/-- The replacement `{plain_param}:` keeps characters of the match of `\b{param}\s*:`, in
    order. -/
theorem paramColon_replacement_sublist {param s : List Char} {m : Match}
    (hm : m ∈ finditer (paramColonPattern param) s) :
    List.Sublist (param.drop 1 ++ [':']) ((s.drop m.start).take (m.stop - m.start)) := by
  have hsp := Regex.spans_of_mem_ends (ends_of_mem_finditer hm)
  simp only [paramColonPattern, Regex.seqs_cons_spans, Regex.seqs_nil_spans, Regex.boundary_spans,
    Regex.lit_spans, Regex.rep_spans, Regex.set_spans] at hsp
  obtain ⟨_, ⟨rfl, -⟩, _, ⟨hpre, rfl⟩, e, ⟨hle, -, -⟩, _, ⟨rfl, c, hc, hcolon⟩, hstop⟩ := hsp
  obtain rfl : c = ':' := by simpa [CharSet.mem] using hcolon
  set T := (s.drop m.start).take (m.stop - m.start) with hT
  have hlen : param.length ≤ m.stop - m.start := by omega
  have htake : T.take param.length = param := by
    rw [hT, List.take_take, Nat.min_eq_left hlen]
    exact (List.prefix_iff_eq_take.1 (List.isPrefixOf_iff_prefix.1 hpre)).symm
  have hcolon : ':' ∈ T.drop param.length := by
    refine List.mem_iff_getElem?.2 ⟨e - m.start - param.length, ?_⟩
    rw [List.getElem?_drop, hT, List.getElem?_take_of_lt (by omega), List.getElem?_drop]
    rwa [show m.start + (param.length + (e - m.start - param.length)) = e by omega]
  rw [← List.take_append_drop param.length T, htake]
  exact (List.drop_sublist 1 param).append (List.singleton_sublist.2 hcolon)

theorem renameParamIn_sublist (fnBody line param : List Char) :
    List.Sublist (renameParamIn fnBody line param) line := by
  unfold renameParamIn
  split
  · exact sub_sublist fun m hm => by simpa [expand] using paramColon_replacement_sublist hm
  · exact List.Sublist.refl _

theorem foldl_renameParamIn_sublist (fnBody : List Char) :
    ∀ (params : List (List Char)) (line : List Char),
      List.Sublist (params.foldl (renameParamIn fnBody) line) line
  | [], _ => List.Sublist.refl _
  | param :: params, line =>
    (foldl_renameParamIn_sublist fnBody params _).trans (renameParamIn_sublist fnBody line param)

/-! ## §2 The loop over the lines -/

theorem exists_of_mem_forall₂ {α β : Type} {R : α → β → Prop} {x : α} {xs : List α} {ys : List β}
    (h : List.Forall₂ R xs ys) (hx : x ∈ xs) : ∃ y ∈ ys, R x y := by
  induction h with
  | nil => cases hx
  | cons hr _ ih =>
    rcases List.mem_cons.1 hx with rfl | hx
    · exact ⟨_, .head _, hr⟩
    · obtain ⟨y, hy, h'⟩ := ih hx
      exact ⟨y, .tail _ hy, h'⟩

/-- The loop of `fix_fn_params` returns one line per line, each the line at its place with
    characters deleted, and changed only where the signature pattern matches. -/
theorem fnParamLines_forall₂ :
    ∀ ls : List (List Char), List.Forall₂ (fun l' l => List.Sublist l' l ∧
      (l' ≠ l → (search fnUnderscoreParamsPattern l).isSome = true)) (fnParamLines ls) ls
  | [] => .nil
  | line :: rest => by
    refine .cons ?_ (fnParamLines_forall₂ rest)
    cases h : search fnUnderscoreParamsPattern line with
    | none =>
      simp only [h]
      exact ⟨List.Sublist.refl _, fun hne => absurd rfl hne⟩
    | some m =>
      simp only [h, Option.isSome_some, implies_true, and_true]
      exact foldl_renameParamIn_sublist _ _ _

/-- **`fix_fn_params` only deletes characters within lines.** Whatever the text, the result has
    as many lines as the text, each line is the line at its place with some characters deleted
    (the underscore of a renamed parameter and the blanks before its colon), and a line changes
    only if `fn\s+\w+.*\(([^)]*_[a-z][a-z0-9_]*[^)]*)\)` matches it. -/
theorem fixFnParams_only_deletes (content : List Char) :
    List.Forall₂ (fun l' l => List.Sublist l' l ∧
      (l' ≠ l → (search fnUnderscoreParamsPattern l).isSome = true))
      (lines (fixFnParams content)) (lines content) := by
  have h := fnParamLines_forall₂ (lines content)
  have hnl : ∀ l' ∈ fnParamLines (lines content), '\n' ∉ l' := by
    intro l' hl'
    obtain ⟨l, hl, hsub, -⟩ := exists_of_mem_forall₂ h hl'
    exact fun hn => newline_not_mem_of_mem_lines hl (hsub.subset hn)
  have hne : fnParamLines (lines content) ≠ [] := fun h0 => by
    have := h.length_eq
    rw [h0] at this
    exact List.splitOnP_ne_nil _ _ (List.length_eq_zero.1 this.symm)
  rwa [fixFnParams, lines_unlines_of_forall hnl hne]

end RustyDb.Fixers
