import RustyDb.Fixers.FixDuplicates

/-!
# The Struct Scan of `fix_struct_semicolons`

`fix_struct_semicolons` runs a three-field state machine over the lines: a
struct start line opens a region one brace deeper than the depth before it,
and the region ends at the first line after which the running count of `{`
minus `}` falls below that depth. The count takes every brace of every line,
in comments and literals too, and a struct start inside a region starts a new
one.

This module says which lines the machine changes without the machine: a line
is changed exactly when it is a semicolon field and the lines up to it end
with a struct region (`StructRegion`: a struct start, no struct start after
it, and every prefix opening more braces than it closes). `ScanInv` is the
invariant tying the machine's state to the lines it has read;
`structStep_inv` is its step lemma and `fixStructSemicolons_eq_structFix` the
run.
-/

namespace RustyDb.Fixers

open RustyDb.Python

/-! ## §1 Regions -/

/-- `re.match(r'\s*(pub\s+)?struct\s+\w+', line)`. -/
def isStructStart (line : List Char) : Bool := (rematch structStartPattern line).isSome

/-- `re.match(r'\s*(pub\s+)?[a-z_][a-z0-9_]*\s*:\s*[^,;]+;\s*$', line)`. -/
def isSemicolonField (line : List Char) : Bool := (rematch semicolonFieldPattern line).isSome

/-- `line.rstrip().rstrip(';') + ','`. -/
def commaField (line : List Char) : List Char := rstripChars [';'] (rstrip line) ++ [',']

/-- The count of `{` minus `}` over the lines. -/
def netBraces (ls : List (List Char)) : Int := (ls.map braceDelta).foldr (· + ·) 0

/-- `q` starts with a struct start, has no struct start after it, and each of its nonempty
    prefixes opens more braces than it closes. -/
def StructRegion (q : List (List Char)) : Prop :=
  q.head?.any isStructStart = true ∧ (∀ l ∈ q.tail, isStructStart l = false) ∧
    ∀ n ≤ q.length, 0 < n → 0 < netBraces (q.take n)

instance (q : List (List Char)) : Decidable (StructRegion q) := by
  unfold StructRegion; infer_instance

/-- The lines `p` end with a struct region: their last line lies inside one. -/
def InStructRegion (p : List (List Char)) : Prop := ∃ k < p.length, StructRegion (p.drop k)

instance (p : List (List Char)) : Decidable (InStructRegion p) := by
  unfold InStructRegion; infer_instance

/-- The pass as the regions define it, `p` being the lines before: a semicolon field that ends a
    struct region becomes a comma field, every other line is kept. -/
def structFix (p : List (List Char)) : List (List Char) → List (List Char)
  | [] => []
  | l :: rest =>
    (if InStructRegion (p ++ [l]) ∧ isSemicolonField l = true then commaField l else l) ::
      structFix (p ++ [l]) rest

@[simp] theorem netBraces_nil : netBraces [] = 0 := rfl

@[simp] theorem netBraces_append (a b : List (List Char)) :
    netBraces (a ++ b) = netBraces a + netBraces b := by
  induction a with
  | nil => simp
  | cons x a ih => simp only [netBraces, List.cons_append, List.map_cons, List.foldr_cons] at ih ⊢; omega

@[simp] theorem netBraces_singleton (l : List Char) : netBraces [l] = braceDelta l := by
  simp [netBraces]

theorem structRegion_singleton (l : List Char) :
    StructRegion [l] ↔ isStructStart l = true ∧ 0 < braceDelta l := by
  simp only [StructRegion, List.head?_cons, Option.any_some, List.tail_cons, List.not_mem_nil,
    false_implies, implies_true, true_and, List.length_singleton]
  constructor
  · rintro ⟨hs, hpos⟩
    exact ⟨hs, by simpa using hpos 1 le_rfl Nat.one_pos⟩
  · rintro ⟨hs, hpos⟩
    refine ⟨hs, fun n hn h0 => ?_⟩
    obtain rfl : n = 1 := by omega
    simpa using hpos

/-- A region grows by a line that is not a struct start and keeps the count positive. -/
theorem structRegion_snoc {q : List (List Char)} (hq : q ≠ []) (l : List Char) :
    StructRegion (q ++ [l]) ↔
      StructRegion q ∧ isStructStart l = false ∧ 0 < netBraces q + braceDelta l := by
  have htake : ∀ n ≤ q.length, (q ++ [l]).take n = q.take n :=
    fun n hn => List.take_append_of_le_length hn
  have hall : (q ++ [l]).take (q.length + 1) = q ++ [l] := List.take_of_length_le (by simp)
  simp only [StructRegion, List.head?_append_of_ne_nil _ hq, List.tail_append_of_ne_nil hq,
    List.mem_append, List.mem_singleton, List.length_append, List.length_singleton]
  constructor
  · rintro ⟨hs, hb, hpos⟩
    refine ⟨⟨hs, fun x hx => hb x (.inl hx), fun n hn h0 => ?_⟩, hb l (.inr rfl), ?_⟩
    · rw [← htake n hn]
      exact hpos n (by omega) h0
    · have := hpos (q.length + 1) le_rfl (by omega)
      rwa [hall, netBraces_append, netBraces_singleton] at this
  · rintro ⟨⟨hs, hb, hpos⟩, hl, hlast⟩
    refine ⟨hs, fun x hx => hx.elim (hb x) (fun h => h ▸ hl), fun n hn h0 => ?_⟩
    rcases Nat.lt_or_ge n (q.length + 1) with hlt | hge
    · rw [htake n (by omega)]
      exact hpos n (by omega) h0
    · rw [show n = q.length + 1 by omega, hall, netBraces_append, netBraces_singleton]
      exact hlast

/-- Where the lines after one more line end with a region: at that line, if it is a struct start
    that opens a brace, or in a region of the lines before that the line keeps open. -/
theorem inStructRegion_snoc (p : List (List Char)) (l : List Char) :
    InStructRegion (p ++ [l]) ↔
      (isStructStart l = true ∧ 0 < braceDelta l) ∨
        (isStructStart l = false ∧
          ∃ k < p.length, StructRegion (p.drop k) ∧ 0 < netBraces (p.drop k) + braceDelta l) := by
  simp only [InStructRegion, List.length_append, List.length_singleton]
  constructor
  · rintro ⟨k, hk, hr⟩
    rcases Nat.lt_or_ge k p.length with hlt | hge
    · rw [List.drop_append_of_le_length hlt.le,
        structRegion_snoc (by simpa using hlt)] at hr
      exact .inr ⟨hr.2.1, k, hlt, hr.1, hr.2.2⟩
    · obtain rfl : k = p.length := by omega
      rw [List.drop_left, structRegion_singleton] at hr
      exact .inl hr
  · rintro (h | ⟨hl, k, hk, hr, hpos⟩)
    · exact ⟨p.length, by omega, by rw [List.drop_left, structRegion_singleton]; exact h⟩
    · refine ⟨k, by omega, ?_⟩
      rw [List.drop_append_of_le_length hk.le, structRegion_snoc (by simpa using hk)]
      exact ⟨hr, hl, hpos⟩

/-- After a line, the last struct start is that line if it is one, and otherwise the last of the
    lines before. -/
theorem lastStart_snoc {p : List (List Char)} {l : List Char} {k : Nat} (hk : k < p.length + 1)
    (hhead : ((p ++ [l]).drop k).head?.any isStructStart = true)
    (htail : ∀ x ∈ ((p ++ [l]).drop k).tail, isStructStart x = false) :
    (k = p.length ∧ isStructStart l = true) ∨
      (k < p.length ∧ isStructStart l = false ∧ (p.drop k).head?.any isStructStart = true ∧
        ∀ x ∈ (p.drop k).tail, isStructStart x = false) := by
  rcases Nat.lt_or_ge k p.length with hlt | hge
  · have hne : p.drop k ≠ [] := by simpa using hlt
    rw [List.drop_append_of_le_length hlt.le, List.head?_append_of_ne_nil _ hne] at hhead
    rw [List.drop_append_of_le_length hlt.le, List.tail_append_of_ne_nil hne] at htail
    exact .inr ⟨hlt, htail l (List.mem_append_right _ (.head _)), hhead,
      fun x hx => htail x (List.mem_append_left _ hx)⟩
  · obtain rfl : k = p.length := by omega
    rw [List.drop_left] at hhead
    exact .inl ⟨rfl, by simpa using hhead⟩

/-! ## §2 The machine refines the regions -/

/-- The state after reading the lines `p`: `brace_depth` counts their braces, `in_struct` says
    whether they end with a region, and `struct_brace_depth` is one more than the count before
    their last struct start. -/
structure ScanInv (p : List (List Char)) (st : StructScan) : Prop where
  depth : st.braceDepth = netBraces p
  inStruct : st.inStruct = true ↔ InStructRegion p
  structDepth : ∀ k < p.length, (p.drop k).head?.any isStructStart = true →
    (∀ l ∈ (p.drop k).tail, isStructStart l = false) → st.structBraceDepth = netBraces (p.take k) + 1

theorem scanInv_nil : ScanInv [] ⟨false, 0, 0⟩ :=
  ⟨rfl, by simp [InStructRegion], fun k hk => absurd hk (by simp)⟩

/-- The state after one line, with the struct test read as `isStructStart`. -/
theorem structStep_fst (st : StructScan) (l : List Char) :
    (structStep st l).1 = if isStructStart l then
        ⟨!decide (st.braceDepth + braceDelta l < st.braceDepth + 1), st.braceDepth + braceDelta l,
          st.braceDepth + 1⟩
      else ⟨st.inStruct && !decide (st.braceDepth + braceDelta l < st.structBraceDepth),
        st.braceDepth + braceDelta l, st.structBraceDepth⟩ := by
  unfold structStep isStructStart
  split <;> rfl

theorem structStep_snd (st : StructScan) (l : List Char) :
    (structStep st l).2 =
      if (structStep st l).1.inStruct && isSemicolonField l then commaField l else l := rfl

/-- **Step.** One iteration keeps the invariant and changes the line as `structFix` says. -/
theorem structStep_inv {p : List (List Char)} {st : StructScan} (h : ScanInv p st)
    (l : List Char) :
    ScanInv (p ++ [l]) (structStep st l).1 ∧
      (structStep st l).2 =
        if InStructRegion (p ++ [l]) ∧ isSemicolonField l = true then commaField l else l := by
  have hsplit : ∀ k, netBraces p = netBraces (p.take k) + netBraces (p.drop k) := fun k => by
    rw [← netBraces_append, List.take_append_drop]
  have hinv : ScanInv (p ++ [l]) (structStep st l).1 := by
    rw [structStep_fst]
    by_cases hs : isStructStart l = true
    · rw [if_pos hs]
      refine ⟨by simp [h.depth], ?_, fun k hk hhead htail => ?_⟩
      · rw [inStructRegion_snoc]
        simp only [hs, true_and, Bool.true_eq_false, false_and, or_false, Bool.not_eq_true',
          decide_eq_false_iff_not, not_lt]
        omega
      · rcases lastStart_snoc (by simpa using hk) hhead htail with ⟨rfl, -⟩ | ⟨-, hl, -⟩
        · simp [h.depth]
        · exact absurd hs (by simp [hl])
    · have hs' : isStructStart l = false := by simpa using hs
      rw [if_neg hs]
      refine ⟨by simp [h.depth], ?_, fun k hk hhead htail => ?_⟩
      · rw [inStructRegion_snoc]
        simp only [hs', Bool.false_eq_true, false_and, true_and, false_or, Bool.and_eq_true,
          Bool.not_eq_true', decide_eq_false_iff_not, not_lt, h.inStruct, InStructRegion]
        constructor
        · rintro ⟨⟨k, hk, hr⟩, hge⟩
          have := h.structDepth k hk hr.1 hr.2.1
          exact ⟨k, hk, hr, by rw [h.depth, hsplit k] at hge; omega⟩
        · rintro ⟨k, hk, hr, hpos⟩
          have := h.structDepth k hk hr.1 hr.2.1
          exact ⟨⟨k, hk, hr⟩, by rw [h.depth, hsplit k]; omega⟩
      · rcases lastStart_snoc (by simpa using hk) hhead htail with ⟨-, hl⟩ | ⟨hlt, -, hh, ht⟩
        · exact absurd hl hs
        · rw [List.take_append_of_le_length hlt.le]
          exact h.structDepth k hlt hh ht
  refine ⟨hinv, ?_⟩
  rw [structStep_snd]
  by_cases hr : InStructRegion (p ++ [l])
  · simp [hinv.inStruct.2 hr, hr]
  · have hno : (structStep st l).1.inStruct = false := by simpa using mt hinv.inStruct.1 hr
    simp [hno, hr]

/-- **Run.** From a state that matches the lines read, the loop computes `structFix`. -/
theorem structLines_eq_structFix :
    ∀ (rest p : List (List Char)) (st : StructScan), ScanInv p st →
      structLines st rest = structFix p rest
  | [], _, _, _ => rfl
  | l :: rest, p, st, h => by
    obtain ⟨h', hline⟩ := structStep_inv h l
    rw [structLines, structFix, hline, structLines_eq_structFix rest _ _ h']

/-- **`fix_struct_semicolons` changes exactly the semicolon fields that end a struct region.** A
    region runs from a struct start line while the count of `{` minus `}` over the lines from it,
    every brace of every line counted, stays positive, and until the next struct start; each
    such field line becomes its comma form, and every other line is returned as it is. -/
theorem fixStructSemicolons_eq_structFix (content : List Char) :
    fixStructSemicolons content = unlines (structFix [] (lines content)) := by
  rw [fixStructSemicolons, structLines_eq_structFix _ _ _ scanInv_nil]

/-- A struct with a `{` in a doc comment of its body, then a function. -/
def commentBraceSource : List Char :=
  "struct A \x7b\n    /// \x7b\n    x: u32,\n\x7d\nfn f() \x7b\n    log::info!(\"x\");\n\x7d".toList

/-- The region of the struct outlives its closing brace, and the statement in the function is
    taken for a field. -/
theorem fixStructSemicolons_edits_function_body :
    fixStructSemicolons commentBraceSource =
      "struct A \x7b\n    /// \x7b\n    x: u32,\n\x7d\nfn f() \x7b\n    log::info!(\"x\"),\n\x7d".toList := by
  decide

end RustyDb.Fixers
