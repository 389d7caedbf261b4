import RustyDb.Python.Substitution

/-!
# `fix_dead_code.py`

`add_allow_dead_code(file_path, pattern, reason)` puts a `/// Reserved …` doc
comment and an `#[allow(dead_code)]` attribute in front of the first match of
one `FIXES` pattern, unless the attribute already stands before a match. The
patterns start at the `fn` or `const` keyword, `(\s+)(fn name…)` taking the
blanks before the keyword along, so the two lines land right before the
keyword: after any `pub`, `pub(crate)`, `async` or `unsafe` in front of it on
its line (`addAllowDeadCode_iff`, `fixes_insert_before_keyword`).

The replacement takes group 1 as the indentation. In the one entry without a
`(\s+)` group, `(fn scalar_dot_product\()`, group 1 is the declaration itself,
which the rewrite then writes three times (`addAllowDeadCode_repeats_bare_fn`).

For the well-shaped entries the guard against a second insertion works: once
an entry has written, the same call on the new content finds the attribute
before the declaration and writes nothing (`addAllowDeadCode_second_run`).
-/

namespace RustyDb.Fixers

open RustyDb.Python

/-! ## §1 The table and the rewrite -/

/-- The shape of a `FIXES` pattern. -/
inductive FixPattern where
  /-- `(\s+)(decl)`: the declaration with the blanks before it. -/
  | indented (decl : List Char)
  /-- `(decl)`. -/
  | bare (decl : List Char)
  deriving DecidableEq

/-- The declaration text a pattern names. -/
def FixPattern.decl : FixPattern → List Char
  | .indented decl | .bare decl => decl

/-- The pattern, with the declaration escaped as a literal. -/
def FixPattern.regex : FixPattern → Regex
  | .indented decl => .seq (.group 1 (Regex.plus .space)) (.group 2 (.lit decl))
  | .bare decl => .group 1 (.lit decl)

/-- An entry `(path, r"(\s+)(decl)", reason)`. -/
def fnFix (decl reason : String) : FixPattern × List Char := (.indented decl.toList, reason.toList)

/-- An entry `(path, r"(decl)", reason)`. -/
def bareFix (decl reason : String) : FixPattern × List Char := (.bare decl.toList, reason.toList)

/-- `FIXES`, without the file paths, which only say which file to open. -/
def fixes : List (FixPattern × List Char) := [
  fnFix "fn total_size(&self) -> usize" "for monitoring API",
  bareFix "const MAX_REQUESTS_PER_SECOND_PER_IP" "for rate limiting config",
  fnFix "fn current_rate(&self)" "for rate monitoring",
  bareFix "const MAX_RECOVERY_TIME" "for recovery config",
  bareFix "const POISON_PATTERN" "for memory protection",
  bareFix "const RED_ZONE_SIZE" "for memory protection",
  fnFix "fn record_access(&mut self" "for memory tracking",
  fnFix "fn estimated_fpr(&self)" "for bloom filter stats",
  fnFix "fn users(&self)" "for auth API",
  fnFix "fn sessions(&self)" "for auth API",
  fnFix "fn is_expired(&self)" "for health check",
  fnFix "fn remove(&mut self" "for cleanup operations",
  bareFix "const AFFINITY_WINDOW" "for cache fusion config",
  bareFix "const MAX_RESOURCES_PER_MASTER" "for GRD config",
  bareFix "const GRD_FREEZE_TIMEOUT" "for GRD config",
  bareFix "const MAX_MESSAGE_SIZE" "for interconnect config",
  bareFix "const MESSAGE_QUEUE_SIZE" "for interconnect config",
  bareFix "const RECONNECT_BACKOFF_MS" "for interconnect config",
  bareFix "const MAX_RECONNECT_ATTEMPTS" "for interconnect config",
  fnFix "fn update_heartbeat(&mut self" "for health monitoring",
  fnFix "fn update_phi_accrual(&mut self" "for failure detection",
  fnFix "fn receive_message(&self)" "for message handling",
  fnFix "fn average_latency(&self)" "for performance monitoring",
  bareFix "const ELECTION_TIMEOUT" "for recovery config",
  bareFix "const LOCK_RECLAIM_TIMEOUT" "for recovery config",
  fnFix "fn flush(&mut self)" "for WAL operations",
  bareFix "const WORKER_TIMEOUT" "for parallel execution config",
  fnFix "fn try_steal_work(&self)" "for work stealing",
  fnFix "fn total_execution_time(&self)" "for profiling stats",
  fnFix "fn list_tables(&self)" "for flashback API",
  fnFix "fn add_log(&mut self" "for flashback logging",
  fnFix "fn list_all(&self)" "for flashback API",
  fnFix "fn deallocate(&mut self" "for resource management",
  fnFix "fn evaluate_initial_value(&mut self" "for PL/SQL execution",
  fnFix "fn add_row(&mut self" "for table functions",
  fnFix "fn split_node(&mut self" "for R-tree operations",
  fnFix "fn pick_seeds(&self" "for R-tree operations",
  fnFix "fn compute_bbox(&self)" "for R-tree operations",
  fnFix "fn linestring_intersects_linestring(" "for spatial ops",
  fnFix "fn point_to_linestring_distance(" "for spatial ops",
  fnFix "fn point_to_polygon_distance(" "for spatial ops",
  fnFix "fn add_table(&mut self" "for query graph",
  fnFix "fn add_join(&mut self" "for query graph",
  fnFix "fn get_connected_tables(&self)" "for query graph",
  fnFix "fn validate(&self)" "for hint validation",
  bareFix "fn scalar_dot_product(" "for fallback SIMD",
  fnFix "fn serialize_event(&self" "for event serialization",
  fnFix "fn deserialize_event(&self)" "for event deserialization",
  fnFix "fn get_checkpoint(&self)" "for CQ checkpointing",
  fnFix "fn optimize(&mut self)" "for CQ optimization",
  fnFix "fn is_empty(&self)" "for stream API",
  fnFix "fn get_committed(&self)" "for offset management",
  fnFix "fn remove_event(&mut self" "for window management",
  fnFix "fn contains(&self" "for window API",
  fnFix "fn acquire_connection(&self)" "for connection management",
  fnFix "fn release_connection(&self)" "for connection management"]

/-- `#[allow(dead_code)]`. -/
def allowDeadCode : List Char := "#[allow(dead_code)]".toList

/-- `#\[allow\(dead_code\)\]\s*`, which `context_pattern` puts before the pattern. -/
def allowContext : Regex := .seq (.lit allowDeadCode) (Regex.star .space)

/-- `f"/// Reserved {reason}"`. -/
def reservedComment (reason : List Char) : List Char := "/// Reserved ".toList ++ reason

/-- `replacement(match)`; `match.lastindex` is set once some group took part. -/
def deadCodeReplacement (content reason : List Char) (m : Match) : List Char :=
  let indent := if m.caps.isEmpty then [] else m.group content 1
  let original := m.group content 0
  if contains original "const ".toList then
    reservedComment reason ++ '\n' :: allowDeadCode ++ '\n' :: original
  else indent ++ reservedComment reason ++ '\n' :: indent ++ allowDeadCode ++ '\n' :: original

/-- `add_allow_dead_code` on the file's content: the content it writes, or `none` when it
    returns `False` without writing. -/
def addAllowDeadCode (content : List Char) (pattern : Regex) (reason : List Char) :
    Option (List Char) :=
  if (search pattern content).isNone then none
  else if (search (.seq allowContext pattern) content).isSome then none
  else
    let new := subWith pattern (deadCodeReplacement content reason) content (some 1)
    if new = content then none else some new

/-! ## §2 Where the lines go -/

/-- Where the lines go for match `m`: the start of the declaration. -/
def keywordAt : FixPattern → Match → Nat
  | .indented _, m => m.startOf 2
  | .bare _, m => m.start

/-- The lines that end up before the declaration: for an indented pattern the blanks the match
    took follow each line, so the declaration keeps the blanks before it. -/
def reservedLines (content reason : List Char) : FixPattern → Match → List Char
  | .indented _, m =>
    reservedComment reason ++ '\n' :: m.group content 1 ++ allowDeadCode ++ '\n' :: m.group content 1
  | .bare _, _ => reservedComment reason ++ '\n' :: allowDeadCode ++ ['\n']

/-- What the proofs need of a pattern: an indented declaration starts with a non-blank and holds
    no `const `; a bare one holds `const `. -/
def FixPattern.WellShaped : FixPattern → Bool
  | .indented decl => (decl.head?.any fun c => !isSpace c) && !contains decl "const ".toList
  | .bare decl => contains decl "const ".toList

/-- Every entry but the scalar fallback is well shaped. -/
theorem fixes_wellShaped :
    ∀ e ∈ fixes, e.1 ≠ .bare "fn scalar_dot_product(".toList → e.1.WellShaped = true := by
  decide

/-- A match of an indented pattern: blanks from its start to `a`, then the declaration. -/
theorem indented_match {c decl : List Char} {m : Match}
    (hm : (m.stop, m.caps) ∈ (FixPattern.indented decl).regex.ends c m.start []) :
    ∃ a, m.caps = [(2, a, m.stop), (1, m.start, a)] ∧ m.start < a ∧ AllIn .space c m.start a ∧
      decl.isPrefixOf (c.drop a) = true ∧ m.stop = a + decl.length := by
  simp only [FixPattern.regex, Regex.ends, Regex.plus, Regex.lit_ends, List.mem_flatMap,
    List.mem_map, List.mem_range] at hm
  obtain ⟨_, ⟨_, ⟨d, hd, rfl⟩, rfl⟩, x, hx, hxe⟩ := hm
  split at hx
  · rename_i hp
    obtain rfl := List.mem_singleton.1 hx
    obtain ⟨h1, h2⟩ := Prod.mk.inj hxe
    exact ⟨_, by rw [← h2, ← h1], by omega, (allIn_iff_le_runLen _ _ _ _).2 (by omega), hp, h1.symm⟩
  · cases hx

/-- A match of a bare pattern is the declaration. -/
theorem bare_match {c decl : List Char} {m : Match}
    (hm : (m.stop, m.caps) ∈ (FixPattern.bare decl).regex.ends c m.start []) :
    m.caps = [(1, m.start, m.stop)] ∧ decl.isPrefixOf (c.drop m.start) = true ∧
      m.stop = m.start + decl.length := by
  simp only [FixPattern.regex, Regex.ends, Regex.lit_ends, List.mem_map] at hm
  obtain ⟨x, hx, hxe⟩ := hm
  split at hx
  · rename_i hp
    obtain rfl := List.mem_singleton.1 hx
    simp only [Prod.mk.injEq] at hxe
    exact ⟨by rw [← hxe.2, hxe.1], hp, hxe.1.symm⟩
  · cases hx

/-- The first-match rewrite of a well-shaped pattern puts `reservedLines` right before the
    declaration. -/
theorem deadCode_rewrite (c reason : List Char) (fp : FixPattern) (hfp : fp.WellShaped = true)
    {m : Match} (hm : search fp.regex c = some m) :
    fp.decl.isPrefixOf (c.drop (keywordAt fp m)) = true ∧
      subWith fp.regex (deadCodeReplacement c reason) c (some 1) =
        c.take (keywordAt fp m) ++ reservedLines c reason fp m ++ c.drop (keywordAt fp m) := by
  obtain ⟨-, -, -, hends⟩ := searchFrom_bounds hm
  rw [subWith_one _ hm]
  cases fp with
  | indented decl =>
    obtain ⟨a, hcaps, hlt, hall, hp, hstop⟩ := indented_match hends
    simp only [FixPattern.WellShaped, Bool.and_eq_true, Bool.not_eq_true'] at hfp
    have hdrop : c.drop a = decl ++ c.drop m.stop := by
      rw [eq_append_drop_of_isPrefixOf hp, List.drop_drop, hstop, Nat.add_comm]
    have hg0 : m.group c 0 = (c.drop m.start).take (a - m.start) ++ decl := by
      show (c.drop m.start).take (m.stop - m.start) = _
      rw [show m.stop - m.start = a - m.start + decl.length by omega, List.take_add, List.drop_drop,
        Nat.add_sub_cancel' hlt.le, hdrop, List.take_left' rfl]
    have hconst : contains ((c.drop m.start).take (a - m.start) ++ decl) "const ".toList = false := by
      rw [contains_blanks_append (mem_of_allIn hall) (by decide)]
      exact hfp.2
    have hg1 : m.group c 1 = (c.drop m.start).take (a - m.start) := by
      simp [Match.group, Match.span, hcaps]
    have hkey : keywordAt (.indented decl) m = a := by
      simp [keywordAt, Match.startOf, Match.span, hcaps]
    refine ⟨hkey ▸ hp, ?_⟩
    rw [hkey, ← take_append_take_drop hlt.le, hdrop]
    simp only [deadCodeReplacement, reservedLines, hcaps, hg0, hg1, hconst, List.isEmpty_cons,
      if_false, Bool.false_eq_true, List.append_assoc, List.cons_append]
  | bare decl =>
    obtain ⟨hcaps, hp, hstop⟩ := bare_match hends
    have hdrop : c.drop m.start = decl ++ c.drop m.stop := by
      rw [eq_append_drop_of_isPrefixOf hp, List.drop_drop, hstop, Nat.add_comm]
    have hg0 : m.group c 0 = decl := by
      show (c.drop m.start).take (m.stop - m.start) = _
      rw [hstop, Nat.add_sub_cancel_left, hdrop, List.take_left' rfl]
    refine ⟨hp, ?_⟩
    rw [keywordAt, deadCodeReplacement, hg0, show contains decl "const ".toList = true from hfp,
      reservedLines, hdrop]
    simp only [if_true, List.append_assoc, List.cons_append, List.nil_append]

theorem reservedLines_ne_nil (c reason : List Char) (fp : FixPattern) (m : Match) :
    reservedLines c reason fp m ≠ [] := by
  cases fp <;> simp [reservedLines, reservedComment]

/-- **The lines go right before the declaration.** For a well-shaped pattern the rewrite happens
    exactly when the pattern occurs and no match has the attribute before it already; it inserts
    `reservedLines` right before the declaration of the first match and changes nothing else. -/
theorem addAllowDeadCode_iff (c reason c' : List Char) (fp : FixPattern)
    (hfp : fp.WellShaped = true) :
    addAllowDeadCode c fp.regex reason = some c' ↔
      ∃ m, search fp.regex c = some m ∧ ¬ Occurs (.seq allowContext fp.regex) c ∧
        fp.decl.isPrefixOf (c.drop (keywordAt fp m)) = true ∧
        c' = c.take (keywordAt fp m) ++ reservedLines c reason fp m ++ c.drop (keywordAt fp m) := by
  cases hs : search fp.regex c with
  | none => simp [addAllowDeadCode, hs]
  | some m =>
    obtain ⟨hp, hsub⟩ := deadCode_rewrite c reason fp hfp hs
    have hne : c.take (keywordAt fp m) ++ reservedLines c reason fp m ++ c.drop (keywordAt fp m) ≠ c :=
      fun h => reservedLines_ne_nil c reason fp m (List.eq_nil_of_length_eq_zero (by
        have := congrArg List.length h
        simp only [List.length_append, List.length_take, List.length_drop] at this
        omega))
    have hrun : addAllowDeadCode c fp.regex reason = if Occurs (.seq allowContext fp.regex) c then none
        else some (c.take (keywordAt fp m) ++ reservedLines c reason fp m ++ c.drop (keywordAt fp m)) := by
      by_cases hctx : Occurs (.seq allowContext fp.regex) c
      · simp only [addAllowDeadCode, hs, Option.isNone_some, (search_isSome_iff _ _).2 hctx, if_pos hctx]
        rfl
      · have hctx' : (search (.seq allowContext fp.regex) c).isSome = false :=
          Bool.eq_false_iff.2 fun h => hctx ((search_isSome_iff _ _).1 h)
        simp only [addAllowDeadCode, hs, Option.isNone_some, hctx', hsub, if_neg hne, if_neg hctx]
        rfl
    rw [hrun]
    constructor
    · intro h
      split at h
      · cases h
      · exact ⟨m, rfl, ‹_›, hp, (Option.some_inj.1 h).symm⟩
    · rintro ⟨m', hm', hctx, -, rfl⟩
      cases Option.some_inj.1 hm'
      rw [if_neg hctx]

/-! ## §3 The table -/

/-- What a run should do: write the content with `reservedLines` inserted right before the
    declaration of the first match, when the pattern occurs and no match has the attribute
    before it. -/
def InsertsBeforeKeyword (c reason : List Char) (fp : FixPattern) (c' : List Char) : Prop :=
  ∃ m, search fp.regex c = some m ∧ ¬ Occurs (.seq allowContext fp.regex) c ∧
    fp.decl.isPrefixOf (c.drop (keywordAt fp m)) = true ∧
    c' = c.take (keywordAt fp m) ++ reservedLines c reason fp m ++ c.drop (keywordAt fp m)

/-- **Where the `FIXES` rewrites put the lines.** For every entry but the scalar fallback and every
    file content, `add_allow_dead_code` writes exactly what `InsertsBeforeKeyword` says: the
    reserved lines right before the `fn` or `const` keyword of the first match, after whatever
    precedes the keyword on its line. -/
theorem fixes_insert_before_keyword (c reason c' : List Char) (fp : FixPattern)
    (hmem : (fp, reason) ∈ fixes) (hslip : fp ≠ .bare "fn scalar_dot_product(".toList) :
    addAllowDeadCode c fp.regex reason = some c' ↔ InsertsBeforeKeyword c reason fp c' :=
  addAllowDeadCode_iff c reason c' fp (fixes_wellShaped _ hmem hslip)

theorem fixes_insert_before_keyword_on_total_size :
    ((fnFix "fn total_size(&self) -> usize" "for monitoring API").1,
      (fnFix "fn total_size(&self) -> usize" "for monitoring API").2) ∈ fixes ∧
    (fnFix "fn total_size(&self) -> usize" "for monitoring API").1 ≠
      .bare "fn scalar_dot_product(".toList ∧
    (addAllowDeadCode "\n    fn total_size(&self) -> usize".toList
        (fnFix "fn total_size(&self) -> usize" "for monitoring API").1.regex
        (fnFix "fn total_size(&self) -> usize" "for monitoring API").2 =
      some "\n    /// Reserved for monitoring API\n\n    #[allow(dead_code)]\n\n    fn total_size(&self) -> usize".toList ↔
    InsertsBeforeKeyword "\n    fn total_size(&self) -> usize".toList
      (fnFix "fn total_size(&self) -> usize" "for monitoring API").2
      (fnFix "fn total_size(&self) -> usize" "for monitoring API").1
      "\n    /// Reserved for monitoring API\n\n    #[allow(dead_code)]\n\n    fn total_size(&self) -> usize".toList) :=
  ⟨by decide, by decide, fixes_insert_before_keyword _ _ _ _ (by decide) (by decide)⟩

/-- The lines of the first entry go between `pub` and `fn`. -/
theorem addAllowDeadCode_splits_pub :
    fnFix "fn total_size(&self) -> usize" "for monitoring API" ∈ fixes ∧
    addAllowDeadCode "    pub fn total_size(&self) -> usize \x7b 0 \x7d".toList
        (fnFix "fn total_size(&self) -> usize" "for monitoring API").1.regex
        (fnFix "fn total_size(&self) -> usize" "for monitoring API").2 =
      some ("    pub /// Reserved for monitoring API\n #[allow(dead_code)]\n " ++
        "fn total_size(&self) -> usize \x7b 0 \x7d").toList := by
  decide

/-- In a bare pattern that is not a `const`, group 1 is the declaration, which the rewrite takes
    for the indentation: the declaration is written before each line and again after them. -/
theorem addAllowDeadCode_repeats_bare_fn (c decl reason : List Char) {m : Match}
    (hdecl : contains decl "const ".toList = false) (hm : search (FixPattern.bare decl).regex c = some m)
    (hctx : ¬ Occurs (.seq allowContext (FixPattern.bare decl).regex) c) :
    addAllowDeadCode c (FixPattern.bare decl).regex reason = some
      (c.take m.start ++ decl ++ reservedComment reason ++ '\n' :: decl ++ allowDeadCode ++ '\n' ::
        c.drop m.start) := by
  obtain ⟨-, h2, h3, hends⟩ := searchFrom_bounds hm
  obtain ⟨hcaps, hp, hstop⟩ := bare_match hends
  have hdrop : c.drop m.start = decl ++ c.drop m.stop := by
    rw [eq_append_drop_of_isPrefixOf hp, List.drop_drop, hstop, Nat.add_comm]
  have hslice : (c.drop m.start).take (m.stop - m.start) = decl := by
    rw [hstop, Nat.add_sub_cancel_left, hdrop, List.take_left' rfl]
  have hg1 : m.group c 1 = decl := by
    rw [Match.group, show m.span 1 = some (m.start, m.stop) by simp [Match.span, hcaps]]
    exact hslice
  have hsub := subWith_one (deadCodeReplacement c reason) hm
  rw [deadCodeReplacement, show m.group c 0 = decl from hslice, hg1, hdecl, hcaps] at hsub
  have hctx' : (search (.seq allowContext (FixPattern.bare decl).regex) c).isSome = false :=
    Bool.eq_false_iff.2 fun h => hctx ((search_isSome_iff _ _).1 h)
  simp only [addAllowDeadCode, hm, Option.isNone_some, hctx', hsub, Bool.false_eq_true, if_false,
    List.isEmpty_cons]
  split
  · rename_i h
    have := congrArg List.length h
    simp only [List.length_append, List.length_take, List.length_drop, List.length_cons] at this
    omega
  · rw [hdrop]
    simp only [List.append_assoc, List.cons_append]

/-! ## §4 A second run of an entry writes nothing -/

theorem allIn_append_middle {k : CharSet} {u w t : List Char} (hw : ∀ c ∈ w, k.mem c = true) :
    AllIn k (u ++ w ++ t) u.length (u.length + w.length) := by
  intro j hj hje
  have hlt : j - u.length < w.length := by omega
  obtain ⟨c, hc⟩ : ∃ c, w[j - u.length]? = some c := ⟨_, List.getElem?_eq_getElem hlt⟩
  refine ⟨c, ?_, hw c (List.getElem?_mem hc)⟩
  rw [List.append_assoc, List.getElem?_append_right hj, List.getElem?_append_left hlt, hc]

/-- The attribute, then blanks, then the declaration: the context pattern matches it. -/
theorem allowContext_spans (fp : FixPattern) {w d : List Char} (hw : ∀ c ∈ w, isSpace c = true)
    (hwne : w ≠ []) (hd : fp.decl.isPrefixOf d = true) :
    (Regex.seq allowContext fp.regex).Spans (allowDeadCode ++ w ++ d) 0
      (allowDeadCode.length + w.length + fp.decl.length) := by
  have hattr : allowDeadCode.isPrefixOf ((allowDeadCode ++ w ++ d).drop 0) = true := by
    rw [List.drop_zero, List.append_assoc]
    exact List.isPrefixOf_iff_prefix.2 (List.prefix_append _ _)
  have hdecl : fp.decl.isPrefixOf ((allowDeadCode ++ w ++ d).drop (allowDeadCode.length + w.length))
      = true := by
    rwa [← List.length_append, List.drop_left]
  have hblank := allIn_append_middle (k := .space) (u := allowDeadCode) (t := d) hw
  have hpos : 0 < w.length := List.length_pos.2 hwne
  cases fp with
  | indented decl =>
    simp only [Regex.seq_spans, allowContext, FixPattern.regex, Regex.group_spans, Regex.lit_spans,
      Regex.rep_spans, Regex.plus, FixPattern.decl] at hdecl ⊢
    exact ⟨allowDeadCode.length, ⟨allowDeadCode.length, ⟨hattr, rfl⟩, le_refl _,
      fun j hj hje => absurd hje (by omega), fun _ h => nomatch h⟩,
      allowDeadCode.length + w.length, ⟨by omega, hblank, fun _ h => nomatch h⟩, hdecl, rfl⟩
  | bare decl =>
    simp only [Regex.seq_spans, allowContext, FixPattern.regex, Regex.group_spans, Regex.lit_spans,
      Regex.rep_spans, FixPattern.decl] at hdecl ⊢
    exact ⟨allowDeadCode.length + w.length, ⟨allowDeadCode.length, ⟨hattr, rfl⟩, by omega, hblank,
      fun _ h => nomatch h⟩, hdecl, rfl⟩

/-- **A second run of an entry writes nothing.** For a well-shaped pattern, once
    `add_allow_dead_code` has written, the same call on what it wrote finds the attribute before
    the declaration and returns `False`: the check for `#[allow(dead_code)]` in front of the
    pattern does its job, and running the script again adds no second pair of lines. -/
theorem addAllowDeadCode_second_run (c reason c' : List Char) (fp : FixPattern)
    (hfp : fp.WellShaped = true) (h : addAllowDeadCode c fp.regex reason = some c') :
    addAllowDeadCode c' fp.regex reason = none := by
  obtain ⟨m, hs, -, hp, rfl⟩ := (addAllowDeadCode_iff c reason c' fp hfp).1 h
  obtain ⟨P, w, hsplit, hw, hwne⟩ : ∃ P w, c.take (keywordAt fp m) ++ reservedLines c reason fp m ++
      c.drop (keywordAt fp m) = P ++ (allowDeadCode ++ w ++ c.drop (keywordAt fp m)) ∧
      (∀ x ∈ w, isSpace x = true) ∧ w ≠ [] := by
    obtain ⟨-, -, -, hends⟩ := searchFrom_bounds hs
    cases fp with
    | indented decl =>
      obtain ⟨a, hcaps, -, hall, -, -⟩ := indented_match hends
      have hg1 : m.group c 1 = (c.drop m.start).take (a - m.start) := by
        simp [Match.group, Match.span, hcaps]
      refine ⟨c.take (keywordAt (.indented decl) m) ++ (reservedComment reason ++ '\n' :: m.group c 1),
        '\n' :: m.group c 1, by simp [reservedLines], fun x hx => ?_, List.cons_ne_nil _ _⟩
      rcases List.mem_cons.1 hx with rfl | hx
      · rfl
      · exact mem_of_allIn hall x (hg1 ▸ hx)
    | bare decl =>
      exact ⟨c.take (keywordAt (.bare decl) m) ++ (reservedComment reason ++ ['\n']), ['\n'],
        by simp [reservedLines], by decide, List.cons_ne_nil _ _⟩
  have hlocal : (Regex.seq allowContext fp.regex).Local = true := by
    cases fp <;> simp [Regex.Local, allowContext, FixPattern.regex, Regex.plus]
  have hocc : Occurs (.seq allowContext fp.regex) (P ++ (allowDeadCode ++ w ++
      c.drop (keywordAt fp m))) :=
    ⟨0 + P.length, by simp, _, (Regex.spans_append_left hlocal P _ 0 _).2 (allowContext_spans fp hw hwne hp)⟩
  rw [hsplit]
  simp only [addAllowDeadCode, (search_isSome_iff _ _).2 hocc, if_true]
  split <;> rfl


/-- The first entry, run twice on a method. -/
theorem addAllowDeadCode_second_run_on_total_size :
    (FixPattern.indented "fn total_size(&self) -> usize".toList).WellShaped = true ∧
    addAllowDeadCode "\n    fn total_size(&self) -> usize".toList
        (FixPattern.indented "fn total_size(&self) -> usize".toList).regex "for monitoring API".toList =
      some "\n    /// Reserved for monitoring API\n\n    #[allow(dead_code)]\n\n    fn total_size(&self) -> usize".toList ∧
    addAllowDeadCode
        "\n    /// Reserved for monitoring API\n\n    #[allow(dead_code)]\n\n    fn total_size(&self) -> usize".toList
        (FixPattern.indented "fn total_size(&self) -> usize".toList).regex "for monitoring API".toList =
      none :=
  have h : addAllowDeadCode "\n    fn total_size(&self) -> usize".toList
      (FixPattern.indented "fn total_size(&self) -> usize".toList).regex "for monitoring API".toList =
    some "\n    /// Reserved for monitoring API\n\n    #[allow(dead_code)]\n\n    fn total_size(&self) -> usize".toList := by
    decide
  ⟨by decide, h, addAllowDeadCode_second_run _ _ _ _ (by decide) h⟩

end RustyDb.Fixers
