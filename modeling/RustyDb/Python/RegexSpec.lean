import RustyDb.Python.Regex

/-!
# What the Patterns Match

`Regex.ends` lists a pattern's matches in the order `sre` tries them.
`Regex.Spans` says which spans match, with no order and no captures, and
`mem_ends_iff_spans` shows that the two agree. §3 reads `search` off
`Spans`; §4 shows that for a pattern whose matches all have one width,
`re.sub` is a left-to-right scan.
-/

namespace RustyDb.Python

/-! ## §1 Spans -/

/-- Every index `i ≤ j < e` of `s` holds a character of `k`. -/
def AllIn (k : CharSet) (s : List Char) (i e : Nat) : Prop :=
  ∀ j, i ≤ j → j < e → ∃ c, s[j]? = some c ∧ k.mem c = true

/-- `r` matches `s` from index `i` to index `e`. -/
def Regex.Spans (s : List Char) : Regex → Nat → Nat → Prop
  | .eps, i, e => e = i
  | .set k, i, e => e = i + 1 ∧ ∃ c, s[i]? = some c ∧ k.mem c = true
  | .rep k lo hi, i, e => i + lo ≤ e ∧ AllIn k s i e ∧ ∀ h ∈ hi, e ≤ i + h
  | .seq r t, i, e => ∃ m, r.Spans s i m ∧ t.Spans s m e
  | .alt r t, i, e => r.Spans s i e ∨ t.Spans s i e
  | .group _ r, i, e => r.Spans s i e
  | .endLine, i, e => e = i ∧ atEndLine s i = true
  | .endText, i, e => e = i ∧ atEndText s i = true
  | .boundary, i, e => e = i ∧ atBoundary s i = true
  | .ahead neg r, i, e => e = i ∧ ((∃ e', r.Spans s i e') ↔ neg = false)
  | .notAfter k, i, e => e = i ∧ (i == 0 || !(s[i - 1]?.map k.mem).getD false) = true

@[simp] theorem Regex.eps_spans (s : List Char) (i e : Nat) : Regex.eps.Spans s i e ↔ e = i := Iff.rfl

@[simp] theorem Regex.set_spans (s : List Char) (k : CharSet) (i e : Nat) :
    (Regex.set k).Spans s i e ↔ e = i + 1 ∧ ∃ c, s[i]? = some c ∧ k.mem c = true := Iff.rfl

@[simp] theorem Regex.rep_spans (s : List Char) (k : CharSet) (lo : Nat) (hi : Option Nat) (i e : Nat) :
    (Regex.rep k lo hi).Spans s i e ↔ i + lo ≤ e ∧ AllIn k s i e ∧ ∀ h ∈ hi, e ≤ i + h := Iff.rfl

@[simp] theorem Regex.seq_spans (s : List Char) (r t : Regex) (i e : Nat) :
    (Regex.seq r t).Spans s i e ↔ ∃ m, r.Spans s i m ∧ t.Spans s m e := Iff.rfl

@[simp] theorem Regex.alt_spans (s : List Char) (r t : Regex) (i e : Nat) :
    (Regex.alt r t).Spans s i e ↔ r.Spans s i e ∨ t.Spans s i e := Iff.rfl

@[simp] theorem Regex.group_spans (s : List Char) (n : Nat) (r : Regex) (i e : Nat) :
    (Regex.group n r).Spans s i e ↔ r.Spans s i e := Iff.rfl

@[simp] theorem Regex.boundary_spans (s : List Char) (i e : Nat) :
    Regex.boundary.Spans s i e ↔ e = i ∧ atBoundary s i = true := Iff.rfl

theorem le_runLen_iff (k : CharSet) (t : List Char) (m : Nat) :
    m ≤ runLen k t ↔ ∀ j < m, ∃ c, t[j]? = some c ∧ k.mem c = true := by
  induction t generalizing m with
  | nil =>
    cases m with
    | zero => simp [runLen]
    | succ m => simpa [runLen] using ⟨0, by omega⟩
  | cons c t ih =>
    cases m with
    | zero => simp
    | succ m =>
      by_cases hc : k.mem c = true
      · simp only [runLen, hc, if_true, Nat.succ_le_succ_iff, ih]
        constructor
        · rintro h (_ | j) hj
          · exact ⟨c, by simp, hc⟩
          · simpa using h j (by omega)
        · intro h j hj
          simpa using h (j + 1) (by omega)
      · simp only [runLen, hc, Bool.false_eq_true, if_false]
        exact ⟨fun h => absurd h (by omega), fun h => by simpa [hc] using h 0 (by omega)⟩

theorem allIn_iff_le_runLen (k : CharSet) (s : List Char) (i e : Nat) :
    AllIn k s i e ↔ e ≤ i + runLen k (s.drop i) := by
  have h := le_runLen_iff k (s.drop i) (e - i)
  simp only [List.getElem?_drop] at h
  constructor
  · intro hall
    have : e - i ≤ runLen k (s.drop i) := h.2 fun j hj => hall (i + j) (by omega) (by omega)
    omega
  · intro hle j hij hje
    obtain ⟨c, hc, hk⟩ := h.1 (by omega) (j - i) (by omega)
    exact ⟨c, by rwa [Nat.add_sub_cancel' hij] at hc, hk⟩

theorem mem_map_fst {α β : Type} (a : α) (l : List (α × β)) :
    a ∈ l.map Prod.fst ↔ ∃ b, (a, b) ∈ l := by
  simp

/-- The backtracking matcher finds exactly the spans `Spans` describes, whatever the captures
    it starts from. -/
theorem mem_ends_iff_spans (s : List Char) (r : Regex) (i e : Nat) (cs : Caps) :
    e ∈ (r.ends s i cs).map Prod.fst ↔ r.Spans s i e := by
  induction r generalizing i e cs with
  | eps => simp [Regex.ends, Regex.Spans]
  | set k =>
    simp only [Regex.ends, Regex.Spans]
    cases h : s[i]? with
    | none => simp
    | some c => by_cases hk : k.mem c = true <;> simp [hk]
  | rep k lo hi =>
    have hrange : ∀ n, e ∈ ((List.range (n + 1 - lo)).map fun d => (i + n - d, cs)).map Prod.fst ↔
        i + lo ≤ e ∧ e ≤ i + n := fun n => by
      simp only [List.map_map, List.mem_map, List.mem_range, Function.comp_def]
      exact ⟨fun ⟨d, hd, he⟩ => by omega, fun h => ⟨i + n - e, by omega, by omega⟩⟩
    cases hi with
    | none =>
      simp only [Regex.ends, Regex.Spans, allIn_iff_le_runLen]
      rw [hrange]
      simp
    | some h =>
      simp only [Regex.ends, Regex.Spans, allIn_iff_le_runLen, Option.mem_def,
        Option.some.injEq, forall_eq']
      rw [hrange]
      omega
  | seq r t ihr iht =>
    simp only [Regex.ends, Regex.Spans, mem_map_fst, List.mem_flatMap, Prod.exists]
    constructor
    · rintro ⟨_, m, cs', hm, he⟩
      exact ⟨m, (ihr i m cs).1 ((mem_map_fst _ _).2 ⟨cs', hm⟩), (iht m e cs').1 ((mem_map_fst _ _).2 ⟨_, he⟩)⟩
    · rintro ⟨m, hm, he⟩
      obtain ⟨cs', hm⟩ := (mem_map_fst _ _).1 ((ihr i m cs).2 hm)
      obtain ⟨cs'', he⟩ := (mem_map_fst _ _).1 ((iht m e cs').2 he)
      exact ⟨cs'', m, cs', hm, he⟩
  | alt r t ihr iht => simp only [Regex.ends, Regex.Spans, List.map_append, List.mem_append, ihr, iht]
  | group n r ih =>
    simp only [Regex.ends, Regex.Spans, List.map_map, Function.comp_def] at ih ⊢
    exact ih i e cs
  | endLine => by_cases h : atEndLine s i = true <;> simp [Regex.ends, Regex.Spans, h, eq_comm]
  | endText => by_cases h : atEndText s i = true <;> simp [Regex.ends, Regex.Spans, h, eq_comm]
  | boundary => by_cases h : atBoundary s i = true <;> simp [Regex.ends, Regex.Spans, h, eq_comm]
  | ahead neg r ih =>
    have hne : (r.ends s i cs).isEmpty = true ↔ ¬ ∃ e', r.Spans s i e' := by
      rw [List.isEmpty_iff, List.eq_nil_iff_forall_not_mem]
      simp only [← ih i _ cs, mem_map_fst, not_exists]
      exact ⟨fun h e c hc => h _ hc, fun h x hx => h x.1 x.2 hx⟩
    by_cases h : ∃ e', r.Spans s i e'
    · have hE : (r.ends s i cs).isEmpty = false := by simpa [h] using hne.not
      cases neg <;> simp [Regex.ends, Regex.Spans, hE, h, eq_comm]
    · have hE : (r.ends s i cs).isEmpty = true := hne.2 h
      cases neg <;> simp [Regex.ends, Regex.Spans, hE, h, eq_comm]
  | notAfter k =>
    by_cases h : (i == 0 || !(s[i - 1]?.map k.mem).getD false) = true <;>
      simp only [Regex.ends, Regex.Spans, h] <;> simp [eq_comm]

theorem isEmpty_ends_iff (s : List Char) (r : Regex) (i : Nat) (cs : Caps) :
    (r.ends s i cs).isEmpty = true ↔ ¬ ∃ e, r.Spans s i e := by
  rw [List.isEmpty_iff, List.eq_nil_iff_forall_not_mem]
  simp only [← mem_ends_iff_spans s r i _ cs, mem_map_fst, not_exists]
  exact ⟨fun h e c hc => h _ hc, fun h x hx => h x.1 x.2 hx⟩

/-! ## §2 Literals and sequences -/

theorem isPrefixOf_cons_drop (c : Char) (w s : List Char) (i : Nat) :
    (c :: w).isPrefixOf (s.drop i) = (s[i]? == some c && w.isPrefixOf (s.drop (i + 1))) := by
  by_cases h : i < s.length
  · rw [List.drop_eq_getElem_cons h, List.getElem?_eq_getElem h]
    simp [List.isPrefixOf, Bool.beq_comm]
  · rw [List.drop_eq_nil_of_le (by omega), List.drop_eq_nil_of_le (by omega),
      List.getElem?_eq_none (by omega)]
    rfl

theorem Regex.lit_cons_ends (s : List Char) (c : Char) (w : List Char) (i : Nat) (cs : Caps) :
    (Regex.lit (c :: w)).ends s i cs = (Regex.seq (.set (.chr c)) (.lit w)).ends s i cs := by
  cases w with
  | nil =>
    simp only [Regex.lit, Regex.ends]
    cases s[i]? <;> simp
  | cons d w => rfl

@[simp] theorem Regex.lit_ends (s w : List Char) (i : Nat) (cs : Caps) :
    (Regex.lit w).ends s i cs = if w.isPrefixOf (s.drop i) then [(i + w.length, cs)] else [] := by
  induction w generalizing i with
  | nil => simp [Regex.lit, Regex.ends]
  | cons c w ih =>
    rw [Regex.lit_cons_ends, isPrefixOf_cons_drop]
    simp only [Regex.ends, ih, CharSet.mem]
    cases h : s[i]? with
    | none => simp
    | some d =>
      by_cases hd : d = c
      · subst hd
        by_cases hw : w.isPrefixOf (s.drop (i + 1)) = true <;>
          simp [hw, ih, Nat.add_assoc, Nat.add_comm 1]
      · simp [hd]

theorem getElem?_of_isPrefixOf {x s : List Char} {i k : Nat} (h : x.isPrefixOf (s.drop i) = true)
    (hk : k < x.length) : s[i + k]? = x[k]? := by
  have hx := List.prefix_iff_eq_take.1 (List.isPrefixOf_iff_prefix.1 h)
  rw [← List.getElem?_drop, ← List.getElem?_take_of_lt hk, ← hx]

theorem dropWhile_eq_drop_runLen (k : CharSet) (t : List Char) :
    t.dropWhile k.mem = t.drop (runLen k t) := by
  induction t with
  | nil => rfl
  | cons c t ih => by_cases hc : k.mem c = true <;> simp [List.dropWhile, runLen, hc, ih]

theorem Regex.lit_spans (s w : List Char) (i e : Nat) :
    (Regex.lit w).Spans s i e ↔ w.isPrefixOf (s.drop i) = true ∧ e = i + w.length := by
  rw [← mem_ends_iff_spans s _ i e [], Regex.lit_ends]
  split <;> simp [*]

theorem Regex.boundary_ends (s : List Char) (i : Nat) (cs : Caps) :
    Regex.boundary.ends s i cs = if atBoundary s i then [(i, cs)] else [] := rfl

theorem Regex.ahead_ends (s : List Char) (neg : Bool) (r : Regex) (i : Nat) (cs : Caps) :
    (Regex.ahead neg r).ends s i cs = if (r.ends s i cs).isEmpty == neg then [(i, cs)] else [] := rfl

theorem Regex.seq_ends_of_test {s : List Char} {r : Regex} {i j : Nat} {cs : Caps} {b : Bool}
    (h : r.ends s i cs = if b then [(j, cs)] else []) (t : Regex) :
    (Regex.seq r t).ends s i cs = if b then t.ends s j cs else [] := by
  rw [Regex.ends, h]
  cases b <;> simp

@[simp] theorem Regex.seqs_nil_spans (s : List Char) (i e : Nat) :
    (Regex.seqs []).Spans s i e ↔ e = i := Iff.rfl

@[simp] theorem Regex.seqs_cons_spans (s : List Char) (r : Regex) (rs : List Regex) (i e : Nat) :
    (Regex.seqs (r :: rs)).Spans s i e ↔ ∃ m, r.Spans s i m ∧ (Regex.seqs rs).Spans s m e := by
  cases rs with
  | nil => simp [Regex.seqs, Regex.Spans]
  | cons t rs => rfl

theorem Regex.seqs_append_spans (xs ys : List Regex) (s : List Char) (i e : Nat) :
    (Regex.seqs (xs ++ ys)).Spans s i e ↔ ∃ m, (Regex.seqs xs).Spans s i m ∧ (Regex.seqs ys).Spans s m e := by
  induction xs generalizing i with
  | nil => simp
  | cons x xs ih =>
    simp only [List.cons_append, Regex.seqs_cons_spans, ih]
    exact ⟨fun ⟨m, h₁, m', h₂, h₃⟩ => ⟨m', ⟨m, h₁, h₂⟩, h₃⟩,
      fun ⟨m', ⟨m, h₁, h₂⟩, h₃⟩ => ⟨m, h₁, m', h₂, h₃⟩⟩

/-! ## §3 `search` -/

theorem matchAt_false_isSome (r : Regex) (s : List Char) (i : Nat) :
    (matchAt r s i false).isSome ↔ ∃ e, r.Spans s i e := by
  simp only [← mem_ends_iff_spans s r i _ [], mem_map_fst, matchAt]
  cases h : r.ends s i [] with
  | nil => simp
  | cons x xs => simpa [List.find?] using ⟨x.1, x.2, .inl rfl⟩

/-- `re.match` reports the first of the pattern's matches from index `0`. -/
theorem rematch_eq_head? (r : Regex) (s : List Char) :
    rematch r s = (r.ends s 0 []).head?.map fun x => ⟨0, x.1, x.2⟩ := by
  simp only [rematch, matchAt]
  cases r.ends s 0 [] <;> simp [List.find?]

theorem searchAux_false_isSome (r : Regex) (s : List Char) (k i : Nat) :
    (searchAux r s k i false).isSome ↔ ∃ j, i ≤ j ∧ j < i + k ∧ ∃ e, r.Spans s j e := by
  induction k generalizing i with
  | zero => simp [searchAux]; omega
  | succ k ih =>
    have hor : ∀ a b : Option Match, (a.orElse fun _ => b).isSome = (a.isSome || b.isSome) := by
      intro a b; cases a <;> rfl
    simp only [searchAux, hor, Bool.or_eq_true, matchAt_false_isSome, ih]
    constructor
    · rintro (h | ⟨j, hj, hjk, h⟩)
      · exact ⟨i, le_refl _, by omega, h⟩
      · exact ⟨j, by omega, by omega, h⟩
    · rintro ⟨j, hj, hjk, h⟩
      rcases Nat.eq_or_lt_of_le hj with rfl | hlt
      · exact .inl h
      · exact .inr ⟨j, hlt, by omega, h⟩

theorem search_isSome_iff (r : Regex) (s : List Char) :
    (search r s).isSome ↔ ∃ i ≤ s.length, ∃ e, r.Spans s i e := by
  simp only [search, searchFrom, searchAux_false_isSome]
  exact ⟨fun ⟨j, _, hj, h⟩ => ⟨j, by omega, h⟩, fun ⟨j, hj, h⟩ => ⟨j, by omega, by omega, h⟩⟩

/-- `r` matches somewhere in `s`: what `re.search(r, s)` tests. -/
def Occurs (r : Regex) (s : List Char) : Prop := ∃ i ≤ s.length, ∃ e, r.Spans s i e

instance (r : Regex) (s : List Char) : Decidable (Occurs r s) :=
  decidable_of_iff _ (search_isSome_iff r s)

/-! ## §4 Patterns of one width -/

/-- The left-to-right scan over `t`, the rest of the text from index `i`, with `skip`
    characters of a replaced occurrence still to drop: where `occ` holds, write `y` and drop
    the `n` characters of the occurrence; elsewhere copy the character. -/
def scanReplace (occ : Nat → Bool) (n : Nat) (y : List Char) : Nat → Nat → List Char → List Char
  | _, _, [] => []
  | i, skip + 1, _ :: t => scanReplace occ n y (i + 1) skip t
  | i, 0, c :: t =>
    if occ i then y ++ scanReplace occ n y (i + 1) (n - 1) t else c :: scanReplace occ n y (i + 1) 0 t

section Scan

variable (occ : Nat → Bool) (n : Nat) (y : List Char)

theorem scanReplace_skip (i k : Nat) (t : List Char) :
    scanReplace occ n y i k t = scanReplace occ n y (i + k) 0 (t.drop k) := by
  induction t generalizing i k with
  | nil => cases k <;> simp [scanReplace]
  | cons c t ih =>
    cases k with
    | zero => rfl
    | succ k => simp only [scanReplace, ih, List.drop_succ_cons]; congr 1; omega

theorem scanReplace_copy (i p : Nat) (t : List Char) (hp : p ≤ t.length)
    (hno : ∀ j, i ≤ j → j < i + p → occ j = false) :
    scanReplace occ n y i 0 t = t.take p ++ scanReplace occ n y (i + p) 0 (t.drop p) := by
  induction p generalizing i t with
  | zero => simp
  | succ p ih =>
    obtain _ | ⟨c, t⟩ := t
    · simp at hp
    · simp only [scanReplace, hno i (le_refl _) (by omega), Bool.false_eq_true, if_false, List.take_succ_cons,
        List.drop_succ_cons, List.cons_append]
      rw [ih (i + 1) t (by simpa using hp) fun j hj hjp => hno j (by omega) (by omega)]
      simp only [Nat.add_right_comm i 1 p, Nat.add_assoc]

theorem scanReplace_occ (i : Nat) (t : List Char) (ht : t ≠ []) (hn : 0 < n) (ho : occ i = true) :
    scanReplace occ n y i 0 t = y ++ scanReplace occ n y (i + n) 0 (t.drop n) := by
  obtain _ | ⟨c, t⟩ := t
  · exact absurd rfl ht
  · obtain ⟨m, rfl⟩ : ∃ m, n = m + 1 := ⟨n - 1, by omega⟩
    simp only [scanReplace, ho, if_true, Nat.add_sub_cancel, scanReplace_skip occ _ y (i + 1) m,
      List.drop_succ_cons]
    congr 2
    omega

theorem scanReplace_none (i : Nat) (t : List Char)
    (hno : ∀ j, i ≤ j → j < i + t.length → occ j = false) :
    scanReplace occ n y i 0 t = t := by
  simpa [scanReplace] using scanReplace_copy occ n y i t.length t (le_refl _) hno

end Scan

section FixedWidth

variable {r : Regex} {s : List Char} {occ : Nat → Bool} {n : Nat}

theorem matchAt_fixed (hfix : ∀ i cs, r.ends s i cs = if occ i then [(i + n, cs)] else [])
    (hn : 0 < n) (i : Nat) (ma : Bool) :
    matchAt r s i ma = if occ i then some ⟨i, i + n, []⟩ else none := by
  rw [matchAt, hfix]
  split
  · have : (i + n == i) = false := by simp; omega
    simp [List.find?, this]
  · rfl

theorem searchAux_fixed_none (hfix : ∀ i cs, r.ends s i cs = if occ i then [(i + n, cs)] else [])
    (hn : 0 < n) (k i : Nat) (ma : Bool) (h : searchAux r s k i ma = none) :
    ∀ j, i ≤ j → j < i + k → occ j = false := by
  induction k generalizing i ma with
  | zero => intro j _ _; omega
  | succ k ih =>
    simp only [searchAux, matchAt_fixed hfix hn] at h
    split at h
    · cases h
    · rename_i hoi
      intro j hj hjk
      rcases Nat.eq_or_lt_of_le hj with rfl | hlt
      · simpa using hoi
      · exact ih (i + 1) false h j hlt (by omega)

theorem searchAux_fixed_some (hfix : ∀ i cs, r.ends s i cs = if occ i then [(i + n, cs)] else [])
    (hn : 0 < n) (k i : Nat) (ma : Bool) (m : Match) (h : searchAux r s k i ma = some m) :
    ∃ j, m = ⟨j, j + n, []⟩ ∧ i ≤ j ∧ j < i + k ∧ occ j = true ∧
      ∀ j', i ≤ j' → j' < j → occ j' = false := by
  induction k generalizing i ma with
  | zero => cases h
  | succ k ih =>
    simp only [searchAux, matchAt_fixed hfix hn] at h
    split at h
    · cases h
      exact ⟨i, rfl, le_refl _, by omega, ‹_›, fun j' h1 h2 => by omega⟩
    · rename_i hoi
      obtain ⟨j, rfl, hj, hjk, ho, hbefore⟩ := ih (i + 1) false h
      refine ⟨j, rfl, by omega, by omega, ho, fun j' h1 h2 => ?_⟩
      rcases Nat.eq_or_lt_of_le h1 with rfl | hlt
      · simpa using hoi
      · exact hbefore j' hlt h2

theorem spliceFrom_finditerAux_fixed
    (hfix : ∀ i cs, r.ends s i cs = if occ i then [(i + n, cs)] else [])
    (hn : 0 < n) (hocc : ∀ j, occ j = true → j + n ≤ s.length) (y : List Char) (K i : Nat)
    (hK : s.length + 1 - i ≤ K) :
    spliceFrom s (fun _ => y) i (finditerAux r s K i false) = scanReplace occ n y i 0 (s.drop i) := by
  induction K generalizing i with
  | zero => simp [finditerAux, spliceFrom, List.drop_eq_nil_of_le (show s.length ≤ i by omega),
      scanReplace]
  | succ K ih =>
    simp only [finditerAux, searchFrom]
    cases h : searchAux r s (s.length + 1 - i) i false with
    | none =>
      have hno := searchAux_fixed_none hfix hn _ i false h
      simp only [spliceFrom]
      exact (scanReplace_none occ n y i _ fun j h1 h2 => hno j h1 (by simp at h2; omega)).symm
    | some m =>
      obtain ⟨j, rfl, hij, hj, ho, hbefore⟩ := searchAux_fixed_some hfix hn _ i false _ h
      have hjn := hocc j ho
      have hne : (j + n == j) = false := by simp; omega
      simp only [hne, spliceFrom, ih (j + n) (by omega)]
      rw [scanReplace_copy occ n y i (j - i) _ (by simp; omega) fun j' h1 h2 => hbefore j' h1 (by omega),
        List.drop_drop, Nat.add_sub_cancel' hij,
        scanReplace_occ occ n y j _ (by simp; omega) hn ho, List.drop_drop, List.append_assoc]

/-- **`re.sub` with a pattern of one width is the left-to-right scan.** -/
theorem subWith_fixed (hfix : ∀ i cs, r.ends s i cs = if occ i then [(i + n, cs)] else [])
    (hn : 0 < n) (hocc : ∀ j, occ j = true → j + n ≤ s.length) (y : List Char) :
    subWith r (fun _ => y) s none = scanReplace occ n y 0 0 s := by
  simpa [subWith, finditer] using spliceFrom_finditerAux_fixed hfix hn hocc y _ 0 (by omega)

end FixedWidth

theorem sub_text (r : Regex) (y s : List Char) : sub r [.text y] s = subWith r (fun _ => y) s none := by
  simp [sub, expand]

/-! ## §5 Captures

A capture `(n, a, b)` that a match records comes from a group `n` of the
pattern whose body spans `a` to `b`, and a group on every path of the
pattern is always recorded. -/

/-- The groups of a pattern with their bodies; captures inside a lookahead are dropped. -/
def Regex.groupBodies : Regex → List (Nat × Regex)
  | .seq r t | .alt r t => r.groupBodies ++ t.groupBodies
  | .group n r => (n, r) :: r.groupBodies
  | _ => []

/-- Every match of the pattern records group `n`. -/
def Regex.records (n : Nat) : Regex → Bool
  | .seq r t => r.records n || t.records n
  | .alt r t => r.records n && t.records n
  | .group m r => m == n || r.records n
  | _ => false

/-- A match extends the captures it starts from, and each new capture is the span of a group
    body of the pattern. -/
theorem Regex.ends_caps {s : List Char} {r : Regex} {i e : Nat} {cs cs' : Caps}
    (h : (e, cs') ∈ r.ends s i cs) :
    ∃ new, cs' = new ++ cs ∧ ∀ x ∈ new, ∃ body, (x.1, body) ∈ r.groupBodies ∧ body.Spans s x.2.1 x.2.2 := by
  induction r generalizing i e cs cs' with
  | seq r t ihr iht =>
    obtain ⟨⟨m, mcs⟩, hm, he⟩ := List.mem_flatMap.1 h
    obtain ⟨n1, rfl, h1⟩ := ihr hm
    obtain ⟨n2, rfl, h2⟩ := iht he
    refine ⟨n2 ++ n1, by simp, fun x hx => ?_⟩
    rcases List.mem_append.1 hx with hx | hx
    · obtain ⟨b, hb, hs⟩ := h2 x hx
      exact ⟨b, List.mem_append_right _ hb, hs⟩
    · obtain ⟨b, hb, hs⟩ := h1 x hx
      exact ⟨b, List.mem_append_left _ hb, hs⟩
  | alt r t ihr iht =>
    rcases List.mem_append.1 h with h | h
    · obtain ⟨n1, rfl, h1⟩ := ihr h
      exact ⟨n1, rfl, fun x hx => (h1 x hx).imp fun b hb => ⟨List.mem_append_left _ hb.1, hb.2⟩⟩
    · obtain ⟨n1, rfl, h1⟩ := iht h
      exact ⟨n1, rfl, fun x hx => (h1 x hx).imp fun b hb => ⟨List.mem_append_right _ hb.1, hb.2⟩⟩
  | group n r ih =>
    obtain ⟨⟨e0, cs0⟩, h0, he⟩ := List.mem_map.1 h
    obtain ⟨rfl, rfl⟩ := Prod.mk.inj he
    obtain ⟨n1, rfl, h1⟩ := ih h0
    refine ⟨(n, i, e0) :: n1, rfl, fun x hx => ?_⟩
    rcases List.mem_cons.1 hx with rfl | hx
    · exact ⟨r, .head _, (mem_ends_iff_spans s r i e0 cs).1 ((mem_map_fst _ _).2 ⟨_, h0⟩)⟩
    · obtain ⟨b, hb, hs⟩ := h1 x hx
      exact ⟨b, .tail _ hb, hs⟩
  | _ =>
    refine ⟨[], ?_, by simp⟩
    simp only [Regex.ends] at h
    repeat' split at h
    all_goals simp_all
    all_goals obtain ⟨_, _, _, rfl⟩ := h; rfl

/-- A group that every match records is among the captures of each match. -/
theorem Regex.ends_records {s : List Char} {r : Regex} {n i e : Nat} {cs cs' : Caps}
    (hr : r.records n = true) (h : (e, cs') ∈ r.ends s i cs) : ∃ x ∈ cs', x.1 = n := by
  induction r generalizing i e cs cs' with
  | seq r t ihr iht =>
    obtain ⟨⟨m, mcs⟩, hm, he⟩ := List.mem_flatMap.1 h
    rcases Bool.or_eq_true _ _ ▸ hr with hr | hr
    · obtain ⟨x, hx, rfl⟩ := ihr hr hm
      obtain ⟨new, rfl, -⟩ := Regex.ends_caps he
      exact ⟨x, List.mem_append_right _ hx, rfl⟩
    · exact iht hr he
  | alt r t ihr iht =>
    rw [Regex.records, Bool.and_eq_true] at hr
    rcases List.mem_append.1 h with h | h
    · exact ihr hr.1 h
    · exact iht hr.2 h
  | group m r ih =>
    obtain ⟨⟨e0, cs0⟩, h0, he⟩ := List.mem_map.1 h
    obtain ⟨rfl, rfl⟩ := Prod.mk.inj he
    rcases Bool.or_eq_true _ _ ▸ hr with hr | hr
    · exact ⟨_, .head _, beq_iff_eq.1 hr⟩
    · obtain ⟨x, hx, rfl⟩ := ih hr h0
      exact ⟨x, .tail _ hx, rfl⟩
  | _ => cases hr

/-- A match of the pattern from `i` spans `i` to its stop. -/
theorem Regex.spans_of_mem_ends {s : List Char} {r : Regex} {i e : Nat} {cs cs' : Caps}
    (h : (e, cs') ∈ r.ends s i cs) : r.Spans s i e :=
  (mem_ends_iff_spans s r i e cs).1 ((mem_map_fst _ _).2 ⟨_, h⟩)

/-- A match of `r t` is a match of `r` followed by one of `t`, with the captures passed on. -/
theorem Regex.mem_ends_seq {s : List Char} {r t : Regex} {i e : Nat} {cs cs' : Caps} :
    (e, cs') ∈ (Regex.seq r t).ends s i cs ↔ ∃ m cs₁, (m, cs₁) ∈ r.ends s i cs ∧ (e, cs') ∈ t.ends s m cs₁ := by
  simp [Regex.ends]

/-- A match of group `n` records its own span in front of its body's captures. -/
theorem Regex.mem_ends_group {s : List Char} {n : Nat} {r : Regex} {i e : Nat} {cs cs' : Caps} :
    (e, cs') ∈ (Regex.group n r).ends s i cs ↔ ∃ cs₁, (e, cs₁) ∈ r.ends s i cs ∧ cs' = (n, i, e) :: cs₁ := by
  simp only [Regex.ends, List.mem_map, Prod.mk.injEq, Prod.exists]
  constructor
  · rintro ⟨a, b, h, rfl, rfl⟩
    exact ⟨b, h, rfl⟩
  · rintro ⟨b, h, rfl⟩
    exact ⟨e, b, h, rfl, rfl⟩

/-- A pattern without groups passes its captures on unchanged. -/
theorem caps_of_groupBodies_nil {s : List Char} {r : Regex} {i e : Nat} {cs cs' : Caps}
    (hr : r.groupBodies = []) (h : (e, cs') ∈ r.ends s i cs) : cs' = cs := by
  obtain ⟨new, rfl, hnew⟩ := Regex.ends_caps h
  cases new with
  | nil => rfl
  | cons x _ =>
    obtain ⟨_, hb, -⟩ := hnew x (.head _)
    simp [hr] at hb

/-- A match of `r t` with `r` free of groups: `r` spans to some index and `t` continues from
    there with the same captures. -/
theorem Regex.mem_ends_seq_plain {s : List Char} {r t : Regex} {i e : Nat} {cs cs' : Caps}
    (hr : r.groupBodies = []) (h : (e, cs') ∈ (Regex.seq r t).ends s i cs) :
    ∃ m, r.Spans s i m ∧ (e, cs') ∈ t.ends s m cs := by
  obtain ⟨m, cs₁, h₁, h₂⟩ := Regex.mem_ends_seq.1 h
  obtain rfl := caps_of_groupBodies_nil hr h₁
  exact ⟨m, Regex.spans_of_mem_ends h₁, h₂⟩

/-- A match of `(r) t` with `r` free of groups records the group's span before `t` runs. -/
theorem Regex.mem_ends_seq_group {s : List Char} {n : Nat} {r t : Regex} {i e : Nat}
    {cs cs' : Caps} (hr : r.groupBodies = []) (h : (e, cs') ∈ (Regex.seq (.group n r) t).ends s i cs) :
    ∃ m, r.Spans s i m ∧ (e, cs') ∈ t.ends s m ((n, i, m) :: cs) := by
  obtain ⟨m, cs₁, h₁, h₂⟩ := Regex.mem_ends_seq.1 h
  obtain ⟨cs₂, h₃, rfl⟩ := Regex.mem_ends_group.1 h₁
  obtain rfl := caps_of_groupBodies_nil hr h₃
  exact ⟨m, Regex.spans_of_mem_ends h₃, h₂⟩

/-- Matching the patterns `xs ++ ys` in a row is matching `xs`, then `ys` from each way `xs`
    can stop, in that order. -/
theorem Regex.ends_seqs_append (s : List Char) {xs ys : List Regex} (hx : xs ≠ []) (hy : ys ≠ [])
    (i : Nat) (cs : Caps) :
    (Regex.seqs (xs ++ ys)).ends s i cs =
      ((Regex.seqs xs).ends s i cs).flatMap fun e => (Regex.seqs ys).ends s e.1 e.2 := by
  induction xs generalizing i cs with
  | nil => exact absurd rfl hx
  | cons x xs ih =>
    cases xs with
    | nil =>
      obtain ⟨y, ys, rfl⟩ := List.exists_cons_of_ne_nil hy
      rfl
    | cons x' xs =>
      show ((x.ends s i cs).flatMap fun e => (Regex.seqs (x' :: xs ++ ys)).ends s e.1 e.2) =
        ((x.ends s i cs).flatMap fun e => (Regex.seqs (x' :: xs)).ends s e.1 e.2).flatMap _
      rw [List.flatMap_assoc]
      exact congrArg _ (funext fun e => ih (List.cons_ne_nil _ _) _ _)

/-- When every way `r` can stop is the same, the first match of `r t` is the first match of `t`
    from there. -/
theorem head?_flatMap_of_forall_eq {α β : Type} {L : List α} {f : α → List β} {a : α} (ha : a ∈ L)
    (hall : ∀ b ∈ L, b = a) : (L.flatMap f).head? = (f a).head? := by
  rw [List.head?_flatMap]
  induction L with
  | nil => cases ha
  | cons b L ih =>
    obtain rfl := hall b (.head _)
    rw [List.findSome?_cons]
    cases hf : (f b).head? with
    | some y => rfl
    | none =>
      cases L with
      | nil => rfl
      | cons c L =>
        obtain rfl := hall c (.tail _ (.head _))
        exact (ih (.head _) fun x hx => hall x (.tail _ hx)).trans hf

/-- **`sre`'s repetition is greedy.** The first match of `k{lo,}` followed by `t` stops the run
    at `j`, the longest run after which `t` matches: from every longer run `t` fails. -/
theorem Regex.head_ends_seq_rep {s : List Char} {k : CharSet} {lo : Nat} {t : Regex} {i : Nat}
    {cs : Caps} {x : Nat × Caps} (h : ((Regex.seq (.rep k lo none) t).ends s i cs).head? = some x) :
    ∃ j, (Regex.rep k lo none).Spans s i j ∧ (t.ends s j cs).head? = some x ∧
      ∀ j', j < j' → (Regex.rep k lo none).Spans s i j' → t.ends s j' cs = [] := by
  set n := runLen k (s.drop i)
  have hends : (Regex.rep k lo none).ends s i cs = (List.range (n + 1 - lo)).map fun d => (i + n - d, cs) := rfl
  have hget : ∀ d, ((List.range (n + 1 - lo)).map fun d => (i + n - d, cs))[d]? =
      if d < n + 1 - lo then some (i + n - d, cs) else none := fun d => by
    split
    · simp [List.getElem?_range, *]
    · simp [List.getElem?_eq_none (show (List.range (n + 1 - lo)).length ≤ d by simpa using by omega)]

  rw [Regex.ends, hends, List.head?_flatMap, List.findSome?_eq_some_iff] at h
  obtain ⟨l₁, a, l₂, hl, ha, hbefore⟩ := h
  have hd := hget l₁.length
  rw [hl, List.getElem?_append_right (le_refl _), Nat.sub_self, List.getElem?_cons_zero] at hd
  split at hd
  · obtain rfl := Option.some.inj hd
    have hspan : ∀ j, (Regex.rep k lo none).Spans s i j ↔ i + lo ≤ j ∧ j ≤ i + n := fun j => by
      simp [allIn_iff_le_runLen, n]
    refine ⟨i + n - l₁.length, (hspan _).2 ⟨by omega, by omega⟩, ha, fun j' hj' hs => ?_⟩
    obtain ⟨hlo, hle⟩ := (hspan j').1 hs
    have hd' := hget (i + n - j')
    rw [hl, List.getElem?_append_left (by omega), if_pos (by omega)] at hd'
    have hmem := hbefore _ (List.getElem?_mem hd')
    rwa [Nat.sub_sub_self hle, List.head?_eq_none_iff] at hmem
  · cases hd

/-- What a search that succeeds returns: a match of the pattern from an index it tried, and not
    the empty match at `i` when it must advance. -/
theorem searchAux_some {r : Regex} {s : List Char} {m : Match} :
    ∀ {k i ma}, searchAux r s k i ma = some m →
      i ≤ m.start ∧ m.start < i + k ∧ (m.stop, m.caps) ∈ r.ends s m.start [] ∧
        (ma = true → m.start = i → m.stop ≠ i)
  | 0, _, _, h => by cases h
  | k + 1, i, ma, h => by
    simp only [searchAux] at h
    cases hm : matchAt r s i ma with
    | none =>
      obtain ⟨h1, h2, h3, -⟩ := searchAux_some (by simpa [hm] using h)
      exact ⟨by omega, by omega, h3, fun _ hs => absurd hs (by omega)⟩
    | some m' =>
      obtain rfl : m' = m := by simpa [hm] using h
      obtain ⟨e, he, rfl⟩ := Option.map_eq_some'.1 hm
      have hp := List.find?_some he
      refine ⟨le_refl _, show i < i + (k + 1) by omega, List.mem_of_find?_eq_some he,
        fun hma _ hstop => ?_⟩
      simp_all

/-- A match `finditer` yields is one of the pattern's matches from its start. -/
theorem ends_of_mem_finditer {r : Regex} {s : List Char} {m : Match} (h : m ∈ finditer r s) :
    (m.stop, m.caps) ∈ r.ends s m.start [] := by
  have hiter : ∀ k i ma, m ∈ finditerAux r s k i ma → (m.stop, m.caps) ∈ r.ends s m.start [] := by
    intro k
    induction k with
    | zero => intro _ _ h; cases h
    | succ k ih =>
      intro i ma h
      simp only [finditerAux] at h
      split at h
      · cases h
      · rcases List.mem_cons.1 h with rfl | h
        · exact (searchAux_some ‹_›).2.2.1
        · exact ih _ _ h
  exact hiter _ _ _ h

/-- The span of a recorded group of a match is the span of a body of that group. -/
theorem Match.span_spans {r : Regex} {s : List Char} {m : Match} {g a b : Nat}
    (hm : (m.stop, m.caps) ∈ r.ends s m.start []) (hg : g ≠ 0) (h : m.span g = some (a, b)) :
    ∃ body, (g, body) ∈ r.groupBodies ∧ body.Spans s a b := by
  simp only [Match.span, hg, if_false, Option.map_eq_some'] at h
  obtain ⟨x, hx, hab⟩ := h
  obtain ⟨new, hnew, hall⟩ := Regex.ends_caps hm
  have hxg : x.1 = g := by simpa using List.find?_some hx
  obtain ⟨body, hb, hs⟩ := hall x (by simpa [hnew] using List.mem_of_find?_eq_some hx)
  rw [hab] at hs
  exact ⟨body, hxg ▸ hb, hs⟩

/-- A group that every match records has a span. -/
theorem Match.span_isSome {r : Regex} {s : List Char} {m : Match} {g : Nat}
    (hm : (m.stop, m.caps) ∈ r.ends s m.start []) (hr : r.records g = true) :
    (m.span g).isSome := by
  obtain ⟨x, hx, rfl⟩ := Regex.ends_records hr hm
  unfold Match.span
  split
  · rfl
  · rw [Option.isSome_map']
    exact List.find?_isSome.2 ⟨x, hx, by simp⟩

/-- A match ends at or after its start. -/
theorem Regex.Spans.le {s : List Char} {r : Regex} {i e : Nat} (h : r.Spans s i e) : i ≤ e := by
  induction r generalizing i e with
  | seq r t ihr iht => obtain ⟨m, h1, h2⟩ := h; exact (ihr h1).trans (iht h2)
  | alt r t ihr iht => exact h.elim ihr iht
  | group n r ih => exact ih h
  | rep k lo hi => exact le_trans (Nat.le_add_right _ _) h.1
  | set k => exact h.1 ▸ Nat.le_succ i
  | eps => exact le_of_eq h.symm
  | endLine | endText | boundary | ahead | notAfter => exact le_of_eq h.1.symm

/-- A match from an index of the text ends inside the text. -/
theorem Regex.Spans.le_length {s : List Char} {r : Regex} {i e : Nat} (h : r.Spans s i e)
    (hi : i ≤ s.length) : e ≤ s.length := by
  induction r generalizing i e with
  | seq r t ihr iht => obtain ⟨m, h1, h2⟩ := h; exact iht h2 (ihr h1 hi)
  | alt r t ihr iht => exact h.elim (ihr · hi) (iht · hi)
  | group n r ih => exact ih h hi
  | rep k lo hi' =>
    rcases Nat.lt_or_ge i e with hlt | hge
    · obtain ⟨c, hc, -⟩ := h.2.1 (e - 1) (by omega) (by omega)
      have := (List.getElem?_eq_some_iff.1 hc).1
      omega
    · omega
  | set k =>
    obtain ⟨rfl, c, hc, -⟩ := h
    exact (List.getElem?_eq_some_iff.1 hc).1
  | eps => exact h ▸ hi
  | endLine | endText | boundary | ahead | notAfter => exact h.1 ▸ hi

/-- The group of a pattern that is one group `n` is the whole match. -/
theorem Match.span_outer {r : Regex} {s : List Char} {m : Match} {n : Nat} (hn : n ≠ 0)
    (hm : (m.stop, m.caps) ∈ (Regex.group n r).ends s m.start []) :
    m.span n = some (m.start, m.stop) ∧ m.start ≤ m.stop := by
  obtain ⟨⟨e0, cs0⟩, h0, he⟩ := List.mem_map.1 hm
  obtain ⟨rfl, hcaps⟩ := Prod.mk.inj he
  refine ⟨?_, ((mem_ends_iff_spans s r _ _ []).1 ((mem_map_fst _ _).2 ⟨_, h0⟩)).le⟩
  simp [Match.span, hn, ← hcaps]

/-- The captures a match adds lie inside the match. -/
theorem Regex.ends_caps_within {s : List Char} {r : Regex} {i e : Nat} {cs cs' : Caps}
    (h : (e, cs') ∈ r.ends s i cs) : ∃ new, cs' = new ++ cs ∧ ∀ x ∈ new, i ≤ x.2.1 ∧ x.2.2 ≤ e := by
  induction r generalizing i e cs cs' with
  | seq r t ihr iht =>
    obtain ⟨⟨m, mcs⟩, hm, he⟩ := List.mem_flatMap.1 h
    obtain ⟨n1, rfl, h1⟩ := ihr hm
    obtain ⟨n2, rfl, h2⟩ := iht he
    have him := (Regex.spans_of_mem_ends hm).le
    have hme := (Regex.spans_of_mem_ends he).le
    refine ⟨n2 ++ n1, by simp, fun x hx => ?_⟩
    rcases List.mem_append.1 hx with hx | hx
    · exact ⟨him.trans (h2 x hx).1, (h2 x hx).2⟩
    · exact ⟨(h1 x hx).1, (h1 x hx).2.trans hme⟩
  | alt r t ihr iht => exact (List.mem_append.1 h).elim ihr iht
  | group n r ih =>
    obtain ⟨cs₁, h₁, rfl⟩ := Regex.mem_ends_group.1 h
    obtain ⟨n1, rfl, h1⟩ := ih h₁
    refine ⟨(n, i, e) :: n1, rfl, fun x hx => ?_⟩
    rcases List.mem_cons.1 hx with rfl | hx
    · exact ⟨le_refl _, le_refl _⟩
    · exact h1 x hx
  | _ => exact ⟨[], caps_of_groupBodies_nil (by rfl) h, by simp⟩

/-- A character of a group of a match is a character of the text inside the match. -/
theorem Match.mem_group {r : Regex} {s : List Char} {m : Match} {g : Nat} {c : Char}
    (hm : (m.stop, m.caps) ∈ r.ends s m.start []) (hc : c ∈ m.group s g) :
    ∃ j, m.start ≤ j ∧ j < m.stop ∧ s[j]? = some c := by
  unfold Match.group at hc
  split at hc
  · rename_i a b hab
    have hin : m.start ≤ a ∧ b ≤ m.stop := by
      unfold Match.span at hab
      split at hab
      · cases hab; exact ⟨le_refl _, le_refl _⟩
      · obtain ⟨x, hx, hxab⟩ := Option.map_eq_some'.1 hab
        obtain ⟨new, hnew, hall⟩ := Regex.ends_caps_within hm
        simpa [hxab] using hall x (by simpa [hnew] using List.mem_of_find?_eq_some hx)
    obtain ⟨n, hn⟩ := List.mem_iff_getElem?.1 hc
    have hlt : n < b - a := by
      have := (List.getElem?_eq_some_iff.1 hn).1
      rw [List.length_take] at this
      omega
    rw [List.getElem?_take_of_lt hlt, List.getElem?_drop] at hn
    exact ⟨a + n, by omega, by omega, hn⟩
  · cases hc

/-! ## §6 Enough fuel

`finditer` runs its loop with fuel `2 * |s| + 2`. Each search starts where the last match
ended, and after an empty match the next one must advance, so `finditerBound` drops by at least
one per match: the fuel never runs out before a search fails. -/

/-- The most matches `finditerAux` can still yield from index `i`. -/
def finditerBound (s : List Char) (i : Nat) (ma : Bool) : Nat :=
  2 * (s.length - i) + if ma then 1 else 2

/-- A search that succeeds leaves a smaller bound for the next one. -/
theorem finditerBound_next {r : Regex} {s : List Char} {i : Nat} {ma : Bool} {m : Match}
    (h : searchFrom r s i ma = some m) :
    finditerBound s m.stop (m.stop == m.start) + 1 ≤ finditerBound s i ma := by
  obtain ⟨h1, h2, h3, h4⟩ := searchAux_some h
  have hspan := (mem_ends_iff_spans s r _ _ []).1 ((mem_map_fst _ _).2 ⟨_, h3⟩)
  have hle := hspan.le
  have hlen := hspan.le_length (by omega)
  unfold finditerBound
  by_cases he : m.stop = m.start
  · have hadv : ma = true → m.start ≠ i := fun hma hs => h4 hma hs (he.trans hs)
    simp only [he, beq_self_eq_true, if_true]
    cases ma
    · simp only [Bool.false_eq_true, if_false]
      omega
    · have := hadv rfl
      simp only [if_true]
      omega
  · simp only [beq_eq_false_iff_ne.2 he, Bool.false_eq_true, if_false]
    split <;> omega

/-- **Enough fuel.** With fuel at or above the bound, `finditerAux` yields the same matches. -/
theorem finditerAux_fuel (r : Regex) (s : List Char) :
    ∀ K K' i ma, finditerBound s i ma ≤ K → finditerBound s i ma ≤ K' →
      finditerAux r s K i ma = finditerAux r s K' i ma := by
  intro K
  induction K with
  | zero =>
    intro K' i ma h
    unfold finditerBound at h
    split at h <;> omega
  | succ K ih =>
    intro K' i ma hK hK'
    obtain ⟨K', rfl⟩ : ∃ k, K' = k + 1 := ⟨K' - 1, by unfold finditerBound at hK'; split at hK' <;> omega⟩
    simp only [finditerAux]
    split
    · rfl
    · rename_i m hm
      have := finditerBound_next hm
      rw [ih K' _ _ (by omega) (by omega)]

/-- `finditer`'s fuel is the bound at the start, so more fuel yields no more matches. -/
theorem finditer_fuel (r : Regex) (s : List Char) (K : Nat) (hK : 2 * s.length + 2 ≤ K) :
    finditerAux r s K 0 false = finditer r s :=
  finditerAux_fuel r s K _ 0 false (by simpa [finditerBound] using hK) (by simp [finditerBound])

end RustyDb.Python
