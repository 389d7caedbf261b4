import RustyDb.Python.RegexSpec

/-!
# What `re.sub` Leaves Behind

`re.sub` copies the text between the matches `finditer` yields and writes a
replacement for each. This module proves the facts about that splice that do
not depend on the pattern:

- a pattern without anchors, boundaries or lookarounds (`Regex.Local`)
  reads only the characters it spans, so its spans move with the text around
  them (`Regex.spans_shift`);
- a search returns the leftmost match, so no span starts in the text `sub`
  copies (`searchAux_none_spans`, `searchAux_some_spans`);
- hence, when no span can start inside a replacement or run into one from
  the text before it, the output has no match at all (`not_occurs_subWith`);
- a replacement that keeps its match leaves the first match in place
  (`occurs_subWith_of_keep`) and lengthens the text by what it adds
  (`spliceFrom_length_keep`).
-/

namespace RustyDb.Python

/-! ## §1 Patterns that read only what they span -/

/-- A pattern with no anchor, boundary or lookaround. -/
def Regex.Local : Regex → Bool
  | .eps | .set _ | .rep .. => true
  | .seq r t | .alt r t => r.Local && t.Local
  | .group _ r => r.Local
  | _ => false

@[simp] theorem Regex.lit_local : ∀ w : List Char, (Regex.lit w).Local = true
  | [] => rfl
  | [_] => rfl
  | _ :: d :: w => by
    simp only [Regex.lit, Regex.Local, Bool.and_eq_true]
    exact ⟨trivial, Regex.lit_local (d :: w)⟩

/-- **Spans move with their text.** A local pattern spans `[i, e)` of `s` exactly when it
    spans `[i + d, e + d)` of a text that holds the same characters there. -/
theorem Regex.spans_shift {r : Regex} (hr : r.Local = true) {s t : List Char} (d : Nat) :
    ∀ {i e : Nat}, (∀ x, i ≤ x → x < e → s[x]? = t[x + d]?) →
      (r.Spans s i e ↔ r.Spans t (i + d) (e + d)) := by
  induction r with
  | eps => intro i e _; simp
  | set k =>
    intro i e h
    simp only [Regex.set_spans]
    constructor
    · rintro ⟨rfl, c, hc, hk⟩
      exact ⟨by omega, c, (h i le_rfl (by omega)) ▸ hc, hk⟩
    · rintro ⟨he, c, hc, hk⟩
      obtain rfl : e = i + 1 := by omega
      exact ⟨rfl, c, (h i le_rfl (by omega)).trans hc, hk⟩
  | rep k lo hi =>
    intro i e h
    simp only [Regex.rep_spans, AllIn]
    constructor
    · rintro ⟨h1, h2, h3⟩
      refine ⟨by omega, fun j hj hje => ?_, fun x hx => by have := h3 x hx; omega⟩
      obtain ⟨c, hc, hk⟩ := h2 (j - d) (by omega) (by omega)
      exact ⟨c, by rw [← Nat.sub_add_cancel (show d ≤ j by omega), ← h _ (by omega) (by omega), hc],
        hk⟩
    · rintro ⟨h1, h2, h3⟩
      refine ⟨by omega, fun j hj hje => ?_, fun x hx => by have := h3 x hx; omega⟩
      obtain ⟨c, hc, hk⟩ := h2 (j + d) (by omega) (by omega)
      exact ⟨c, (h j hj hje).trans hc, hk⟩
  | seq r t ihr iht =>
    intro i e h
    simp only [Regex.Local, Bool.and_eq_true] at hr
    simp only [Regex.seq_spans]
    constructor
    · rintro ⟨m, h1, h2⟩
      have := h1.le; have := h2.le
      exact ⟨m + d, (ihr hr.1 fun x h1 h2 => h x h1 (by omega)).1 h1,
        (iht hr.2 fun x h1 h2 => h x (by omega) h2).1 h2⟩
    · rintro ⟨m, h1, h2⟩
      have := h1.le; have := h2.le
      obtain ⟨m, rfl⟩ : ∃ m', m = m' + d := ⟨m - d, by omega⟩
      exact ⟨m, (ihr hr.1 fun x h1 h2 => h x h1 (by omega)).2 h1,
        (iht hr.2 fun x h1 h2 => h x (by omega) h2).2 h2⟩
  | alt r t ihr iht =>
    intro i e h
    simp only [Regex.Local, Bool.and_eq_true] at hr
    exact or_congr (ihr hr.1 h) (iht hr.2 h)
  | group n r ih => exact ih hr
  | endLine | endText | boundary | ahead | notAfter => cases hr

/-- A local pattern spans the same text after any prefix. -/
theorem Regex.spans_append_left {r : Regex} (hr : r.Local = true) (u s : List Char) (i e : Nat) :
    r.Spans (u ++ s) (i + u.length) (e + u.length) ↔ r.Spans s i e :=
  (Regex.spans_shift hr u.length fun x _ _ => by
    rw [List.getElem?_append_right (by omega), Nat.add_sub_cancel]).symm

/-- A span depends only on the characters it covers. -/
theorem Regex.Spans.congr {r : Regex} (hr : r.Local = true) {s t : List Char} {i e : Nat}
    (h : ∀ x, i ≤ x → x < e → s[x]? = t[x]?) (hs : r.Spans s i e) : r.Spans t i e :=
  (Regex.spans_shift hr 0 h).1 hs

/-- A span of the rest of the text from `i` is a span of the text. -/
theorem Regex.spans_of_drop {r : Regex} (hr : r.Local = true) {s : List Char} {i j e : Nat}
    (hi : i ≤ s.length) (h : r.Spans (s.drop i) j e) : r.Spans s (j + i) (e + i) := by
  have := (Regex.spans_append_left hr (s.take i) (s.drop i) j e).2 h
  rwa [List.take_append_drop, List.length_take, Nat.min_eq_left hi] at this

/-- A span that is not empty starts at a character of the text. -/
theorem Regex.Spans.lt_length {s : List Char} {r : Regex} {i e : Nat} (h : r.Spans s i e)
    (hie : i < e) : i < s.length := by
  induction r generalizing i e with
  | eps => exact absurd (show e = i from h) (by omega)
  | set k =>
    obtain ⟨-, c, hc, -⟩ := h
    exact (List.getElem?_eq_some_iff.1 hc).1
  | rep k lo hi =>
    obtain ⟨c, hc, -⟩ := h.2.1 i le_rfl hie
    exact (List.getElem?_eq_some_iff.1 hc).1
  | seq r t ihr iht =>
    obtain ⟨m, h1, h2⟩ := h
    rcases Nat.lt_or_ge i m with him | hmi
    · exact ihr h1 him
    · obtain rfl : m = i := le_antisymm hmi h1.le
      exact iht h2 hie
  | alt r t ihr iht => exact h.elim (ihr · hie) (iht · hie)
  | group n r ih => exact ih h hie
  | endLine | endText | boundary | ahead | notAfter => exact absurd h.1 (by omega)

/-- No character the pattern can match is `c`. -/
def Regex.Avoids (c : Char) : Regex → Bool
  | .set k | .rep k .. => !k.mem c
  | .seq r t | .alt r t => r.Avoids c && t.Avoids c
  | .group _ r => r.Avoids c
  | _ => true

/-- A span of a pattern that avoids `c` holds no `c`. -/
theorem Regex.Spans.avoids {s : List Char} {r : Regex} {c : Char} {i e : Nat} (h : r.Spans s i e)
    (hc : r.Avoids c = true) : ∀ x, i ≤ x → x < e → s[x]? ≠ some c := by
  induction r generalizing i e with
  | set k =>
    obtain ⟨rfl, d, hd, hk⟩ := h
    intro x hx hxe heq
    obtain rfl : x = i := by omega
    obtain rfl : d = c := Option.some_inj.1 (hd.symm.trans heq)
    simp [Regex.Avoids, hk] at hc
  | rep k lo hi =>
    intro x hx hxe heq
    obtain ⟨d, hd, hk⟩ := h.2.1 x hx hxe
    obtain rfl : d = c := Option.some_inj.1 (hd.symm.trans heq)
    simp [Regex.Avoids, hk] at hc
  | seq r t ihr iht =>
    simp only [Regex.Avoids, Bool.and_eq_true] at hc
    obtain ⟨m, h1, h2⟩ := h
    intro x hx hxe
    rcases Nat.lt_or_ge x m with hxm | hxm
    · exact ihr h1 hc.1 x hx hxm
    · exact iht h2 hc.2 x hxm hxe
  | alt r t ihr iht =>
    simp only [Regex.Avoids, Bool.and_eq_true] at hc
    exact h.elim (ihr · hc.1) (iht · hc.2)
  | group n r ih => exact ih h hc
  | eps => intro x hx hxe; exact absurd (show e = i from h) (by omega)
  | endLine | endText | boundary | ahead | notAfter => intro x hx hxe; exact absurd h.1 (by omega)

/-- The text a recorded group captures, read on its own, is spanned by the group's body. -/
theorem Match.group_spans {r body : Regex} {s : List Char} {m : Match} {g : Nat}
    (hm : (m.stop, m.caps) ∈ r.ends s m.start []) (hg : g ≠ 0) (hrec : r.records g = true)
    (hbody : ∀ b, (g, b) ∈ r.groupBodies → b = body) (hl : body.Local = true) (z : List Char) :
    body.Spans (m.group s g ++ z) 0 (m.group s g).length := by
  obtain ⟨⟨a, b⟩, hab⟩ := Option.isSome_iff_exists.1 (Match.span_isSome hm hrec)
  obtain ⟨body', hb, hsp⟩ := Match.span_spans hm hg hab
  obtain rfl := hbody _ hb
  have hlen : ((s.drop a).take (b - a)).length = b - a := by
    rcases Nat.lt_or_ge a b with hlt | hge
    · have := hsp.le_length (hsp.lt_length hlt).le
      simp only [List.length_take, List.length_drop]; omega
    · simp only [List.length_take]; omega
  simp only [Match.group, hab]
  have := (Regex.spans_shift hl a (s := (s.drop a).take (b - a) ++ z) (t := s) (i := 0)
    (e := ((s.drop a).take (b - a)).length) fun x _ hx => by
      rw [List.getElem?_append_left hx, List.getElem?_take_of_lt (by omega), List.getElem?_drop,
        Nat.add_comm]).2
  rw [hlen, Nat.zero_add, Nat.sub_add_cancel hsp.le] at this
  rw [hlen]
  exact this hsp

/-! ## §2 Searches are leftmost -/

/-- A span from `i` that `matchAt` passes over is an empty one it had to skip. -/
theorem matchAt_none_spans {r : Regex} {s : List Char} {i e : Nat} {ma : Bool}
    (h : matchAt r s i ma = none) (he : r.Spans s i e) : ma = true ∧ e = i := by
  obtain ⟨cs, hcs⟩ := (mem_map_fst _ _).1 ((mem_ends_iff_spans s r i e []).2 he)
  simp only [matchAt, Option.map_eq_none', List.find?_eq_none] at h
  simpa using h _ hcs

/-- A search that fails passed over no span from the indices it tried. -/
theorem searchAux_none_spans {r : Regex} {s : List Char} :
    ∀ {k i : Nat} {ma : Bool}, searchAux r s k i ma = none → ∀ {j e : Nat}, i ≤ j → j < i + k →
      r.Spans s j e → ma = true ∧ j = i ∧ e = i
  | 0, _, _, _, _, _, hij, hjk, _ => absurd hjk (by omega)
  | k + 1, i, ma, h, j, e, hij, hjk, hs => by
    cases hm : matchAt r s i ma with
    | some m' => simp [searchAux, hm] at h
    | none =>
      have h' : searchAux r s k (i + 1) false = none := by simpa [searchAux, hm] using h
      rcases Nat.eq_or_lt_of_le hij with rfl | hlt
      · exact ⟨(matchAt_none_spans hm hs).1, rfl, (matchAt_none_spans hm hs).2⟩
      · exact absurd (searchAux_none_spans h' (show i + 1 ≤ j by omega) (by omega) hs).1 (by simp)

/-- A search that succeeds passed over no span before the match it returns. -/
theorem searchAux_some_spans {r : Regex} {s : List Char} {m : Match} :
    ∀ {k i : Nat} {ma : Bool}, searchAux r s k i ma = some m → ∀ {j e : Nat}, i ≤ j →
      j < m.start → r.Spans s j e → ma = true ∧ j = i ∧ e = i
  | 0, _, _, h, _, _, _, _, _ => by cases h
  | k + 1, i, ma, h, j, e, hij, hjm, hs => by
    cases hm : matchAt r s i ma with
    | some m' =>
      obtain rfl : m' = m := by simpa [searchAux, hm] using h
      obtain ⟨_, -, rfl⟩ := Option.map_eq_some'.1 hm
      exact absurd hjm (by simp only; omega)
    | none =>
      have h' : searchAux r s k (i + 1) false = some m := by simpa [searchAux, hm] using h
      rcases Nat.eq_or_lt_of_le hij with rfl | hlt
      · exact ⟨(matchAt_none_spans hm hs).1, rfl, (matchAt_none_spans hm hs).2⟩
      · exact absurd (searchAux_some_spans h' (show i + 1 ≤ j by omega) hjm hs).1 (by simp)

/-- A match a search returns lies inside the text, after the index the search started at. -/
theorem searchFrom_bounds {r : Regex} {s : List Char} {i : Nat} {ma : Bool} {m : Match}
    (h : searchFrom r s i ma = some m) :
    i ≤ m.start ∧ m.start ≤ m.stop ∧ m.stop ≤ s.length ∧ (m.stop, m.caps) ∈ r.ends s m.start [] := by
  obtain ⟨h1, h2, h3, -⟩ := searchAux_some h
  have hspan := (mem_ends_iff_spans s r _ _ []).1 ((mem_map_fst _ _).2 ⟨_, h3⟩)
  exact ⟨h1, hspan.le, hspan.le_length (by omega), h3⟩

theorem finditer_of_search {r : Regex} {s : List Char} {m : Match} (h : search r s = some m) :
    finditer r s = m :: finditerAux r s (2 * s.length + 1) m.stop (m.stop == m.start) := by
  simp only [finditer, finditerAux]
  rw [show searchFrom r s 0 false = some m from h]

theorem finditer_of_search_none {r : Regex} {s : List Char} (h : search r s = none) :
    finditer r s = [] := by
  simp only [finditer, finditerAux]
  rw [show searchFrom r s 0 false = none from h]

/-- Without a match, `re.sub` returns the text unchanged. -/
theorem subWith_of_not_occurs {r : Regex} {s : List Char} (f : Match → List Char)
    (h : ¬ Occurs r s) : subWith r f s none = s := by
  have hnone : search r s = none := Option.not_isSome_iff_eq_none.1 fun hs =>
    h ((search_isSome_iff r s).1 hs)
  simp [subWith, finditer_of_search_none hnone, spliceFrom]

/-- `re.sub(..., count=1)` replaces the first match only. -/
theorem subWith_one {r : Regex} {s : List Char} (f : Match → List Char) {m : Match}
    (h : search r s = some m) : subWith r f s (some 1) = s.take m.start ++ f m ++ s.drop m.stop := by
  simp [subWith, finditer_of_search h, spliceFrom]

/-- The characters of a run of `k`-characters are `k`-characters. -/
theorem mem_of_allIn {k : CharSet} {s : List Char} {i e : Nat} (h : AllIn k s i e) :
    ∀ c ∈ (s.drop i).take (e - i), k.mem c = true := by
  intro c hc
  obtain ⟨n, hn⟩ := List.mem_iff_getElem?.1 hc
  have hlt : n < e - i := by
    have := (List.getElem?_eq_some_iff.1 hn).1
    rw [List.length_take] at this
    omega
  rw [List.getElem?_take_of_lt hlt, List.getElem?_drop] at hn
  obtain ⟨d, hd, hk⟩ := h (i + n) (by omega) (by omega)
  rw [hd] at hn
  exact Option.some_inj.1 hn ▸ hk

/-! ## §3 No match survives -/

section Survive
variable {r : Regex} {s : List Char} {f : Match → List Char}

/-- The splice from index `i` has no span when none can start inside a replacement, nor run
    into one from the text before it: a span in copied text would be a span the search passed
    over. -/
theorem not_spans_spliceFrom (hr : r.Local = true) (hne : ∀ t i e, r.Spans t i e → i < e)
    (hin : ∀ m, (m.stop, m.caps) ∈ r.ends s m.start [] →
      ∀ z j e, j < (f m).length → ¬ r.Spans (f m ++ z) j e)
    (hinto : ∀ m, (m.stop, m.caps) ∈ r.ends s m.start [] →
      ∀ x z j e, j < x.length → x.length < e → ¬ r.Spans (x ++ (f m ++ z)) j e) :
    ∀ K i ma, finditerBound s i ma ≤ K →
      ∀ j e, ¬ r.Spans (spliceFrom s f i (finditerAux r s K i ma)) j e := by
  intro K
  induction K with
  | zero => intro i ma hK; unfold finditerBound at hK; split at hK <;> omega
  | succ K ih =>
    intro i ma hK j e hspan
    simp only [finditerAux] at hspan
    split at hspan
    · rename_i hnone
      simp only [spliceFrom] at hspan
      have hj := hspan.lt_length (hne _ _ _ hspan)
      rw [List.length_drop] at hj
      have := searchAux_none_spans hnone (show i ≤ j + i by omega) (by omega)
        (Regex.spans_of_drop hr (by omega) hspan)
      exact absurd (hne _ _ _ hspan) (by omega)
    · rename_i m hm
      obtain ⟨h1, h2, h3, hends⟩ := searchFrom_bounds hm
      simp only [spliceFrom, List.append_assoc] at hspan
      have hX : ((s.drop i).take (m.start - i)).length = m.start - i := by
        simp only [List.length_take, List.length_drop]; omega
      rcases Nat.lt_or_ge j (m.start - i) with hj | hj
      · rcases Nat.lt_or_ge (m.start - i) e with he | he
        · exact hinto m hends _ _ j e (by omega) (by omega) hspan
        · have hcopy := (Regex.spans_shift hr i fun x _ hx => by
            rw [List.getElem?_append_left (by omega), List.getElem?_take_of_lt (by omega),
              List.getElem?_drop, Nat.add_comm]).1 hspan
          have := searchAux_some_spans hm (show i ≤ j + i by omega) (by omega) hcopy
          exact absurd (hne _ _ _ hspan) (by omega)
      · have hle := hspan.le
        have hfm : r.Spans (f m ++ spliceFrom s f m.stop (finditerAux r s K m.stop (m.stop == m.start)))
            (j - (m.start - i)) (e - (m.start - i)) := by
          rwa [← Regex.spans_append_left hr ((s.drop i).take (m.start - i)), hX,
            Nat.sub_add_cancel hj, Nat.sub_add_cancel (by omega)]
        rcases Nat.lt_or_ge (j - (m.start - i)) (f m).length with hj2 | hj2
        · exact hin m hends _ _ _ hj2 hfm
        · have hle' := hfm.le
          refine ih m.stop (m.stop == m.start) (by have := finditerBound_next hm; omega)
            (j - (m.start - i) - (f m).length) (e - (m.start - i) - (f m).length) ?_
          rwa [← Regex.spans_append_left hr (f m), Nat.sub_add_cancel hj2,
            Nat.sub_add_cancel (by omega)]

/-- **No match survives.** If no span of a local pattern without empty spans can start inside
    a replacement or run into one from the text before it, `re.sub` leaves no match. -/
theorem not_occurs_subWith (hr : r.Local = true) (hne : ∀ t i e, r.Spans t i e → i < e)
    (hin : ∀ m, (m.stop, m.caps) ∈ r.ends s m.start [] →
      ∀ z j e, j < (f m).length → ¬ r.Spans (f m ++ z) j e)
    (hinto : ∀ m, (m.stop, m.caps) ∈ r.ends s m.start [] →
      ∀ x z j e, j < x.length → x.length < e → ¬ r.Spans (x ++ (f m ++ z)) j e) :
    ¬ Occurs r (subWith r f s none) := by
  rintro ⟨j, -, e, h⟩
  exact not_spans_spliceFrom hr hne hin hinto _ 0 false (by simp [finditerBound]) j e h

end Survive

/-! ## §4 Replacements that keep their match -/

/-- Matches in order from index `i`, each inside the text. -/
def Chain (s : List Char) : Nat → List Match → Prop
  | _, [] => True
  | i, m :: ms => i ≤ m.start ∧ m.start ≤ m.stop ∧ m.stop ≤ s.length ∧ Chain s m.stop ms

theorem chain_finditerAux (r : Regex) (s : List Char) :
    ∀ K i ma, Chain s i (finditerAux r s K i ma) := by
  intro K
  induction K with
  | zero => intro _ _; trivial
  | succ K ih =>
    intro i ma
    simp only [finditerAux]
    split
    · trivial
    · rename_i m hm
      obtain ⟨h1, h2, h3, -⟩ := searchFrom_bounds hm
      exact ⟨h1, h2, h3, ih _ _⟩

/-- A replacement that keeps its match and appends `y` adds one `y` per match. -/
theorem spliceFrom_length_keep {s : List Char} {f : Match → List Char} (y : List Char) :
    ∀ i ms, Chain s i ms → (∀ m ∈ ms, f m = (s.drop m.start).take (m.stop - m.start) ++ y) →
      (spliceFrom s f i ms).length = s.length - i + ms.length * y.length
  | i, [], _, _ => by simp [spliceFrom]
  | i, m :: ms, ⟨h1, h2, h3, hc⟩, hf => by
    have ih := spliceFrom_length_keep y m.stop ms hc fun m' hm' => hf m' (.tail _ hm')
    simp only [spliceFrom, List.length_append, hf m (.head _), List.length_take, List.length_drop,
      ih, List.length_cons, Nat.succ_mul]
    omega

/-- Matches that all end before a suffix leave the suffix as it was. -/
theorem spliceFrom_append_right {x t : List Char} (f : Match → List Char) :
    ∀ i ms, i ≤ x.length → Chain (x ++ t) i ms → (∀ m ∈ ms, m.stop ≤ x.length) →
      spliceFrom (x ++ t) f i ms = spliceFrom x f i ms ++ t
  | i, [], hi, _, _ => by simp [spliceFrom, List.drop_append_of_le_length hi]
  | i, m :: ms, hi, ⟨h1, h2, _, hc⟩, hs => by
    have hm := hs m (.head _)
    have ht : m.start - i ≤ (x.drop i).length := by rw [List.length_drop]; omega
    simp only [spliceFrom, List.drop_append_of_le_length hi, List.take_append_of_le_length ht,
      List.append_assoc, spliceFrom_append_right f m.stop ms hm hc fun m' h' => hs m' (.tail _ h')]

/-- Every character of a splice comes from the text or from a replacement. -/
theorem mem_spliceFrom {s : List Char} {f : Match → List Char} {c : Char} {i : Nat}
    {ms : List Match} (h : c ∈ spliceFrom s f i ms) : c ∈ s ∨ ∃ m ∈ ms, c ∈ f m := by
  induction ms generalizing i with
  | nil => exact .inl (List.mem_of_mem_drop h)
  | cons m ms ih =>
    simp only [spliceFrom, List.mem_append] at h
    rcases h with (h | h) | h
    · exact .inl (List.mem_of_mem_drop (List.mem_of_mem_take h))
    · exact .inr ⟨m, .head _, h⟩
    · exact (ih h).imp_right fun ⟨m', hm', h'⟩ => ⟨m', .tail _ hm', h'⟩

/-- A splice whose replacements keep only characters of their matches, in order, deletes
    characters of the text and adds none. -/
theorem spliceFrom_sublist {s : List Char} {f : Match → List Char} :
    ∀ i ms, Chain s i ms → (∀ m ∈ ms, List.Sublist (f m) ((s.drop m.start).take (m.stop - m.start))) →
      List.Sublist (spliceFrom s f i ms) (s.drop i)
  | _, [], _, _ => List.Sublist.refl _
  | i, m :: ms, ⟨h1, h2, _, hc⟩, hf => by
    have hcut : ∀ a b, a ≤ b → s.drop a = (s.drop a).take (b - a) ++ s.drop b := fun a b hab => by
      conv_lhs => rw [← List.take_append_drop (b - a) (s.drop a)]
      rw [List.drop_drop, Nat.add_sub_cancel' hab]
    have key := (List.Sublist.refl ((s.drop i).take (m.start - i))).append ((hf m (.head _)).append
      (spliceFrom_sublist m.stop ms hc fun m' h' => hf m' (.tail _ h')))
    rw [← hcut m.start m.stop h2, ← hcut i m.start h1] at key
    rwa [spliceFrom, List.append_assoc]

/-- `re.sub` with a template whose text at each match keeps only characters of the match, in
    order, deletes characters and adds none. -/
theorem sub_sublist {r : Regex} {tmpl : List Piece} {s : List Char}
    (h : ∀ m ∈ finditer r s, List.Sublist (expand s m tmpl) ((s.drop m.start).take (m.stop - m.start))) :
    List.Sublist (sub r tmpl s) s :=
  spliceFrom_sublist 0 _ (chain_finditerAux _ _ _ _ _) h

/-- Cutting at `a ≤ b`: the text up to `a`, then the piece `[a, b)`, is the text up to `b`. -/
theorem take_append_take_drop {s : List Char} {a b : Nat} (hab : a ≤ b) :
    s.take a ++ (s.drop a).take (b - a) = s.take b := by
  rw [← List.take_add, Nat.add_sub_cancel' hab]

/-- A replacement that keeps its match leaves the first match where it was. -/
theorem occurs_subWith_of_keep {r : Regex} {s : List Char} {f g : Match → List Char}
    (hr : r.Local = true)
    (hf : ∀ m ∈ finditer r s, f m = (s.drop m.start).take (m.stop - m.start) ++ g m)
    (h : Occurs r s) : Occurs r (subWith r f s none) := by
  obtain ⟨m, hm⟩ := Option.isSome_iff_exists.1 ((search_isSome_iff r s).2 h)
  obtain ⟨-, h2, h3, hends⟩ := searchFrom_bounds hm
  have hspan := (mem_ends_iff_spans s r _ _ []).1 ((mem_map_fst _ _).2 ⟨_, hends⟩)
  have hsub : subWith r f s none = s.take m.stop ++ (g m ++ spliceFrom s f m.stop
      (finditerAux r s (2 * s.length + 1) m.stop (m.stop == m.start))) := by
    simp only [subWith, finditer_of_search hm, spliceFrom, List.drop_zero, Nat.sub_zero,
      hf m (by rw [finditer_of_search hm]; exact .head _), ← List.append_assoc,
      take_append_take_drop h2]
  refine ⟨m.start, ?_, m.stop, hspan.congr hr fun x _ hx => ?_⟩
  · rw [hsub, List.length_append, List.length_take]; omega
  · rw [hsub, List.getElem?_append_left (by rw [List.length_take]; omega),
      List.getElem?_take_of_lt hx]

end RustyDb.Python
