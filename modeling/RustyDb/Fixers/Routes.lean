import RustyDb.Python.Substitution

/-!
# The Route-Adding Scripts

`scripts/add_ws_routes.py` and `add_routes.py` each insert a block of route
registrations into `server.rs` with one `re.sub`; the `MULTILINE` and
`DOTALL` flags change nothing, as neither pattern has `^`, `$` or `.`.
Both print "Pattern not found or routes already added" when the file comes
back unchanged, so both are meant to be safe to run again.

`add_routes.py` anchors its pattern on the `/api/v1/stream` route that
follows the rollback route and writes its block between the two, so no match
is left in its output (`addRoutes_idempotent`). `add_ws_routes.py` matches
the replication route alone and writes it back in front of its block, so
every run finds it again and adds the block once more
(`addWsRoutes_adds_again`).
-/

namespace RustyDb.Fixers

open RustyDb.Python

/-! ## §1 `add_ws_routes.py` -/

/-- `ws_routes`, one line of the source per entry. -/
def wsRoutes : List Char := List.flatten <| List.map String.toList [
  "\n",
  "            // Transaction WebSocket Streams\n",
  "            .route(\"/api/v1/ws/transactions/lifecycle\", get(ws_transaction_lifecycle))\n",
  "            .route(\"/api/v1/ws/transactions/locks\", get(ws_lock_events))\n",
  "            .route(\"/api/v1/ws/transactions/deadlocks\", get(ws_deadlock_events))\n",
  "            .route(\"/api/v1/ws/transactions/mvcc\", get(ws_mvcc_events))\n",
  "            .route(\"/api/v1/ws/transactions/wal\", get(ws_wal_events))\n"]

/-- `(\.route\(\s*"/api/v1/ws/replication",\s*get\(websocket_handlers::ws_replication_stream\),\s*\))`. -/
def wsReplicationRoute : Regex :=
  .group 1 (.seqs [.lit ".route(".toList, Regex.star .space, .lit "\"/api/v1/ws/replication\",".toList,
    Regex.star .space, .lit "get(websocket_handlers::ws_replication_stream),".toList,
    Regex.star .space, .lit ")".toList])

/-- `re.sub(pattern, r'\1' + ws_routes, content, flags=re.MULTILINE | re.DOTALL)`. -/
def addWsRoutes (content : List Char) : List Char :=
  sub wsReplicationRoute [.ref 1, .text wsRoutes] content

/-- Group 1 is the whole match, so each replacement is its match followed by `ws_routes`. -/
theorem expand_wsRoutes {s : List Char} {m : Match} (hm : m ∈ finditer wsReplicationRoute s) :
    expand s m [.ref 1, .text wsRoutes] = (s.drop m.start).take (m.stop - m.start) ++ wsRoutes := by
  simp [expand, Match.group, (Match.span_outer (by decide) (ends_of_mem_finditer hm)).1]

/-- A run adds one copy of `ws_routes` per match. -/
theorem addWsRoutes_length (c : List Char) :
    (addWsRoutes c).length = c.length + (finditer wsReplicationRoute c).length * wsRoutes.length := by
  rw [addWsRoutes, sub, subWith, spliceFrom_length_keep wsRoutes 0 (finditer wsReplicationRoute c)
    (chain_finditerAux _ _ _ _ _) fun m hm => expand_wsRoutes hm, Nat.sub_zero]

/-- **Every run adds the routes again.** Wherever the replication route occurs, it is still there
    after a run, so the next run inserts `ws_routes` once more. -/
theorem addWsRoutes_adds_again (c : List Char) (h : Occurs wsReplicationRoute c) :
    addWsRoutes (addWsRoutes c) ≠ addWsRoutes c := by
  have hocc : Occurs wsReplicationRoute (addWsRoutes c) :=
    occurs_subWith_of_keep (by decide) (fun m hm => expand_wsRoutes hm) h
  obtain ⟨m, hm⟩ := Option.isSome_iff_exists.1 ((search_isSome_iff _ _).2 hocc)
  have hpos : 0 < wsRoutes.length := List.length_pos.2 (by unfold wsRoutes; exact List.cons_ne_nil _ _)
  intro heq
  have hlen := congrArg List.length heq
  rw [addWsRoutes_length (addWsRoutes c), finditer_of_search hm, List.length_cons] at hlen
  simp only [Nat.add_right_eq_self, Nat.mul_eq_zero] at hlen
  omega

/-- The replication route as `server.rs` registers it. -/
def replicationRouteCall : List Char :=
  ".route(\"/api/v1/ws/replication\", get(websocket_handlers::ws_replication_stream),)".toList

theorem addWsRoutes_second_run_adds_routes_again :
    addWsRoutes (addWsRoutes replicationRouteCall) ≠ addWsRoutes replicationRouteCall :=
  addWsRoutes_adds_again _ (by decide)

/-! ## §2 `add_routes.py` -/

/-- `new_routes`, one line of the source per entry. -/
def newRoutes : List Char := List.flatten <| List.map String.toList [
  "\n",
  "            // Transaction Management API - Extended\n",
  "            .route(\"/api/v1/transactions/active\", get(get_active_transactions))\n",
  "            .route(\"/api/v1/transactions/\x7bid\x7d\", get(get_transaction))\n",
  "            // Savepoint Operations\n",
  "            .route(\"/api/v1/transactions/\x7bid\x7d/savepoint\", post(create_savepoint))\n",
  "            .route(\"/api/v1/transactions/\x7bid\x7d/release-savepoint\", post(release_savepoint))\n",
  "            .route(\"/api/v1/transactions/\x7bid\x7d/rollback-to-savepoint\", post(rollback_to_savepoint))\n",
  "            // Isolation Level Control\n",
  "            .route(\"/api/v1/transactions/\x7bid\x7d/isolation-level\", put(update_isolation_level))\n",
  "            // Lock Management\n",
  "            .route(\"/api/v1/transactions/locks\", get(get_locks))\n",
  "            .route(\"/api/v1/transactions/locks/waiters\", get(get_lock_waiters))\n",
  "            .route(\"/api/v1/transactions/locks/graph\", get(get_lock_graph))\n",
  "            .route(\"/api/v1/transactions/locks/\x7bid\x7d/release\", post(release_lock))\n",
  "            .route(\"/api/v1/transactions/locks/release-all\", post(release_all_locks))\n",
  "            // Deadlock Detection\n",
  "            .route(\"/api/v1/transactions/deadlocks\", get(get_deadlocks))\n",
  "            .route(\"/api/v1/transactions/deadlocks/detect\", post(detect_deadlocks))\n",
  "            // MVCC Operations\n",
  "            .route(\"/api/v1/transactions/mvcc/status\", get(get_mvcc_status))\n",
  "            .route(\"/api/v1/transactions/mvcc/snapshots\", get(get_mvcc_snapshots))\n",
  "            .route(\"/api/v1/transactions/mvcc/versions/\x7btable\x7d/\x7brow\x7d\", get(get_row_versions))\n",
  "            .route(\"/api/v1/transactions/mvcc/vacuum\", post(trigger_vacuum))\n",
  "            .route(\"/api/v1/transactions/mvcc/vacuum/full\", post(trigger_full_vacuum))\n",
  "            // WAL Operations\n",
  "            .route(\"/api/v1/transactions/wal/status\", get(get_wal_status))\n",
  "            .route(\"/api/v1/transactions/wal/segments\", get(get_wal_segments))\n",
  "            .route(\"/api/v1/transactions/wal/checkpoint\", post(force_checkpoint))\n",
  "            .route(\"/api/v1/transactions/wal/archive\", post(archive_wal))\n",
  "            .route(\"/api/v1/transactions/wal/replay-status\", get(get_wal_replay_status))\n",
  "            .route(\"/api/v1/transactions/wal/switch\", post(switch_wal_segment))\n"]

/-- The rollback route's path argument, with its comma. -/
def rollbackPath : List Char := "\"/api/v1/transactions/\x7bid\x7d/rollback\",".toList

/-- The start of the `/api/v1/stream` route. -/
def streamRouteStart : List Char := ".route(\"/api/v1/stream\"".toList

/-- `\.route\(\s*"/api/v1/transactions/\{id\}/rollback",\s*post\(rollback_transaction\),\s*\)`. -/
def rollbackRoute : Regex :=
  .seqs [.lit ".route(".toList, Regex.star .space, .lit rollbackPath, Regex.star .space,
    .lit "post(rollback_transaction),".toList, Regex.star .space, .lit ")".toList]

/-- `pattern`: the rollback route in group 1, `\s*`, then `(\.route\("/api/v1/stream")`. -/
def transactionRoutesPattern : Regex :=
  .seqs [.group 1 rollbackRoute, Regex.star .space, .group 2 (.lit streamRouteStart)]

/-- `re.sub(pattern, r'\1' + new_routes + r'\2', content, flags=re.MULTILINE | re.DOTALL)`. -/
def addRoutes (content : List Char) : List Char :=
  sub transactionRoutesPattern [.ref 1, .text newRoutes, .ref 2] content

/-! ### The dots of a match

A match of `pattern` holds exactly two `.`: the one it starts with, before the rollback
path, and the one of the stream route it ends with. -/

/-- `\s*"/api/v1/transactions/\{id\}/rollback",`: what the rollback route reads after `.route(`. -/
def rollbackPathArg : Regex := .seq (Regex.star .space) (.lit rollbackPath)

/-- A rollback route starts with its only `.`, and its path argument follows `.route(`. -/
theorem rollbackRoute_spans {t : List Char} {j a : Nat} (h : rollbackRoute.Spans t j a) :
    t[j]? = some '.' ∧ j < a ∧ (∀ x, j < x → x < a → t[x]? ≠ some '.') ∧
      ∃ b, rollbackPathArg.Spans t (j + 7) b := by
  rw [rollbackRoute, Regex.seqs_cons_spans] at h
  obtain ⟨m, ⟨k, ⟨rfl, c, hc, hk⟩, hroute⟩, hrest⟩ := h
  obtain rfl : c = '.' := beq_iff_eq.1 hk
  obtain rfl : m = j + 7 := by simpa using ((Regex.lit_spans _ _ _ _).1 hroute).2
  have hdots := hrest.avoids (c := '.') (by decide)
  have hle := hrest.le
  refine ⟨hc, by omega, fun x hjx hxa => ?_, ?_⟩
  · rcases Nat.lt_or_ge x (j + 7) with hx | hx
    · exact hroute.avoids (by decide) x hjx hx
    · exact hdots x hx hxa
  · rw [Regex.seqs_cons_spans] at hrest
    obtain ⟨m, hsp, hrest⟩ := hrest
    rw [Regex.seqs_cons_spans] at hrest
    obtain ⟨b, hpath, -⟩ := hrest
    exact ⟨b, m, hsp, hpath⟩

/-- A match of `pattern` starts with a rollback route, and its only other `.` starts the stream
    route it ends with. -/
theorem transactionRoutes_spans {t : List Char} {j e : Nat}
    (h : transactionRoutesPattern.Spans t j e) :
    ∃ g, j < g ∧ e = g + 23 ∧ streamRouteStart.isPrefixOf (t.drop g) = true ∧
      (∀ x, j < x → x < e → x ≠ g → t[x]? ≠ some '.') ∧ t[j]? = some '.' ∧
      ∃ b, rollbackPathArg.Spans t (j + 7) b := by
  simp only [transactionRoutesPattern, Regex.seqs_cons_spans, Regex.seqs_nil_spans,
    Regex.group_spans] at h
  obtain ⟨a, hroll, g, hsp, e', hstream, rfl⟩ := h
  obtain ⟨hdot, hja, hno, hpath⟩ := rollbackRoute_spans hroll
  obtain ⟨hpre, rfl⟩ := (Regex.lit_spans _ _ _ _).1 hstream
  obtain ⟨k, ⟨rfl, -⟩, hrest⟩ := hstream
  have hag := hsp.le
  have hS : streamRouteStart.length = 23 := rfl
  refine ⟨g, by omega, hS ▸ rfl, hpre, fun x hjx hxe hxg => ?_, hdot, hpath⟩
  rcases Nat.lt_or_ge x a with hxa | hxa
  · exact hno x hjx hxa
  rcases Nat.lt_or_ge x g with hxg' | hxg'
  · exact hsp.avoids (by decide) x hxa hxg'
  · exact hrest.avoids (by decide) x (by omega) hxe

/-! ### No match starts in a replacement -/

/-- Neither text is a prefix of the other. -/
def Clash (x y : List Char) : Bool := !x.isPrefixOf y && !y.isPrefixOf x

/-- A text that clashes with `x` does not start with `x`, whatever follows it. -/
theorem clash_not_prefix {x y : List Char} (h : Clash x y = true) (z : List Char) :
    ¬ x <+: y ++ z := by
  simp only [Clash, Bool.and_eq_true, Bool.not_eq_true', ← Bool.not_eq_true,
    List.isPrefixOf_iff_prefix] at h
  exact fun hx => (List.prefix_or_prefix_of_prefix hx (List.prefix_append y z)).elim h.1 h.2

/-- Text after `.route(` that cannot start a rollback path argument: its first character is not
    a space, and it clashes with the path. -/
def afterRouteClash (v : List Char) : Bool :=
  (v.head?.any fun c => !isSpace c) && Clash rollbackPath v

theorem not_rollbackPathArg_spans {v : List Char} (hv : afterRouteClash v = true)
    (z : List Char) (b : Nat) : ¬ rollbackPathArg.Spans (v ++ z) 0 b := by
  rintro ⟨m, hsp, hlit⟩
  simp only [afterRouteClash, Bool.and_eq_true] at hv
  cases v with
  | nil => simp at hv
  | cons c v =>
    obtain rfl : m = 0 := by
      by_contra hm
      obtain ⟨d, hd, hk⟩ := hsp.2.1 0 le_rfl (by omega)
      obtain rfl : c = d := by simpa using hd
      simp only [CharSet.mem] at hk
      simp [hk] at hv
    exact clash_not_prefix hv.2 z
      (List.isPrefixOf_iff_prefix.1 (by simpa using ((Regex.lit_spans _ _ _ _).1 hlit).1))

/-- Every `.` of the text is followed, past `route(`, by text that clashes with the rollback path
    argument. -/
def noRollbackAfterDots : List Char → Bool
  | [] => true
  | c :: w => (c != '.' || afterRouteClash (w.drop 6)) && noRollbackAfterDots w

/-- After a `.` of a text that passes `noRollbackAfterDots` no rollback path argument starts
    past `route(`, whatever follows the text. -/
theorem noRollbackAfterDots_spec {w : List Char} (hw : noRollbackAfterDots w = true)
    (z : List Char) : ∀ {p b : Nat}, w[p]? = some '.' → ¬ rollbackPathArg.Spans (w ++ z) (p + 7) b := by
  induction w with
  | nil => intro p b h; simp at h
  | cons c w ih =>
    simp only [noRollbackAfterDots, Bool.and_eq_true, Bool.or_eq_true, bne_iff_ne, ne_eq] at hw
    rintro (_ | p) b hp hs
    · obtain rfl : c = '.' := by simpa using hp
      have hv := hw.1.resolve_left (by simp)
      have hlen : 6 ≤ w.length := by
        by_contra hlt
        rw [List.drop_eq_nil_of_le (by omega)] at hv
        simp [afterRouteClash] at hv
      have h7 : ('.' :: w.take 6).length = 7 := by simp; omega
      have hle := hs.le
      rw [List.cons_append, ← List.take_append_drop 6 (w ++ z), List.take_append_of_le_length hlen,
        List.drop_append_of_le_length hlen, ← List.cons_append, show 0 + 7 = 0 + ('.' :: w.take 6).length
        by rw [h7], show b = b - 7 + ('.' :: w.take 6).length by omega,
        Regex.spans_append_left (by decide)] at hs
      exact not_rollbackPathArg_spans hv z _ hs
    · have hle := hs.le
      rw [List.cons_append, show p + 1 + 7 = p + 7 + [c].length by simp only [List.length_singleton],
        show b = b - 1 + [c].length by simp only [List.length_singleton]; omega,
        ← List.singleton_append, Regex.spans_append_left (by decide)] at hs
      exact ih hw.2 (by simpa using hp) hs

/-- Text after `.route(` that clashes with the path keeps clashing when more text follows. -/
theorem afterRouteClash_append {v : List Char} (hv : afterRouteClash v = true) (r : List Char) :
    afterRouteClash (v ++ r) = true := by
  cases v with
  | nil => simp [afterRouteClash] at hv
  | cons c v =>
    simp only [afterRouteClash, Bool.and_eq_true, List.head?_cons, List.cons_append] at hv ⊢
    have h2 := hv.2
    simp only [Clash, Bool.and_eq_true, Bool.not_eq_true', ← Bool.not_eq_true,
      List.isPrefixOf_iff_prefix] at h2 ⊢
    exact ⟨hv.1, clash_not_prefix hv.2 r, fun h => h2.2 ((List.prefix_append _ r).trans h)⟩

theorem noRollbackAfterDots_append {u : List Char} (hu : noRollbackAfterDots u = true)
    {w : List Char} (hw : noRollbackAfterDots w = true) : noRollbackAfterDots (u ++ w) = true := by
  induction u with
  | nil => exact hw
  | cons c u ih =>
    rw [List.cons_append]
    simp only [noRollbackAfterDots, Bool.and_eq_true, Bool.or_eq_true] at hu ⊢
    refine ⟨hu.1.imp_right fun h => ?_, ih hu.2⟩
    rw [List.drop_append_eq_append_drop]
    exact afterRouteClash_append h _

theorem noRollbackAfterDots_flatten :
    ∀ ls : List (List Char), ls.all noRollbackAfterDots = true →
      noRollbackAfterDots ls.flatten = true
  | [], _ => rfl
  | l :: ls, h => by
    simp only [List.all_cons, Bool.and_eq_true] at h
    exact noRollbackAfterDots_append h.1 (noRollbackAfterDots_flatten ls h.2)

/-- No rollback path argument follows a `.` of `new_routes`. -/
theorem newRoutes_noRollbackAfterDots : noRollbackAfterDots newRoutes = true :=
  noRollbackAfterDots_flatten _ (by decide)

/-- The text from the first `.` of `w` on clashes with `x`. -/
def firstDotClashes (x : List Char) : List Char → Bool
  | [] => false
  | c :: w => if c = '.' then Clash x (c :: w) else firstDotClashes x w

/-- In a text that passes `firstDotClashes x`, a text `x` that starts with `.` does not start
    after a run of other characters, whatever follows the text. -/
theorem firstDotClashes_spec {x w : List Char} (hx : x.head? = some '.')
    (hw : firstDotClashes x w = true) (z : List Char) :
    ∀ {p : Nat}, (∀ y < p, (w ++ z)[y]? ≠ some '.') → ¬ x <+: (w ++ z).drop p := by
  induction w with
  | nil => simp [firstDotClashes] at hw
  | cons c w ih =>
    intro p hp hpre
    by_cases hc : c = '.'
    · subst hc
      simp only [firstDotClashes, if_pos rfl] at hw
      cases p with
      | zero => exact clash_not_prefix hw z hpre
      | succ p => exact hp 0 (by omega) (by simp)
    · simp only [firstDotClashes, if_neg hc] at hw
      cases p with
      | zero =>
        obtain ⟨r, hr⟩ := hpre
        cases x with
        | nil => simp at hx
        | cons d x =>
          obtain rfl : d = '.' := by simpa using hx
          exact hc (List.cons_eq_cons.1 hr).1.symm
      | succ p => exact ih hw (fun y hy => by simpa using hp (y + 1) (by omega)) hpre

/-- The first `.` of `new_routes` starts a route other than the stream route. -/
theorem newRoutes_firstDotClashes : firstDotClashes streamRouteStart newRoutes = true := by
  decide

/-- What `pattern`'s groups capture: a rollback route, and the start of the stream route. -/
theorem transactionRoutes_groups {s : List Char} {m : Match}
    (hm : (m.stop, m.caps) ∈ transactionRoutesPattern.ends s m.start []) :
    (∀ z, rollbackRoute.Spans (m.group s 1 ++ z) 0 (m.group s 1).length) ∧
      m.group s 2 = streamRouteStart := by
  have hbodies : transactionRoutesPattern.groupBodies =
      [(1, rollbackRoute), (2, .lit streamRouteStart)] := rfl
  have hb1 : ∀ b, (1, b) ∈ transactionRoutesPattern.groupBodies → b = rollbackRoute := by
    simp [hbodies]
  have hb2 : ∀ b, (2, b) ∈ transactionRoutesPattern.groupBodies → b = .lit streamRouteStart := by
    simp [hbodies]
  refine ⟨Match.group_spans hm (by decide) (by decide) hb1 (by decide), ?_⟩
  obtain ⟨hpre, hlen⟩ := (Regex.lit_spans _ _ _ _).1
    (Match.group_spans hm (by decide) (by decide) hb2 (by decide) [])
  rw [List.append_nil, List.drop_zero] at hpre
  exact ((List.isPrefixOf_iff_prefix.1 hpre).eq_of_length (by omega)).symm

/-- The replacement of a match: its rollback route, `new_routes`, and the stream route's
    start. -/
theorem expand_transactionRoutes {s : List Char} {m : Match}
    (hm : (m.stop, m.caps) ∈ transactionRoutesPattern.ends s m.start []) (z : List Char) :
    expand s m [.ref 1, .text newRoutes, .ref 2] ++ z =
      m.group s 1 ++ (newRoutes ++ (streamRouteStart ++ z)) := by
  simp [expand, (transactionRoutes_groups hm).2]

/-- No match of `pattern` starts inside a replacement, whatever follows it: the replacement's
    first `.` is followed by `new_routes` and not by the stream route, and no later `.` of it
    starts a rollback route. -/
theorem transactionRoutes_not_in_replacement {s : List Char} {m : Match}
    (hm : (m.stop, m.caps) ∈ transactionRoutesPattern.ends s m.start []) (z : List Char)
    {j e : Nat} (hj : j < (expand s m [.ref 1, .text newRoutes, .ref 2]).length) :
    ¬ transactionRoutesPattern.Spans (expand s m [.ref 1, .text newRoutes, .ref 2] ++ z) j e := by
  have hlen := congrArg List.length (expand_transactionRoutes hm [])
  simp only [List.append_nil, List.length_append] at hlen
  rw [expand_transactionRoutes hm]
  obtain ⟨-, hG, hGno, -⟩ := rollbackRoute_spans ((transactionRoutes_groups hm).1
    (newRoutes ++ (streamRouteStart ++ z)))
  set G := m.group s 1
  intro hspan
  obtain ⟨g, hjg, rfl, hpre, hno, hdot, b, hb⟩ := transactionRoutes_spans hspan
  have hgdot : (G ++ (newRoutes ++ (streamRouteStart ++ z)))[g]? = some '.' := by
    simpa using getElem?_of_isPrefixOf hpre (k := 0) (by decide)
  have hgG : G.length ≤ g := by
    by_contra hlt
    exact hGno g (by omega) (by omega) hgdot
  rcases Nat.eq_zero_or_pos j with rfl | hj0
  · -- from the replacement's first `.`, the next `.` is the first of `new_routes`
    obtain ⟨p, rfl⟩ : ∃ p, g = G.length + p := ⟨g - G.length, by omega⟩
    refine firstDotClashes_spec (by decide) newRoutes_firstDotClashes (streamRouteStart ++ z)
      (p := p) (fun y hy => ?_) ?_
    · have := hno (G.length + y) (by omega) (by omega) (by omega)
      rwa [List.getElem?_append_right (by omega), Nat.add_sub_cancel_left] at this
    · rw [← List.drop_drop, List.drop_left] at hpre
      exact List.isPrefixOf_iff_prefix.1 hpre
  · -- a later `.` is one of `new_routes` or the stream route's
    have hjG : G.length ≤ j := by
      by_contra hlt
      exact hGno j hj0 (by omega) hdot
    obtain ⟨p, rfl⟩ : ∃ p, j = G.length + p := ⟨j - G.length, by omega⟩
    rw [← List.append_assoc newRoutes] at hdot hb
    rw [List.getElem?_append_right (by omega), Nat.add_sub_cancel_left,
      List.getElem?_append_left (by simp only [List.length_append]; omega)] at hdot
    have hle := hb.le
    rw [show G.length + p + 7 = p + 7 + G.length by omega,
      show b = b - G.length + G.length by omega, Regex.spans_append_left (by decide)] at hb
    exact noRollbackAfterDots_spec
      (noRollbackAfterDots_append newRoutes_noRollbackAfterDots (by decide)) z hdot hb

/-- No match of `pattern` runs into a replacement from the text before it: it would have to
    read the replacement's first `.` as the stream route's, but a rollback path follows it. -/
theorem transactionRoutes_not_into_replacement {s : List Char} {m : Match}
    (hm : (m.stop, m.caps) ∈ transactionRoutesPattern.ends s m.start []) (x z : List Char)
    {j e : Nat} (hj : j < x.length) (he : x.length < e) :
    ¬ transactionRoutesPattern.Spans
      (x ++ (expand s m [.ref 1, .text newRoutes, .ref 2] ++ z)) j e := by
  rw [expand_transactionRoutes hm]
  obtain ⟨hG0, -, -, b, hb⟩ := rollbackRoute_spans ((transactionRoutes_groups hm).1
    (newRoutes ++ (streamRouteStart ++ z)))
  intro hspan
  obtain ⟨g, -, rfl, hpre, hno, -⟩ := transactionRoutes_spans hspan
  obtain rfl : g = x.length := by
    by_contra hne
    refine hno x.length hj he (Ne.symm hne) ?_
    rwa [List.getElem?_append_right le_rfl, Nat.sub_self]
  rw [List.drop_left] at hpre
  obtain ⟨r, hr⟩ := List.isPrefixOf_iff_prefix.1 hpre
  rw [← hr] at hb
  exact noRollbackAfterDots_spec (w := streamRouteStart) (by decide) r (p := 0) rfl hb

/-- **`add_routes.py` can be run again.** Its output has no match of `pattern`, so a second run
    returns it unchanged. -/
theorem addRoutes_idempotent (c : List Char) :
    ¬ Occurs transactionRoutesPattern (addRoutes c) ∧ addRoutes (addRoutes c) = addRoutes c := by
  have h : ¬ Occurs transactionRoutesPattern (addRoutes c) :=
    not_occurs_subWith (by decide)
      (fun _ _ _ hs => by obtain ⟨g, hg, rfl, -⟩ := transactionRoutes_spans hs; omega)
      (fun _ hm z _ _ hj => transactionRoutes_not_in_replacement hm z hj)
      (fun _ hm x z _ _ hj he => transactionRoutes_not_into_replacement hm x z hj he)
  exact ⟨h, subWith_of_not_occurs _ h⟩

end RustyDb.Fixers
