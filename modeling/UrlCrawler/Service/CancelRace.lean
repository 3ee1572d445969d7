import UrlCrawler.Service.Transactions

/-! # A cancel request against the reaper

`request_cancel` flags a running crawl and answers `running`; from then on the crawl should end
aborted, not go back to the queue. `release` tests the flag in the statement that requeues. `reap`
tests it only in its first statement, and its second one, which requeues, does not: a request that
commits between the two is accepted and the crawl is queued again (`cancelBetweenStatements`).
Wherever the requeue statements of a run match no flagged row, an accepted cancel is kept
(`acceptedCancel_kept`).
-/
set_option autoImplicit false

namespace UrlCrawler
open Execution

/-- After the run no crawl is queued with its cancel flag set, and no claim made then returns a
crawl for which `request_cancel` has answered `running` earlier in the run. -/
def AcceptedCancelKept (actions : List StoreAction) : Prop :=
  ∀ s, run storeStep {} actions = some s →
    (∀ c r, s.db.crawl.lookup c = some r → ¬(r.state = .queued ∧ r.cancelRequested = true)) ∧
    ∀ before after c now s₁,
      actions = before ++ .call (.requestCancel c now) :: after →
      run storeStep {} before = some s₁ →
      ((Call.requestCancel c now).exec s₁.db).2 = .cancelled (some .running) →
      ∀ skip want worker now' row,
        ((Call.claim skip want worker now').exec s.db).2 = .claimed (some row) → row.id ≠ c

/-- The action does not run the requeue statement of a reap over a row whose cancel flag is set. -/
def Store.requeuesUncancelled (s : Store) : StoreAction → Bool
  | .statement id =>
    match s.reaps.lookup id with
    | none => true
    | some tx =>
      tx.ran ≠ 1 || s.db.crawl.rows.all fun r =>
        !(requeue tx.leaseMicros tx.maxAttempts tx.now).cond (tx.version r) || !r.cancelRequested
  | _ => true

/-- A queued row carries no cancel flag, in the database and in what open reaps have written. -/
structure CancelInv (s : Store) : Prop where
  tx : TxInv s
  rows : ∀ c r, s.db.crawl.lookup c = some r → r.state = .queued → r.cancelRequested = false
  versions : ∀ id tx c v, s.reaps.lookup id = some tx → tx.writes c = some v →
    v.state = .queued → v.cancelRequested = false

theorem cancelInv_init : CancelInv {} := by
  refine ⟨txInv_init, fun _ _ h => ?_, fun _ _ _ _ h => ?_⟩ <;> cases h

theorem rowStep_queued_uncancelled {r r' : Crawl} (h : r.state = .queued → r.cancelRequested = false)
    (hstep : RowStep r r') : r'.state = .queued → r'.cancelRequested = false := by
  cases hstep with
  | keep => exact h
  | claim => simp [claimUpdate]
  | heartbeat worker stats now running owner =>
    intro hq
    have hq' : r.state = .queued := hq
    simp [hq'] at running
  | finish worker state stats error now terminal owner =>
    intro hq
    have hq' : state = .queued := hq
    simp [hq', CrawlState.terminal] at terminal
  | release worker owner uncancelled => exact fun _ => uncancelled
  | reapAbort => simp [abortCancelled]
  | reapRequeue leaseMicros maxAttempts now running uncancelled below => exact fun _ => uncancelled
  | reapFail => simp [giveUp]
  | abort => simp [abortQueued]
  | flag running =>
    intro hq
    have hq' : r.state = .queued := hq
    simp [hq'] at running

/-- Only the second statement of a reap queues a row. -/
theorem statement_queues {tx : ReapTx} {u : CrawlUpdate} (hu : tx.statements[tx.ran]? = some u)
    {r : Crawl} (hq : (u.set r).state = .queued) :
    tx.ran = 1 ∧ u = requeue tx.leaseMicros tx.maxAttempts tx.now := by
  match hran : tx.ran with
  | 0 =>
    simp only [ReapTx.statements, reapStatements, hran, List.getElem?_cons_zero,
      Option.some.injEq] at hu
    subst hu
    simp [abortCancelled] at hq
  | 1 =>
    simp only [ReapTx.statements, reapStatements, hran, List.getElem?_cons_succ,
      List.getElem?_cons_zero, Option.some.injEq] at hu
    exact ⟨rfl, hu.symm⟩
  | 2 =>
    simp only [ReapTx.statements, reapStatements, hran, List.getElem?_cons_succ,
      List.getElem?_cons_zero, Option.some.injEq] at hu
    subst hu
    simp [giveUp] at hq
  | n + 3 => simp [ReapTx.statements, reapStatements, hran] at hu

theorem statement_set_cancel {tx : ReapTx} {u : CrawlUpdate} (hu : u ∈ tx.statements) (r : Crawl) :
    (u.set r).cancelRequested = r.cancelRequested := by
  simp only [ReapTx.statements, reapStatements, List.mem_cons, List.not_mem_nil, or_false] at hu
  rcases hu with rfl | rfl | rfl <;> rfl

theorem storeStep_cancelInv {s s' : Store} {a : StoreAction} (h : CancelInv s)
    (hsafe : s.requeuesUncancelled a = true) (hs : storeStep s a = some s') : CancelInv s' := by
  have htx' := storeStep_txInv h.tx hs
  cases a with
  | call call =>
    simp only [storeStep, Option.map_eq_some_iff] at hs
    obtain ⟨⟨t, reply⟩, hcall, rfl⟩ := hs
    obtain ⟨-, hdb, hreaps, -⟩ := call_spec hcall
    refine ⟨htx', ?_, fun id tx c v htx => h.versions id tx c v (hreaps ▸ htx)⟩
    rw [hdb]
    exact rows_invariant (fun _ _ _ _ _ => rfl) (fun _ _ => rowStep_queued_uncancelled) call h.rows
  | beginReap id leaseMicros maxAttempts now =>
    obtain ⟨hdb, -, hlook⟩ := lookup_beginReap hs
    refine ⟨htx', hdb ▸ h.rows, fun id' tx c v htx hv => ?_⟩
    rw [hlook] at htx
    split at htx
    · obtain rfl := Option.some.inj htx
      cases hv
    · exact h.versions id' tx c v htx hv
  | statement id =>
    obtain ⟨tx, u, htx, hu, -, hdb, hlook⟩ := statement_spec hs
    refine ⟨htx', hdb ▸ h.rows, fun id' tx' c v ht hv hq => ?_⟩
    rw [hlook] at ht
    split at ht
    · obtain rfl := Option.some.inj ht
      simp only [ReapTx.execute] at hv
      cases hr : s.db.crawl.lookup c with
      | none => exact h.versions id tx c v htx (by simpa [hr] using hv) hq
      | some r =>
        simp only [hr] at hv
        split at hv
        · rename_i hcond
          obtain rfl := Option.some.inj hv
          have hmem : u ∈ tx.statements := List.mem_of_getElem? hu
          obtain ⟨hran, rfl⟩ := statement_queues hu hq
          have hver := (version_eq (h.tx.writes id tx htx) hmem hr hcond).2
          simp only [Store.requeuesUncancelled, htx, hran, ne_eq, not_true_eq_false, decide_false,
            Bool.false_or, List.all_eq_true] at hsafe
          have hrow := hsafe r (KeyedTable.mem_of_lookup hr)
          rw [hcond] at hrow
          rw [statement_set_cancel hmem, hver]
          simpa using hrow
        · exact h.versions id tx c v htx hv hq
    · exact h.versions id' tx' c v ht hv hq
  | commitReap id =>
    obtain ⟨tx, htx, -, hcrawl, hlook⟩ := commitReap_spec hs
    refine ⟨htx', fun c r' hr' hq => ?_, fun id' tx' c v ht hv hq => ?_⟩
    · rw [hcrawl, Option.map_eq_some_iff] at hr'
      obtain ⟨r, hr, rfl⟩ := hr'
      have hid : r.id = c := KeyedTable.lookup_key hr
      rcases overlay_onRow (h.tx.writes id tx htx) hr with ⟨-, hsame⟩ | ⟨hheld, -⟩
      · rw [hsame] at hq ⊢
        exact h.rows c r hr hq
      · obtain ⟨v, hv⟩ := Option.ne_none_iff_exists'.mp hheld
        have hon : tx.overlay.onRow r = { v with id := r.id } := by
          rw [Update.onRow_of_cond (by simp [ReapTx.overlay, hid, hv])]
          simp [ReapTx.overlay, ReapTx.version, hid, hv]
        rw [hon] at hq ⊢
        exact h.versions id tx c v htx hv hq
    · rw [hlook] at ht
      split at ht
      · cases ht
      · exact h.versions id' tx' c v ht hv hq
  | rollbackReap id =>
    obtain rfl := Option.some.inj hs
    refine ⟨htx', h.rows, fun id' tx' c v ht hv hq => ?_⟩
    rw [lookup_closeReap] at ht
    split at ht
    · cases ht
    · exact h.versions id' tx' c v ht hv hq

/-! ## The flag is never taken back -/

theorem rowStep_keeps_flag {r r' : Crawl} (h : r.cancelRequested = true) (hstep : RowStep r r') :
    r'.cancelRequested = true := by
  cases hstep with
  | flag => rfl
  | _ => exact h

/-- Crawl `c` exists and its cancel flag is set. -/
def Store.flagged (s : Store) (c : CrawlId) : Prop :=
  ∃ r, s.db.crawl.lookup c = some r ∧ r.cancelRequested = true

theorem storeStep_keeps_flag {s s' : Store} {a : StoreAction} (h : TxInv s) {c : CrawlId}
    (hf : s.flagged c) (hs : storeStep s a = some s') : s'.flagged c := by
  obtain ⟨r, hr, hflag⟩ := hf
  cases a with
  | call call =>
    simp only [storeStep, Option.map_eq_some_iff] at hs
    obtain ⟨⟨t, reply⟩, hcall, rfl⟩ := hs
    obtain ⟨-, hdb, -, -⟩ := call_spec hcall
    refine ⟨call.rowAfter s.db r, ?_, rowStep_keeps_flag hflag (rowAfter_step hr call)⟩
    rw [hdb]
    exact lookup_exec hr
  | beginReap id leaseMicros maxAttempts now =>
    obtain ⟨hdb, -, -⟩ := lookup_beginReap hs
    exact ⟨r, hdb ▸ hr, hflag⟩
  | statement id =>
    obtain ⟨_, _, _, _, _, hdb, _⟩ := statement_spec hs
    exact ⟨r, hdb ▸ hr, hflag⟩
  | commitReap id =>
    obtain ⟨tx, htx, -, hcrawl, -⟩ := commitReap_spec hs
    refine ⟨tx.overlay.onRow r, by rw [hcrawl, hr, Option.map_some], ?_⟩
    rcases overlay_onRow (h.writes id tx htx) hr with ⟨-, hsame⟩ | ⟨-, u, hu, -, hset⟩
    · rw [hsame, hflag]
    · rw [hset, statement_set_cancel hu, hflag]
  | rollbackReap id =>
    obtain rfl := Option.some.inj hs
    exact ⟨r, hr, hflag⟩

/-- Answering `running` means the flag is set. -/
theorem requestCancel_running {db : Db} {c : CrawlId} {now : Instant}
    (h : ((Call.requestCancel c now).exec db).2 = .cancelled (some .running)) :
    ∃ r, ((Call.requestCancel c now).exec db).1.crawl.lookup c = some r ∧
      r.cancelRequested = true := by
  simp only [Call.exec, Reply.cancelled.injEq] at h
  obtain ⟨r, hr, hst⟩ := requestCancel_reply h
  have hid : r.id = c := KeyedTable.lookup_key hr
  refine ⟨_, lookup_exec hr, ?_⟩
  simp only [Call.rowAfter, hid, if_true]
  unfold cancelRow at hst ⊢
  cases hs : r.state with
  | running => rfl
  | queued =>
    simp only [hs] at hst
    cases hst
  | finished | failed | aborted =>
    simp only [hs] at hst
    cases hst

/-- An accepted cancel is kept in every run whose reaps requeue no flagged row. -/
theorem acceptedCancel_kept {actions : List StoreAction}
    (h : Meets storeStep (fun s a => s.requeuesUncancelled a = true) {} actions) :
    AcceptedCancelKept actions := by
  intro s hs
  have hinv : CancelInv s :=
    h.invariant (fun _ _ _ hi hc hst => storeStep_cancelInv hi hc hst) cancelInv_init hs
  refine ⟨fun c r hr ⟨hq, hflag⟩ => by simp [hinv.rows c r hr hq] at hflag, ?_⟩
  intro before after c now s₁ hacts hbefore hreply skip want worker now' row hclaim
  rintro rfl
  rw [hacts, run_append, hbefore] at hs
  obtain ⟨s₂, hstep, hafter⟩ := run_cons_some storeStep hs
  -- the flag is set at `s₂`, and the rest of the run keeps it
  have hinv₁ : TxInv s₁ :=
    run_invariant (fun _ _ _ hi hst => storeStep_txInv hi hst) txInv_init hbefore
  have hflag₂ : s₂.flagged row.id := by
    have hstep' := hstep
    simp only [storeStep, Option.map_eq_some_iff] at hstep'
    obtain ⟨⟨t, reply⟩, hcall, rfl⟩ := hstep'
    obtain ⟨-, hdb, -, -⟩ := call_spec hcall
    obtain ⟨r, hr, hf⟩ := requestCancel_running hreply
    exact ⟨r, hdb ▸ hr, hf⟩
  have hflag : TxInv s ∧ s.flagged row.id :=
    run_invariant (P := fun t => TxInv t ∧ t.flagged row.id)
      (fun _ _ _ hi hst => ⟨storeStep_txInv hi.1 hst, storeStep_keeps_flag hi.1 hi.2 hst⟩)
      ⟨storeStep_txInv hinv₁ hstep, hflag₂⟩ hafter
  obtain ⟨-, r, hr, hf⟩ := hflag
  simp only [Call.exec, Reply.claimed.injEq] at hclaim
  cases ho : s.db.oldestQueued (fun id => id ∈ skip) want with
  | none => simp [lookup_claim_none ho] at hclaim
  | some row' =>
    obtain ⟨hrow', hq, -⟩ := oldestQueued_spec ho
    simp only [Db.claim, ho, Option.some.injEq] at hclaim
    have hid : row'.id = row.id := by rw [← hclaim]; rfl
    rw [hid, hr] at hrow'
    obtain rfl := Option.some.inj hrow'
    simp [hinv.rows _ _ hr hq] at hf

/-- A crawl whose worker died, cancelled and then reaped. -/
def cancelThenReap : List StoreAction :=
  [.call (.create 1 "https://a.test/".toList
      { concurrency := 10, timeout := 10, maxPages := none, maxBytes := 5000000,
        respectRobots := true } 0),
    .call (.claim [] 1 "host:1" 1),
    .call (.requestCancel 1 90),
    .beginReap 0 30 3 100, .statement 0, .statement 0, .statement 0, .commitReap 0]

theorem acceptedCancel_kept_cancelThenReap : AcceptedCancelKept cancelThenReap :=
  acceptedCancel_kept (by decide)

/-- The same, with the request committing after the first statement of the reap. -/
def cancelBetweenStatements : List StoreAction :=
  [.call (.create 1 "https://a.test/".toList
      { concurrency := 10, timeout := 10, maxPages := none, maxBytes := 5000000,
        respectRobots := true } 0),
    .call (.claim [] 1 "host:1" 1),
    .beginReap 0 30 3 100, .statement 0,
    .call (.requestCancel 1 101),
    .statement 0, .statement 0, .commitReap 0]

/-- The crawl is queued with its flag set. -/
theorem cancelBetweenStatements_requeues : ¬AcceptedCancelKept cancelBetweenStatements := by
  intro h
  exact (h _ rfl).1 1 _ rfl (by decide)

end UrlCrawler
