import UrlCrawler.Service.FinishedCrawls

/-! # Whose counters a running crawl shows

A heartbeat writes the counters of its job into the `stats` of the row. `claim` wipes the pages of the
lease before and starts the next one with none, but it leaves the `stats` as it finds them, and so do
`release` and the requeue of a reap: until the first heartbeat of the new lease they are those of an
attempt whose pages are gone.
-/
set_option autoImplicit false

namespace UrlCrawler
open Execution

section
variable {T : CrawlTask} {settings : Settings}

/-- The lease whose heartbeat wrote the `stats` a call leaves in each row. -/
def Call.statsWriter (call : Call) (lease : Option ℕ) (db : Db) (writer : CrawlId → Option ℕ) :
    CrawlId → Option ℕ :=
  match call with
  | .heartbeat id .. => if call.takesEffect db then Function.update writer id lease else writer
  | .finish id .. => if call.takesEffect db then Function.update writer id none else writer
  | _ => writer

namespace System

/-- A history variable: the lease whose heartbeat wrote the `stats` of each crawl last. -/
def statsWriter (s : System T) (writer : CrawlId → Option ℕ) : SystemAct T → CrawlId → Option ℕ
  | .commit worker slot now =>
    ((s.workers worker).issued worker now slot).elim writer fun call =>
      call.statsWriter ((s.workers worker).lease.map Prod.snd) s.store.db writer
  | _ => writer

/-- The `stats` of a running crawl are null or from a heartbeat of its last lease. -/
def StatsCurrent (s : System T) (writer : CrawlId → Option ℕ) : Prop :=
  ∀ c r, s.store.db.crawl.lookup c = some r → r.state = .running →
    r.stats = none ∨ writer c = some (s.leases c)

/-- A claim takes a crawl without `stats`. -/
def claimsFresh (s : System T) : SystemAct T → Bool
  | .claimCommit _ skip want _ =>
    (s.store.db.oldestQueued (fun id => id ∈ skip) want).all fun row => row.stats.isNone
  | _ => true

/-- The service with the history of its `stats`. -/
def stepStats (settings : Settings) :
    System T × (CrawlId → Option ℕ) → SystemAct T → Option (System T × (CrawlId → Option ℕ)) :=
  noted (System.step settings) System.statsWriter

/-! ## One step -/

/-- A step starts no lease, unless it is a claim, and a row it leaves running was running with the
same `stats`, unless it is a call of a job. -/
theorem step_running {s s' : System T} {a : SystemAct T} (h : FenceInv s)
    (hs : s.step settings a = some s')
    (hclaim : ∀ worker skip want now, a ≠ .claimCommit worker skip want now)
    (hcommit : ∀ worker slot now, a ≠ .commit worker slot now) :
    s'.leases = s.leases ∧ ∀ c r', s'.store.db.crawl.lookup c = some r' → r'.state = .running →
      ∃ r, s.store.db.crawl.lookup c = some r ∧ r.state = .running ∧ r'.stats = r.stats := by
  have hexternal : ∀ (b : StoreAction) (store : Store), b.external = true →
      storeStep s.store b = some store → ∀ c r', store.db.crawl.lookup c = some r' →
      r'.state = .running →
        ∃ r, s.store.db.crawl.lookup c = some r ∧ r.state = .running ∧ r'.stats = r.stats := by
    intro b store hb hstore c r' hr' hrun
    obtain ⟨-, hq, -⟩ | ⟨r, hr, rfl | ⟨now, -, rfl⟩⟩ := external_row hb hstore hr'
    · simp [hrun] at hq
    · exact ⟨r', hr, hrun, rfl⟩
    · refine ⟨r, hr, ?_⟩
      cases hst : r.state with
      | running => exact ⟨rfl, by simp [cancelRow, hst, flagCancel]⟩
      | queued => simp [cancelRow, hst, abortQueued] at hrun
      | finished | failed | aborted => simp [cancelRow, hst] at hrun
  have hquiet : s'.store = s.store → s'.leases = s.leases →
      s'.leases = s.leases ∧ ∀ c r', s'.store.db.crawl.lookup c = some r' → r'.state = .running →
        ∃ r, s.store.db.crawl.lookup c = some r ∧ r.state = .running ∧ r'.stats = r.stats := by
    intro hstore hleases
    rw [hstore]
    exact ⟨hleases, fun c r' hr' hrun => ⟨r', hr', hrun, rfl⟩⟩
  cases a with
  | create id seed config now =>
    obtain ⟨store, hstore, rfl⟩ := api_spec hs
    exact ⟨rfl, hexternal _ store rfl hstore⟩
  | requestCancel id now =>
    obtain ⟨store, hstore, rfl⟩ := api_spec hs
    exact ⟨rfl, hexternal _ store rfl hstore⟩
  | beginReap id leaseMicros maxAttempts now =>
    obtain ⟨store, hstore, rfl⟩ := Option.map_eq_some_iff.mp hs
    exact ⟨rfl, hexternal (.beginReap id leaseMicros maxAttempts now) store rfl hstore⟩
  | statement id =>
    obtain ⟨store, hstore, rfl⟩ := Option.map_eq_some_iff.mp hs
    exact ⟨rfl, hexternal (.statement id) store rfl hstore⟩
  | rollbackReap id =>
    simp only [step, Option.map_eq_some_iff] at hs
    obtain ⟨store, hstore, rfl⟩ := hs
    exact ⟨rfl, hexternal (.rollbackReap id) store rfl hstore⟩
  | commitReap id =>
    obtain ⟨tx, htx, hstore, -, hleases, -⟩ := commitReap_spec hs
    refine ⟨hleases, fun c r' hr' hrun => ?_⟩
    obtain ⟨r, hr, ⟨-, rfl⟩ | ⟨u, hu, -, rfl⟩⟩ := reaped_row h.tx htx hstore hr'
    · exact ⟨r', hr, hrun, rfl⟩
    · simp only [ReapTx.statements, reapStatements, List.mem_cons, List.not_mem_nil, or_false] at hu
      rcases hu with rfl | rfl | rfl <;> cases hrun
  | crash worker =>
    obtain rfl := Option.some.inj hs
    exact hquiet rfl rfl
  | claim worker =>
    have hs' := alive_some hs
    split at hs'
    · obtain rfl := Option.some.inj hs'
      exact hquiet rfl rfl
    · cases hs'
  | claimReturned worker =>
    have hs' := alive_some hs
    simp only [claimReturned] at hs'
    split at hs'
    · obtain rfl := Option.some.inj hs'
      exact hquiet rfl rfl
    · obtain rfl := Option.some.inj hs'
      exact hquiet rfl rfl
    · cases hs'
  | claimRaised worker =>
    have hs' := alive_some hs
    simp only [claimRaised] at hs'
    split at hs'
    · obtain rfl := Option.some.inj hs'
      exact hquiet rfl rfl
    · obtain rfl := Option.some.inj hs'
      exact hquiet rfl rfl
    · cases hs'
  | job worker a =>
    have hs' := alive_some hs
    simp only [System.job] at hs'
    split at hs'
    · obtain ⟨state, -, rfl⟩ := Option.map_eq_some_iff.mp hs'
      exact hquiet rfl rfl
    · cases hs'
  | record worker a =>
    have hs' := alive_some hs
    simp only [record] at hs'
    split at hs'
    · obtain ⟨state, -, rfl⟩ := Option.map_eq_some_iff.mp hs'
      exact hquiet rfl rfl
    · cases hs'
  | claimCommit worker skip want now => exact absurd rfl (hclaim worker skip want now)
  | commit worker slot now => exact absurd rfl (hcommit worker slot now)

/-- What a call of a job does to a row it leaves running: it is a heartbeat of the last lease, or it
leaves the `stats` as they are. -/
theorem called_stats {s : System T} (h : FenceInv s) {worker : WorkerId} {slot : Slot}
    {now : Instant} {call : Call} (hi : (s.workers worker).issued worker now slot = some call)
    {c : CrawlId} {r' : Crawl} (hr' : (call.exec s.store.db).1.crawl.lookup c = some r')
    (hrun : r'.state = .running) (writer : CrawlId → Option ℕ) :
    call.statsWriter ((s.workers worker).lease.map Prod.snd) s.store.db writer c =
        some (s.leases c) ∨
      (∃ r, s.store.db.crawl.lookup c = some r ∧ r.state = .running ∧ r'.stats = r.stats) ∧
        call.statsWriter ((s.workers worker).lease.map Prod.snd) s.store.db writer c = writer c := by
  obtain ⟨c₀, n, hl, hab, -⟩ := issued_spec hi
  obtain ⟨r, hr, rfl⟩ := called_row (by simp [hab]) hr'
  have hid : r.id = c := KeyedTable.lookup_key hr
  -- a call that leaves `c` alone writes no `stats` there
  have hmiss : ∀ id x, (c = id → call.takesEffect s.store.db = false) →
      (if call.takesEffect s.store.db then Function.update writer id x else writer) c =
        writer c := by
    intro id x hmiss
    by_cases he : c = id
    · rw [hmiss he, if_neg (by decide)]
    · split
      · exact Function.update_of_ne he _ _
      · rfl
  cases call with
  | heartbeat id worker' stats now' =>
    simp only [Call.rowAfter] at hrun ⊢
    cases hc : (heartbeatUpdate id worker' stats now').cond r with
    | true =>
      obtain rfl : c = id := hid.symm.trans (heartbeatUpdate_cond hc).1
      have heff : (Call.heartbeat c worker' stats now').takesEffect s.store.db = true := by
        simp [Call.takesEffect, Call.about, Call.takesLock, hr, hc]
      obtain ⟨hab', hlease, -⟩ := h.current hi hl heff
      obtain rfl := Option.some.inj hab'
      left
      rw [Call.statsWriter, if_pos heff, Function.update_self, hl, ← hlease]
      rfl
    | false =>
      rw [Update.onRow_of_not_cond hc] at hrun ⊢
      refine .inr ⟨⟨r, hr, hrun, rfl⟩, hmiss _ _ ?_⟩
      rintro rfl
      simp [Call.takesEffect, Call.about, Call.takesLock, hr, hc]
  | finish id worker' state stats error now' =>
    simp only [Call.rowAfter] at hrun ⊢
    cases hc : state.terminal && (finishUpdate id worker' state stats error now').cond r with
    | true =>
      obtain ⟨hterm, hc⟩ := Bool.and_eq_true_iff.mp hc
      rw [if_pos hterm, Update.onRow_of_cond hc] at hrun
      obtain rfl : state = .running := hrun
      cases hterm
    | false =>
      have hsame : (if state.terminal then
          (finishUpdate id worker' state stats error now').onRow r else r) = r := by
        split
        · rename_i hterm
          exact Update.onRow_of_not_cond (by simpa [hterm] using hc)
        · rfl
      rw [hsame] at hrun ⊢
      refine .inr ⟨⟨r, hr, hrun, rfl⟩, hmiss _ _ ?_⟩
      rintro rfl
      simpa [Call.takesEffect, Call.about, Call.takesLock, hr] using hc
  | release id worker' =>
    simp only [Call.rowAfter, Update.onRow] at hrun ⊢
    split at hrun
    · cases hrun
    · rename_i hc
      exact .inr ⟨⟨r, hr, hrun, by rw [if_neg hc]⟩, rfl⟩
  | insertPages id worker' rows => exact .inr ⟨⟨r, hr, hrun, rfl⟩, rfl⟩
  | create | claim | reap | requestCancel => cases hab

/-- A claim that finds a queued crawl starts a lease of it and leaves its `stats`. -/
theorem claimCommit_row {s s' : System T} {worker : WorkerId} {skip : List CrawlId}
    {want : CrawlId} {now : Instant} (hs : s.claimCommit worker skip want now = some s') :
    (s'.store.db = s.store.db ∧ s'.leases = s.leases ∧
      s.store.db.oldestQueued (fun id => id ∈ skip) want = none) ∨
    ∃ row r', s.store.db.oldestQueued (fun id => id ∈ skip) want = some row ∧
      r'.state = .running ∧ r'.stats = row.stats ∧
      s'.leases = Function.update s.leases row.id (s.leases row.id + 1) ∧
      s'.store.db.crawl.lookup row.id = some r' ∧
      ∀ c, c ≠ row.id → s'.store.db.crawl.lookup c = s.store.db.crawl.lookup c := by
  simp only [claimCommit] at hs
  split at hs
  · rename_i store row hw hcall
    obtain rfl := Option.some.inj hs
    obtain ⟨-, hrow, -, hrun, hothers, -⟩ := call_claim_spec hcall
    obtain ⟨-, -, -, hreply⟩ := call_spec hcall
    cases ho : s.store.db.oldestQueued (fun id => id ∈ skip) want with
    | none => simp [Call.exec, lookup_claim_none ho] at hreply
    | some r =>
      have hclaimed : row = (claimUpdate r.id r.attempts worker now).set r := by
        simpa [Call.exec, Db.claim, ho] using hreply
      have hid : row.id = r.id := by rw [hclaimed]; rfl
      have hstats : row.stats = r.stats := by rw [hclaimed]; rfl
      rw [hid] at hrow hothers
      exact .inr ⟨r, row, rfl, hrun, hstats, by rw [hid], hrow, hothers⟩
  · rename_i store hw hcall
    obtain rfl := Option.some.inj hs
    obtain ⟨-, -, -, hreply⟩ := call_spec hcall
    obtain rfl := call_claim_none hcall
    refine .inl ⟨rfl, rfl, ?_⟩
    cases ho : s.store.db.oldestQueued (fun id => id ∈ skip) want with
    | none => rfl
    | some r => simp [Call.exec, Db.claim, ho] at hreply
  · cases hs

theorem statsCurrent_init (writer : CrawlId → Option ℕ) : StatsCurrent ({} : System T) writer := by
  intro c r hr
  cases hr

/-- Claims of crawls without `stats` keep every running crawl's `stats` its last lease's. -/
theorem statsCurrent_step {s s' : System T} {writer : CrawlId → Option ℕ} {a : SystemAct T}
    (h : FenceInv s) (hcurrent : s.StatsCurrent writer) (hfresh : s.claimsFresh a = true)
    (hs : s.step settings a = some s') : s'.StatsCurrent (s.statsWriter writer a) := by
  intro c r' hr' hrun
  cases a with
  | claimCommit worker skip want now =>
    obtain ⟨hdb, hleases, -⟩ | ⟨row, claimed, ho, -, hstats, hleases, hrow, hothers⟩ :=
      claimCommit_row hs
    · rw [hdb] at hr'
      rw [hleases]
      exact hcurrent c r' hr' hrun
    · by_cases hc : c = row.id
      · subst hc
        obtain rfl := Option.some.inj (hrow.symm.trans hr')
        left
        rw [hstats]
        simpa [claimsFresh, ho] using hfresh
      · rw [hothers c hc] at hr'
        rw [hleases, Function.update_of_ne hc]
        exact hcurrent c r' hr' hrun
  | commit worker slot now =>
    cases hi : (s.workers worker).issued worker now slot with
    | none => simp [step, commit, hi] at hs
    | some call =>
      obtain ⟨reply, hcall, -, hleases, -⟩ := commit_spec hi hs
      obtain ⟨-, hdb, -, -⟩ := call_spec hcall
      rw [hdb] at hr'
      simp only [statsWriter, hi, Option.elim_some, hleases]
      obtain hmine | ⟨⟨r, hr, hrun₀, hstats⟩, hsame⟩ := called_stats h hi hr' hrun writer
      · exact .inr hmine
      · rw [hstats, hsame]
        exact hcurrent c r hr hrun₀
  | _ =>
    obtain ⟨hleases, hrows⟩ := step_running h hs (by simp) (by simp)
    obtain ⟨r, hr, hrun₀, hstats⟩ := hrows c r' hr' hrun
    rw [hleases, hstats]
    exact hcurrent c r hr hrun₀

/-- The writer is one of the leases so far. -/
theorem statsWriter_le {s s' : System T} {writer : CrawlId → Option ℕ} {a : SystemAct T}
    (h : FenceInv s) (hle : ∀ c n, writer c = some n → n ≤ s.leases c)
    (hs : s.step settings a = some s') (c : CrawlId) (n : ℕ)
    (hn : s.statsWriter writer a c = some n) : n ≤ s'.leases c := by
  have hmono : s.leases c ≤ s'.leases c := by
    rcases leases_step (step_cases hs) c with he | ⟨he, -⟩ <;> omega
  suffices n ≤ s.leases c from this.trans hmono
  cases a with
  | commit worker slot now =>
    cases hi : (s.workers worker).issued worker now slot with
    | none => simp [step, commit, hi] at hs
    | some call =>
      obtain ⟨c₀, m, hl, hab, -⟩ := issued_spec hi
      simp only [statsWriter, hi, Option.elim_some, hl, Option.map_some] at hn
      cases call with
      | heartbeat id worker' stats now' =>
        obtain rfl : id = c₀ := Option.some.inj hab
        simp only [Call.statsWriter, Function.update_apply, ite_apply] at hn
        split at hn
        · split at hn
          · rename_i hc
            subst hc
            obtain rfl := Option.some.inj hn
            exact h.bound worker c m hl
          · exact hle c n hn
        · exact hle c n hn
      | finish id worker' state stats error now' =>
        simp only [Call.statsWriter, Function.update_apply, ite_apply] at hn
        split at hn
        · split at hn
          · cases hn
          · exact hle c n hn
        · exact hle c n hn
      | _ => exact hle c n hn
  | _ => exact hle c n hn

theorem statsCurrent_run {actions : List (SystemAct T)} {s : System T × (CrawlId → Option ℕ)}
    (h : run (stepStats settings) ({}, fun _ => none) actions = some s)
    (hm : Meets (System.step settings) (fun t a => t.claimsFresh a = true) {} actions) :
    s.1.StatsCurrent s.2 := by
  refine ((meets_noted hm).invariant (P := fun s => FenceInv s.1 ∧ s.1.StatsCurrent s.2)
    (fun t a t' hi hfresh hstep => ?_) ⟨fenceInv_init, statsCurrent_init _⟩ h).2
  obtain ⟨hs, hwriter⟩ := noted_some.mp hstep
  exact ⟨fenceInv_step hi.1 (step_cases hs), hwriter ▸ statsCurrent_step hi.1 hi.2 hfresh hs⟩

theorem statsWriter_run {actions : List (SystemAct T)} {s : System T × (CrawlId → Option ℕ)}
    (h : run (stepStats settings) ({}, fun _ => none) actions = some s) (c : CrawlId) (n : ℕ)
    (hn : s.2 c = some n) : n ≤ s.1.leases c := by
  refine (run_invariant (P := fun s => FenceInv s.1 ∧ ∀ c n, s.2 c = some n → n ≤ s.1.leases c)
    (fun t a t' hi hstep => ?_) ⟨fenceInv_init, fun c n hn => by cases hn⟩ h).2 c n hn
  obtain ⟨hs, hwriter⟩ := noted_some.mp hstep
  exact ⟨fenceInv_step hi.1 (step_cases hs), hwriter ▸ statsWriter_le hi.1 hi.2 hs⟩

/-- A claim of a crawl with `stats` shows them under a lease that has not written any. -/
theorem claimsFresh_of_current {s s' : System T} {writer : CrawlId → Option ℕ} {a : SystemAct T}
    (hle : ∀ c n, writer c = some n → n ≤ s.leases c) (hs : s.step settings a = some s')
    (hcurrent : s'.StatsCurrent (s.statsWriter writer a)) : s.claimsFresh a = true := by
  cases a with
  | claimCommit worker skip want now =>
    obtain ⟨-, -, ho⟩ | ⟨row, r', ho, hrun, hstats, hleases, hrow, -⟩ := claimCommit_row hs
    · simp [claimsFresh, ho]
    · obtain hnone | hwriter := hcurrent row.id r' hrow hrun
      · simp [claimsFresh, ho, ← hstats, hnone]
      · rw [hleases, Function.update_self] at hwriter
        have hbound := hle row.id _ hwriter
        omega
  | _ => rfl

end System

/-- The `stats` of a running crawl are null or from a heartbeat of its last lease, in every state a
run goes through, exactly when each of its claims takes a crawl without `stats`; and then the pages
beside them were reported under that lease too. -/
theorem stats_of_lease {actions : List (SystemAct T)} {s : System T}
    {writer : CrawlId → Option ℕ}
    (h : run (System.stepStats settings) ({}, fun _ => none) actions = some (s, writer)) :
    ((∀ pre t w, pre <+: actions →
        run (System.stepStats settings) ({}, fun _ => none) pre = some (t, w) → t.StatsCurrent w) ↔
      Meets (System.step settings) (fun t a => t.claimsFresh a = true) {} actions) ∧
    (Meets (System.step settings) (fun t a => t.claimsFresh a = true) {} actions →
      ∀ c r, s.store.db.crawl.lookup c = some r → r.state = .running → r.stats ≠ none →
        ∃ n k, writer c = some n ∧ HoldsPrefix s.store.db c (s.history c n).reports k) := by
  refine ⟨⟨fun hall => meets_iff_prefix.mpr ?_, ?_⟩, fun hm c r hr hrun hstats => ?_⟩
  · rintro pre a post t rfl hpre
    rw [run_append] at h
    obtain ⟨⟨t', w⟩, hpre', hpost⟩ := Option.bind_eq_some_iff.mp h
    obtain rfl : t = t' := Option.some.inj (hpre.symm.trans (run_noted hpre'))
    obtain ⟨⟨u, w'⟩, hstep, -⟩ := run_cons_some _ hpost
    obtain ⟨hs, rfl⟩ := noted_some.mp hstep
    refine System.claimsFresh_of_current (System.statsWriter_run hpre') hs
      (hall (pre ++ [a]) u _ ⟨post, by simp⟩ ?_)
    rw [run_append, hpre']
    exact (run_cons _ hstep).trans rfl
  · rintro hm pre t w ⟨post, rfl⟩ hpre
    exact System.statsCurrent_run hpre hm.append_left
  · obtain ⟨k, hk, -⟩ := (System.pagesInv_reaches ⟨actions, run_noted h⟩).stored c
    have hwriter := (System.statsCurrent_run h hm c r hr hrun).resolve_left hstats
    exact ⟨s.leases c, k, hwriter, hk⟩

end

/-- A lease beats and falls silent, its crawl is requeued and claimed again. -/
def reclaimedAfterHeartbeat : List (SystemAct (CrawlTask.replay [])) :=
  [.create 1 "https://a.test/".toList
      { concurrency := 10, timeout := 10, maxPages := none, maxBytes := 5000000,
        respectRobots := true } 0,
    .claim "host:1", .claimCommit "host:1" [] 1 1, .claimReturned "host:1",
    .job "host:1" (.beat 5), .commit "host:1" .heartbeat 6,
    .beginReap 0 30 3 100, .statement 0, .statement 0, .statement 0, .commitReap 0,
    .claim "host:2", .claimCommit "host:2" [] 1 101]

/-- The second lease shows the counters of the first. -/
theorem reclaimedAfterHeartbeat_stale : ∃ s writer,
    run (System.stepStats ⟨100, toString⟩) ({}, fun _ => none) reclaimedAfterHeartbeat =
      some (s, writer) ∧ s.leases 1 = 2 ∧ writer 1 = some 1 ∧ ¬s.StatsCurrent writer := by
  have hrun : (run (System.stepStats ⟨100, toString⟩) ({}, fun _ => none)
      reclaimedAfterHeartbeat).any (fun s => decide (s.1.leases 1 = 2 ∧ s.2 1 = some 1) &&
        (s.1.store.db.crawl.lookup 1).any fun r => r.state = .running && r.stats.isSome) = true := by
    decide +kernel
  obtain ⟨⟨s, writer⟩, hs, hfacts⟩ := (Option.any_eq_true _ _).mp hrun
  obtain ⟨hleases, hrow⟩ := Bool.and_eq_true_iff.mp hfacts
  obtain ⟨hleases, hwriter⟩ := of_decide_eq_true hleases
  obtain ⟨r, hr, hshown⟩ := (Option.any_eq_true _ _).mp hrow
  obtain ⟨hrunning, hstats⟩ := Bool.and_eq_true_iff.mp hshown
  refine ⟨s, writer, hs, hleases, hwriter, fun hcurrent => ?_⟩
  obtain hnone | hlease := hcurrent 1 r hr (of_decide_eq_true hrunning)
  · rw [hnone] at hstats
    cases hstats
  · have hsame : some 1 = some 2 := hwriter.symm.trans (hlease.trans (congrArg some hleases))
    cases hsame

/-- Up to the first heartbeat each claim took a crawl without `stats`. -/
theorem stats_of_lease_first : ∃ s writer,
    run (System.stepStats ⟨100, toString⟩) ({}, fun _ => none) (reclaimedAfterHeartbeat.take 6) =
      some (s, writer) ∧ s.StatsCurrent writer ∧ writer 1 = some (s.leases 1) := by
  have hrun : (run (System.stepStats ⟨100, toString⟩) ({}, fun _ => none)
      (reclaimedAfterHeartbeat.take 6)).any (fun s => decide (s.2 1 = some (s.1.leases 1))) =
        true := by
    decide +kernel
  have hfresh : Meets (System.step ⟨100, toString⟩) (fun t a => t.claimsFresh a = true) {}
      (reclaimedAfterHeartbeat.take 6) := by
    decide +kernel
  obtain ⟨⟨s, writer⟩, hs, hwriter⟩ := (Option.any_eq_true _ _).mp hrun
  exact ⟨s, writer, hs, (stats_of_lease hs).1.mpr hfresh _ s writer List.prefix_rfl hs,
    of_decide_eq_true hwriter⟩

end UrlCrawler
