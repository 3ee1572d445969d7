import UrlCrawler.Service.StoredPages

/-! # Finished crawls

A crawl recorded `finished` has all its pages (`finished_complete`): the run of the lease that
recorded it returned un-aborted, its N pages are the rows 1 to N, and the stored total is N.

The argument follows a `finished` verdict to the row. A worker that is about to record it has been
through a drain that ended without an error on a lease not known to be lost, so its reporter has
nothing left to write (`complete_of_record`); from then on nobody else can write for that lease, and
once another one has begun the write no longer lands.
-/
set_option autoImplicit false

namespace UrlCrawler
open Execution

section
variable {T : CrawlTask} {settings : Settings}

/-- An insert comes from a running job. -/
theorem issued_insert {state : WorkerState T} {worker : WorkerId} {now : Instant} {slot : Slot}
    {id : CrawlId} {worker' : WorkerId} {rows : List PageRow} {c : CrawlId} {n : ℕ}
    (h : state.issued worker now slot = some (.insertPages id worker' rows))
    (hl : state.lease = some (c, n)) :
    ∃ job, state = .running job ∧ job.crawl = c ∧ job.lease = n := by
  cases state with
  | running job =>
    obtain ⟨rfl, rfl⟩ := Prod.mk.inj (Option.some.inj hl)
    exact ⟨job, rfl, rfl, rfl⟩
  | recording r =>
    cases slot with
    | record =>
      simp only [WorkerState.issued] at h
      split at h <;> cases h
    | heartbeat | flush => cases h
  | idle | claiming | claimed => cases slot <;> cases h

/-- A `finish` comes from a recording that is about to write its state. -/
theorem issued_finish {state : WorkerState T} {worker : WorkerId} {now : Instant} {slot : Slot}
    {id : CrawlId} {worker' : WorkerId} {final : CrawlState} {stats : Summary}
    {error : Option String} {now' : Instant}
    (h : state.issued worker now slot = some (.finish id worker' final stats error now')) :
    ∃ r, state = .recording r ∧ r.crawl = id ∧ r.stats = stats ∧ r.phase.state = some final := by
  cases state with
  | running job =>
    cases slot with
    | heartbeat =>
      simp only [WorkerState.issued] at h
      split at h <;> cases h
    | flush task =>
      obtain ⟨rows, -, hcall⟩ := Option.map_eq_some_iff.mp h
      cases hcall
    | record => cases h
  | recording r =>
    cases slot with
    | record =>
      simp only [WorkerState.issued] at h
      split at h
      · cases h
      · rename_i hp
        cases h
        exact ⟨r, rfl, rfl, rfl, by rw [hp]; rfl⟩
      · cases h
    | heartbeat | flush => cases h
  | idle | claiming | claimed => cases slot <;> cases h

namespace System

/-- Lease `n` of crawl `c` ran to an un-aborted end, `stats` count its pages, and while it is the
crawl's last lease all of them are stored. -/
def Complete (s : System T) (c : CrawlId) (n : ℕ) (stats : Summary) : Prop :=
  (∃ o, (s.history c n).result = some (.returned o) ∧ o.aborted = false) ∧
    stats.pagesTotal = (s.history c n).reports.length ∧
    (n = s.leases c →
      HoldsPrefix s.store.db c (s.history c n).reports (s.history c n).reports.length)

theorem Complete.mono {s s' : System T} {c : CrawlId} {n : ℕ} {stats : Summary}
    (h : s.Complete c n stats) (hhistory : s'.history c n = s.history c n)
    (hleases : n = s'.leases c → n = s.leases c)
    (hpages : n = s'.leases c → ∀ seq,
      s'.store.db.page.lookup (c, seq) = s.store.db.page.lookup (c, seq)) :
    s'.Complete c n stats := by
  obtain ⟨hresult, htotal, hstored⟩ := h
  rw [Complete, hhistory]
  refine ⟨hresult, htotal, fun hn => ?_⟩
  obtain ⟨hle, hk⟩ := hstored (hleases hn)
  exact ⟨hle, fun seq => (hpages hn seq).trans (hk seq)⟩

/-! ## What a step does to the log, the leases and the pages of one crawl -/

/-- The log of a run that is over does not change. -/
theorem history_frozen {s s' : System T} (h : PagesInv s) (hs : SystemStep settings s s')
    {c : CrawlId} {n : ℕ} (hover : (s.history c n).result ≠ none) :
    s'.history c n = s.history c n := by
  cases hs with
  | reap id _ hreap =>
    obtain ⟨_, _, _, _, _, hhistory, -⟩ := commitReap_spec hreap
    rw [hhistory]
  | commit worker slot now call hi _ hcommit =>
    obtain ⟨_, _, _, _, hhistory, -⟩ := commit_spec hi hcommit
    rw [hhistory]
  | crawl worker job hw a clock task htask =>
    rw [setLog_history, if_neg]
    · rfl
    · rintro ⟨rfl, rfl⟩
      exact hover ((h.jobs worker job hw).result.trans (T.ended htask))
  | external | crash | claim | move | job => rfl

theorem leases_step {s s' : System T} (hs : SystemStep settings s s') (c : CrawlId) :
    s'.leases c = s.leases c ∨ s'.leases c = s.leases c + 1 ∧
      ∃ r, s.store.db.crawl.lookup c = some r ∧ r.state = .queued := by
  cases hs with
  | reap id _ hreap =>
    obtain ⟨_, _, _, _, hleases, -⟩ := commitReap_spec hreap
    exact .inl (by rw [hleases])
  | commit worker slot now call hi _ hcommit =>
    obtain ⟨_, _, _, hleases, -⟩ := commit_spec hi hcommit
    exact .inl (by rw [hleases])
  | claim worker skip want now hw store row hcall =>
    obtain ⟨hqueued, -⟩ := call_claim_spec hcall
    by_cases hc : c = row.id
    · subst hc
      exact .inr ⟨by simp, hqueued⟩
    · exact .inl (by simp [hc])
  | external | crash | move | crawl | job => exact .inl rfl

/-- The pages of a crawl change when it is claimed, or by an insert of the running job of its last
lease, while its state is `running`. -/
theorem pages_step {s s' : System T} (h : PagesInv s) (hs : SystemStep settings s s')
    (c : CrawlId) :
    (∀ seq, s'.store.db.page.lookup (c, seq) = s.store.db.page.lookup (c, seq)) ∨
      s'.leases c = s.leases c + 1 ∨
      ∃ worker job r, s.workers worker = .running job ∧ job.crawl = c ∧
        job.lease = s.leases c ∧ s.store.db.crawl.lookup c = some r ∧ r.state = .running := by
  cases hs with
  | external a store ha hstore => exact .inl fun seq => by rw [external_page ha hstore]
  | reap id _ hreap =>
    obtain ⟨_, _, hstore, -⟩ := commitReap_spec hreap
    obtain ⟨_, _, hpage, -⟩ := UrlCrawler.commitReap_spec hstore
    exact .inl fun seq => by rw [hpage]
  | claim worker skip want now hw store row hcall =>
    obtain ⟨-, -, -, -, -, hpages⟩ := call_claim_spec hcall
    by_cases hc : c = row.id
    · subst hc
      exact .inr (.inl (by simp))
    · exact .inl fun seq => by rw [hpages, if_neg hc]
  | commit worker slot now call hi _ hcommit =>
    obtain ⟨reply, hcall, -⟩ := commit_spec hi hcommit
    obtain ⟨-, hdb, -, -⟩ := call_spec hcall
    obtain ⟨c₀, n, hl, hab, -⟩ := issued_spec hi
    by_cases hc : c = c₀
    · subst hc
      cases heff : call.takesEffect s.store.db with
      | false => exact .inl fun seq => by rw [hdb, exec_of_not_takesEffect hab heff]
      | true =>
        by_cases hins : ∃ id worker' rows, call = .insertPages id worker' rows
        · obtain ⟨id, worker', rows, rfl⟩ := hins
          obtain rfl := Option.some.inj hab
          obtain ⟨-, hlease, -⟩ := h.fence.current hi hl heff
          obtain ⟨job, hw, hcrawl, hjl⟩ := issued_insert hi hl
          simp only [Call.takesEffect, Call.about, Option.any_some, Call.takesLock] at heff
          obtain ⟨r, hr, hrow⟩ := (Option.any_eq_true _ _).mp heff
          simp only [Bool.and_eq_true, decide_eq_true_eq] at hrow
          exact .inr (.inr ⟨worker, job, r, hw, hcrawl, hjl.trans hlease, hr, hrow.2⟩)
        · refine .inl fun seq => ?_
          rw [hdb, page_exec]
          · rintro skip want worker' now' rfl
            cases hab
          · rintro id worker' rows rfl
            exact hins ⟨id, worker', rows, rfl⟩
    · exact .inl fun seq => by rw [hdb, (exec_frame hab hc).2]
  | crash | move | crawl | job => exact .inl fun _ => rfl

/-- How a row comes to be `finished` after a step: it was and is left alone, or the `finish` of a
recording of its last lease has landed. -/
theorem finished_row {s s' : System T} (h : FenceInv s) (hs : SystemStep settings s s')
    {c : CrawlId} {r' : Crawl} (hr' : s'.store.db.crawl.lookup c = some r')
    (hf : r'.state = .finished) :
    (∃ r, s.store.db.crawl.lookup c = some r ∧ r.state = .finished ∧ r'.stats = r.stats ∧
      s'.recorded c = s.recorded c ∧ s'.leases c = s.leases c) ∨
    ∃ worker r, s.workers worker = .recording r ∧ r.phase.state = some .finished ∧
      r.crawl = c ∧ r.lease = s.leases c ∧ r'.stats = some r.stats ∧
      s'.recorded c = some (s.leases c) ∧ s'.leases c = s.leases c := by
  cases hs with
  | external a store ha hstore =>
    obtain ⟨-, hq, -⟩ | ⟨r, hr, rfl | ⟨now, -, rfl⟩⟩ := external_row ha hstore hr'
    · simp [hf] at hq
    · exact .inl ⟨r', hr, hf, rfl, rfl, rfl⟩
    · cases hst : r.state with
      | finished => exact .inl ⟨r, hr, hst, by simp [cancelRow, hst], rfl, rfl⟩
      | queued => simp [cancelRow, hst, abortQueued] at hf
      | running => simp [cancelRow, hst, flagCancel] at hf
      | failed | aborted => simp [cancelRow, hst] at hf
  | reap id _ hreap =>
    obtain ⟨tx, htx, hstore, -, hleases, -, hrecorded, -⟩ := commitReap_spec hreap
    obtain ⟨r, hr, ⟨-, rfl⟩ | ⟨u, hu, -, rfl⟩⟩ := reaped_row h.tx htx hstore hr'
    · exact .inl ⟨r', hr, hf, rfl, by rw [hrecorded], by rw [hleases]⟩
    · simp only [ReapTx.statements, reapStatements, List.mem_cons, List.not_mem_nil, or_false] at hu
      rcases hu with rfl | rfl | rfl <;> cases hf
  | claim worker skip want now hw store row hcall =>
    obtain ⟨-, hrow, -, hrunning, hothers, -⟩ := call_claim_spec hcall
    by_cases hc : c = row.id
    · subst hc
      obtain rfl := Option.some.inj (hrow.symm.trans hr')
      simp [hf] at hrunning
    · exact .inl ⟨r', (hothers c hc).symm.trans hr', hf, rfl, rfl, Function.update_of_ne hc _ _⟩
  | commit worker slot now call hi _ hcommit =>
    obtain ⟨reply, hcall, -, hleases, -, -, hrecorded⟩ := commit_spec hi hcommit
    obtain ⟨-, hdb, -, hreply⟩ := call_spec hcall
    obtain ⟨c₀, n, hl, hab, -⟩ := issued_spec hi
    rw [hdb] at hr'
    obtain ⟨r, hr, rfl⟩ := called_row (by simp [hab]) hr'
    rw [hleases]
    have hid : r.id = c := KeyedTable.lookup_key hr
    cases call with
    | heartbeat id worker' stats now' =>
      simp only [Call.rowAfter, Update.onRow] at hf ⊢
      split at hf
      · rename_i hc
        exact absurd ((heartbeatUpdate_cond hc).2.2.symm.trans hf) (by decide)
      · rename_i hc
        exact .inl ⟨r, hr, hf, by rw [if_neg hc], by rw [hrecorded]; rfl, trivial⟩
    | finish id worker' state stats error now' =>
      obtain ⟨rec, hw, rfl, rfl, hphase⟩ := issued_finish hi
      simp only [Call.rowAfter] at hf ⊢
      simp only [Call.exec] at hreply
      cases hterm : state.terminal with
      | false =>
        simp only [hterm, Bool.false_eq_true, if_false] at hf ⊢
        have hinvalid : reply = .invalid := by simpa [Db.finish, hterm] using hreply
        exact .inl ⟨r, hr, hf, rfl, by rw [hrecorded, hinvalid]; rfl, trivial⟩
      | true =>
        simp only [hterm, if_true, finish_of_terminal hterm] at hf hreply ⊢
        cases hc : (finishUpdate rec.crawl worker' state rec.stats error now').cond r with
        | true =>
          rw [Update.onRow_of_cond hc] at hf ⊢
          obtain rfl : state = .finished := hf
          obtain rfl : c = rec.crawl := hid.symm.trans (finishUpdate_cond hc).1
          have heff : (Call.finish rec.crawl worker' .finished rec.stats error now').takesEffect
              s.store.db = true := by
            simp [Call.takesEffect, Call.about, Call.takesLock, hr, hc, CrawlState.terminal]
          obtain ⟨hab', hlease, -⟩ := h.current hi hl heff
          obtain rfl := Option.some.inj hab'
          have hrec : rec.lease = n := by
            rw [hw] at hl
            exact (Prod.mk.inj (Option.some.inj hl)).2
          refine .inr ⟨worker, rec, hw, hphase, rfl, hrec.trans hlease, rfl, ?_, trivial⟩
          rw [hrecorded, hreply, hr, Option.any_some, hc, hl, ← hlease]
          exact Function.update_self _ _ _
        | false =>
          rw [Update.onRow_of_not_cond hc] at hf ⊢
          refine .inl ⟨r, hr, hf, rfl, ?_, trivial⟩
          rw [hrecorded, hreply]
          by_cases he : c = rec.crawl
          · subst he
            simp [hr, hc, recordedAfter]
          · generalize (s.store.db.crawl.lookup rec.crawl).any _ = recorded
            cases recorded with
            | true => exact Function.update_of_ne he _ _
            | false => rfl
    | release id worker' =>
      simp only [Call.rowAfter, Update.onRow] at hf ⊢
      split at hf
      · cases hf
      · rename_i hc
        exact .inl ⟨r, hr, hf, by rw [if_neg hc], by rw [hrecorded]; rfl, trivial⟩
    | insertPages id worker' rows => exact .inl ⟨r, hr, hf, rfl, by rw [hrecorded]; rfl, rfl⟩
    | create | claim | reap | requestCancel => cases hab
  | crash | move | crawl | job => exact .inl ⟨r', hr', hf, rfl, rfl, rfl⟩

/-- A job that goes on to record `finished` is complete. -/
theorem complete_of_record {s : System T} (h : PagesInv s) {worker : WorkerId} {job : Job T}
    (hw : s.workers worker = .running job) {a : JobAct T} {state : WorkerState T} (hs : JobStep job a state)
    {r : Recording} (hr : state = .recording r) (hf : r.phase.state = some .finished) :
    s.Complete r.crawl r.lease r.stats := by
  have hjob := h.jobs worker job hw
  cases hs with
  | record final error flushError hphase elapsed =>
    have hpieces : job.interrupt ≠ some .leaseLost ∧
        (applyFlushError final error flushError).1 = .finished ∧ r.crawl = job.crawl ∧
        r.lease = job.lease ∧ r.stats = summary (T.stats job.task) elapsed := by
      simp only [Job.record] at hr
      split at hr
      · cases hr
      · cases hr
        cases hf
      · rename_i hlost hstopped
        cases hr
        exact ⟨hlost, Option.some.inj hf, rfl, rfl, rfl⟩
    obtain ⟨hlost, hfinal, hcrawl, hlease, hstats⟩ := hpieces
    have hclean : final = .finished ∧ flushError = none := by
      cases flushError with
      | none => exact ⟨hfinal, rfl⟩
      | some e => cases final <;> simp [applyFlushError] at hfinal
    obtain ⟨rfl, rfl⟩ := hclean
    -- the drain ended well, so nothing is left in the buffer
    have hempty : job.reporter.buffer = [] :=
      (hjob.drained (by rw [hphase]; rfl)).resolve_left hlost
    have hbuf : job.reporter.Buffered (s.history job.crawl job.lease).reports :=
      hjob.buffered.resolve_right fun hd => hlost hd.2.1
    have hwritten : (s.history job.crawl job.lease).reports.length ≤ job.reporter.stored := by
      have hlen := congrArg List.length (hempty.symm.trans hbuf)
      rw [List.length_nil, List.length_drop, DbReporter.length_rowsOf] at hlen
      simp only [DbReporter.stored]
      omega
    obtain ⟨o, hresult, ho⟩ := hjob.verdict error (by rw [hphase]; rfl)
    rw [hcrawl, hlease, hstats]
    refine ⟨⟨o, hjob.result.trans hresult, ho⟩, ?_, fun hcur => ?_⟩
    · show (T.stats job.task).pagesTotal = _
      rw [T.pagesTotal, ← hjob.pages, List.length_map]
    · obtain ⟨k, hk, hjobs⟩ := h.stored job.crawl
      rw [← hcur] at hk
      have hall : k = (s.history job.crawl job.lease).reports.length :=
        le_antisymm hk.1 (hwritten.trans (hjobs worker job hw rfl hcur))
      rwa [hall] at hk
  | _ => cases hr

/-! ## The invariant -/

/-- Whoever is about to record `finished` is complete, and so is every finished row. -/
structure FinishedInv (s : System T) : Prop where
  pages : PagesInv s
  recordings : ∀ worker r, s.workers worker = .recording r → r.phase.state = some .finished →
    s.Complete r.crawl r.lease r.stats
  rows : ∀ c r, s.store.db.crawl.lookup c = some r → r.state = .finished →
    s.recorded c = some (s.leases c) ∧
      ∃ stats, r.stats = some stats ∧ s.Complete c (s.leases c) stats

theorem finishedInv_init : FinishedInv ({} : System T) where
  pages := pagesInv_init
  recordings := by intro worker r h; cases h
  rows := by intro c r h; cases h

/-- A recording before a step stays complete after it: no other job writes for its lease. -/
theorem complete_recording {s s' : System T} (h : FinishedInv s) (hs : SystemStep settings s s')
    {worker : WorkerId} {r : Recording} (hw : s.workers worker = .recording r)
    (hf : r.phase.state = some .finished) : s'.Complete r.crawl r.lease r.stats := by
  have hcomplete := h.recordings worker r hw hf
  have hlease : (s.workers worker).lease = some (r.crawl, r.lease) := by rw [hw]; rfl
  have hbound := h.pages.fence.bound worker r.crawl r.lease hlease
  obtain ⟨o, hresult, -⟩ := hcomplete.1
  have hback : r.lease = s'.leases r.crawl → r.lease = s.leases r.crawl := by
    intro hn
    rcases leases_step hs r.crawl with he | ⟨he, -⟩
    · exact hn.trans he
    · omega
  refine hcomplete.mono (history_frozen h.pages hs (by simp [hresult])) hback fun hn => ?_
  rcases pages_step h.pages hs r.crawl with hsame | hclaim | ⟨other, job, _, hjob, hc, hl, -⟩
  · exact hsame
  · have := hback hn
    omega
  · have hother : (s.workers other).lease = some (r.crawl, r.lease) := by
      rw [hjob, WorkerState.lease, hc, hl, hback hn]
    obtain rfl := h.pages.fence.unique other worker _ hother hlease
    rw [hw] at hjob
    cases hjob

/-- A finished row stays complete. -/
theorem complete_row {s s' : System T} (h : FinishedInv s) (hs : SystemStep settings s s')
    {c : CrawlId} {r : Crawl} (hr : s.store.db.crawl.lookup c = some r) (hf : r.state = .finished)
    {stats : Summary} (hcomplete : s.Complete c (s.leases c) stats) :
    s'.leases c = s.leases c ∧ s'.Complete c (s.leases c) stats := by
  have hleases : s'.leases c = s.leases c := by
    rcases leases_step hs c with he | ⟨-, r₀, hr₀, hq⟩
    · exact he
    · obtain rfl := Option.some.inj (hr.symm.trans hr₀)
      simp [hf] at hq
  obtain ⟨o, hresult, -⟩ := hcomplete.1
  refine ⟨hleases, hcomplete.mono (history_frozen h.pages hs (by simp [hresult])) (fun _ => rfl)
    fun _ => ?_⟩
  rcases pages_step h.pages hs c with hsame | hclaim | ⟨_, _, r₀, -, -, -, hr₀, hrun⟩
  · exact hsame
  · omega
  · obtain rfl := Option.some.inj (hr.symm.trans hr₀)
    simp [hf] at hrun

theorem answer_recording {state : WorkerState T} {reply : Reply} {slot : Slot} {r' : Recording}
    (h : state.answer reply slot = .recording r') : ∃ r, state = .recording r ∧
      r'.phase.state = r.phase.state ∧ r'.crawl = r.crawl ∧ r'.lease = r.lease ∧
      r'.stats = r.stats := by
  cases state with
  | recording r =>
    refine ⟨r, rfl, ?_⟩
    cases slot with
    | record =>
      simp only [WorkerState.answer] at h
      split at h
      · rename_i hp
        cases h
        simp [hp, RecordPhase.state]
      · rename_i hp
        cases h
        simp [hp, RecordPhase.state]
      · cases h
        simp
    | heartbeat | flush =>
      cases h
      simp
  | running job =>
    cases slot with
    | heartbeat =>
      simp only [WorkerState.answer] at h
      split at h <;> cases h
    | flush | record => cases h
  | idle | claiming | claimed => cases slot <;> cases h

/-- A worker that records `finished` after a step did so before, or its job has just ended. -/
theorem recording_step {s s' : System T} (hs : SystemStep settings s s') {worker : WorkerId}
    {r' : Recording} (hw' : s'.workers worker = .recording r')
    (hf : r'.phase.state = some .finished) :
    (∃ r, s.workers worker = .recording r ∧ r.phase.state = some .finished ∧
      r'.crawl = r.crawl ∧ r'.lease = r.lease ∧ r'.stats = r.stats) ∨
    ∃ job a, s.workers worker = .running job ∧ JobStep job a (.recording r') ∧
      s' = s.setWorker worker (.recording r') := by
  have hsame : s.workers worker = .recording r' → ∃ r, s.workers worker = .recording r ∧
      r.phase.state = some .finished ∧ r'.crawl = r.crawl ∧ r'.lease = r.lease ∧
      r'.stats = r.stats :=
    fun hw => ⟨r', hw, hf, rfl, rfl, rfl⟩
  cases hs with
  | external | crash => exact .inl (hsame hw')
  | reap id _ hreap =>
    obtain ⟨_, _, _, hworkers, -⟩ := commitReap_spec hreap
    exact .inl (hsame (hworkers ▸ hw'))
  | claim other skip want now hw store row hcall =>
    simp only [setWorker, Function.update_apply] at hw'
    split at hw'
    · cases hw'
    · exact .inl (hsame hw')
  | commit other slot now call hi _ hcommit =>
    obtain ⟨reply, -, hworkers, -⟩ := commit_spec hi hcommit
    rw [hworkers, Function.update_apply] at hw'
    split at hw'
    · rename_i he
      subst he
      obtain ⟨r, hw, hstate, hrest⟩ := answer_recording hw'
      exact .inl ⟨r, hw, hstate ▸ hf, hrest⟩
    · exact .inl (hsame hw')
  | move other state hmove =>
    simp only [setWorker, Function.update_apply] at hw'
    split at hw'
    · rename_i he
      subst he
      generalize hold : s.workers worker = old at hmove
      cases hmove with
      | claim | emptyQueue | giveUp => cases hw'
      | start row n =>
        unfold runJob at hw'
        split at hw'
        · cases hw'
          cases hf
        · cases hw'
      | record r a state hstep =>
        obtain rfl | ⟨phase, rfl, hphase⟩ := Recording.step_cases hstep
        · cases hw'
        · cases hw'
          rcases hphase with he | he
          · exact .inl ⟨r, rfl, he.symm.trans hf, rfl, rfl, rfl⟩
          · cases he.symm.trans hf
    · exact .inl (hsame hw')
  | crawl other job hw a clock task htask =>
    simp only [setLog, setWorker, Function.update_apply] at hw'
    split at hw'
    · cases hw'
    · exact .inl (hsame hw')
  | job other job hw b state hstep =>
    by_cases he : worker = other
    · subst he
      simp only [setWorker, Function.update_self] at hw'
      subst hw'
      exact .inr ⟨job, b, hw, hstep, rfl⟩
    · refine .inl (hsame ?_)
      simpa [setWorker, he] using hw'

theorem finishedInv_step {s s' : System T} (h : FinishedInv s) (hs : SystemStep settings s s') :
    FinishedInv s' where
  pages := pagesInv_step h.pages hs
  recordings := by
    intro worker r' hw' hf
    rcases recording_step hs hw' hf with ⟨r, hw, hf₀, hc, hl, hst⟩ | ⟨job, b, hw, hjob, rfl⟩
    · rw [hc, hl, hst]
      exact complete_recording h hs hw hf₀
    · exact complete_of_record h.pages hw hjob rfl hf
  rows := by
    intro c r' hr' hf
    rcases finished_row h.pages.fence hs hr' hf with
      ⟨r, hr, hf₀, hst, hrec, -⟩ | ⟨worker, rec, hw, hphase, rfl, hl, hst, hrec, hleases⟩
    · obtain ⟨hrecorded, stats, hstats, hcomplete⟩ := h.rows c r hr hf₀
      obtain ⟨hleases, hcomplete'⟩ := complete_row h hs hr hf₀ hcomplete
      rw [hleases, hrec]
      exact ⟨hrecorded, stats, hst.trans hstats, hcomplete'⟩
    · rw [hleases]
      refine ⟨hrec, rec.stats, hst, ?_⟩
      rw [← hl]
      exact complete_recording h hs hw hphase

theorem finishedInv_reaches {s : System T} (h : Reaches (step settings) {} s) : FinishedInv s :=
  h.invariant finishedInv_init fun _ _ _ hi hs => finishedInv_step hi (step_cases hs)

end System

/-- A finished crawl is complete: the run of the lease that recorded it returned normally and
un-aborted, its page rows are exactly the N pages that run reported, under `seq` 1 to N, and the
stored stats count N pages. -/
theorem finished_complete {s : System T} (h : Reaches (System.step settings) {} s)
    {c : CrawlId} {r : Crawl} (hr : s.store.db.crawl.lookup c = some r)
    (hf : r.state = .finished) :
    ∃ n o stats, s.recorded c = some n ∧ (s.history c n).result = some (.returned o) ∧
      o.aborted = false ∧ r.stats = some stats ∧
      stats.pagesTotal = (s.history c n).reports.length ∧
      ∀ seq, s.store.db.page.lookup (c, seq) =
        if 0 < seq ∧ seq ≤ (s.history c n).reports.length then
          (rowsOf (s.history c n).reports)[seq - 1]?.map (pageOf c)
        else none := by
  obtain ⟨hrecorded, stats, hstats, ⟨o, hresult, ho⟩, htotal, hstored⟩ :=
    (System.finishedInv_reaches h).rows c r hr hf
  exact ⟨s.leases c, o, stats, hrecorded, hresult, ho, hstats, htotal, (hstored rfl).2⟩

end

end UrlCrawler
