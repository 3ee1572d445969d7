import UrlCrawler.Service.Verdicts

/-! # Why a crawl ended

What the `state` and `error` of a crawl that is over say of it is true: in every run of the service each
row that is terminal has its `Cause`, and so has whatever a worker is about to record.
-/
set_option autoImplicit false

namespace UrlCrawler
open Execution

section
variable {T : CrawlTask} {settings : Settings}

namespace System

/-! ## The invariant -/

/-- Every row that is over is so for a reason, and so is whatever is about to be recorded. -/
structure CausesInv (settings : Settings) (acts : List (SystemAct T)) (s : System T)
    (interrupted : WorkerId → Bool) : Prop where
  ran : run (step settings) {} acts = some s
  rows : RowsInv s
  reasons : ReasonsInv s interrupted
  traced : ∀ worker job, s.workers worker = .running job → job.Traced fun flushError =>
    Happened (step settings) (FlushFailed job.crawl job.lease flushError) {} acts
  asked : ∀ c row, s.store.db.crawl.lookup c = some row → row.cancelRequested = true →
    Happened (step settings) (CancelAsked c) {} acts
  claimed : ∀ worker crawl n, s.workers worker = .claimed (some crawl) n →
    ∃ row, s.store.db.crawl.lookup crawl.id = some row ∧ row.config = crawl.config
  recordings : ∀ worker r row, s.workers worker = .recording r →
    s.store.db.crawl.lookup r.crawl = some row → row.workerId = some worker →
    r.Founded settings acts row (s.history r.crawl r.lease).result
  causes : ∀ c row, s.store.db.crawl.lookup c = some row → row.state.terminal = true →
    Cause settings acts c (s.leases c) row (s.history c (s.leases c)).result row.state row.error

theorem causesInv_init (interrupted : WorkerId → Bool) :
    CausesInv settings [] ({} : System T) interrupted where
  ran := rfl
  rows := ⟨ownerInv_init, lifecycleInv_empty⟩
  reasons := reasonsInv_init interrupted
  traced := by intro worker job h; cases h
  asked := by intro c row h; cases h
  claimed := by intro worker crawl n h; cases h
  recordings := by intro worker r row h; cases h
  causes := by intro c row h; cases h

/-- A row moves on with its configuration and its cancel flag, and only a claim names a worker. -/
theorem rowMove_frame {row row' : Crawl} (h : RowMove row row') :
    row'.config = row.config ∧ (row.cancelRequested = true → row'.cancelRequested = true) ∧
      (row'.workerId = row.workerId ∨ row'.workerId = none ∨ row.state = .queued) := by
  rcases h with hstep | ⟨tx, u, hu, -, rfl⟩
  · refine ⟨?_, fun hflag => rowStep_keeps_flag hflag hstep, ?_⟩
    · cases hstep <;> rfl
    · cases hstep with
      | claim worker now queued => exact .inr (.inr queued)
      | keep | heartbeat | finish | abort | flag => exact .inl rfl
      | release | reapAbort | reapRequeue | reapFail => exact .inr (.inl rfl)
  · simp only [ReapTx.statements, reapStatements, List.mem_cons, List.not_mem_nil, or_false] at hu
    rcases hu with rfl | rfl | rfl <;> exact ⟨rfl, id, .inr (.inl rfl)⟩

/-- A worker that is about a crawl had it before, if a row names the worker now. -/
theorem owned_before {s s' : System T} (h : RowsInv s) (hs : SystemStep settings s s')
    {worker : WorkerId} {c : CrawlId} {n : ℕ} (hl : (s.workers worker).lease = some (c, n))
    {row' : Crawl} (hrow' : s'.store.db.crawl.lookup c = some row')
    (howner : row'.workerId = some worker) :
    ∃ row, s.store.db.crawl.lookup c = some row ∧ row.workerId = some worker ∧
      row'.config = row.config ∧ (row.cancelRequested = true → row'.cancelRequested = true) := by
  cases hrow : s.store.db.crawl.lookup c with
  | none =>
    obtain ⟨hqueued, hlifecycle⟩ := row_new hs hrow hrow'
    rw [hlifecycle.1 hqueued] at howner
    cases howner
  | some row =>
    obtain ⟨row₁, hrow₁, hmove⟩ := row_moves h.owner.pages.fence hs hrow
    obtain rfl := Option.some.inj (hrow'.symm.trans hrow₁)
    obtain ⟨hconfig, hflag, -⟩ := rowMove_frame hmove
    refine ⟨row, rfl, ?_, hconfig, hflag⟩
    have hkept : row' = row → row.workerId = some worker := fun he => he ▸ howner
    cases hs with
    | external a store ha hstore =>
      obtain ⟨hnone, -⟩ | ⟨row₂, hrow₂, rfl | ⟨now, -, rfl⟩⟩ := external_row ha hstore hrow'
      · simp [hnone] at howner
      · exact hkept (Option.some.inj (hrow₂.symm.trans hrow))
      · obtain rfl := Option.some.inj (hrow₂.symm.trans hrow)
        exact (cancelRow_workerId now row₂).symm.trans howner
    | reap id _ hreap =>
      obtain ⟨tx, htx, hstore, -⟩ := commitReap_spec hreap
      obtain ⟨row₂, hrow₂, ⟨-, rfl⟩ | hwrites⟩ :=
        reaped_row h.owner.pages.fence.tx htx hstore hrow'
      · exact hkept (Option.some.inj (hrow₂.symm.trans hrow))
      · simp [writes_workerId hwrites] at howner
    | claim other skip want now hw store crawl hcall =>
      obtain ⟨-, hcrawl, hholder, -, hothers, -⟩ := call_claim_spec hcall
      by_cases hc : c = crawl.id
      · -- the row names the claiming worker, which is about nothing yet
        subst hc
        obtain rfl := Option.some.inj (hcrawl.symm.trans hrow')
        obtain rfl := Option.some.inj (howner.symm.trans hholder)
        rw [hw] at hl
        cases hl
      · exact hkept (Option.some.inj (hrow'.symm.trans ((hothers c hc).trans hrow)))
    | commit other slot now call hi _ hcommit =>
      obtain ⟨reply, hcall, -⟩ := commit_spec hi hcommit
      obtain ⟨-, hdb, -, -⟩ := call_spec hcall
      obtain ⟨_, _, -, hab, -⟩ := issued_spec hi
      rw [hdb, lookup_exec hrow] at hrow'
      obtain rfl := Option.some.inj hrow'
      rw [← howner]
      refine ((rowAfter_workerId s.store.db row ?_).resolve_right (by simp [howner])).symm
      rintro skip want worker' now' rfl
      cases hab
    | crash | move | crawl | job => exact hkept (Option.some.inj (hrow'.symm.trans hrow))

theorem flagged_call {store store' : Store} {call : Call} {reply : Reply}
    (h : store.call call = some (store', reply)) {c : CrawlId} {row' : Crawl}
    (hrow' : store'.db.crawl.lookup c = some row') (hflag : row'.cancelRequested = true) :
    (∃ row, store.db.crawl.lookup c = some row ∧ row.cancelRequested = true) ∨
      ∃ now, call = .requestCancel c now := by
  obtain ⟨-, hdb, -, -⟩ := call_spec h
  rw [hdb] at hrow'
  cases hrow : store.db.crawl.lookup c with
  | none =>
    obtain ⟨_, _, _, -, rfl⟩ := lookup_exec_none hrow hrow'
    cases hflag
  | some row =>
    obtain rfl := Option.some.inj ((lookup_exec hrow).symm.trans hrow')
    exact (rowAfter_flag hrow hflag).imp_left fun hold => ⟨row, rfl, hold⟩

/-- A flag that is set was set before, or by this step. -/
theorem flagged_row {s s' : System T} (h : RowsInv s) (hs : SystemStep settings s s') {c : CrawlId}
    {row' : Crawl} (hrow' : s'.store.db.crawl.lookup c = some row')
    (hflag : row'.cancelRequested = true) :
    (∃ row, s.store.db.crawl.lookup c = some row ∧ row.cancelRequested = true) ∨ CancelAsked c s s' := by
  cases hs with
  | external a store ha hstore =>
    obtain ⟨-, -, hnew⟩ | ⟨row, hrow, rfl | ⟨now, rfl, rfl⟩⟩ := external_row ha hstore hrow'
    · rw [hnew] at hflag
      cases hflag
    · exact .inl ⟨row', hrow, hflag⟩
    · obtain ⟨⟨_, reply⟩, hcall, rfl⟩ := Option.map_eq_some_iff.mp hstore
      exact .inr ⟨now, reply, hcall⟩
  | reap id _ hreap =>
    obtain ⟨tx, htx, hstore, -⟩ := commitReap_spec hreap
    obtain ⟨row, hrow, ⟨-, rfl⟩ | ⟨u, hu, -, rfl⟩⟩ :=
      reaped_row h.owner.pages.fence.tx htx hstore hrow'
    · exact .inl ⟨row', hrow, hflag⟩
    · simp only [ReapTx.statements, reapStatements, List.mem_cons, List.not_mem_nil, or_false] at hu
      rcases hu with rfl | rfl | rfl <;> exact .inl ⟨row, hrow, hflag⟩
  | claim worker skip want now hw store crawl hcall =>
    refine (flagged_call hcall hrow' hflag).imp_right ?_
    rintro ⟨_, he⟩
    cases he
  | commit worker slot now call hi _ hcommit =>
    obtain ⟨reply, hcall, -⟩ := commit_spec hi hcommit
    obtain ⟨_, _, -, hab, -⟩ := issued_spec hi
    refine (flagged_call hcall hrow' hflag).imp_right ?_
    rintro ⟨_, rfl⟩
    cases hab
  | crash | move | crawl | job => exact .inl ⟨row', hrow', hflag⟩

theorem asked_step {acts : List (SystemAct T)} {s s' : System T} {interrupted : WorkerId → Bool}
    {a : SystemAct T} (h : CausesInv settings acts s interrupted)
    (hs : s.step settings a = some s') {c : CrawlId} {row' : Crawl}
    (hrow' : s'.store.db.crawl.lookup c = some row') (hflag : row'.cancelRequested = true) :
    Happened (step settings) (CancelAsked c) {} (acts ++ [a]) := by
  rcases flagged_row h.rows (step_cases hs) hrow' hflag with ⟨row, hrow, hold⟩ | hnow
  · exact (h.asked c row hrow hold).append [a]
  · exact happened_last h.ran hs hnow

/-! ## Rows that come to an end -/

/-- How a row comes to be over: it was, or a reap or a cancel has ended it, or the final write of the
worker it names has landed. -/
theorem ended_row {acts : List (SystemAct T)} {s s' : System T} {a : SystemAct T}
    (hran : run (step settings) {} acts = some s) (ha : s.step settings a = some s') (h : RowsInv s)
    (hs : SystemStep settings s s') {c : CrawlId} {row' : Crawl}
    (hrow' : s'.store.db.crawl.lookup c = some row')
    (hasked : row'.cancelRequested = true →
      Happened (step settings) (CancelAsked c) {} (acts ++ [a]))
    (hterminal : row'.state.terminal = true) :
    (∃ row, s.store.db.crawl.lookup c = some row ∧ row.state.terminal = true) ∨
      (∀ result, Cause settings (acts ++ [a]) c (s'.leases c) row' result row'.state row'.error) ∨
      ∃ worker r row, s.workers worker = .recording r ∧ r.crawl = c ∧ r.lease = s.leases c ∧
        s'.leases c = s.leases c ∧ s.store.db.crawl.lookup c = some row ∧
        row.workerId = some worker ∧ row'.workerId = some worker ∧
        r.phase.writes = some (row'.state, row'.error) := by
  have hkept : s'.store.db.crawl.lookup c = s.store.db.crawl.lookup c →
      ∃ row, s.store.db.crawl.lookup c = some row ∧ row.state.terminal = true :=
    fun he => ⟨row', he.symm.trans hrow', hterminal⟩
  cases hs with
  | external b store hb hstore =>
    obtain ⟨-, hqueued, -⟩ | ⟨row, hrow, rfl | ⟨now, rfl, rfl⟩⟩ := external_row hb hstore hrow'
    · rw [hqueued] at hterminal
      cases hterminal
    · exact .inl ⟨row', hrow, hterminal⟩
    · cases hst : row.state with
      | queued =>
        obtain ⟨⟨_, reply⟩, hcall, rfl⟩ := Option.map_eq_some_iff.mp hstore
        have hcancelled : Happened (step settings) (CancelledWaiting c) {} (acts ++ [a]) :=
          happened_last hran ha ⟨⟨now, reply, hcall⟩, row, hrow, hst⟩
        refine .inr (.inl fun result => ?_)
        simp only [cancelRow, hst, abortQueued]
        exact .beforeStart ((h.lifecycle c row hrow).1 hst) hcancelled
      | running => simp [cancelRow, hst, flagCancel, CrawlState.terminal] at hterminal
      | finished | failed | aborted => exact .inl ⟨row, hrow, by simp [hst, CrawlState.terminal]⟩
  | reap id _ hreap =>
    obtain ⟨tx, htx, hstore, -, hleases, -⟩ := commitReap_spec hreap
    obtain ⟨row, hrow, ⟨-, rfl⟩ | ⟨u, hu, hcond, rfl⟩⟩ :=
      reaped_row h.owner.pages.fence.tx htx hstore hrow'
    · exact .inl ⟨row', hrow, hterminal⟩
    · simp only [ReapTx.statements, reapStatements, List.mem_cons, List.not_mem_nil, or_false] at hu
      rcases hu with rfl | rfl | rfl
      · have hflag : row.cancelRequested = true := (Bool.and_eq_true_iff.mp hcond).2
        exact .inr (.inl fun result => .cancelled hflag (hasked hflag) ⟨_, .inr rfl, .inl rfl⟩)
      · cases hterminal
      · have hgaveUp : Happened (step settings) (GaveUp c (s'.leases c)) {} (acts ++ [a]) :=
          happened_last hran ha
            ⟨id, tx, row, htx, hstore, (congrFun hleases c).symm, hrow, hcond, hrow'⟩
        exact .inr (.inl fun result => .lost rfl hgaveUp)
  | claim worker skip want now hw store crawl hcall =>
    obtain ⟨-, hcrawl, -, hrunning, hothers, -⟩ := call_claim_spec hcall
    by_cases hc : c = crawl.id
    · subst hc
      obtain rfl := Option.some.inj (hcrawl.symm.trans hrow')
      rw [hrunning] at hterminal
      cases hterminal
    · exact .inl (hkept (hothers c hc))
  | commit worker slot now call hi _ hcommit =>
    obtain ⟨reply, hcall, -, hleases, -⟩ := commit_spec hi hcommit
    obtain ⟨-, hdb, -, -⟩ := call_spec hcall
    obtain ⟨c₀, n, hl, hab, -⟩ := issued_spec hi
    rw [hdb] at hrow'
    obtain ⟨row, hrow, rfl⟩ := called_row (by simp [hab]) hrow'
    cases hold : row.state.terminal with
    | true => exact .inl ⟨row, hrow, hold⟩
    | false =>
      refine .inr (.inr ?_)
      cases call with
      | heartbeat id worker' stats now' =>
        simp only [Call.rowAfter, Update.onRow] at hterminal
        split at hterminal
        · exact absurd (hold.symm.trans hterminal) (by decide)
        · exact absurd (hold.symm.trans hterminal) (by decide)
      | finish id worker' state stats error now' =>
        obtain ⟨-, rfl, r, hw, rfl, rfl, hphase⟩ := issued_writes hi
        have hwritten : state.terminal = true ∧
            (finishUpdate r.crawl worker' state r.stats error now').cond row = true := by
          refine Decidable.byContradiction fun hno => ?_
          have hsame : (Call.finish r.crawl worker' state r.stats error now').rowAfter s.store.db
              row = row := by
            simp only [Call.rowAfter]
            split
            · rename_i ht
              exact Update.onRow_of_not_cond (by simpa [ht] using hno)
            · rfl
          rw [hsame, hold] at hterminal
          cases hterminal
        obtain ⟨hstate, hcond⟩ := hwritten
        obtain ⟨hid, howner⟩ := finishUpdate_cond hcond
        obtain rfl : r.crawl = c := hid.symm.trans (KeyedTable.lookup_key hrow)
        have hlease : (s.workers worker').lease = some (r.crawl, r.lease) := by
          rw [hw]
          rfl
        refine ⟨worker', r, row, hw, rfl, ?_, by rw [hleases], hrow, howner, ?_, ?_⟩
        · exact h.owner.pages.fence.owner worker' _ _ row hlease hrow howner
        · simp only [Call.rowAfter, hstate, if_true, Update.onRow_of_cond hcond]
          exact howner
        · simp only [Call.rowAfter, hstate, if_true, Update.onRow_of_cond hcond, hphase]
          rfl
      | release id worker' =>
        simp only [Call.rowAfter, Update.onRow] at hterminal
        split at hterminal
        · cases hterminal
        · exact absurd (hold.symm.trans hterminal) (by decide)
      | insertPages id worker' rows => exact absurd (hold.symm.trans hterminal) (by decide)
      | create | claim | reap | requestCancel => cases hab
  | crash | move | crawl | job => exact .inl (hkept rfl)

/-! ## The step -/

/-- What has become of a worker after a step. -/
inductive Turn (settings : Settings) (s : System T) (a : SystemAct T) (s' : System T)
    (worker : WorkerId) : WorkerState T → Prop
  | kept : Turn settings s a s' worker (s.workers worker)
  | claimed (crawl : Crawl) (n : ℕ) (hrow : s'.store.db.crawl.lookup crawl.id = some crawl) :
      Turn settings s a s' worker (.claimed (some crawl) n)
  | move (state : WorkerState T) (h : Move settings (s.workers worker) state) :
      Turn settings s a s' worker state
  | answer (slot : Slot) (now : Instant) (call : Call) (reply : Reply)
      (issued : (s.workers worker).issued worker now slot = some call)
      (h : s.store.call call = some (s'.store, reply)) :
      Turn settings s a s' worker ((s.workers worker).answer reply slot)
  | job (job : Job T) (b : JobAct T) (state : WorkerState T) (hw : s.workers worker = .running job)
      (h : job.step b = some state) (act : a = .job worker b) : Turn settings s a s' worker state

theorem turn_step {s s' : System T} {a : SystemAct T} (hs : s.step settings a = some s')
    (worker : WorkerId) : Turn settings s a s' worker (s'.workers worker) := by
  have hset : ∀ other (state : WorkerState T) (t : System T),
      (∀ w, w ≠ other → t.workers w = s.workers w) → t.workers other = state →
      (worker = other → Turn settings s a s' worker state) →
      Turn settings s a s' worker (t.workers worker) := by
    intro other state t hothers hother hturn
    by_cases he : worker = other
    · subst he
      rw [hother]
      exact hturn rfl
    · rw [hothers worker he]
      exact .kept
  have hmove : ∀ other (state : WorkerState T), Move settings (s.workers other) state →
      Turn settings s a s' worker ((s.setWorker other state).workers worker) := by
    intro other state h
    refine hset other state _ (fun w hw => Function.update_of_ne hw _ _)
      (Function.update_self ..) ?_
    rintro rfl
    exact .move state h
  cases a with
  | create id seed config now =>
    obtain ⟨store, -, rfl⟩ := api_spec hs
    exact .kept
  | requestCancel id now =>
    obtain ⟨store, -, rfl⟩ := api_spec hs
    exact .kept
  | beginReap id leaseMicros maxAttempts now =>
    obtain ⟨store, -, rfl⟩ := Option.map_eq_some_iff.mp hs
    exact .kept
  | statement id =>
    obtain ⟨store, -, rfl⟩ := Option.map_eq_some_iff.mp hs
    exact .kept
  | rollbackReap id =>
    simp only [step, Option.map_eq_some_iff] at hs
    obtain ⟨store, -, rfl⟩ := hs
    exact .kept
  | commitReap id =>
    obtain ⟨_, _, _, hworkers, -⟩ := commitReap_spec hs
    rw [hworkers]
    exact .kept
  | crash other =>
    obtain rfl := Option.some.inj hs
    exact .kept
  | claim other =>
    have hs' := alive_some hs
    split at hs'
    · rename_i hw
      obtain rfl := Option.some.inj hs'
      exact hmove other _ (hw ▸ .claim)
    · cases hs'
  | claimCommit other skip want now =>
    simp only [step, claimCommit] at hs
    split at hs
    · rename_i store row hw hcall
      obtain rfl := Option.some.inj hs
      refine hset other _ _ (fun w hw => Function.update_of_ne hw _ _)
        (Function.update_self ..) ?_
      rintro rfl
      exact .claimed row _ (call_claim_spec hcall).2.1
    · rename_i store hw hcall
      obtain rfl := Option.some.inj hs
      exact hmove other _ (hw ▸ .emptyQueue)
    · cases hs
  | claimReturned other =>
    have hs' := alive_some hs
    simp only [claimReturned] at hs'
    split at hs'
    · obtain rfl := Option.some.inj hs'
      exact hmove other _ (.giveUp _)
    · rename_i row lease hw
      obtain rfl := Option.some.inj hs'
      exact hmove other _ (hw ▸ .start row lease)
    · cases hs'
  | claimRaised other =>
    have hs' := alive_some hs
    simp only [claimRaised] at hs'
    split at hs'
    · obtain rfl := Option.some.inj hs'
      exact hmove other _ (.giveUp _)
    · obtain rfl := Option.some.inj hs'
      exact hmove other _ (.giveUp _)
    · cases hs'
  | commit other slot now =>
    cases hi : (s.workers other).issued other now slot with
    | none => simp [step, commit, hi] at hs
    | some call =>
      obtain ⟨reply, hcall, hworkers, -⟩ := commit_spec hi hs
      refine hset other _ _ (fun w hw => by rw [hworkers, Function.update_of_ne hw])
        (by rw [hworkers, Function.update_self]) ?_
      rintro rfl
      exact .answer slot now call reply hi hcall
  | job other b =>
    have hs' := alive_some hs
    simp only [System.job] at hs'
    split at hs'
    · rename_i job hw
      obtain ⟨state, hstate, rfl⟩ := Option.map_eq_some_iff.mp hs'
      refine hset other state _ (fun w hw => Function.update_of_ne hw _ _)
        (Function.update_self ..) ?_
      rintro rfl
      exact .job job b state hw hstate rfl
    · cases hs'
  | record other b =>
    have hs' := alive_some hs
    simp only [record] at hs'
    split at hs'
    · rename_i r hw
      obtain ⟨state, hstate, rfl⟩ := Option.map_eq_some_iff.mp hs'
      exact hmove other state (hw ▸ .record r b state hstate)
    · cases hs'

theorem answer_running {state : WorkerState T} {reply : Reply} {slot : Slot} {job' : Job T}
    (h : state.answer reply slot = .running job') :
    ∃ job heartbeat reporter, state = .running job ∧ job' = { job with heartbeat, reporter } ∧
      ∀ flushError, reporter.closer = .failed flushError →
        job.reporter.closer = .failed flushError := by
  cases state with
  | running job =>
    refine ⟨job, job'.heartbeat, job'.reporter, rfl, ?_⟩
    cases slot with
    | heartbeat =>
      simp only [WorkerState.answer] at h
      split at h <;> cases h <;> exact ⟨rfl, fun _ => id⟩
    | flush task =>
      cases h
      exact ⟨rfl, fun _ => DbReporter.answer_failed⟩
    | record =>
      cases h
      exact ⟨rfl, fun _ => id⟩
  | recording r =>
    cases slot with
    | heartbeat | flush => cases h
    | record =>
      simp only [WorkerState.answer] at h
      split at h <;> cases h
  | idle | claiming | claimed => cases slot <;> cases h

theorem traced_step {acts : List (SystemAct T)} {s s' : System T} {interrupted : WorkerId → Bool}
    {a : SystemAct T} (h : CausesInv settings acts s interrupted)
    (hs : s.step settings a = some s') {worker : WorkerId} {job : Job T}
    (hw : s'.workers worker = .running job) : job.Traced fun flushError =>
      Happened (step settings) (FlushFailed job.crawl job.lease flushError) {} (acts ++ [a]) := by
  have hturn := turn_step hs worker
  generalize hafter : s'.workers worker = state at hturn hw
  cases hturn with
  | kept => exact (h.traced worker job hw).mono fun _ hfailed => hfailed.append [a]
  | claimed crawl n hrow => cases hw
  | move state hmove =>
    subst hw
    generalize hstate : (.running job : WorkerState T) = state at hmove
    generalize s.workers worker = before at hmove
    cases hmove with
    | claim | emptyQueue | giveUp => cases hstate
    | start crawl lease =>
      simp only [runJob] at hstate
      split at hstate
      · cases hstate
      · cases hstate
        exact .started rfl rfl
    | record r b state hstep =>
      subst hstate
      obtain he | ⟨_, he, -⟩ := Recording.step_cases hstep <;> cases he
  | answer slot now call reply issued hcall =>
    obtain ⟨before, _, _, hbefore, rfl, hclosed⟩ := answer_running hw
    have htraced := (h.traced worker before hbefore).mono fun _ hfailed => hfailed.append [a]
    exact ⟨htraced.verdict, fun _ hf => htraced.closer _ (hclosed _ hf), htraced.drained⟩
  | job before b state hbefore hstep =>
    subst hw
    obtain ⟨-, hcrawl, hlease⟩ := (h.reasons.jobs worker before hbefore).step hstep
    rw [hcrawl, hlease]
    refine (h.traced worker before hbefore).step (fun _ hfailed => hfailed.append [a]) hstep ?_
    rintro flushError reporter rfl hfailed
    exact happened_last h.ran hs ⟨worker, before, reporter, hbefore, rfl, rfl, hfailed, hafter⟩

/-- The next move of a recording is founded as the last one was. -/
theorem founded_recordStep {acts : List (SystemAct T)} {r r' : Recording} {b : RecordAct} {row : Crawl}
    {result : Option RunResult} (h : r.Founded settings acts row result)
    (hasked : row.cancelRequested = true →
      Happened (step settings) (CancelAsked r.crawl) {} acts)
    (hs : r.step T b = some (.recording r')) :
    r'.Founded settings acts row result ∧ r'.crawl = r.crawl ∧ r'.lease = r.lease := by
  unfold Recording.Founded at h ⊢
  cases b with
  | returned =>
    simp only [Recording.step] at hs
    split at hs
    · cases hs
    · rename_i hp
      rw [hp] at h
      cases hs
      exact ⟨h, rfl, rfl⟩
    · cases hs
    · cases hs
  | raised expired =>
    simp only [Recording.step] at hs
    split at hs
    · cases hs
    · cases hs
    · rename_i hp
      rw [hp] at h
      split at hs
      · cases hs
      · cases hs
        exact ⟨h, rfl, rfl⟩
    · cases hs
  | got =>
    simp only [Recording.step] at hs
    split at hs
    · rename_i hp
      rw [hp] at h
      cases hs
      exact ⟨.cancelled h (hasked h) ⟨_, .inr rfl, .inl rfl⟩, rfl, rfl⟩
    · cases hs
  | retry =>
    simp only [Recording.step] at hs
    split at hs
    · rename_i hp
      rw [hp] at h
      cases hs
      exact ⟨h, rfl, rfl⟩
    · cases hs

/-- A release that was refused by the row the worker still owns was refused because of the flag. -/
theorem refused_flagged {db : Db} {id : CrawlId} {worker : WorkerId} {row : Crawl}
    (hrow : db.crawl.lookup id = some row) (howner : row.workerId = some worker)
    (h : ((Call.release id worker).exec db).2 = .released false) : row.cancelRequested = true := by
  simp only [Call.exec, Reply.released.injEq, release_reply, hrow, Option.any_some] at h
  simpa [releaseUpdate, KeyedTable.lookup_key hrow, howner] using h

theorem founded_answer {acts : List (SystemAct T)} {state : WorkerState T} {worker : WorkerId}
    {now : Instant} {slot : Slot} {call : Call} (hi : state.issued worker now slot = some call)
    {store store' : Store} {reply : Reply} (hcall : store.call call = some (store', reply)) {r' : Recording}
    (hr' : state.answer reply slot = .recording r') : ∃ r, state = .recording r ∧
      r'.crawl = r.crawl ∧ r'.lease = r.lease ∧
      ∀ row result, store.db.crawl.lookup r.crawl = some row → row.workerId = some worker →
        r.Founded settings acts row result → r'.Founded settings acts row result := by
  obtain ⟨-, -, -, hreply⟩ := call_spec hcall
  obtain ⟨r, rfl, -, hcrawl, hlease, -⟩ := answer_recording hr'
  refine ⟨r, rfl, hcrawl, hlease, fun row result hrow howner h => ?_⟩
  cases slot with
  | heartbeat | flush => cases hi
  | record =>
    simp only [WorkerState.issued] at hi
    simp only [WorkerState.answer] at hr'
    unfold Recording.Founded at h ⊢
    split at hi
    · rename_i hp
      rw [hp] at hr' h
      cases hi
      cases hr'
      dsimp only
      split
      · rename_i he
        cases he
        exact refused_flagged hrow howner hreply.symm
      · rename_i he
        cases he
      · trivial
      · rename_i he
        cases he
      · rename_i he
        cases he
    · rename_i hp
      rw [hp] at hr' h
      cases hi
      cases hr'
      exact h
    · cases hi

theorem founded_step {acts : List (SystemAct T)} {s s' : System T} {interrupted : WorkerId → Bool}
    {a : SystemAct T} (h : CausesInv settings acts s interrupted)
    (hs : s.step settings a = some s') {worker : WorkerId} {r' : Recording}
    (hw : s'.workers worker = .recording r') {row' : Crawl}
    (hrow' : s'.store.db.crawl.lookup r'.crawl = some row') (howner : row'.workerId = some worker) :
    r'.Founded settings (acts ++ [a]) row' (s'.history r'.crawl r'.lease).result := by
  have hstep := step_cases hs
  have hfrozen : ∀ c n, (s.history c n).result ≠ none →
      (s'.history c n).result = (s.history c n).result := fun c n hover =>
    congrArg LeaseLog.result (history_frozen h.rows.owner.pages hstep hover)
  -- what was founded on the row as it was is founded on the row as it is
  have hcarry : ∀ row n, (s.workers worker).lease = some (r'.crawl, n) →
      s.store.db.crawl.lookup r'.crawl = some row →
      r'.Founded settings acts row (s.history r'.crawl r'.lease).result →
      r'.Founded settings (acts ++ [a]) row' (s'.history r'.crawl r'.lease).result := by
    intro row n hl hrow hfounded
    obtain ⟨row₁, hrow₁, howner₁, hconfig, hflag⟩ := owned_before h.rows hstep hl hrow' howner
    obtain rfl := Option.some.inj (hrow.symm.trans hrow₁)
    exact hfounded.mono [a] (hfrozen _ _) hconfig hflag (howner.trans howner₁.symm)
  have hturn := turn_step hs worker
  generalize s'.workers worker = state at hturn hw
  cases hturn with
  | kept =>
    have hl : (s.workers worker).lease = some (r'.crawl, r'.lease) := by
      rw [hw]
      rfl
    obtain ⟨row, hrow, howner', -⟩ := owned_before h.rows hstep hl hrow' howner
    exact hcarry row _ hl hrow (h.recordings worker r' row hw hrow howner')
  | claimed crawl n hrow => cases hw
  | move state hmove =>
    subst hw
    generalize hstate : (.recording r' : WorkerState T) = state at hmove
    generalize hbefore : s.workers worker = before at hmove
    cases hmove with
    | claim | emptyQueue | giveUp => cases hstate
    | start crawl lease =>
      have hl : (s.workers worker).lease = some (crawl.id, lease) := by
        rw [hbefore]
        rfl
      simp only [runJob] at hstate
      split at hstate
      · rename_i error hconfig
        cases hstate
        obtain ⟨row, hrow, hsame⟩ := h.claimed worker crawl lease hbefore
        refine hcarry row _ hl hrow (.rejected ?_)
        rw [hsame]
        exact hconfig
      · cases hstate
    | record r b state hrecord =>
      subst hstate
      have hcrawl : r'.crawl = r.crawl ∧ r'.lease = r.lease := by
        obtain he | ⟨phase, he, -⟩ := Recording.step_cases hrecord
        · cases he
        · cases he
          exact ⟨rfl, rfl⟩
      have hl : (s.workers worker).lease = some (r'.crawl, r'.lease) := by
        rw [hbefore, hcrawl.1, hcrawl.2]
        rfl
      obtain ⟨row, hrow, howner', -⟩ := owned_before h.rows hstep hl hrow' howner
      have hfounded := h.recordings worker r row hbefore (hcrawl.1 ▸ hrow) howner'
      rw [← hcrawl.1, ← hcrawl.2] at hfounded
      exact hcarry row _ hl hrow
        (founded_recordStep hfounded (h.asked _ row (hcrawl.1 ▸ hrow)) hrecord).1
  | answer slot now call reply issued hcall =>
    obtain ⟨r, hbefore, hcrawl, hlease, hfounded⟩ := founded_answer issued hcall hw
    have hl : (s.workers worker).lease = some (r'.crawl, r'.lease) := by
      rw [hbefore, hcrawl, hlease]
      rfl
    obtain ⟨row, hrow, howner', -⟩ := owned_before h.rows hstep hl hrow' howner
    refine hcarry row _ hl hrow (hfounded row _ (hcrawl ▸ hrow) howner' ?_)
    rw [hcrawl, hlease]
    exact h.recordings worker r row hbefore (hcrawl ▸ hrow) howner'
  | job before b state hbefore hjob =>
    subst hw
    have hcrawl : ∀ e clock, b ≠ .crawl e clock := by
      rintro e clock rfl
      obtain ⟨task, -, he⟩ := Job.crawl_spec hjob
      cases he
    generalize hstate : (.recording r' : WorkerState T) = state at hjob
    cases Job.step_cases hcrawl hjob with
    | record verdict error flushError hphase elapsed =>
      have hpieces : r'.crawl = before.crawl ∧ r'.lease = before.lease := by
        simp only [Job.record] at hstate
        split at hstate
        · cases hstate
        · cases hstate
          exact ⟨rfl, rfl⟩
        · cases hstate
          exact ⟨rfl, rfl⟩
      have hl : (s.workers worker).lease = some (r'.crawl, r'.lease) := by
        rw [hbefore, hpieces.1, hpieces.2]
        rfl
      obtain ⟨row, hrow, -⟩ := owned_before h.rows hstep hl hrow' howner
      refine hcarry row _ hl hrow ?_
      rw [hpieces.1, hpieces.2, (h.rows.owner.pages.jobs worker before hbefore).result]
      exact founded_record (h.reasons.jobs worker before hbefore)
        (h.traced worker before hbefore) hphase hstate.symm (hpieces.1 ▸ hrow)
        (h.asked _ row (hpieces.1 ▸ hrow))
    | _ => cases hstate

/-- A worker that has a claimed crawl had it, or the claim is what the row says now. -/
theorem claimed_step {s s' : System T} {a : SystemAct T} (hs : s.step settings a = some s')
    {worker : WorkerId} {crawl : Crawl} {n : ℕ} (hw : s'.workers worker = .claimed (some crawl) n) :
    s.workers worker = .claimed (some crawl) n ∨
      s'.store.db.crawl.lookup crawl.id = some crawl := by
  have hturn := turn_step hs worker
  generalize s'.workers worker = state at hturn hw
  cases hturn with
  | kept => exact .inl hw
  | claimed crawl' n' hrow =>
    cases hw
    exact .inr hrow
  | move state hmove =>
    subst hw
    generalize hstate : (.claimed (some crawl) n : WorkerState T) = state at hmove
    generalize s.workers worker = before at hmove
    cases hmove with
    | claim | emptyQueue | giveUp => cases hstate
    | start row lease =>
      simp only [runJob] at hstate
      split at hstate <;> cases hstate
    | record r b state hstep =>
      subst hstate
      obtain he | ⟨_, he, -⟩ := Recording.step_cases hstep <;> cases he
  | answer slot now call reply issued hcall =>
    obtain ⟨c, n', hl, -⟩ := issued_spec issued
    cases hw' : s.workers worker with
    | claimed row n'' =>
      rw [hw'] at issued
      cases slot <;> cases issued
    | running job =>
      rw [hw'] at hw
      cases slot with
      | heartbeat =>
        simp only [WorkerState.answer] at hw
        split at hw <;> cases hw
      | flush task | record => cases hw
    | recording r =>
      rw [hw'] at hw
      cases slot with
      | record =>
        simp only [WorkerState.answer] at hw
        split at hw <;> cases hw
      | heartbeat | flush task => cases hw
    | idle | claiming =>
      rw [hw'] at hl
      cases hl
  | job before b state hjob hnext =>
    subst hw
    by_cases hcrawl : ∃ e clock, b = .crawl e clock
    · obtain ⟨e, clock, rfl⟩ := hcrawl
      obtain ⟨task, -, he⟩ := Job.crawl_spec hnext
      cases he
    · have hquiet : ∀ e clock, b ≠ .crawl e clock := fun e clock he => hcrawl ⟨e, clock, he⟩
      have hjobStep := Job.step_cases hquiet hnext
      generalize hstate : (.claimed (some crawl) n : WorkerState T) = state at hjobStep
      cases hjobStep with
      | record =>
        exact absurd hstate.symm Job.record_ne_claimed
      | _ => cases hstate

theorem causesInv_step {acts : List (SystemAct T)} {s s' : System T}
    {interrupted : WorkerId → Bool} {a : SystemAct T} (h : CausesInv settings acts s interrupted)
    (hs : s.step settings a = some s') :
    CausesInv settings (acts ++ [a]) s' (s.noteInterrupts interrupted a) where
  ran := by rw [run_append, h.ran, Option.bind_some, run_cons _ hs, run_nil]
  rows := rowsInv_step h.rows (step_cases hs)
  reasons := reasonsInv_step h.reasons hs
  traced _ _ hw := traced_step h hs hw
  asked c row' hrow' hflag := asked_step h hs hrow' hflag
  claimed := by
    intro worker crawl n hw
    obtain hkept | hrow := claimed_step hs hw
    · obtain ⟨row, hrow, hconfig⟩ := h.claimed worker crawl n hkept
      obtain ⟨row', hrow', hmove⟩ := row_moves h.rows.owner.pages.fence (step_cases hs) hrow
      exact ⟨row', hrow', (rowMove_frame hmove).1.trans hconfig⟩
    · exact ⟨crawl, hrow, rfl⟩
  recordings _ _ _ hw hrow' howner := founded_step h hs hw hrow' howner
  causes := by
    intro c row' hrow' hterminal
    have hstep := step_cases hs
    have hfrozen : (s.history c (s.leases c)).result ≠ none →
        (s'.history c (s.leases c)).result = (s.history c (s.leases c)).result := fun hover =>
      congrArg LeaseLog.result (history_frozen h.rows.owner.pages hstep hover)
    rcases ended_row h.ran hs h.rows hstep hrow' (asked_step h hs hrow') hterminal with
      ⟨row, hrow, hold⟩ | hcause | ⟨worker, r, row, hw, rfl, hlease, hleases, hrow, howner, howner',
        hwrites⟩
    · obtain ⟨⟨row₁, hrow₁, hsettled⟩, -⟩ := settled_step h.rows.owner hstep hrow hold
      obtain rfl := Option.some.inj (hrow'.symm.trans hrow₁)
      have hleases : s'.leases c = s.leases c := by
        rcases leases_step hstep c with hsame | ⟨-, row₂, hrow₂, hqueued⟩
        · exact hsame
        · obtain rfl := Option.some.inj (hrow.symm.trans hrow₂)
          rw [hqueued] at hold
          cases hold
      have hcause := h.causes c row hrow hold
      rw [hleases, hsettled.state_eq, show row'.error = row.error by rw [hsettled]]
      exact hcause.mono [a] hfrozen (by rw [hsettled]) (fun hflag => by rw [hsettled]; exact hflag)
        (by rw [hsettled])
    · exact hcause _
    · have hl : (s.workers worker).lease = some (r.crawl, r.lease) := by
        rw [hw]
        rfl
      obtain ⟨row₁, hrow₁, -, hconfig, hflag⟩ := owned_before h.rows hstep hl hrow' howner'
      obtain rfl := Option.some.inj (hrow.symm.trans hrow₁)
      have hfounded := h.recordings worker r row hw hrow howner
      rw [hleases]
      rw [hlease] at hfounded
      exact (hlease ▸ hfounded.cause hwrites).mono [a] hfrozen hconfig hflag (howner'.trans howner.symm)

theorem causesInv_run {acts : List (SystemAct T)} {s : System T}
    (h : run (step settings) {} acts = some s) :
    ∃ interrupted, CausesInv settings acts s interrupted := by
  refine run_history (P := fun acts s => ∃ interrupted, CausesInv settings acts s interrupted)
    ⟨fun _ => false, causesInv_init _⟩ ?_ h
  rintro acts t a t' - ⟨interrupted, hinv⟩ ht
  exact ⟨_, causesInv_step hinv ht⟩

end System

/-- What the row of a crawl that is over says of its end is true. -/
theorem ended_for_cause {acts : List (SystemAct T)} {s : System T}
    (h : run (System.step settings) {} acts = some s) {c : CrawlId} {row : Crawl}
    (hrow : s.store.db.crawl.lookup c = some row) (hterminal : row.state.terminal = true) :
    Cause settings acts c (s.leases c) row (s.history c (s.leases c)).result row.state row.error := by
  obtain ⟨interrupted, hinv⟩ := System.causesInv_run h
  exact hinv.causes c row hrow hterminal

end

/-- A crawl of one page that is cancelled while it runs. -/
def cancelledRunning : List (SystemAct (CrawlTask.replay [examplePage ""])) :=
  [.create 1 "https://a.test/".toList
      { concurrency := 10, timeout := 10, maxPages := none, maxBytes := 5000000,
        respectRobots := true } 0,
    .claim "host:1", .claimCommit "host:1" [] 1 1, .claimReturned "host:1",
    .job "host:1" (.reporter .start), .job "host:1" (.crawl false fun _ => 2),
    .requestCancel 1 3, .job "host:1" (.beat 5), .commit "host:1" .heartbeat 5,
    .job "host:1" .beatReturned, .job "host:1" (.crawl true fun _ => 6),
    .job "host:1" .crawlEnded, .job "host:1" .stopWatchCancelled,
    .job "host:1" .watchersDone, .job "host:1" (.reporter (.lock .close)),
    .commit "host:1" (.flush .close) 7, .job "host:1" (.reporter (.resume .close)),
    .job "host:1" .closeDone, .job "host:1" .flusherCancelled, .job "host:1" .flusherDone,
    .job "host:1" (.clientClosed 8), .commit "host:1" .record 9]

theorem ended_for_cause_cancelledRunning :
    ∃ s row, run (System.step ⟨100, toString⟩) {} cancelledRunning = some s ∧
      s.store.db.crawl.lookup 1 = some row ∧ row.cancelRequested = true ∧
      Cause ⟨100, toString⟩ cancelledRunning 1 1 row (s.history 1 1).result .aborted
        (some cancelledError) := by
  have hrun : (run (System.step ⟨100, toString⟩) {} cancelledRunning).any (fun s =>
      (s.store.db.crawl.lookup 1).any fun row =>
        decide (row.state = .aborted ∧ row.error = some cancelledError ∧
          row.cancelRequested = true ∧ s.leases 1 = 1)) = true := by
    decide +kernel
  obtain ⟨s, hs, hfacts⟩ := (Option.any_eq_true _ _).mp hrun
  obtain ⟨row, hrow, hrest⟩ := (Option.any_eq_true _ _).mp hfacts
  obtain ⟨hstate, herror, hflag, hlease⟩ := of_decide_eq_true hrest
  have hcause := ended_for_cause hs hrow (by rw [hstate]; rfl)
  rw [hstate, herror, hlease] at hcause
  exact ⟨s, row, hs, hrow, hflag, hcause⟩

end UrlCrawler
