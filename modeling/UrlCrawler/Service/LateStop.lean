import UrlCrawler.Service.FinishedCrawls
import UrlCrawler.Service.CancelRace

/-! # A stop that comes too late

`_interrupt` is why the crawl task was cancelled, and three tasks write it. `_outcome` looks at it only
when the task really was cancelled, `_record` whenever it is set. Between the end of the crawl task and
the step in which `run_job` comes back from awaiting it, the watchers still run: a stop that arrives
there is kept, and the finished crawl is released.

`interrupted` is a history variable: since the worker's job began, the stop watcher has woken, or the
heartbeats have failed for a whole lease.
-/
set_option autoImplicit false

namespace UrlCrawler
open Execution

/-! ## Who still owns the crawl -/

/-- Only a claim gives a crawl to a worker. -/
theorem rowAfter_owned {db : Db} {call : Call} {r : Crawl} {worker : WorkerId}
    (hclaim : ∀ skip want now, call ≠ .claim skip want worker now)
    (howner : (call.rowAfter db r).workerId = some worker)
    (hrun : (call.rowAfter db r).state = .running) :
    r.workerId = some worker ∧ r.state = .running := by
  cases call with
  | create | insertPages => exact ⟨howner, hrun⟩
  | claim skip want worker' now =>
    simp only [Call.rowAfter] at howner hrun
    cases ho : db.oldestQueued (fun id => id ∈ skip) want with
    | none =>
      simp only [ho] at howner hrun
      exact ⟨howner, hrun⟩
    | some row =>
      simp only [ho] at howner hrun
      split at howner
      · obtain rfl : worker' = worker := Option.some.inj howner
        exact absurd rfl (hclaim skip want now)
      · rename_i hne
        rw [if_neg hne] at hrun
        exact ⟨howner, hrun⟩
  | heartbeat id worker' stats now =>
    simp only [Call.rowAfter, Update.onRow] at howner hrun
    split at howner
    · rename_i hc
      exact ⟨howner, (heartbeatUpdate_cond hc).2.2⟩
    · rename_i hc
      rw [if_neg hc] at hrun
      exact ⟨howner, hrun⟩
  | finish id worker' state stats error now =>
    simp only [Call.rowAfter] at howner hrun
    split at howner
    · rename_i hterm
      rw [if_pos hterm] at hrun
      simp only [Update.onRow] at howner hrun
      split at hrun
      · obtain rfl : state = .running := hrun
        cases hterm
      · rename_i hc
        rw [if_neg hc] at howner
        exact ⟨howner, hrun⟩
    · rename_i hterm
      rw [if_neg hterm] at hrun
      exact ⟨howner, hrun⟩
  | release id worker' =>
    simp only [Call.rowAfter, Update.onRow] at howner hrun
    split at howner
    · cases howner
    · rename_i hc
      rw [if_neg hc] at hrun
      exact ⟨howner, hrun⟩
  | reap leaseMicros maxAttempts now =>
    simp only [Call.rowAfter, reapRow] at howner hrun
    split at howner
    · split at howner
      · cases howner
      · split at howner <;> cases howner
    · rename_i hexp
      rw [if_neg hexp] at hrun
      exact ⟨howner, hrun⟩
  | requestCancel id now =>
    simp only [Call.rowAfter] at howner hrun
    split at howner
    · rename_i hid
      rw [if_pos hid] at hrun
      rw [cancelRow_workerId] at howner
      refine ⟨howner, ?_⟩
      cases hst : r.state with
      | running => rfl
      | queued => simp [cancelRow, hst, abortQueued] at hrun
      | finished | failed | aborted => simp [cancelRow, hst] at hrun
    · rename_i hid
      rw [if_neg hid] at hrun
      exact ⟨howner, hrun⟩

theorem owned_iff {db : Db} {c : CrawlId} {worker : WorkerId} :
    db.owned c worker = true ↔
      ∃ r, db.crawl.lookup c = some r ∧ r.workerId = some worker ∧ r.state = .running := by
  simp [Db.owned, Option.any_eq_true]

theorem storeStep_owned {store store' : Store} {a : StoreAction} (h : TxInv store)
    (hs : storeStep store a = some store') {c : CrawlId} {worker : WorkerId}
    (hclaim : ∀ skip want now, a ≠ .call (.claim skip want worker now))
    (howned : store'.db.owned c worker = true) : store.db.owned c worker = true := by
  obtain ⟨r', hr', howner, hrun⟩ := owned_iff.mp howned
  rw [owned_iff]
  cases a with
  | call call =>
    simp only [storeStep, Option.map_eq_some_iff] at hs
    obtain ⟨⟨t, reply⟩, hcall, rfl⟩ := hs
    obtain ⟨-, hdb, -, -⟩ := call_spec hcall
    rw [hdb] at hr'
    cases hr : store.db.crawl.lookup c with
    | none =>
      obtain ⟨seed, config, now, -, rfl⟩ := lookup_exec_none hr hr'
      cases howner
    | some r =>
      rw [lookup_exec hr] at hr'
      obtain rfl := Option.some.inj hr'
      exact ⟨r, rfl, rowAfter_owned (fun skip want now he => hclaim skip want now (he ▸ rfl))
        howner hrun⟩
  | beginReap id leaseMicros maxAttempts now =>
    rw [(lookup_beginReap hs).1] at hr'
    exact ⟨r', hr', howner, hrun⟩
  | statement id =>
    obtain ⟨_, _, _, _, _, hdb, _⟩ := statement_spec hs
    rw [hdb] at hr'
    exact ⟨r', hr', howner, hrun⟩
  | rollbackReap id =>
    obtain rfl := Option.some.inj hs
    exact ⟨r', hr', howner, hrun⟩
  | commitReap id =>
    obtain ⟨tx, htx, -⟩ := commitReap_spec hs
    obtain ⟨r, hr, ⟨-, rfl⟩ | hwrites⟩ := System.reaped_row h htx hs hr'
    · exact ⟨r', hr, howner, hrun⟩
    · rw [System.writes_workerId hwrites] at howner
      cases howner

/-- The reporter has been told that the lease is lost. -/
def DbReporter.ToldLost (r : DbReporter) : Prop :=
  (∃ task rows, r.flush task = some (.inserting rows (.answered .leaseLost))) ∨
    r.closer = .leaseLost

namespace DbReporter
variable {r r' : DbReporter}

theorem endFlush_toldLost {e : FlushEnd} {task : FlushTask}
    (he : e = .leaseLost → r.ToldLost) (h : (r.endFlush e task).ToldLost) : r.ToldLost := by
  rcases h with ⟨task', rows, hf⟩ | hc
  · rw [flush_endFlush] at hf
    split at hf
    · cases hf
    · exact .inl ⟨task', rows, hf⟩
  · cases task with
    | run => cases e <;> exact .inr hc
    | close =>
      cases e with
      | leaseLost => exact he rfl
      | returned | raised | cancelled => cases hc

/-- Only the answer to an insert tells the reporter. -/
theorem step_toldLost {a : ReporterAct} (hs : r.step a = some r') (h : r'.ToldLost) :
    r.ToldLost := by
  cases a with
  | start =>
    simp only [step, start] at hs
    split at hs
    · obtain rfl := Option.some.inj hs
      rcases h with ⟨task, rows, hf⟩ | hc
      · cases task with
        | close => exact .inl ⟨.close, rows, hf⟩
        | run => cases hcl : r.closing <;> simp [DbReporter.flush, loop, hcl] at hf
      · exact .inr hc
    · cases hs
  | wake =>
    simp only [step, wake] at hs
    split at hs
    · obtain rfl := Option.some.inj hs
      rcases h with ⟨task, rows, hf⟩ | hc
      · cases task with
        | close => exact .inl ⟨.close, rows, hf⟩
        | run => cases hf
      · exact .inr hc
    · cases hs
  | lock task =>
    simp only [step, lock] at hs
    split at hs
    · split at hs
      · cases hs
      · split at hs
        · obtain rfl := Option.some.inj hs
          exact endFlush_toldLost (by simp) h
        · obtain rfl := Option.some.inj hs
          rcases h with ⟨task', rows, hf⟩ | hc
          · rw [flush_setFlush] at hf
            split at hf
            · cases hf
            · exact .inl ⟨task', rows, hf⟩
          · cases task with
            | run => exact .inr hc
            | close => cases hc
    · cases hs
  | resume task =>
    simp only [step, resume] at hs
    split at hs
    · rename_i rows hf
      obtain rfl := Option.some.inj hs
      rcases endFlush_toldLost (by simp) h with ⟨task', rows', hf'⟩ | hc
      · exact .inl ⟨task', rows', by rwa [flush_inserted] at hf'⟩
      · exact .inr hc
    · rename_i rows hf
      obtain rfl := Option.some.inj hs
      exact endFlush_toldLost (fun _ => .inl ⟨task, rows, hf⟩) h
    · cases hs
  | raise task error =>
    simp only [step, raise] at hs
    split at hs
    · obtain rfl := Option.some.inj hs
      exact endFlush_toldLost (by simp) h
    · cases hs
  | timeout =>
    simp only [step, timeout] at hs
    split at hs
    · obtain rfl := Option.some.inj hs
      exact endFlush_toldLost (by simp) h
    · cases hs

theorem pages_toldLost {reports : List Report} (h : (reports.foldl DbReporter.page r).ToldLost) :
    r.ToldLost := by
  induction reports generalizing r with
  | nil => exact h
  | cons report reports ih =>
    rcases ih h with ⟨task, rows, hf⟩ | hc
    · cases task with
      | run => exact .inl ⟨.run, rows, hf⟩
      | close => exact .inl ⟨.close, rows, hf⟩
    · exact .inr hc

theorem close_toldLost (h : r.close.ToldLost) : r.ToldLost := by
  rcases h with ⟨task, rows, hf⟩ | hc
  · cases task with
    | run => exact .inl ⟨.run, rows, hf⟩
    | close => cases hf
  · cases hc

theorem cancelRun_toldLost (h : r.cancelRun.ToldLost) : r.ToldLost := by
  rcases h with ⟨task, rows, hf⟩ | hc
  · cases task with
    | run => cases hf
    | close => exact .inl ⟨.close, rows, hf⟩
  · exact .inr hc

theorem answer_toldLost {task : FlushTask} {rows : List PageRow} (hi : r.issued task = some rows)
    {reply : Reply} (h : (r.answer task reply).ToldLost) : r.ToldLost ∨ reply = .leaseLost := by
  obtain ⟨hf, ha⟩ := answer_of_issued hi reply
  rw [ha] at h
  rcases h with ⟨task', rows', hf'⟩ | hc
  · rw [flush_setFlush] at hf'
    split at hf'
    · cases hf'
      exact .inr rfl
    · exact .inl (.inl ⟨task', rows', hf'⟩)
  · cases task with
    | run => exact .inl (.inr hc)
    | close => cases hc

end DbReporter

section
variable {T : CrawlTask} {settings : Settings}

namespace System

/-- The store after a step: as it was, or a transaction further on, and a claim is its worker's. -/
theorem store_step {s s' : System T} (hs : SystemStep settings s s') :
    s'.store = s.store ∨ ∃ a, storeStep s.store a = some s'.store ∧
      ∀ skip want worker now, a = .call (.claim skip want worker now) →
        s.workers worker = .claiming := by
  cases hs with
  | external a store ha hstore =>
    refine .inr ⟨a, hstore, ?_⟩
    rintro skip want worker now rfl
    cases ha
  | reap id _ hreap =>
    obtain ⟨_, _, hstore, -⟩ := commitReap_spec hreap
    refine .inr ⟨.commitReap id, hstore, ?_⟩
    rintro skip want worker now he
    cases he
  | claim worker skip want now hw store row hcall =>
    refine .inr ⟨.call (.claim skip want worker now), by simp [storeStep, hcall], ?_⟩
    rintro skip' want' worker' now' he
    cases he
    exact hw
  | commit worker slot now call hi _ hcommit =>
    obtain ⟨reply, hcall, -⟩ := commit_spec hi hcommit
    obtain ⟨_, _, _, hab, -⟩ := issued_spec hi
    refine .inr ⟨.call call, by simp [storeStep, hcall], ?_⟩
    rintro skip want worker' now' he
    cases he
    cases hab
  | crash | move | crawl | job => exact .inl rfl

end System

/-! ## Why a job was interrupted -/

/-- The stop watcher wakes, or the heartbeats have failed past the lease. -/
def JobAct.interrupts : JobAct T → Bool
  | .stop | .beatRaised true => true
  | _ => false

/-- Each reason a job has, or is about to have, to be interrupted is true of the row, unless it is one
of those `interrupted` counts. -/
structure Job.Reasons (job : Job T) (store : Store) (worker : WorkerId) (interrupted : Bool) :
    Prop where
  gone : ∀ stats, job.heartbeat = .beating stats (.answered (.heartbeat none)) →
    store.db.owned job.crawl worker = false
  asked : ∀ stats, job.heartbeat = .beating stats (.answered (.heartbeat (some true))) →
    store.flagged job.crawl
  told : job.reporter.ToldLost → store.db.owned job.crawl worker = false
  cancelRequested : job.interrupt = some .cancelRequested → store.flagged job.crawl
  leaseLost : job.interrupt = some .leaseLost →
    interrupted = true ∨ store.db.owned job.crawl worker = false
  stopped : job.interrupt = some .stopped → interrupted = true
  interrupted : interrupted = true → job.interrupt ≠ none
  verdict : ∀ verdict, job.phase.verdict = some verdict →
    ∃ result interrupt, T.result job.task = some result ∧ verdict = outcome result interrupt

theorem reasons_start (config : CrawlConfig) (seed : Text) (c : CrawlId) (n : ℕ) (batchSize : ℤ)
    (store : Store) (worker : WorkerId) :
    Job.Reasons (T := T)
      { crawl := c, lease := n, task := T.start config seed, reporter := { batchSize } }
      store worker false where
  gone stats h := by cases h
  asked stats h := by cases h
  told h := by
    rcases h with ⟨task, rows, hf⟩ | hc
    · cases task <;> cases hf
    · cases hc
  cancelRequested h := by cases h
  leaseLost h := by cases h
  stopped h := by cases h
  interrupted h := by cases h
  verdict v h := by cases h

theorem Job.Reasons.mono {job : Job T} {store store' : Store} {worker : WorkerId}
    {interrupted : Bool} (h : job.Reasons store worker interrupted)
    (howned : store'.db.owned job.crawl worker = true → store.db.owned job.crawl worker = true)
    (hflag : store.flagged job.crawl → store'.flagged job.crawl) :
    job.Reasons store' worker interrupted := by
  have hlost : store.db.owned job.crawl worker = false →
      store'.db.owned job.crawl worker = false := by
    intro hno
    by_contra hyes
    simp [howned (by simpa using hyes)] at hno
  exact ⟨fun stats hb => hlost (h.gone stats hb), fun stats hb => hflag (h.asked stats hb),
    fun ht => hlost (h.told ht), fun hi => hflag (h.cancelRequested hi),
    fun hi => (h.leaseLost hi).imp_right hlost, h.stopped, h.interrupted, h.verdict⟩

/-- A job that goes on for the same reason as before, and has been told nothing new. -/
theorem Job.Reasons.keep {job job' : Job T} {store : Store} {worker : WorkerId} {interrupted : Bool}
    (h : job.Reasons store worker interrupted) (hcrawl : job'.crawl = job.crawl)
    (hheartbeat : ∀ stats reply, job'.heartbeat = .beating stats (.answered reply) →
      job.heartbeat = .beating stats (.answered reply))
    (htold : job'.reporter.ToldLost → job.reporter.ToldLost)
    (hinterrupt : job'.interrupt = job.interrupt)
    (hverdict : ∀ verdict, job'.phase.verdict = some verdict →
      ∃ result interrupt, T.result job'.task = some result ∧ verdict = outcome result interrupt) :
    job'.Reasons store worker interrupted := by
  refine ⟨?_, ?_, ?_, ?_, ?_, ?_, ?_, hverdict⟩
  · rw [hcrawl]
    exact fun stats hb => h.gone stats (hheartbeat _ _ hb)
  · rw [hcrawl]
    exact fun stats hb => h.asked stats (hheartbeat _ _ hb)
  · rw [hcrawl]
    exact fun ht => h.told (htold ht)
  · rw [hcrawl, hinterrupt]
    exact h.cancelRequested
  · rw [hcrawl, hinterrupt]
    exact h.leaseLost
  · rw [hinterrupt]
    exact h.stopped
  · rw [hinterrupt]
    exact h.interrupted

/-- A watcher that cancels the crawl task for a true reason, and ends. -/
theorem Job.Reasons.cancel {job : Job T} {store : Store} {worker : WorkerId}
    {interrupted interrupted' : Bool} (h : job.Reasons store worker interrupted)
    {interrupt : Interrupt} {heartbeat : Heartbeat} {watchingStop : Bool}
    (hheartbeat : ∀ stats reply, heartbeat = .beating stats (.answered reply) →
      job.heartbeat = .beating stats (.answered reply))
    (hrequested : interrupt = .cancelRequested → store.flagged job.crawl)
    (hlost : interrupt = .leaseLost →
      interrupted' = true ∨ store.db.owned job.crawl worker = false)
    (hstopped : interrupt = .stopped → interrupted' = true) :
    Job.Reasons { job.cancel interrupt with heartbeat, watchingStop } store worker interrupted' where
  gone stats hb := h.gone stats (hheartbeat _ _ hb)
  asked stats hb := h.asked stats (hheartbeat _ _ hb)
  told := h.told
  cancelRequested hi := hrequested (Option.some.inj hi)
  leaseLost hi := hlost (Option.some.inj hi)
  stopped hi := hstopped (Option.some.inj hi)
  interrupted _ := Option.some_ne_none _
  verdict := h.verdict

/-- A watcher interrupts the job for a true reason, or not at all. -/
theorem Job.Reasons.watch {job : Job T} {store : Store} {worker : WorkerId} {interrupted : Bool}
    (h : job.Reasons store worker interrupted) {a : JobAct T} {interrupt : Option Interrupt}
    {cancelling : Bool} {heartbeat : Heartbeat} {watchingStop : Bool}
    (hmove : Watch job a interrupt cancelling heartbeat watchingStop) :
    Job.Reasons { job with interrupt, cancelling, heartbeat, watchingStop } store worker
      (interrupted || a.interrupts) := by
  cases hmove with
  | gone stats hb =>
    exact h.cancel (by simp) (by simp) (fun _ => .inr (h.gone stats hb)) (by simp)
  | asked stats hb => exact h.cancel (by simp) (fun _ => h.asked stats hb) (by simp) (by simp)
  | expired stats pending hb =>
    exact h.cancel (by simp) (by simp) (fun _ => .inl (by simp [JobAct.interrupts])) (by simp)
  | stopped phase hwatching =>
    exact h.cancel (fun _ _ => id) (by simp) (by simp) fun _ => by simp [JobAct.interrupts]
  | stopCancelled verdict phase =>
    simp only [JobAct.interrupts, Bool.or_false]
    exact h.keep rfl (fun _ _ => id) id rfl h.verdict
  | beat | renewed | raised | beatCancelled =>
    -- the heartbeat that is awaited next is not answered yet
    simp only [JobAct.interrupts, Bool.or_false]
    exact h.keep rfl (fun _ _ hb => by cases hb) id rfl h.verdict

/-- A step of the job keeps the reasons true. -/
theorem Job.Reasons.step {job job' : Job T} {store : Store} {worker : WorkerId} {interrupted : Bool}
    (h : job.Reasons store worker interrupted) {a : JobAct T}
    (hs : job.step a = some (.running job')) :
    job'.Reasons store worker (interrupted || a.interrupts) ∧ job'.crawl = job.crawl ∧
      job'.lease = job.lease := by
  by_cases hcrawl : ∃ b clock, a = .crawl b clock
  · obtain ⟨b, clock, rfl⟩ := hcrawl
    obtain ⟨task, htask, he⟩ := Job.crawl_spec hs
    cases he
    simp only [JobAct.interrupts, Bool.or_false]
    refine ⟨h.keep rfl (fun _ _ => id) DbReporter.pages_toldLost rfl fun v hv => ?_, rfl, rfl⟩
    obtain ⟨result, interrupt, hresult, -⟩ := h.verdict v hv
    rw [T.ended htask] at hresult
    cases hresult
  have hquiet : ∀ b clock, a ≠ .crawl b clock := fun b clock he => hcrawl ⟨b, clock, he⟩
  have hstep := Job.step_cases hquiet hs
  generalize hstate : WorkerState.running job' = state at hstep
  -- a verdict is passed on from phase to phase
  have hverdict : ∀ {v}, job.phase.verdict = some v → ∀ verdict, some v = some verdict →
      ∃ result interrupt, T.result job.task = some result ∧ verdict = outcome result interrupt := by
    rintro v hv verdict he
    exact h.verdict verdict (hv.trans he)
  cases hstep with
  | watch a interrupt cancelling heartbeat watchingStop hmove =>
    cases hstate
    exact ⟨h.watch hmove, rfl, rfl⟩
  | reporter b reporter hr =>
    cases hstate
    simp only [JobAct.interrupts, Bool.or_false]
    exact ⟨h.keep rfl (fun _ _ => id) (DbReporter.step_toldLost hr) rfl h.verdict, trivial, trivial⟩
  | ended result hp hr =>
    cases hstate
    simp only [JobAct.interrupts, Bool.or_false]
    refine ⟨h.keep rfl (fun _ _ => id) id rfl fun v hv => ?_, trivial, trivial⟩
    exact ⟨result, job.interrupt, hr, (Option.some.inj hv).symm⟩
  | drain verdict hp hb hw =>
    cases hstate
    simp only [JobAct.interrupts, Bool.or_false]
    refine ⟨h.keep rfl (fun _ _ => id) (fun ht => ?_) rfl (hverdict (by rw [hp]; rfl)), trivial, trivial⟩
    have hold := DbReporter.close_toldLost ht
    split at hold
    · rcases hold with ⟨task, rows, hf⟩ | hc
      · cases task with
        | run => exact .inl ⟨.run, rows, hf⟩
        | close => exact .inl ⟨.close, rows, hf⟩
      · exact .inr hc
    · exact hold
  | closeReturned verdict hp hc =>
    cases hstate
    simp only [JobAct.interrupts, Bool.or_false]
    exact ⟨h.keep rfl (fun _ _ => id) id rfl (hverdict (by rw [hp]; rfl)), trivial, trivial⟩
  | closeLost verdict hp hc =>
    cases hstate
    simp only [JobAct.interrupts, Bool.or_false]
    refine ⟨⟨h.gone, h.asked, h.told, by simp, fun _ => .inr (h.told (.inr hc)), by simp,
      fun _ => Option.some_ne_none _, hverdict (by rw [hp]; rfl)⟩, trivial, trivial⟩
  | closeFailed verdict error hp hc =>
    cases hstate
    simp only [JobAct.interrupts, Bool.or_false]
    exact ⟨h.keep rfl (fun _ _ => id) id rfl (hverdict (by rw [hp]; rfl)), trivial, trivial⟩
  | flusherCancelled verdict flushError hp =>
    cases hstate
    simp only [JobAct.interrupts, Bool.or_false]
    exact ⟨h.keep rfl (fun _ _ => id) DbReporter.cancelRun_toldLost rfl h.verdict, trivial, trivial⟩
  | flusherDone verdict flushError hp hd =>
    cases hstate
    simp only [JobAct.interrupts, Bool.or_false]
    exact ⟨h.keep rfl (fun _ _ => id) id rfl (hverdict (by rw [hp]; rfl)), trivial, trivial⟩
  | gone => cases hstate
  | record =>
    exact absurd hstate.symm Job.record_ne_running

namespace System

/-- A history variable: the worker's job, since it began, has been interrupted by the stop watcher or
by heartbeats that failed past the lease. -/
def noteInterrupts (_ : System T) (interrupted : WorkerId → Bool) :
    SystemAct T → WorkerId → Bool
  | .claimReturned worker => Function.update interrupted worker false
  | .job worker a => Function.update interrupted worker (interrupted worker || a.interrupts)
  | _ => interrupted

/-- The service with the history of its interrupts. -/
def stepInterrupts (settings : Settings) :
    System T × (WorkerId → Bool) → SystemAct T → Option (System T × (WorkerId → Bool)) :=
  noted (System.step settings) noteInterrupts

/-- Every running job's reasons are true. -/
structure ReasonsInv (s : System T) (interrupted : WorkerId → Bool) : Prop where
  fence : FenceInv s
  jobs : ∀ worker job, s.workers worker = .running job →
    job.Reasons s.store worker (interrupted worker)

theorem reasonsInv_init (interrupted : WorkerId → Bool) :
    ReasonsInv ({} : System T) interrupted where
  fence := fenceInv_init
  jobs worker job h := by cases h

/-- Jobs come and go by their own moves, by the calls they await and by the start of `run_job`. -/
theorem running_before {s s' : System T} {a : SystemAct T} (hs : s.step settings a = some s')
    (hcommit : ∀ worker slot now, a ≠ .commit worker slot now)
    (hstart : ∀ worker, a ≠ .claimReturned worker) (hjob : ∀ worker b, a ≠ .job worker b)
    {worker : WorkerId} {job : Job T} (hw : s'.workers worker = .running job) :
    s.workers worker = .running job := by
  have hset : ∀ other (state : WorkerState T), (∀ job, state ≠ .running job) →
      (s.setWorker other state).workers worker = .running job → s.workers worker = .running job := by
    intro other state hstate hw'
    simp only [setWorker, Function.update_apply] at hw'
    split at hw'
    · exact absurd hw' (hstate job)
    · exact hw'
  cases a with
  | create id seed config now =>
    obtain ⟨store, -, rfl⟩ := api_spec hs
    exact hw
  | requestCancel id now =>
    obtain ⟨store, -, rfl⟩ := api_spec hs
    exact hw
  | beginReap id leaseMicros maxAttempts now =>
    obtain ⟨store, -, rfl⟩ := Option.map_eq_some_iff.mp hs
    exact hw
  | statement id =>
    obtain ⟨store, -, rfl⟩ := Option.map_eq_some_iff.mp hs
    exact hw
  | rollbackReap id =>
    simp only [step, Option.map_eq_some_iff] at hs
    obtain ⟨store, -, rfl⟩ := hs
    exact hw
  | commitReap id =>
    obtain ⟨_, _, _, hworkers, -⟩ := commitReap_spec hs
    exact hworkers ▸ hw
  | crash other =>
    obtain rfl := Option.some.inj hs
    exact hw
  | claim other =>
    have hs' := alive_some hs
    split at hs'
    · obtain rfl := Option.some.inj hs'
      exact hset other .claiming (by simp) hw
    · cases hs'
  | claimCommit other skip want now =>
    simp only [step, claimCommit] at hs
    split at hs
    · rename_i store row _ _
      obtain rfl := Option.some.inj hs
      exact hset other (.claimed (some row) (s.leases row.id + 1)) (by simp) hw
    · obtain rfl := Option.some.inj hs
      exact hset other (.claimed none 0) (by simp) hw
    · cases hs
  | claimRaised other =>
    have hs' := alive_some hs
    simp only [claimRaised] at hs'
    split at hs'
    · obtain rfl := Option.some.inj hs'
      exact hset other .idle (by simp) hw
    · obtain rfl := Option.some.inj hs'
      exact hset other .idle (by simp) hw
    · cases hs'
  | record other b =>
    have hs' := alive_some hs
    simp only [record] at hs'
    split at hs'
    · rename_i r _
      obtain ⟨state, hstate, rfl⟩ := Option.map_eq_some_iff.mp hs'
      refine hset other state (fun job' he => ?_) hw
      subst he
      obtain he | ⟨_, he, -⟩ := Recording.step_cases hstate <;> cases he
    · cases hs'
  | commit other slot now => exact absurd rfl (hcommit other slot now)
  | claimReturned other => exact absurd rfl (hstart other)
  | job other b => exact absurd rfl (hjob other b)

/-- A store further on owns no more, as far as a worker with a job goes, and keeps every flag. -/
theorem ReasonsInv.store_mono {s s' : System T} {interrupted : WorkerId → Bool}
    (h : ReasonsInv s interrupted) (hs : SystemStep settings s s') {worker : WorkerId} {job : Job T}
    (hw : s.workers worker = .running job) : job.Reasons s'.store worker (interrupted worker) := by
  rcases store_step hs with he | ⟨a, ha, hclaim⟩
  · rw [he]
    exact h.jobs worker job hw
  · refine (h.jobs worker job hw).mono (storeStep_owned h.fence.tx ha fun skip want now he => ?_)
      fun hf => storeStep_keeps_flag h.fence.tx hf ha
    rw [hclaim skip want worker now he] at hw
    cases hw

/-- What a heartbeat is told about the row. -/
theorem heartbeat_told {db : Db} {id : CrawlId} {worker : WorkerId} {stats : Summary}
    {now : Instant} {flag : Option Bool}
    (h : ((Call.heartbeat id worker stats now).exec db).2 = .heartbeat flag) :
    (flag = none → db.owned id worker = false) ∧
      (flag = some true → ∃ r, db.crawl.lookup id = some r ∧ r.cancelRequested = true) := by
  simp only [Call.exec, Reply.heartbeat.injEq] at h
  rw [heartbeat_reply] at h
  refine ⟨fun hnone => ?_, fun hsome => ?_⟩
  · by_contra howned
    obtain ⟨r, hr, howner, hrun⟩ := owned_iff.mp (by simpa using howned)
    have hcond : (heartbeatUpdate id worker stats now).cond r = true := by
      simp [heartbeatUpdate, KeyedTable.lookup_key hr, howner, hrun]
    simp [hr, hcond, hnone, Option.filter] at h
  · rw [hsome, Option.map_eq_some_iff] at h
    obtain ⟨r, hr, hflag⟩ := h
    exact ⟨r, (Option.filter_eq_some_iff.mp hr).1, hflag⟩

theorem insertPages_told {db : Db} {id : CrawlId} {worker : WorkerId} {rows : List PageRow}
    (h : ((Call.insertPages id worker rows).exec db).2 = .leaseLost) :
    db.owned id worker = false := by
  simp only [Call.exec, Db.insertPages] at h
  by_contra howned
  simp only [Bool.not_eq_false] at howned
  simp only [howned, if_true] at h
  split at h
  · cases h
  · rename_i he
    split at he <;> cases he

/-- The answer to a call leaves the reasons of the job that awaits it true. -/
theorem ReasonsInv.answer {s s' : System T} {interrupted : WorkerId → Bool}
    (h : ReasonsInv s interrupted) {worker : WorkerId} {slot : Slot} {now : Instant} {call : Call}
    (hi : (s.workers worker).issued worker now slot = some call)
    (hs : s.step settings (.commit worker slot now) = some s') {job : Job T}
    (hw' : s'.workers worker = .running job) :
    job.Reasons s'.store worker (interrupted worker) := by
  have hstep : SystemStep settings s s' := .commit worker slot now call hi s' hs
  obtain ⟨reply, hcall, hworkers, -⟩ := commit_spec hi hs
  obtain ⟨-, -, -, hreply⟩ := call_spec hcall
  rw [hworkers, Function.update_self] at hw'
  cases hw : s.workers worker with
  | idle | claiming | claimed => cases slot <;> simp [hw, WorkerState.issued] at hi
  | recording r =>
    rw [hw] at hw'
    cases slot with
    | heartbeat | flush => cases hw'
    | record =>
      simp only [WorkerState.answer] at hw'
      split at hw' <;> cases hw'
  | running before =>
    have hmono := h.store_mono hstep hw
    have ha : storeStep s.store (.call call) = some s'.store := by simp [storeStep, hcall]
    have hlost : s.store.db.owned before.crawl worker = false →
        s'.store.db.owned before.crawl worker = false := by
      intro hno
      by_contra hyes
      obtain ⟨_, _, _, hab, -⟩ := issued_spec hi
      have howned : s.store.db.owned before.crawl worker = true := by
        refine storeStep_owned h.fence.tx ha ?_ (by simpa using hyes)
        rintro skip want now' he
        cases he
        cases hab
      simp [howned] at hno
    rw [hw] at hi hw'
    cases slot with
    | heartbeat =>
      simp only [WorkerState.issued] at hi
      split at hi
      · rename_i stats hb
        obtain rfl := Option.some.inj hi
        simp only [WorkerState.answer, hb] at hw'
        obtain rfl := WorkerState.running.inj hw'
        refine ⟨fun stats' he => ?_, fun stats' he => ?_, hmono.told, hmono.cancelRequested,
          hmono.leaseLost, hmono.stopped, hmono.interrupted, hmono.verdict⟩
        · cases he
          exact hlost ((heartbeat_told hreply.symm).1 rfl)
        · cases he
          exact storeStep_keeps_flag h.fence.tx ((heartbeat_told hreply.symm).2 rfl) ha
      · cases hi
    | flush task =>
      obtain ⟨rows, hrows, rfl⟩ := Option.map_eq_some_iff.mp hi
      obtain rfl := WorkerState.running.inj hw'
      refine ⟨hmono.gone, hmono.asked, fun ht => ?_, hmono.cancelRequested, hmono.leaseLost,
        hmono.stopped, hmono.interrupted, hmono.verdict⟩
      rcases DbReporter.answer_toldLost hrows ht with hold | hnew
      · exact hmono.told hold
      · exact hlost (insertPages_told (hreply.symm.trans hnew))
    | record => cases hi

theorem reasonsInv_step {s s' : System T} {interrupted : WorkerId → Bool} {a : SystemAct T}
    (h : ReasonsInv s interrupted) (hs : s.step settings a = some s') :
    ReasonsInv s' (s.noteInterrupts interrupted a) := by
  have hstep := step_cases hs
  refine ⟨fenceInv_step h.fence hstep, fun worker job hw' => ?_⟩
  cases a with
  | claimReturned other =>
    have hs' := alive_some hs
    simp only [noteInterrupts]
    by_cases he : worker = other
    · subst he
      rw [Function.update_self]
      simp only [claimReturned] at hs'
      split at hs'
      · obtain rfl := Option.some.inj hs'
        simp [setWorker] at hw'
      · rename_i row lease hw
        obtain rfl := Option.some.inj hs'
        simp only [setWorker, Function.update_self, runJob] at hw'
        split at hw'
        · cases hw'
        · cases hw'
          exact reasons_start _ _ _ _ _ _ _
      · cases hs'
    · rw [Function.update_of_ne he]
      have hsame : s'.workers worker = s.workers worker := by
        simp only [claimReturned] at hs'
        split at hs'
        · obtain rfl := Option.some.inj hs'
          exact Function.update_of_ne he _ _
        · obtain rfl := Option.some.inj hs'
          exact Function.update_of_ne he _ _
        · cases hs'
      exact h.store_mono hstep (hsame ▸ hw')
  | job other b =>
    have hs' := alive_some hs
    simp only [System.job] at hs'
    split at hs'
    · rename_i before hw
      obtain ⟨state, hstate, rfl⟩ := Option.map_eq_some_iff.mp hs'
      simp only [noteInterrupts]
      by_cases he : worker = other
      · subst he
        simp only [setLog, setWorker, Function.update_self] at hw' ⊢
        subst hw'
        exact ((h.jobs worker before hw).step hstate).1
      · rw [Function.update_of_ne he]
        have hsame : s.workers worker = .running job := by
          simpa [setLog, setWorker, he] using hw'
        exact h.jobs worker job hsame
    · cases hs'
  | commit other slot now =>
    cases hi : (s.workers other).issued other now slot with
    | none => simp [step, commit, hi] at hs
    | some call =>
      by_cases he : worker = other
      · subst he
        exact h.answer hi hs hw'
      · obtain ⟨_, _, hworkers, -⟩ := commit_spec hi hs
        rw [hworkers, Function.update_of_ne he] at hw'
        exact h.store_mono hstep hw'
  | _ =>
    exact h.store_mono hstep (running_before hs (by simp) (by simp) (by simp) hw')

theorem reasonsInv_run {actions : List (SystemAct T)} {s : System T × (WorkerId → Bool)}
    (h : run (stepInterrupts settings) ({}, fun _ => false) actions = some s) :
    ReasonsInv s.1 s.2 := by
  refine run_invariant (P := fun s => ReasonsInv s.1 s.2) (fun t a t' hi hstep => ?_)
    (reasonsInv_init _) h
  obtain ⟨hs, hnote⟩ := noted_some.mp hstep
  exact hnote ▸ reasonsInv_step hi hs

/-! ## Recording `finished` -/

end System

/-- The phase writes `finished`, without an error, and goes on to nothing else. -/
def RecordPhase.WritesFinished (phase : RecordPhase) : Prop :=
  (∃ pending, phase = .finishing .finished none pending) ∨ phase = .retrying .finished none

theorem RecordPhase.WritesFinished.step {r : Recording} (h : r.phase.WritesFinished)
    {a : RecordAct} {state : WorkerState T} (hs : r.step T a = some state) :
    state = .idle ∨ ∃ phase, state = .recording { r with phase } ∧ phase.WritesFinished := by
  obtain ⟨pending, hp⟩ | hp := h
  · cases a with
    | returned =>
      simp only [Recording.step, hp] at hs
      split at hs
      · rename_i he
        cases he
      · rename_i he
        cases he
      · exact .inl (Option.some.inj hs).symm
      · cases hs
    | raised expired =>
      simp only [Recording.step, hp] at hs
      split at hs
      · exact .inl (Option.some.inj hs).symm
      · exact .inr ⟨_, (Option.some.inj hs).symm, .inr rfl⟩
    | got | retry => simp [Recording.step, hp] at hs
  · cases a with
    | retry =>
      simp only [Recording.step, hp] at hs
      exact .inr ⟨_, (Option.some.inj hs).symm, .inl ⟨.issued, rfl⟩⟩
    | returned | raised | got => simp [Recording.step, hp] at hs

namespace System

/-- From this state on, all that the worker writes for lease `n` of crawl `c` is that it finished, and
on a row that is still the worker's that is what it becomes. -/
def RecordsFinished (settings : Settings) (s : System T) (worker : WorkerId) (c : CrawlId) (n : ℕ) :
    Prop :=
  (∃ stats, ∀ now, (s.workers worker).issued worker now .record =
    some (.finish c worker .finished stats none now)) ∧
  ∀ t, Reaches (System.step settings) s t → (t.workers worker).lease = some (c, n) →
    ∀ slot now call, (t.workers worker).issued worker now slot = some call →
      (∃ stats, call = .finish c worker .finished stats none now) ∧
      ∀ t' r, t.step settings (.commit worker slot now) = some t' →
        t.store.db.crawl.lookup c = some r → r.workerId = some worker →
        ∃ r', t'.store.db.crawl.lookup c = some r' ∧ r'.state = .finished

/-- The worker is done with lease `n` of crawl `c`, but for writing that it finished. -/
structure Finishing (s : System T) (worker : WorkerId) (c : CrawlId) (n : ℕ) : Prop where
  bound : n ≤ s.leases c
  recording : (s.workers worker).lease = some (c, n) →
    ∃ r, s.workers worker = .recording r ∧ r.phase.WritesFinished

theorem Finishing.step {s s' : System T} {worker : WorkerId} {c : CrawlId} {n : ℕ}
    (h : s.Finishing worker c n) (hs : SystemStep settings s s') : s'.Finishing worker c n := by
  have hbound : n ≤ s'.leases c := by
    have := h.bound
    rcases leases_step hs c with he | ⟨he, -⟩ <;> omega
  refine ⟨hbound, fun hl => ?_⟩
  -- a worker that does not move keeps its recording
  have hkeep : ∀ other (state : WorkerState T), (other = worker → state.lease = some (c, n) →
      ∃ r, state = .recording r ∧ r.phase.WritesFinished) →
      ((s.setWorker other state).workers worker).lease = some (c, n) →
      ∃ r, (s.setWorker other state).workers worker = .recording r ∧ r.phase.WritesFinished := by
    intro other state hstate hlease
    by_cases he : other = worker
    · subst he
      simp only [setWorker, Function.update_self] at hlease ⊢
      exact hstate rfl hlease
    · simp only [setWorker, Function.update_of_ne (Ne.symm he)] at hlease ⊢
      exact h.recording hlease
  cases hs with
  | external | crash => exact h.recording hl
  | reap id _ hreap =>
    obtain ⟨_, _, _, hworkers, -⟩ := commitReap_spec hreap
    rw [hworkers] at hl ⊢
    exact h.recording hl
  | claim other skip want now hw store row hcall =>
    refine hkeep other (.claimed (some row) (s.leases row.id + 1)) (fun _ hlease => ?_) hl
    obtain ⟨rfl, rfl⟩ := Prod.mk.inj (Option.some.inj hlease)
    exact absurd h.bound (by omega)
  | commit other slot now call hi _ hcommit =>
    obtain ⟨reply, -, hworkers, -⟩ := commit_spec hi hcommit
    rw [hworkers] at hl ⊢
    refine hkeep other ((s.workers other).answer reply slot) (fun he hlease => ?_) hl
    subst he
    rw [lease_answer] at hlease
    obtain ⟨r, hr, hp⟩ := h.recording hlease
    rw [hr] at hi ⊢
    cases slot with
    | heartbeat | flush => cases hi
    | record =>
      obtain ⟨pending, hp⟩ | hp := hp
      · cases pending with
        | issued =>
          refine ⟨{ r with phase := .finishing .finished none (.answered reply) }, ?_,
            .inl ⟨_, rfl⟩⟩
          simp only [WorkerState.answer, hp]
        | answered => simp [WorkerState.issued, hp] at hi
      · simp [WorkerState.issued, hp] at hi
  | move other state hmove =>
    refine hkeep other state (fun he hlease => ?_) hl
    subst he
    generalize hold : s.workers other = old at hmove
    have hrec : old.lease = some (c, n) →
        ∃ r, old = .recording r ∧ r.phase.WritesFinished := hold ▸ h.recording
    cases hmove with
    | claim | emptyQueue | giveUp => cases hlease
    | start row m =>
      rw [lease_runJob] at hlease
      obtain ⟨r, hr, -⟩ := hrec hlease
      cases hr
    | record r a state hstep =>
      obtain rfl | ⟨phase, rfl, -⟩ := Recording.step_cases hstep
      · cases hlease
      · obtain ⟨r', hr', hp⟩ := hrec hlease
        cases hr'
        obtain he | ⟨phase', he, hp'⟩ := hp.step hstep
        · cases he
        · cases he
          exact ⟨_, rfl, hp'⟩
  | crawl other job hw a clock task htask =>
    refine hkeep other (.running (job.crawled task clock)) (fun he hlease => ?_) hl
    subst he
    obtain ⟨r, hr, -⟩ := h.recording (by rw [hw]; exact hlease)
    rw [hw] at hr
    cases hr
  | job other job hw b state hstep =>
    refine hkeep other state (fun he hlease => ?_) hl
    subst he
    rcases lease_jobStep hstep with hnone | hsame
    · rw [hnone] at hlease
      cases hlease
    · obtain ⟨r, hr, -⟩ := h.recording (by rw [hw]; exact hsame.symm.trans hlease)
      rw [hw] at hr
      cases hr

/-- What such a worker writes. -/
theorem Finishing.issued {s : System T} {worker : WorkerId} {c : CrawlId} {n : ℕ}
    (h : s.Finishing worker c n) (hl : (s.workers worker).lease = some (c, n)) {slot : Slot}
    {now : Instant} {call : Call} (hi : (s.workers worker).issued worker now slot = some call) :
    ∃ stats, call = .finish c worker .finished stats none now := by
  obtain ⟨r, hr, hp⟩ := h.recording hl
  rw [hr] at hl hi
  obtain ⟨rfl, -⟩ := Prod.mk.inj (Option.some.inj hl)
  cases slot with
  | heartbeat | flush => cases hi
  | record =>
    obtain ⟨pending, hp⟩ | hp := hp
    · cases pending with
      | issued =>
        simp only [WorkerState.issued, hp] at hi
        exact ⟨r.stats, (Option.some.inj hi).symm⟩
      | answered => simp [WorkerState.issued, hp] at hi
    · simp [WorkerState.issued, hp] at hi

theorem Finishing.recordsFinished {s : System T} {worker : WorkerId} {c : CrawlId} {n : ℕ}
    (h : s.Finishing worker c n) (hissued : ∃ stats, ∀ now,
      (s.workers worker).issued worker now .record =
        some (.finish c worker .finished stats none now)) :
    s.RecordsFinished settings worker c n := by
  refine ⟨hissued, fun t ht hl slot now call hi => ?_⟩
  have hfin : t.Finishing worker c n := by
    refine ht.invariant (P := fun t => t.Finishing worker c n) h fun _ _ _ hi hs => ?_
    exact hi.step (step_cases hs)
  obtain ⟨stats, rfl⟩ := hfin.issued hl hi
  refine ⟨⟨stats, rfl⟩, fun t' r hs hr howner => ?_⟩
  obtain ⟨reply, hcall, -⟩ := commit_spec hi hs
  obtain ⟨-, hdb, -, -⟩ := call_spec hcall
  have hcond : (finishUpdate c worker .finished stats none now).cond r = true := by
    simp [finishUpdate, KeyedTable.lookup_key hr, howner]
  refine ⟨_, by rw [hdb]; exact lookup_exec hr, ?_⟩
  simp only [Call.rowAfter, CrawlState.terminal, if_true, Update.onRow_of_cond hcond]
  rfl

end System

/-- A crawl that returned un-aborted, with its pages written, no cancel requested and its row still
running under the worker, is recorded as finished and never released, exactly when neither the stop
watcher nor heartbeats failing past the lease have interrupted the job. -/
theorem returned_recordsFinished {actions : List (SystemAct T)} {s s' : System T}
    {interrupted : WorkerId → Bool}
    (h : run (System.stepInterrupts settings) ({}, fun _ => false) actions = some (s, interrupted))
    {worker : WorkerId} {job : Job T} (hw : s.workers worker = .running job) {o : CrawlOutcome}
    (hreturned : T.result job.task = some (.returned o)) (haborted : o.aborted = false)
    {verdict : Verdict} (hwritten : job.phase = .closing verdict none) {r : Crawl}
    (hr : s.store.db.crawl.lookup job.crawl = some r) (hrunning : r.state = .running)
    (howner : r.workerId = some worker) (huncancelled : r.cancelRequested = false) {elapsed : ℚ}
    (hs : s.step settings (.job worker (.clientClosed elapsed)) = some s') :
    s'.RecordsFinished settings worker job.crawl job.lease ↔ interrupted worker = false := by
  have hinv := System.reasonsInv_run h
  have hreasons := hinv.jobs worker job hw
  have howned : s.store.db.owned job.crawl worker = true := owned_iff.mpr ⟨r, hr, howner, hrunning⟩
  obtain ⟨result, interrupt, hresult, hv⟩ := hreasons.verdict verdict (by rw [hwritten]; rfl)
  obtain rfl : result = .returned o := Option.some.inj (hresult.symm.trans hreturned)
  simp only [outcome, haborted, Bool.false_eq_true, if_false] at hv
  subst hv
  have hs' := System.alive_some hs
  simp only [System.job, hw, Job.step, Job.clientClosed, hwritten, applyFlushError, Option.map_some,
    Option.some.injEq] at hs'
  have hstate : s'.workers worker =
      job.record .finished none (summary (T.stats job.task) elapsed) := by
    rw [← hs']
    exact Function.update_self _ _ _
  have hleases : s'.leases = s.leases := by
    rw [← hs']
    rfl
  constructor
  · rintro ⟨⟨stats, hissued⟩, -⟩
    have hissued₀ := hissued 0
    rw [hstate] at hissued₀
    by_contra hyes
    have hyes' : interrupted worker = true := by simpa using hyes
    cases hi : job.interrupt with
    | none => exact hreasons.interrupted hyes' hi
    | some interrupt =>
      cases interrupt with
      | cancelRequested =>
        obtain ⟨r', hr', hflag⟩ := hreasons.cancelRequested hi
        obtain rfl := Option.some.inj (hr.symm.trans hr')
        simp [huncancelled] at hflag
      | leaseLost => simp [Job.record, hi, WorkerState.issued] at hissued₀
      | stopped => simp [Job.record, hi, WorkerState.issued] at hissued₀
  · intro hno
    have hrecord : job.record .finished none (summary (T.stats job.task) elapsed) =
        .recording
          { crawl := job.crawl
            lease := job.lease
            stats := summary (T.stats job.task) elapsed
            phase := .finishing .finished none .issued } := by
      cases hi : job.interrupt with
      | none => simp [Job.record, hi]
      | some interrupt =>
        cases interrupt with
        | cancelRequested => simp [Job.record, hi]
        | leaseLost =>
          obtain hyes | hgone := hreasons.leaseLost hi
          · exact absurd (hno.symm.trans hyes) (by decide)
          · simp [howned] at hgone
        | stopped => exact absurd (hno.symm.trans (hreasons.stopped hi)) (by decide)
    rw [hrecord] at hstate
    have hlease : (s.workers worker).lease = some (job.crawl, job.lease) := by
      rw [hw]
      rfl
    refine System.Finishing.recordsFinished ⟨?_, fun _ => ⟨_, hstate, .inl ⟨_, rfl⟩⟩⟩
      ⟨summary (T.stats job.task) elapsed, fun now => by rw [hstate]; rfl⟩
    rw [hleases]
    exact hinv.fence.bound worker _ _ hlease

end

/-- A crawl of one page whose stop comes between the end of its crawl task and the step in which
`run_job` learns of it; up to the closing of its client. -/
def stoppedTooLate (late : Bool) : List (SystemAct (CrawlTask.replay [examplePage ""])) :=
  [.create 1 "https://a.test/".toList
      { concurrency := 10, timeout := 10, maxPages := none, maxBytes := 5000000,
        respectRobots := true } 0,
    .claim "host:1", .claimCommit "host:1" [] 1 1, .claimReturned "host:1",
    .job "host:1" (.reporter .start), .job "host:1" (.crawl false fun _ => 2),
    .job "host:1" (.crawl false fun _ => 3)] ++
  (if late then [.job "host:1" .stop] else []) ++
  [.job "host:1" .crawlEnded, .job "host:1" .watcherCancelled, .job "host:1" .stopWatchCancelled,
    .job "host:1" .watchersDone, .job "host:1" (.reporter (.lock .close)),
    .commit "host:1" (.flush .close) 4, .job "host:1" (.reporter (.resume .close)),
    .job "host:1" .closeDone, .job "host:1" .flusherCancelled, .job "host:1" .flusherDone]

/-- The run of the job whose client is about to be closed, if its crawl task returned un-aborted and
its pages are written. -/
def WorkerState.returned {T : CrawlTask} : WorkerState T → Option (Job T × CrawlOutcome)
  | .running job =>
    match job.phase, T.result job.task with
    | .closing _ none, some (.returned o) => if o.aborted then none else some (job, o)
    | _, _ => none
  | _ => none

theorem WorkerState.returned_spec {T : CrawlTask} {state : WorkerState T} {job : Job T}
    {o : CrawlOutcome} (h : state.returned = some (job, o)) :
    state = .running job ∧ (∃ verdict, job.phase = .closing verdict none) ∧
      T.result job.task = some (.returned o) ∧ o.aborted = false := by
  cases state with
  | running job' =>
    simp only [returned] at h
    split at h
    · rename_i verdict o' hp hr
      split at h
      · cases h
      · rename_i ha
        cases h
        exact ⟨rfl, ⟨verdict, hp⟩, hr, by simpa using ha⟩
    · cases h
  | idle | claiming | claimed | recording => cases h

/-- The finished crawl, its one page stored, is released and queued again. -/
theorem stoppedTooLate_released : ∃ s s' interrupted job o r verdict t r',
    run (System.stepInterrupts ⟨100, toString⟩) ({}, fun _ => false) (stoppedTooLate true) =
      some (s, interrupted) ∧
    s.workers "host:1" = .running job ∧
    (CrawlTask.replay [examplePage ""]).result job.task = some (.returned o) ∧ o.aborted = false ∧
    job.phase = .closing verdict none ∧ job.crawl = 1 ∧ job.lease = 1 ∧
    (s.store.db.page.lookup (1, 1)).isSome ∧ s.store.db.crawl.lookup 1 = some r ∧
    r.state = .running ∧ r.workerId = some "host:1" ∧ r.cancelRequested = false ∧
    s.step ⟨100, toString⟩ (.job "host:1" (.clientClosed 5)) = some s' ∧
    s'.step ⟨100, toString⟩ (.commit "host:1" .record 9) = some t ∧
    t.store.db.crawl.lookup 1 = some r' ∧ r'.state = .queued ∧
    ¬s'.RecordsFinished ⟨100, toString⟩ "host:1" 1 1 := by
  have hrun : (run (System.stepInterrupts ⟨100, toString⟩) ({}, fun _ => false)
      (stoppedTooLate true)).any (fun s =>
        ((s.1.workers "host:1").returned.any fun job => job.1.crawl = 1 && job.1.lease = 1) &&
        (s.1.store.db.page.lookup (1, 1)).isSome &&
        ((s.1.store.db.crawl.lookup 1).any fun r =>
          r.state = .running && r.workerId = some "host:1" && r.cancelRequested = false) &&
        (s.1.step ⟨100, toString⟩ (.job "host:1" (.clientClosed 5))).any fun s' =>
          (s'.workers "host:1").lease = some (1, 1) &&
          ((s'.store.db.crawl.lookup 1).any fun r => r.workerId = some "host:1") &&
          (s'.step ⟨100, toString⟩ (.commit "host:1" .record 9)).any fun t =>
            (t.store.db.crawl.lookup 1).any fun r => r.state = .queued) = true := by
    decide +kernel
  obtain ⟨⟨s, interrupted⟩, hs, hfacts⟩ := (Option.any_eq_true _ _).mp hrun
  simp only [Bool.and_eq_true, Option.any_eq_true, decide_eq_true_eq] at hfacts
  obtain ⟨⟨⟨⟨⟨job, o⟩, hjob, hcrawl, hlease⟩, hpage⟩, r, hr, ⟨hrunning, howner⟩, hcancel⟩, s', hs',
    ⟨hlease', r₁, hr₁, howner₁⟩, t, ht, r', hr', hqueued⟩ := hfacts
  obtain ⟨hw, ⟨verdict, hphase⟩, hresult, haborted⟩ := WorkerState.returned_spec hjob
  refine ⟨s, s', interrupted, job, o, r, verdict, t, r', hs, hw, hresult, haborted, hphase, hcrawl,
    hlease, hpage, hr, hrunning, howner, hcancel, hs', ht, hr', hqueued, fun hrecords => ?_⟩
  cases hi : (s'.workers "host:1").issued "host:1" 9 .record with
  | none => simp [System.step, System.commit, hi] at ht
  | some call =>
    obtain ⟨-, hlands⟩ := hrecords.2 s' (Reaches.refl s') hlease' .record 9 call hi
    obtain ⟨r₂, hr₂, hfinished⟩ := hlands t r₁ ht hr₁ howner₁
    obtain rfl := Option.some.inj (hr'.symm.trans hr₂)
    rw [hqueued] at hfinished
    cases hfinished

/-- Without the stop it is recorded as finished. -/
theorem returned_recordsFinished_unstopped : ∃ s s',
    run (System.step ⟨100, toString⟩) {} (stoppedTooLate false) = some s ∧
    s.step ⟨100, toString⟩ (.job "host:1" (.clientClosed 5)) = some s' ∧
    s'.RecordsFinished ⟨100, toString⟩ "host:1" 1 1 := by
  have hrun : (run (System.stepInterrupts ⟨100, toString⟩) ({}, fun _ => false)
      (stoppedTooLate false)).any (fun s =>
        ((s.1.workers "host:1").returned.any fun job => job.1.crawl = 1 && job.1.lease = 1) &&
        ((s.1.store.db.crawl.lookup 1).any fun r =>
          r.state = .running && r.workerId = some "host:1" && r.cancelRequested = false) &&
        (s.1.step ⟨100, toString⟩ (.job "host:1" (.clientClosed 5))).isSome &&
        s.2 "host:1" = false) = true := by
    decide +kernel
  obtain ⟨⟨s, interrupted⟩, hs, hfacts⟩ := (Option.any_eq_true _ _).mp hrun
  simp only [Bool.and_eq_true, Option.any_eq_true, decide_eq_true_eq] at hfacts
  obtain ⟨⟨⟨⟨⟨job, o⟩, hjob, hcrawl, hlease⟩, r, hr, ⟨hrunning, howner⟩, hcancel⟩, hclosed⟩, hno⟩ :=
    hfacts
  obtain ⟨s', hs'⟩ := Option.isSome_iff_exists.mp hclosed
  obtain ⟨hw, ⟨verdict, hphase⟩, hresult, haborted⟩ := WorkerState.returned_spec hjob
  have hrecords := (returned_recordsFinished hs hw hresult haborted hphase (hcrawl ▸ hr) hrunning
    howner hcancel hs').mpr hno
  rw [hcrawl, hlease] at hrecords
  exact ⟨s, s', run_noted hs, hs', hrecords⟩

end UrlCrawler
