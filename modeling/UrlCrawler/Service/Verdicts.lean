import UrlCrawler.Service.Outcomes

/-! # Verdicts

`Cause` lists what the row of a crawl that is over can say of its end, each with what must have happened
for it: how the crawl task of the last lease ended, a flush that failed, a cancel that was asked for, a
stored configuration that cannot be built, a reap that gave up.

The verdict of a job is decided when its crawl task ends and written much later, and the reason it was
interrupted for may change in between; `Job.Traced` is what keeps a verdict from outliving its reason.
-/
set_option autoImplicit false

namespace UrlCrawler
open Execution

section
variable {T : CrawlTask}

/-! ## What can have happened -/

/-- A request to cancel the crawl took effect. -/
def CancelAsked (c : CrawlId) (s s' : System T) : Prop :=
  ∃ now reply, s.store.call (.requestCancel c now) = some (s'.store, reply)

/-- It found the crawl still waiting. -/
def CancelledWaiting (c : CrawlId) (s s' : System T) : Prop :=
  CancelAsked c s s' ∧ ∃ row, s.store.db.crawl.lookup c = some row ∧ row.state = .queued

/-- A reap gave the crawl up under this lease: the heartbeat was too old, and neither of the statements
before the last one had taken the row. -/
def GaveUp (c : CrawlId) (lease : ℕ) (s s' : System T) : Prop :=
  ∃ id tx row, s.store.reaps.lookup id = some tx ∧ s.store.commitReap id = some s'.store ∧
    s.leases c = lease ∧ s.store.db.crawl.lookup c = some row ∧
    row.expired tx.leaseMicros tx.now = true ∧
    s'.store.db.crawl.lookup c = some ((giveUp tx.leaseMicros tx.now).set row)

/-- The last flush of a lease failed: its insert raised, or its time ran out. -/
def FlushFailed (c : CrawlId) (lease : ℕ) (flushError : String) (s s' : System T) : Prop :=
  ∃ worker job reporter, s.workers worker = .running job ∧ job.crawl = c ∧ job.lease = lease ∧
    (job.reporter.raise .close flushError = some reporter ∨
      job.reporter.timeout = some reporter ∧ flushError = "TimeoutError: ") ∧
    s'.workers worker = .running { job with reporter }

/-- The error column of a crawl that was cancelled. The reason is missing if the crawl task was
stopped for another one before the cancel was noticed. -/
def CancelledAs (failed : String → Prop) (error : Option String) : Prop :=
  ∃ reason, (reason = none ∨ reason = some cancelledError) ∧
    (error = reason ∨ ∃ flushError, failed flushError ∧
      error = some (reason.getD "None" ++ "; " ++ flushError))

/-- What a crawl may end as under its last lease, with what happened in the run so far. `result` is how
the crawl task of that lease ended. -/
inductive Cause (settings : Settings) (acts : List (SystemAct T)) (c : CrawlId) (lease : ℕ) (row : Crawl)
    (result : Option RunResult) : CrawlState → Option String → Prop
  | finished {o : CrawlOutcome} (returned : result = some (.returned o))
      (complete : o.aborted = false) : Cause settings acts c lease row result .finished none
  | unwritten {o : CrawlOutcome} (returned : result = some (.returned o))
      (complete : o.aborted = false) (flushError : String)
      (failed : Happened (System.step settings) (FlushFailed c lease flushError) {} acts) :
      Cause settings acts c lease row result .failed (some flushError)
  | fused {o : CrawlOutcome} (returned : result = some (.returned o)) (aborted : o.aborted = true) :
      Cause settings acts c lease row result .aborted o.reason
  | fusedUnwritten {o : CrawlOutcome} (returned : result = some (.returned o))
      (aborted : o.aborted = true) (flushError : String)
      (failed : Happened (System.step settings) (FlushFailed c lease flushError) {} acts) :
      Cause settings acts c lease row result .aborted
        (some (o.reason.getD "None" ++ "; " ++ flushError))
  | seedError {message : String} (ended : result = some (.seedError message)) :
      Cause settings acts c lease row result .failed (some message)
  | raised {message : String} (ended : result = some (.raised message)) :
      Cause settings acts c lease row result .failed (some message)
  | rejected {message : String} (config : CrawlConfig.ofStored settings.repr row.config =
      .error message) : Cause settings acts c lease row result .failed (some message)
  | cancelled {error : Option String} (flagged : row.cancelRequested = true)
      (asked : Happened (System.step settings) (CancelAsked c) {} acts)
      (error_eq : CancelledAs (fun flushError =>
        Happened (System.step settings) (FlushFailed c lease flushError) {} acts) error) :
      Cause settings acts c lease row result .aborted error
  | beforeStart (unowned : row.workerId = none)
      (cancelled : Happened (System.step settings) (CancelledWaiting c) {} acts) :
      Cause settings acts c lease row result .aborted (some cancelledBeforeStartError)
  | lost (unowned : row.workerId = none)
      (gaveUp : Happened (System.step settings) (GaveUp c lease) {} acts) :
      Cause settings acts c lease row result .failed (some leaseLostError)

section
variable {settings : Settings} {acts : List (SystemAct T)} {c : CrawlId} {lease : ℕ}

theorem Cause.mono {row row' : Crawl} {result result' : Option RunResult} {state : CrawlState}
    {error : Option String} (h : Cause settings acts c lease row result state error)
    (more : List (SystemAct T)) (hresult : result ≠ none → result' = result)
    (hconfig : row'.config = row.config)
    (hflag : row.cancelRequested = true → row'.cancelRequested = true)
    (hworker : row'.workerId = row.workerId) :
    Cause settings (acts ++ more) c lease row' result' state error := by
  have hended : ∀ {r : RunResult}, result = some r → result' = some r := fun {r} hr =>
    (hresult (by simp [hr])).trans hr
  cases h with
  | finished returned complete => exact .finished (hended returned) complete
  | unwritten returned complete flushError failed =>
    exact .unwritten (hended returned) complete flushError (failed.append more)
  | fused returned aborted => exact .fused (hended returned) aborted
  | fusedUnwritten returned aborted flushError failed =>
    exact .fusedUnwritten (hended returned) aborted flushError (failed.append more)
  | seedError ended => exact .seedError (hended ended)
  | raised ended => exact .raised (hended ended)
  | rejected config => exact .rejected (by rw [hconfig]; exact config)
  | cancelled flagged asked error_eq =>
    obtain ⟨reason, hreason, herror⟩ := error_eq
    refine .cancelled (hflag flagged) (asked.append more) ⟨reason, hreason, herror.imp_right ?_⟩
    rintro ⟨flushError, failed, he⟩
    exact ⟨flushError, failed.append more, he⟩
  | beforeStart unowned cancelled => exact .beforeStart (hworker.trans unowned) (cancelled.append more)
  | lost unowned gaveUp => exact .lost (hworker.trans unowned) (gaveUp.append more)

/-- What the recording of an owned row is about to write is true, and a release that has been refused
was refused because of a cancel. -/
def Recording.Founded (settings : Settings) (acts : List (SystemAct T)) (r : Recording) (row : Crawl)
    (result : Option RunResult) : Prop :=
  match r.phase with
  | .releasing (.answered (.released false)) | .getting => row.cancelRequested = true
  | .releasing _ => True
  | .finishing state error _ | .retrying state error =>
    Cause settings acts r.crawl r.lease row result state error

theorem Recording.Founded.mono {r : Recording} {row row' : Crawl}
    {result result' : Option RunResult} (h : r.Founded settings acts row result)
    (more : List (SystemAct T)) (hresult : result ≠ none → result' = result)
    (hconfig : row'.config = row.config)
    (hflag : row.cancelRequested = true → row'.cancelRequested = true)
    (hworker : row'.workerId = row.workerId) : r.Founded settings (acts ++ more) row' result' := by
  unfold Recording.Founded at h ⊢
  split at h
  · exact hflag h
  · exact hflag h
  · trivial
  · exact h.mono more hresult hconfig hflag hworker
  · exact h.mono more hresult hconfig hflag hworker

/-- What a recording writes, it writes for a reason. -/
theorem Recording.Founded.cause {r : Recording} {row : Crawl} {result : Option RunResult}
    (h : r.Founded settings acts row result) {state : CrawlState} {error : Option String}
    (hwrites : r.phase.writes = some (state, error)) :
    Cause settings acts r.crawl r.lease row result state error := by
  unfold Recording.Founded at h
  split at h
  · rename_i hp
    rw [hp] at hwrites
    cases hwrites
  · rename_i hp
    rw [hp] at hwrites
    cases hwrites
  · rename_i hp
    rw [hp] at hwrites
    cases hwrites
  · rename_i hp
    rw [hp] at hwrites
    cases hwrites
    exact h
  · rename_i hp
    rw [hp] at hwrites
    cases hwrites
    exact h

end

/-! ## The last flush -/

namespace DbReporter
variable {r r' : DbReporter} {flushError : String}

theorem endFlush_failed {e : FlushEnd} {task : FlushTask}
    (h : (r.endFlush e task).closer = .failed flushError) : r.closer = .failed flushError ∨
      task = .close ∧ (e = .raised flushError ∨ e = .cancelled ∧ flushError = "TimeoutError: ") := by
  cases task with
  | run => exact .inl (by cases e <;> exact h)
  | close =>
    cases e with
    | returned | leaseLost => cases h
    | raised error =>
      obtain rfl := Closer.failed.inj h
      exact .inr ⟨rfl, .inl rfl⟩
    | cancelled => exact .inr ⟨rfl, .inr ⟨rfl, (Closer.failed.inj h).symm⟩⟩

/-- A flush that comes to its end without an error does not make `close` fail. -/
theorem endFlush_quiet {e : FlushEnd} {task : FlushTask} (he : e = .returned ∨ e = .leaseLost)
    (h : (r.endFlush e task).closer = .failed flushError) : r.closer = .failed flushError := by
  obtain hold | ⟨-, hraised⟩ := endFlush_failed h
  · exact hold
  · obtain rfl | rfl := he
    · obtain hraised | ⟨hraised, -⟩ := hraised <;> cases hraised
    · obtain hraised | ⟨hraised, -⟩ := hraised <;> cases hraised

theorem setFlush_failed {f : Flush} {task : FlushTask}
    (h : (r.setFlush f task).closer = .failed flushError) : r.closer = .failed flushError := by
  cases task with
  | run => exact h
  | close => cases h

theorem answer_failed {task : FlushTask} {reply : Reply}
    (h : (r.answer task reply).closer = .failed flushError) : r.closer = .failed flushError := by
  unfold answer at h
  split at h
  · exact setFlush_failed h
  · exact h

theorem pages_closer (reports : List Report) :
    (reports.foldl DbReporter.page r).closer = r.closer := by
  induction reports generalizing r with
  | nil => rfl
  | cons report reports ih => exact ih

/-- How `close` comes to have failed. -/
theorem step_failed {b : ReporterAct} (hs : r.step b = some r')
    (h : r'.closer = .failed flushError) : r.closer = .failed flushError ∨
      r.raise .close flushError = some r' ∨
        r.timeout = some r' ∧ flushError = "TimeoutError: " := by
  cases b with
  | start =>
    simp only [step, start] at hs
    split at hs
    · obtain rfl := Option.some.inj hs
      exact .inl h
    · cases hs
  | wake =>
    simp only [step, wake] at hs
    split at hs
    · obtain rfl := Option.some.inj hs
      exact .inl h
    · cases hs
  | lock task =>
    simp only [step, lock] at hs
    split at hs
    · split at hs
      · cases hs
      · split at hs
        · obtain rfl := Option.some.inj hs
          exact .inl (endFlush_quiet (.inl rfl) h)
        · obtain rfl := Option.some.inj hs
          exact .inl (setFlush_failed h)
    · cases hs
  | resume task =>
    simp only [step, resume] at hs
    split at hs
    · obtain rfl := Option.some.inj hs
      have hold := endFlush_quiet (.inl rfl) h
      exact .inl hold
    · obtain rfl := Option.some.inj hs
      exact .inl (endFlush_quiet (.inr rfl) h)
    · cases hs
  | raise task error =>
    have hraise : r.raise task error = some r' := hs
    simp only [step, raise] at hs
    split at hs
    · obtain rfl := Option.some.inj hs
      obtain hold | ⟨rfl, he | ⟨he, -⟩⟩ := endFlush_failed h
      · exact .inl hold
      · obtain rfl := FlushEnd.raised.inj he
        exact .inr (.inl hraise)
      · cases he
    · cases hs
  | timeout =>
    have htimeout : r.timeout = some r' := hs
    simp only [step, timeout] at hs
    split at hs
    · obtain rfl := Option.some.inj hs
      obtain hold | ⟨-, he | ⟨-, he⟩⟩ := endFlush_failed h
      · exact .inl hold
      · cases he
      · exact .inr (.inr ⟨htimeout, he⟩)
    · cases hs

end DbReporter

variable {settings : Settings}

/-! ## Verdicts -/

/-- A job with something to record has an ended crawl task, and knows why if that was cancelled. What
it knows of its last flush `failed` says too. -/
structure Job.Traced (job : Job T) (failed : String → Prop) : Prop where
  verdict : ∀ v, job.phase.verdict = some (some v) →
    T.result job.task ≠ none ∧ (T.result job.task = some .cancelled → job.interrupt ≠ none)
  closer : ∀ flushError, job.reporter.closer = .failed flushError → failed flushError
  drained : ∀ flushError, job.phase.flushError = some (some flushError) → failed flushError

theorem Job.Traced.started {job : Job T} {failed : String → Prop} (hphase : job.phase = .awaiting)
    (hcloser : job.reporter.closer = .idle) : job.Traced failed := by
  constructor
  · rw [hphase]
    intro _ hv
    cases hv
  · rw [hcloser]
    intro _ hf
    cases hf
  · rw [hphase]
    intro _ he
    cases he

theorem Job.Traced.mono {job : Job T} {failed failed' : String → Prop} (h : job.Traced failed)
    (hmono : ∀ flushError, failed flushError → failed' flushError) : job.Traced failed' :=
  ⟨h.verdict, fun _ hf => hmono _ (h.closer _ hf), fun _ he => hmono _ (h.drained _ he)⟩

/-- A job that is interrupted stays so. -/
theorem interrupt_jobStep {job job' : Job T} {a : JobAct T} (hs : JobStep job a (.running job'))
    (h : job.interrupt ≠ none) : job'.interrupt ≠ none := by
  generalize hstate : WorkerState.running job' = state at hs
  cases hs with
  | watch a interrupt cancelling heartbeat watchingStop hmove =>
    cases hstate
    cases hmove with
    | gone | asked | expired | stopped => exact Option.some_ne_none _
    | beat | renewed | raised | beatCancelled | stopCancelled => exact h
  | closeLost =>
    cases hstate
    exact Option.some_ne_none _
  | reporter | ended | drain | closeReturned | closeFailed | flusherCancelled | flusherDone =>
    cases hstate
    exact h
  | gone => cases hstate
  | record =>
    exact absurd hstate.symm Job.record_ne_running

/-- Where the verdict of a job comes from. -/
theorem verdict_jobStep {job job' : Job T} {a : JobAct T} (hs : JobStep job a (.running job'))
    {v : Verdict} (hv : job'.phase.verdict = some v) : job'.task = job.task ∧
      (job.phase.verdict = some v ∨ ∃ result, T.result job.task = some result ∧
        v = outcome result job.interrupt ∧ job'.interrupt = job.interrupt) := by
  generalize hstate : WorkerState.running job' = state at hs
  cases hs with
  | reporter | watch | flusherCancelled =>
    cases hstate
    exact ⟨rfl, .inl hv⟩
  | ended result phase h =>
    cases hstate
    exact ⟨rfl, .inr ⟨result, h, (Option.some.inj hv).symm, rfl⟩⟩
  | drain verdict phase heartbeat watchingStop =>
    cases hstate
    exact ⟨rfl, .inl (by rw [phase]; exact hv)⟩
  | closeReturned verdict phase h =>
    cases hstate
    exact ⟨rfl, .inl (by rw [phase]; exact hv)⟩
  | closeLost verdict phase h =>
    cases hstate
    exact ⟨rfl, .inl (by rw [phase]; exact hv)⟩
  | closeFailed verdict error phase h =>
    cases hstate
    exact ⟨rfl, .inl (by rw [phase]; exact hv)⟩
  | flusherDone verdict flushError phase h =>
    cases hstate
    exact ⟨rfl, .inl (by rw [phase]; exact hv)⟩
  | gone => cases hstate
  | record =>
    exact absurd hstate.symm Job.record_ne_running

/-- Where its flush error comes from. -/
theorem flushError_jobStep {job job' : Job T} {a : JobAct T} (hs : JobStep job a (.running job'))
    {flushError : String} (he : job'.phase.flushError = some (some flushError)) :
    job.phase.flushError = some (some flushError) ∨ job.reporter.closer = .failed flushError := by
  generalize hstate : WorkerState.running job' = state at hs
  cases hs with
  | reporter | watch | flusherCancelled =>
    cases hstate
    exact .inl he
  | ended | drain | closeReturned | closeLost =>
    cases hstate
    cases he
  | closeFailed verdict error phase h =>
    cases hstate
    obtain rfl := Option.some.inj (Option.some.inj he)
    exact .inr h
  | flusherDone verdict error phase h =>
    cases hstate
    exact .inl (by rw [phase]; exact he)
  | gone => cases hstate
  | record =>
    exact absurd hstate.symm Job.record_ne_running

/-- How its `close` comes to have failed. -/
theorem closer_jobStep {job job' : Job T} {a : JobAct T} (hs : JobStep job a (.running job'))
    {flushError : String} (hf : job'.reporter.closer = .failed flushError) :
    job.reporter.closer = .failed flushError ∨ ∃ reporter, job' = { job with reporter } ∧
      (job.reporter.raise .close flushError = some reporter ∨
        job.reporter.timeout = some reporter ∧ flushError = "TimeoutError: ") := by
  generalize hstate : WorkerState.running job' = state at hs
  cases hs with
  | reporter b reporter h =>
    cases hstate
    exact (DbReporter.step_failed h hf).imp_right fun hfailed => ⟨reporter, rfl, hfailed⟩
  | watch | ended | closeReturned | closeLost | closeFailed | flusherCancelled | flusherDone =>
    cases hstate
    exact .inl hf
  | drain =>
    cases hstate
    cases hf
  | gone => cases hstate
  | record =>
    exact absurd hstate.symm Job.record_ne_running

/-- A step keeps a job traced, if a flush that fails in it is noted. -/
theorem Job.Traced.step {job job' : Job T} {failed failed' : String → Prop} (h : job.Traced failed)
    (hmono : ∀ flushError, failed flushError → failed' flushError) {a : JobAct T}
    (hs : job.step a = some (.running job'))
    (hfails : ∀ flushError reporter, job' = { job with reporter } →
      (job.reporter.raise .close flushError = some reporter ∨
        job.reporter.timeout = some reporter ∧ flushError = "TimeoutError: ") →
      failed' flushError) : job'.Traced failed' := by
  by_cases hcrawl : ∃ b clock, a = .crawl b clock
  · obtain ⟨b, clock, rfl⟩ := hcrawl
    obtain ⟨task, htask, he⟩ := Job.crawl_spec hs
    cases he
    refine ⟨fun v hv => ?_, fun flushError hf => ?_, fun flushError he => hmono _ (h.drained _ he)⟩
    · exact absurd (T.ended htask) (h.verdict v hv).1
    · exact hmono _ (h.closer _ ((DbReporter.pages_closer _).symm.trans hf))
  have hquiet : ∀ b clock, a ≠ .crawl b clock := fun b clock he => hcrawl ⟨b, clock, he⟩
  have hstep := Job.step_cases hquiet hs
  refine ⟨fun v hv => ?_, fun flushError hf => ?_, fun flushError he => ?_⟩
  · obtain ⟨htask, hold | ⟨result, hresult, houtcome, hinterrupt⟩⟩ := verdict_jobStep hstep hv
    · obtain ⟨hended, hcancelled⟩ := h.verdict v hold
      rw [htask]
      exact ⟨hended, fun hc => interrupt_jobStep hstep (hcancelled hc)⟩
    · rw [htask, hinterrupt, hresult]
      refine ⟨Option.some_ne_none _, fun hc hnone => ?_⟩
      obtain rfl := Option.some.inj hc
      rw [hnone] at houtcome
      cases houtcome
  · obtain hold | ⟨reporter, he, hfailed⟩ := closer_jobStep hstep hf
    · exact hmono _ (h.closer _ hold)
    · exact hfails _ reporter he hfailed
  · obtain hold | hclosed := flushError_jobStep hstep he
    · exact hmono _ (h.drained _ hold)
    · exact hmono _ (h.closer _ hclosed)

section
variable {acts : List (SystemAct T)} {c : CrawlId} {lease : ℕ}

/-- What `run_job` records of a crawl task that ended, if it was not cancelled. -/
theorem cause_of_outcome {result : RunResult} {interrupt : Option Interrupt} {state : CrawlState}
    {error : Option String} (houtcome : some (state, error) = outcome result interrupt)
    (hended : result ≠ .cancelled) (flushError : Option String)
    (hfailed : ∀ e, flushError = some e →
      Happened (System.step settings) (FlushFailed c lease e) {} acts) (row : Crawl) :
    Cause settings acts c lease row (some result) (applyFlushError state error flushError).1
      (applyFlushError state error flushError).2 := by
  cases result with
  | cancelled => exact absurd rfl hended
  | seedError message =>
    cases houtcome
    cases flushError <;> exact .seedError rfl
  | raised message =>
    cases houtcome
    cases flushError <;> exact .raised rfl
  | returned o =>
    simp only [outcome] at houtcome
    split at houtcome
    · rename_i haborted
      cases houtcome
      cases flushError with
      | none => exact .fused rfl haborted
      | some e => exact .fusedUnwritten rfl haborted e (hfailed e rfl)
    · rename_i hcomplete
      cases houtcome
      cases flushError with
      | none => exact .finished rfl (by simpa using hcomplete)
      | some e => exact .unwritten rfl (by simpa using hcomplete) e (hfailed e rfl)

theorem cause_of_cancelled {interrupt : Option Interrupt} {state : CrawlState}
    {error : Option String} (houtcome : some (state, error) = outcome .cancelled interrupt)
    (flushError : Option String)
    (hfailed : ∀ e, flushError = some e →
      Happened (System.step settings) (FlushFailed c lease e) {} acts)
    {row : Crawl} (hflag : row.cancelRequested = true)
    (hasked : Happened (System.step settings) (CancelAsked c) {} acts) (result : Option RunResult) :
    Cause settings acts c lease row result (applyFlushError state error flushError).1
      (applyFlushError state error flushError).2 := by
  cases interrupt with
  | none => cases houtcome
  | some i =>
    simp only [outcome, Option.map_some, Option.some.injEq, Prod.mk.injEq] at houtcome
    obtain ⟨rfl, rfl⟩ := houtcome
    have hreason : (if i = .cancelRequested then some cancelledError else none) = none ∨
        (if i = .cancelRequested then some cancelledError else none) = some cancelledError := by
      split
      · exact .inr rfl
      · exact .inl rfl
    cases flushError with
    | none => exact .cancelled hflag hasked ⟨_, hreason, .inl rfl⟩
    | some e => exact .cancelled hflag hasked ⟨_, hreason, .inr ⟨e, hfailed e rfl, rfl⟩⟩

end

/-- The verdict of a job that records it is true. -/
theorem founded_record {acts : List (SystemAct T)} {job : Job T} {store : Store} {worker : WorkerId}
    {interrupted : Bool} (hreasons : job.Reasons store worker interrupted)
    (htraced : job.Traced fun flushError =>
      Happened (System.step settings) (FlushFailed job.crawl job.lease flushError) {} acts)
    {state : CrawlState} {error flushError : Option String}
    (hphase : job.phase = .closing (some (state, error)) flushError) {stats : Summary} {r : Recording}
    (hr : job.record (applyFlushError state error flushError).1
      (applyFlushError state error flushError).2 stats = .recording r) {row : Crawl}
    (hrow : store.db.crawl.lookup job.crawl = some row)
    (hasked : row.cancelRequested = true →
      Happened (System.step settings) (CancelAsked job.crawl) {} acts) :
    r.Founded settings acts row (T.result job.task) := by
  have hverdict : job.phase.verdict = some (some (state, error)) := by
    rw [hphase]
    rfl
  have hfailed : ∀ e, flushError = some e →
      Happened (System.step settings) (FlushFailed job.crawl job.lease e) {} acts := by
    rintro e rfl
    exact htraced.drained e (by rw [hphase]; rfl)
  obtain ⟨result, interrupt, hresult, houtcome⟩ := hreasons.verdict _ hverdict
  have hcause : job.interrupt ≠ some .leaseLost → job.interrupt ≠ some .stopped →
      Cause settings acts job.crawl job.lease row (T.result job.task)
        (applyFlushError state error flushError).1 (applyFlushError state error flushError).2 := by
    intro hkept hgoing
    rw [hresult]
    by_cases hended : result = .cancelled
    · subst hended
      -- the task was cancelled, so somebody asked for it, and it was no stop and no lost lease
      have hcancel : job.interrupt = some .cancelRequested := by
        cases hi : job.interrupt with
        | none => exact absurd hi ((htraced.verdict _ hverdict).2 hresult)
        | some i =>
          cases i with
          | cancelRequested => rfl
          | leaseLost => exact absurd hi hkept
          | stopped => exact absurd hi hgoing
      obtain ⟨row', hrow', hflag⟩ := hreasons.cancelRequested hcancel
      obtain rfl := Option.some.inj (hrow.symm.trans hrow')
      exact cause_of_cancelled houtcome flushError hfailed hflag (hasked hflag) _
    · exact cause_of_outcome houtcome hended flushError hfailed row
  simp only [Job.record] at hr
  split at hr
  · cases hr
  · cases hr
    trivial
  · rename_i hkept hgoing
    cases hr
    exact hcause hkept hgoing

end

end UrlCrawler
