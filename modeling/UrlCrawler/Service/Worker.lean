import UrlCrawler.Service.Reporter
import Mathlib.Logic.Function.Basic

/-! # The worker

`url_crawler_service/worker.py`. A worker claims a crawl and runs it as a job: the crawl task, the
reporter's flush task, the heartbeat and the watcher of the stop event run beside the coroutine of
`run_job`, which waits for the crawl to end, stops the watchers, drains the reporter and records the
outcome against the lease.

A worker's state says where each of these tasks stands; a `JobAct` moves one of them from one
`await` to the next. Time is not modelled: whether a deadline has passed is part of the action, so
every timing is covered. The repository calls a worker has issued are read off its state by
`WorkerState.issued`; what they do to the database is the business of the system.
-/
set_option autoImplicit false

namespace UrlCrawler

/-- `crawler.run(seed)` as the worker sees it: a task that reports pages and counts them, until it
ends. The pages only ever grow, an ended task stands still, and the counters agree with the pages.
`cancels` tells the actions that deliver a cancellation. -/
structure CrawlTask where
  State : Type
  Act : Type
  start : CrawlConfig → Text → State
  step : State → Act → Option State
  cancels : Act → Bool
  pages : State → List PageResult
  stats : State → CrawlStats
  result : State → Option RunResult
  pages_start : ∀ config seed, pages (start config seed) = []
  result_start : ∀ config seed, result (start config seed) = none
  pages_step : ∀ {s a s'}, step s a = some s' → pages s <+: pages s'
  ended : ∀ {s a s'}, step s a = some s' → result s = none
  pagesTotal : ∀ s, (stats s).pagesTotal = (pages s).length

/-- A task that reports the given pages one by one and returns, or is cancelled before. -/
def CrawlTask.replay (script : List PageResult) : CrawlTask where
  State := ℕ × Option RunResult
  Act := Bool
  start _ _ := (0, none)
  step s cancel :=
    match s.2 with
    | some _ => none
    | none =>
      if cancel then some (s.1, some .cancelled)
      else if s.1 < script.length then some (s.1 + 1, none)
      else some (s.1, some (.returned ⟨(script.take s.1).length, false, none⟩))
  cancels cancel := cancel
  pages s := script.take s.1
  stats s := { pagesOk := (script.take s.1).length }
  result := Prod.snd
  pages_start _ _ := rfl
  result_start _ _ := rfl
  pages_step := by
    rintro ⟨n, _ | result⟩ cancel s' h
    · simp only at h
      split at h
      · cases h
        exact List.prefix_rfl
      · split at h
        · cases h
          exact List.take_prefix_take_left (Nat.le_succ n)
        · cases h
          exact List.prefix_rfl
    · cases h
  ended := by
    rintro ⟨n, _ | result⟩ cancel s' h
    · rfl
    · cases h
  pagesTotal _ := rfl

/-- Why the crawl task was cancelled, which decides what the worker records. -/
inductive Interrupt
  | cancelRequested
  | leaseLost
  | stopped
deriving DecidableEq, Repr

/-- The heartbeat watcher. -/
inductive Heartbeat
  | sleeping
  | beating (stats : Summary) (pending : Pending)
  | done

/-- A state and error to record; `none` while a `CancelledError` passes through `run_job`. -/
abbrev Verdict := Option (CrawlState × Option String)

/-- Where the coroutine of `run_job` waits. -/
inductive JobPhase
  | awaiting
  | stopping (verdict : Verdict)
  | draining (verdict : Verdict)
  | joining (verdict : Verdict) (flushError : Option String)
  | closing (verdict : Verdict) (flushError : Option String)

/-- A claimed crawl being run. `lease` numbers the claim it came from; the code has no such number,
and nothing here looks at it. -/
structure Job (T : CrawlTask) where
  crawl : CrawlId
  lease : ℕ
  task : T.State
  reporter : DbReporter
  interrupt : Option Interrupt := none
  cancelling : Bool := false
  heartbeat : Heartbeat := .sleeping
  watchingStop : Bool := true
  phase : JobPhase := .awaiting

/-- The write that ends a job, and where it stands. -/
inductive RecordPhase
  | releasing (pending : Pending)
  | getting
  | finishing (state : CrawlState) (error : Option String) (pending : Pending)
  | retrying (state : CrawlState) (error : Option String)

structure Recording where
  crawl : CrawlId
  lease : ℕ
  stats : Summary
  phase : RecordPhase

inductive WorkerState (T : CrawlTask)
  | idle
  | claiming
  | claimed (row : Option Crawl) (lease : ℕ)
  | running (job : Job T)
  | recording (r : Recording)

/-! ## Running a job -/

/-- `_outcome`. -/
def outcome (result : RunResult) (interrupt : Option Interrupt) : Verdict :=
  match result with
  | .cancelled =>
    interrupt.map fun interrupt =>
      (.aborted, if interrupt = .cancelRequested then some cancelledError else none)
  | .seedError message => some (.failed, some message)
  | .raised error => some (.failed, some error)
  | .returned outcome =>
    if outcome.aborted then some (.aborted, outcome.reason) else some (.finished, none)

/-- What `run_job` makes of the state and error when the pages could not all be written. -/
def applyFlushError (state : CrawlState) (error : Option String) :
    Option String → CrawlState × Option String
  | none => (state, error)
  | some flushError =>
    match state with
    | .finished => (.failed, some flushError)
    | .aborted => (.aborted, some (error.getD "None" ++ "; " ++ flushError))
    | state => (state, error)

/-- One task of a job moves on. -/
inductive JobAct (T : CrawlTask)
  | crawl (a : T.Act) (clock : ℕ → Instant)
  | reporter (a : ReporterAct)
  | beat (elapsed : ℚ)
  | beatReturned
  | beatRaised (expired : Bool)
  | stop
  | crawlEnded
  | watcherCancelled
  | stopWatchCancelled
  | watchersDone
  | closeDone
  | flusherCancelled
  | flusherDone
  | clientClosed (elapsed : ℚ)
  | clientCloseRaised

namespace Job
variable {T : CrawlTask}

/-- `_cancel`. -/
def cancel (job : Job T) (interrupt : Interrupt) : Job T :=
  { job with interrupt := some interrupt, cancelling := true }

/-- The pages the crawl task reports by going to the state `task`, each with a clock reading. -/
def newReports (job : Job T) (task : T.State) (clock : ℕ → Instant) : List Report :=
  ((T.pages task).drop (T.pages job.task).length).mapIdx fun i page => (page, clock i)

def crawlStep (job : Job T) (a : T.Act) (clock : ℕ → Instant) : Option (Job T) :=
  if T.cancels a && !job.cancelling then none
  else (T.step job.task a).map fun task =>
    { job with task, reporter := (job.newReports task clock).foldl DbReporter.page job.reporter }

/-- The heartbeat wakes and takes a snapshot of the counters. -/
def beat (job : Job T) (elapsed : ℚ) : Option (Job T) :=
  match job.heartbeat with
  | .sleeping =>
    some { job with heartbeat := .beating (summary (T.stats job.task) elapsed) .issued }
  | _ => none

/-- The heartbeat is answered: the lease is gone, a cancel is asked for, or all is well. -/
def beatReturned (job : Job T) : Option (Job T) :=
  match job.heartbeat with
  | .beating _ (.answered (.heartbeat none)) =>
    some { job.cancel .leaseLost with heartbeat := .done }
  | .beating _ (.answered (.heartbeat (some true))) =>
    some { job.cancel .cancelRequested with heartbeat := .done }
  | .beating _ (.answered (.heartbeat (some false))) => some { job with heartbeat := .sleeping }
  | _ => none

/-- The heartbeat raises; past the lease the watcher lets the crawl go. -/
def beatRaised (job : Job T) (expired : Bool) : Option (Job T) :=
  match job.heartbeat with
  | .beating .. =>
    if expired then some { job.cancel .leaseLost with heartbeat := .done }
    else some { job with heartbeat := .sleeping }
  | _ => none

/-- `_cancel_on_stop`. Once cancelled it does not wake any more: `stop.wait()` raises. -/
def stop (job : Job T) : Option (Job T) :=
  match job.phase, job.watchingStop with
  | .awaiting, true => some { job.cancel .stopped with watchingStop := false }
  | _, _ => none

/-- `await crawl_task` returns or raises; the watchers are cancelled next. -/
def crawlEnded (job : Job T) : Option (Job T) :=
  match job.phase, T.result job.task with
  | .awaiting, some result => some { job with phase := .stopping (outcome result job.interrupt) }
  | _, _ => none

def watcherCancelled (job : Job T) : Option (Job T) :=
  match job.phase with
  | .stopping _ => some { job with heartbeat := .done }
  | _ => none

def stopWatchCancelled (job : Job T) : Option (Job T) :=
  match job.phase with
  | .stopping _ => some { job with watchingStop := false }
  | _ => none

/-- Both watchers are done: `_drain_pages` begins. -/
def watchersDone (job : Job T) : Option (Job T) :=
  match job.phase, job.heartbeat, job.watchingStop with
  | .stopping verdict, .done, false =>
    let reporter :=
      if job.interrupt = some .leaseLost then job.reporter.discard else job.reporter
    some { job with phase := .draining verdict, reporter := reporter.close }
  | _, _, _ => none

/-- `close` has ended one way or the other. -/
def closeDone (job : Job T) : Option (Job T) :=
  match job.phase, job.reporter.closer with
  | .draining verdict, .returned => some { job with phase := .joining verdict none }
  | .draining verdict, .leaseLost =>
    some { job with interrupt := some .leaseLost, phase := .joining verdict none }
  | .draining verdict, .failed error => some { job with phase := .joining verdict (some error) }
  | _, _ => none

def flusherCancelled (job : Job T) : Option (Job T) :=
  match job.phase with
  | .joining .. => some { job with reporter := job.reporter.cancelRun }
  | _ => none

def flusherDone (job : Job T) : Option (Job T) :=
  match job.phase, job.reporter.flusher with
  | .joining verdict flushError, .done => some { job with phase := .closing verdict flushError }
  | _, _ => none

/-- `_record`. -/
def record (job : Job T) (state : CrawlState) (error : Option String) (stats : Summary) :
    WorkerState T :=
  match job.interrupt with
  | some .leaseLost => .idle
  | some .stopped =>
    .recording { crawl := job.crawl, lease := job.lease, stats, phase := .releasing .issued }
  | _ =>
    .recording
      { crawl := job.crawl, lease := job.lease, stats, phase := .finishing state error .issued }

/-- The client is closed: the outcome is recorded, unless an exception is passing through. -/
def clientClosed (job : Job T) (elapsed : ℚ) : Option (WorkerState T) :=
  match job.phase with
  | .closing none _ => some .idle
  | .closing (some (state, error)) flushError =>
    let (state, error) := applyFlushError state error flushError
    some (job.record state error (summary (T.stats job.task) elapsed))
  | _ => none

def clientCloseRaised (job : Job T) : Option (WorkerState T) :=
  match job.phase with
  | .closing .. => some .idle
  | _ => none

def step (job : Job T) : JobAct T → Option (WorkerState T)
  | .crawl a clock => (job.crawlStep a clock).map .running
  | .reporter a => (job.reporter.step a).map fun reporter => .running { job with reporter }
  | .beat elapsed => (job.beat elapsed).map .running
  | .beatReturned => job.beatReturned.map .running
  | .beatRaised expired => (job.beatRaised expired).map .running
  | .stop => job.stop.map .running
  | .crawlEnded => job.crawlEnded.map .running
  | .watcherCancelled => job.watcherCancelled.map .running
  | .stopWatchCancelled => job.stopWatchCancelled.map .running
  | .watchersDone => job.watchersDone.map .running
  | .closeDone => job.closeDone.map .running
  | .flusherCancelled => job.flusherCancelled.map .running
  | .flusherDone => job.flusherDone.map .running
  | .clientClosed elapsed => job.clientClosed elapsed
  | .clientCloseRaised => job.clientCloseRaised

end Job

/-- A move of one of the two watchers: what it leaves of the interrupt, of the cancellation it may ask
for, of the heartbeat and of the stop watcher. -/
inductive Watch {T : CrawlTask} (job : Job T) :
    JobAct T → Option Interrupt → Bool → Heartbeat → Bool → Prop
  | beat (elapsed : ℚ) (h : job.heartbeat = .sleeping) :
      Watch job (.beat elapsed) job.interrupt job.cancelling
        (.beating (summary (T.stats job.task) elapsed) .issued) job.watchingStop
  | gone (stats : Summary) (h : job.heartbeat = .beating stats (.answered (.heartbeat none))) :
      Watch job .beatReturned (some .leaseLost) true .done job.watchingStop
  | asked (stats : Summary)
      (h : job.heartbeat = .beating stats (.answered (.heartbeat (some true)))) :
      Watch job .beatReturned (some .cancelRequested) true .done job.watchingStop
  | renewed (stats : Summary)
      (h : job.heartbeat = .beating stats (.answered (.heartbeat (some false)))) :
      Watch job .beatReturned job.interrupt job.cancelling .sleeping job.watchingStop
  | expired (stats : Summary) (pending : Pending) (h : job.heartbeat = .beating stats pending) :
      Watch job (.beatRaised true) (some .leaseLost) true .done job.watchingStop
  | raised (stats : Summary) (pending : Pending) (h : job.heartbeat = .beating stats pending) :
      Watch job (.beatRaised false) job.interrupt job.cancelling .sleeping job.watchingStop
  | stopped (phase : job.phase = .awaiting) (h : job.watchingStop = true) :
      Watch job .stop (some .stopped) true job.heartbeat false
  | beatCancelled (verdict : Verdict) (phase : job.phase = .stopping verdict) :
      Watch job .watcherCancelled job.interrupt job.cancelling .done job.watchingStop
  | stopCancelled (verdict : Verdict) (phase : job.phase = .stopping verdict) :
      Watch job .stopWatchCancelled job.interrupt job.cancelling job.heartbeat false

/-- A watcher moves while it lives, or is cancelled while `run_job` waits for it. -/
theorem Watch.live {T : CrawlTask} {job : Job T} {a : JobAct T} {interrupt : Option Interrupt}
    {cancelling : Bool} {heartbeat : Heartbeat} {watchingStop : Bool}
    (h : Watch job a interrupt cancelling heartbeat watchingStop) :
    job.heartbeat ≠ .done ∨ job.watchingStop = true ∨ ∃ verdict, job.phase = .stopping verdict := by
  cases h with
  | stopped phase h => exact .inr (.inl h)
  | beatCancelled verdict phase => exact .inr (.inr ⟨verdict, phase⟩)
  | stopCancelled verdict phase => exact .inr (.inr ⟨verdict, phase⟩)
  | beat _ h | gone _ h | asked _ h | renewed _ h | expired _ _ h | raised _ _ h =>
    exact .inl (by simp [h])

theorem Job.record_ne_running {T : CrawlTask} {job job' : Job T} {state : CrawlState}
    {error : Option String} {stats : Summary} : job.record state error stats ≠ .running job' := by
  intro h
  unfold Job.record at h
  split at h <;> cases h

theorem Job.record_ne_claimed {T : CrawlTask} {job : Job T} {state : CrawlState}
    {error : Option String} {stats : Summary} {row : Option Crawl} {n : ℕ} :
    job.record state error stats ≠ .claimed row n := by
  intro h
  unfold Job.record at h
  split at h <;> cases h

/-- Everything a job can do in one step, but for a step of its crawl task. -/
inductive JobStep {T : CrawlTask} (job : Job T) : JobAct T → WorkerState T → Prop
  | reporter (a : ReporterAct) (reporter : DbReporter) (h : job.reporter.step a = some reporter) :
      JobStep job (.reporter a) (.running { job with reporter })
  | watch (a : JobAct T) (interrupt : Option Interrupt) (cancelling : Bool) (heartbeat : Heartbeat)
      (watchingStop : Bool) (h : Watch job a interrupt cancelling heartbeat watchingStop) :
      JobStep job a (.running { job with interrupt, cancelling, heartbeat, watchingStop })
  | ended (result : RunResult) (phase : job.phase = .awaiting)
      (h : T.result job.task = some result) :
      JobStep job .crawlEnded
        (.running { job with phase := .stopping (outcome result job.interrupt) })
  | drain (verdict : Verdict) (phase : job.phase = .stopping verdict)
      (heartbeat : job.heartbeat = .done) (watchingStop : job.watchingStop = false) :
      JobStep job .watchersDone (.running { job with
        phase := .draining verdict
        reporter := (if job.interrupt = some .leaseLost then job.reporter.discard
          else job.reporter).close })
  | closeReturned (verdict : Verdict) (phase : job.phase = .draining verdict)
      (h : job.reporter.closer = .returned) :
      JobStep job .closeDone (.running { job with phase := .joining verdict none })
  | closeLost (verdict : Verdict) (phase : job.phase = .draining verdict)
      (h : job.reporter.closer = .leaseLost) :
      JobStep job .closeDone (.running { job with
        interrupt := some .leaseLost, phase := .joining verdict none })
  | closeFailed (verdict : Verdict) (error : String) (phase : job.phase = .draining verdict)
      (h : job.reporter.closer = .failed error) :
      JobStep job .closeDone (.running { job with phase := .joining verdict (some error) })
  | flusherCancelled (verdict : Verdict) (flushError : Option String)
      (phase : job.phase = .joining verdict flushError) :
      JobStep job .flusherCancelled (.running { job with reporter := job.reporter.cancelRun })
  | flusherDone (verdict : Verdict) (flushError : Option String)
      (phase : job.phase = .joining verdict flushError) (h : job.reporter.flusher = .done) :
      JobStep job .flusherDone (.running { job with phase := .closing verdict flushError })
  | gone (a : JobAct T) : JobStep job a .idle
  | record (state : CrawlState) (error flushError : Option String)
      (phase : job.phase = .closing (some (state, error)) flushError) (elapsed : ℚ) :
      JobStep job (.clientClosed elapsed)
        (job.record (applyFlushError state error flushError).1
          (applyFlushError state error flushError).2 (summary (T.stats job.task) elapsed))

/-- The job after its crawl task has moved to the state `task`. -/
def Job.crawled {T : CrawlTask} (job : Job T) (task : T.State) (clock : ℕ → Instant) : Job T :=
  { job with task, reporter := (job.newReports task clock).foldl DbReporter.page job.reporter }

theorem Job.crawl_spec {T : CrawlTask} {job : Job T} {a : T.Act} {clock : ℕ → Instant}
    {state : WorkerState T} (h : job.step (.crawl a clock) = some state) :
    ∃ task, T.step job.task a = some task ∧ state = .running (job.crawled task clock) := by
  simp only [Job.step, Job.crawlStep] at h
  split at h
  · cases h
  · simp only [Option.map_map, Option.map_eq_some_iff] at h
    obtain ⟨task, htask, rfl⟩ := h
    exact ⟨task, htask, rfl⟩

theorem Job.step_cases {T : CrawlTask} {job : Job T} {a : JobAct T} {state : WorkerState T}
    (hquiet : ∀ a' clock, a ≠ .crawl a' clock) (h : job.step a = some state) :
    JobStep job a state := by
  cases a with
  | crawl a clock => exact absurd rfl (hquiet a clock)
  | reporter a =>
    obtain ⟨reporter, hr, rfl⟩ := Option.map_eq_some_iff.mp h
    exact .reporter a reporter hr
  | beat elapsed =>
    simp only [Job.step, Job.beat, Option.map_eq_some_iff] at h
    obtain ⟨job', hj, rfl⟩ := h
    split at hj
    · rename_i hb
      obtain rfl := Option.some.inj hj
      exact .watch _ _ _ _ _ (.beat elapsed hb)
    · cases hj
  | beatReturned =>
    simp only [Job.step, Job.beatReturned, Option.map_eq_some_iff] at h
    obtain ⟨job', hj, rfl⟩ := h
    split at hj
    · rename_i stats hb
      obtain rfl := Option.some.inj hj
      exact .watch _ _ _ _ _ (.gone stats hb)
    · rename_i stats hb
      obtain rfl := Option.some.inj hj
      exact .watch _ _ _ _ _ (.asked stats hb)
    · rename_i stats hb
      obtain rfl := Option.some.inj hj
      exact .watch _ _ _ _ _ (.renewed stats hb)
    · cases hj
  | beatRaised expired =>
    simp only [Job.step, Job.beatRaised, Option.map_eq_some_iff] at h
    obtain ⟨job', hj, rfl⟩ := h
    split at hj
    · rename_i stats pending hb
      cases expired with
      | true =>
        obtain rfl := Option.some.inj hj
        exact .watch _ _ _ _ _ (.expired stats pending hb)
      | false =>
        obtain rfl := Option.some.inj hj
        exact .watch _ _ _ _ _ (.raised stats pending hb)
    · cases hj
  | stop =>
    simp only [Job.step, Job.stop, Option.map_eq_some_iff] at h
    obtain ⟨job', hj, rfl⟩ := h
    split at hj
    · rename_i hp hs
      obtain rfl := Option.some.inj hj
      exact .watch _ _ _ _ _ (.stopped hp hs)
    · cases hj
  | crawlEnded =>
    simp only [Job.step, Job.crawlEnded, Option.map_eq_some_iff] at h
    obtain ⟨job', hj, rfl⟩ := h
    split at hj
    · rename_i result hp hr
      obtain rfl := Option.some.inj hj
      exact .ended result hp hr
    · cases hj
  | watcherCancelled =>
    simp only [Job.step, Job.watcherCancelled, Option.map_eq_some_iff] at h
    obtain ⟨job', hj, rfl⟩ := h
    split at hj
    · rename_i verdict hp
      obtain rfl := Option.some.inj hj
      exact .watch _ _ _ _ _ (.beatCancelled verdict hp)
    · cases hj
  | stopWatchCancelled =>
    simp only [Job.step, Job.stopWatchCancelled, Option.map_eq_some_iff] at h
    obtain ⟨job', hj, rfl⟩ := h
    split at hj
    · rename_i verdict hp
      obtain rfl := Option.some.inj hj
      exact .watch _ _ _ _ _ (.stopCancelled verdict hp)
    · cases hj
  | watchersDone =>
    simp only [Job.step, Job.watchersDone, Option.map_eq_some_iff] at h
    obtain ⟨job', hj, rfl⟩ := h
    split at hj
    · rename_i verdict hp hb hw
      obtain rfl := Option.some.inj hj
      exact .drain verdict hp hb hw
    · cases hj
  | closeDone =>
    simp only [Job.step, Job.closeDone, Option.map_eq_some_iff] at h
    obtain ⟨job', hj, rfl⟩ := h
    split at hj
    · rename_i verdict hp hc
      obtain rfl := Option.some.inj hj
      exact .closeReturned verdict hp hc
    · rename_i verdict hp hc
      obtain rfl := Option.some.inj hj
      exact .closeLost verdict hp hc
    · rename_i verdict error hp hc
      obtain rfl := Option.some.inj hj
      exact .closeFailed verdict error hp hc
    · cases hj
  | flusherCancelled =>
    simp only [Job.step, Job.flusherCancelled, Option.map_eq_some_iff] at h
    obtain ⟨job', hj, rfl⟩ := h
    split at hj
    · rename_i verdict flushError hp
      obtain rfl := Option.some.inj hj
      exact .flusherCancelled verdict flushError hp
    · cases hj
  | flusherDone =>
    simp only [Job.step, Job.flusherDone, Option.map_eq_some_iff] at h
    obtain ⟨job', hj, rfl⟩ := h
    split at hj
    · rename_i verdict flushError hp hd
      obtain rfl := Option.some.inj hj
      exact .flusherDone verdict flushError hp hd
    · cases hj
  | clientClosed elapsed =>
    simp only [Job.step, Job.clientClosed] at h
    split at h
    · obtain rfl := Option.some.inj h
      exact .gone _
    · rename_i state' error flushError hp
      obtain rfl := Option.some.inj h
      exact .record state' error flushError hp elapsed
    · cases h
  | clientCloseRaised =>
    simp only [Job.step, Job.clientCloseRaised] at h
    split at h
    · obtain rfl := Option.some.inj h
      exact .gone _
    · cases h

/-! ## Recording the outcome -/

inductive RecordAct
  | returned
  | raised (expired : Bool)
  | got
  | retry
deriving DecidableEq, Repr

/-- `_requeue`, `_finish` and `_write_terminal_state`, from one await to the next: what the worker
does after its write has returned or raised. -/
def Recording.step (T : CrawlTask) (r : Recording) : RecordAct → Option (WorkerState T)
  | .returned => match r.phase with
    | .releasing (.answered (.released true)) => some .idle
    | .releasing (.answered (.released false)) => some (.recording { r with phase := .getting })
    | .finishing _ _ (.answered (.finished _)) => some .idle
    | _ => none
  | .raised expired => match r.phase with
    | .releasing _ | .getting => some .idle
    | .finishing state error _ =>
      if expired then some .idle else some (.recording { r with phase := .retrying state error })
    | .retrying .. => none
  | .got => match r.phase with
    | .getting =>
      some (.recording { r with phase := .finishing .aborted (some cancelledError) .issued })
    | _ => none
  | .retry => match r.phase with
    | .retrying state error =>
      some (.recording { r with phase := .finishing state error .issued })
    | _ => none

/-- The terminal state the phase writes, or is about to write again. -/
def RecordPhase.state : RecordPhase → Option CrawlState
  | .finishing state _ _ | .retrying state _ => some state
  | .releasing _ | .getting => none

/-- Recording either ends or goes on with the same terminal state, which may become `aborted` once a
release has failed. -/
theorem Recording.step_cases {T : CrawlTask} {r : Recording} {a : RecordAct}
    {state : WorkerState T} (h : r.step T a = some state) :
    state = .idle ∨ ∃ phase, state = .recording { r with phase } ∧
      (phase.state = r.phase.state ∨ phase.state = some .aborted) := by
  cases a with
  | returned =>
    simp only [Recording.step] at h
    split at h
    · exact .inl (Option.some.inj h).symm
    · rename_i hp
      exact .inr ⟨_, (Option.some.inj h).symm, .inl (by rw [hp]; rfl)⟩
    · exact .inl (Option.some.inj h).symm
    · cases h
  | raised expired =>
    simp only [Recording.step] at h
    split at h
    · exact .inl (Option.some.inj h).symm
    · exact .inl (Option.some.inj h).symm
    · rename_i hp
      split at h
      · exact .inl (Option.some.inj h).symm
      · exact .inr ⟨_, (Option.some.inj h).symm, .inl (by rw [hp]; rfl)⟩
    · cases h
  | got =>
    simp only [Recording.step] at h
    split at h
    · exact .inr ⟨_, (Option.some.inj h).symm, .inr rfl⟩
    · cases h
  | retry =>
    simp only [Recording.step] at h
    split at h
    · rename_i hp
      exact .inr ⟨_, (Option.some.inj h).symm, .inl (by rw [hp]; rfl)⟩
    · cases h

/-! ## Repository calls of a job -/

/-- The calls a job can have in flight. -/
inductive Slot
  | heartbeat
  | flush (task : FlushTask)
  | record
deriving DecidableEq

namespace WorkerState
variable {T : CrawlTask}

/-- The call in a slot that has been issued and has not taken effect. -/
def issued (worker : WorkerId) (now : Instant) : WorkerState T → Slot → Option Call
  | .running job, .heartbeat => match job.heartbeat with
    | .beating stats .issued => some (.heartbeat job.crawl worker stats now)
    | _ => none
  | .running job, .flush task =>
    (job.reporter.issued task).map fun rows => .insertPages job.crawl worker rows
  | .recording r, .record => match r.phase with
    | .releasing .issued => some (.release r.crawl worker)
    | .finishing state error .issued => some (.finish r.crawl worker state r.stats error now)
    | _ => none
  | _, _ => none

/-- The call in a slot takes effect and is answered. -/
def answer (reply : Reply) : WorkerState T → Slot → WorkerState T
  | .running job, .heartbeat => match job.heartbeat with
    | .beating stats .issued =>
      .running { job with heartbeat := .beating stats (.answered reply) }
    | _ => .running job
  | .running job, .flush task => .running { job with reporter := job.reporter.answer task reply }
  | .recording r, .record => match r.phase with
    | .releasing .issued => .recording { r with phase := .releasing (.answered reply) }
    | .finishing state error .issued =>
      .recording { r with phase := .finishing state error (.answered reply) }
    | _ => .recording r
  | state, _ => state

/-- The crawl and the lease the worker is about. -/
def lease : WorkerState T → Option (CrawlId × ℕ)
  | .claimed (some row) n => some (row.id, n)
  | .running job => some (job.crawl, job.lease)
  | .recording r => some (r.crawl, r.lease)
  | _ => none

end WorkerState

end UrlCrawler
