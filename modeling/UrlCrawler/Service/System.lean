import UrlCrawler.Service.Transactions
import UrlCrawler.Service.Worker

/-! # The service

The database, any number of workers with ids of their own, the API and the reaps, run in any
interleaving. Beside what the code holds, a `System` keeps a history that no step looks at: how many
times each crawl has been claimed, whether its last lease has been neither reaped nor released, which
lease recorded its terminal state, and for every lease what was reported to its reporter and how its
crawl task ended.

* A repository call takes effect in a step of its own (`claimCommit`, `commit`), after the step that
  issued it and before the one that returns or raises to its caller.
* A worker may crash at any point; the calls it has in flight may still take effect.
* A reap is any worker's, at any time, and runs statement by statement.
-/
set_option autoImplicit false

namespace UrlCrawler
open Execution

/-- What a lease has produced: the reports its reporter was given and the end of its crawl task. -/
structure LeaseLog where
  reports : List Report := []
  result : Option RunResult := none

structure System (T : CrawlTask) where
  store : Store := {}
  workers : WorkerId → WorkerState T := fun _ => .idle
  crashed : WorkerId → Bool := fun _ => false
  leases : CrawlId → ℕ := fun _ => 0
  held : CrawlId → Bool := fun _ => false
  recorded : CrawlId → Option ℕ := fun _ => none
  history : CrawlId → ℕ → LeaseLog := fun _ _ => {}

inductive SystemAct (T : CrawlTask)
  | create (id : CrawlId) (seed : Text) (config : StoredConfig) (now : Instant)
  | requestCancel (id : CrawlId) (now : Instant)
  | beginReap (id : ReapId) (leaseMicros maxAttempts : ℤ) (now : Instant)
  | statement (id : ReapId)
  | commitReap (id : ReapId)
  | rollbackReap (id : ReapId)
  | crash (worker : WorkerId)
  | claim (worker : WorkerId)
  | claimCommit (worker : WorkerId) (skip : List CrawlId) (want : CrawlId) (now : Instant)
  | claimReturned (worker : WorkerId)
  | claimRaised (worker : WorkerId)
  | commit (worker : WorkerId) (slot : Slot) (now : Instant)
  | job (worker : WorkerId) (a : JobAct T)
  | record (worker : WorkerId) (a : RecordAct)

/-- What the workers share: the reporter's batch size and how a float is printed. -/
structure Settings where
  pageBatchSize : ℤ
  repr : ℚ → String

section
variable {T : CrawlTask}

/-- `run_job`, up to its first `await`. -/
def runJob (T : CrawlTask) (settings : Settings) (crawl : Crawl) (lease : ℕ) : WorkerState T :=
  match CrawlConfig.ofStored settings.repr crawl.config with
  | .error error =>
    .recording
      { crawl := crawl.id, lease, stats := summary {} 0,
        phase := .finishing .failed (some error) .issued }
  | .ok config =>
    .running
      { crawl := crawl.id, lease, task := T.start config crawl.seed,
        reporter := { batchSize := settings.pageBatchSize } }

/-- What a job's move adds to the history of its lease. -/
def LeaseLog.extend (log : LeaseLog) (job : Job T) : JobAct T → LeaseLog
  | .crawl a clock => match T.step job.task a with
    | some task =>
      { reports := log.reports ++ job.newReports task clock, result := T.result task }
    | none => log
  | _ => log

namespace System

def setWorker (s : System T) (worker : WorkerId) (state : WorkerState T) : System T :=
  { s with workers := Function.update s.workers worker state }

def setLog (s : System T) (c : CrawlId) (n : ℕ) (log : LeaseLog) : System T :=
  { s with history := Function.update s.history c (Function.update (s.history c) n log) }

/-- A call by the API takes effect. -/
def api (s : System T) (call : Call) : Option (System T) :=
  (s.store.call call).map fun (store, _) => { s with store }

/-- A claim takes effect, and numbers the lease it starts. -/
def claimCommit (s : System T) (worker : WorkerId) (skip : List CrawlId) (want : CrawlId)
    (now : Instant) : Option (System T) :=
  match s.workers worker, s.store.call (.claim skip want worker now) with
  | .claiming, some (store, .claimed (some row)) =>
    let lease := s.leases row.id + 1
    some
      { s.setWorker worker (.claimed (some row) lease) with
        store
        leases := Function.update s.leases row.id lease
        held := Function.update s.held row.id true }
  | .claiming, some (store, .claimed none) =>
    some { s.setWorker worker (.claimed none 0) with store }
  | _, _ => none

def claimReturned (settings : Settings) (s : System T) (worker : WorkerId) : Option (System T) :=
  match s.workers worker with
  | .claimed none _ => some (s.setWorker worker .idle)
  | .claimed (some row) lease => some (s.setWorker worker (runJob T settings row lease))
  | _ => none

def claimRaised (s : System T) (worker : WorkerId) : Option (System T) :=
  match s.workers worker with
  | .claiming | .claimed .. => some (s.setWorker worker .idle)
  | _ => none

/-- A release that requeues ends the lease. -/
def heldAfter (held : CrawlId → Bool) : Call → Reply → CrawlId → Bool
  | .release id _, .released true => Function.update held id false
  | _, _ => held

/-- A `finish` that lands records the terminal state for its lease. -/
def recordedAfter (recorded : CrawlId → Option ℕ) (lease : Option ℕ) :
    Call → Reply → CrawlId → Option ℕ
  | .finish id .., .finished true => Function.update recorded id lease
  | _, _ => recorded

/-- A call of a job takes effect. -/
def commit (s : System T) (worker : WorkerId) (slot : Slot) (now : Instant) : Option (System T) :=
  match (s.workers worker).issued worker now slot with
  | none => none
  | some call =>
    (s.store.call call).map fun (store, reply) =>
      { s.setWorker worker ((s.workers worker).answer reply slot) with
        store
        held := heldAfter s.held call reply
        recorded := recordedAfter s.recorded ((s.workers worker).lease.map Prod.snd) call reply }

/-- A reap commits, and ends the lease of every row it wrote. -/
def commitReap (s : System T) (id : ReapId) : Option (System T) :=
  (s.store.commitReap id).map fun store =>
    { s with
      store
      held := fun c => s.held c && !(s.store.reaps.lookup id).any fun tx => tx.locks c }

/-- A job moves, and the history of its lease with it. -/
def job (s : System T) (worker : WorkerId) (a : JobAct T) : Option (System T) :=
  match s.workers worker with
  | .running job =>
    (job.step a).map fun state =>
      (s.setWorker worker state).setLog job.crawl job.lease
        ((s.history job.crawl job.lease).extend job a)
  | _ => none

def record (s : System T) (worker : WorkerId) (a : RecordAct) : Option (System T) :=
  match s.workers worker with
  | .recording r => (r.step T a).map (s.setWorker worker)
  | _ => none

/-- The worker moves, unless it has crashed. -/
def alive (s : System T) (worker : WorkerId) (next : Option (System T)) : Option (System T) :=
  if s.crashed worker then none else next

def step (settings : Settings) (s : System T) : SystemAct T → Option (System T)
  | .create id seed config now => s.api (.create id seed config now)
  | .requestCancel id now => s.api (.requestCancel id now)
  | .beginReap id leaseMicros maxAttempts now =>
    (s.store.beginReap id leaseMicros maxAttempts now).map fun store => { s with store }
  | .statement id => (s.store.statement id).map fun store => { s with store }
  | .commitReap id => s.commitReap id
  | .rollbackReap id => (s.store.rollbackReap id).map fun store => { s with store }
  | .crash worker => some { s with crashed := Function.update s.crashed worker true }
  | .claim worker => s.alive worker <|
    match s.workers worker with
    | .idle => some (s.setWorker worker .claiming)
    | _ => none
  | .claimCommit worker skip want now => s.claimCommit worker skip want now
  | .claimReturned worker => s.alive worker (s.claimReturned settings worker)
  | .claimRaised worker => s.alive worker (s.claimRaised worker)
  | .commit worker slot now => s.commit worker slot now
  | .job worker a => s.alive worker (s.job worker a)
  | .record worker a => s.alive worker (s.record worker a)

end System

/-! ## Everything a step can do -/

/-- The API's calls, and a reap up to its commit: no job has a part in these. -/
def StoreAction.external : StoreAction → Bool
  | .call (.create ..) | .call (.requestCancel ..) | .beginReap .. | .statement _
  | .rollbackReap _ => true
  | _ => false

/-- A worker moves from one of its awaits to the next, outside a running job. -/
inductive Move (settings : Settings) : WorkerState T → WorkerState T → Prop
  | claim : Move settings .idle .claiming
  | emptyQueue : Move settings .claiming (.claimed none 0)
  | giveUp (state : WorkerState T) : Move settings state .idle
  | start (row : Crawl) (lease : ℕ) :
      Move settings (.claimed (some row) lease) (runJob T settings row lease)
  | record (r : Recording) (a : RecordAct) (state : WorkerState T) (h : r.step T a = some state) :
      Move settings (.recording r) state

inductive SystemStep (settings : Settings) (s : System T) : System T → Prop
  | external (a : StoreAction) (store : Store) (external : a.external = true)
      (h : storeStep s.store a = some store) : SystemStep settings s { s with store }
  | reap (id : ReapId) (s' : System T) (h : s.commitReap id = some s') : SystemStep settings s s'
  | crash (worker : WorkerId) :
      SystemStep settings s { s with crashed := Function.update s.crashed worker true }
  | claim (worker : WorkerId) (skip : List CrawlId) (want : CrawlId) (now : Instant)
      (claiming : s.workers worker = .claiming) (store : Store) (row : Crawl)
      (h : s.store.call (.claim skip want worker now) = some (store, .claimed (some row))) :
      SystemStep settings s
        { s.setWorker worker (.claimed (some row) (s.leases row.id + 1)) with
          store
          leases := Function.update s.leases row.id (s.leases row.id + 1)
          held := Function.update s.held row.id true }
  | commit (worker : WorkerId) (slot : Slot) (now : Instant) (call : Call)
      (issued : (s.workers worker).issued worker now slot = some call) (s' : System T)
      (h : s.commit worker slot now = some s') : SystemStep settings s s'
  | move (worker : WorkerId) (state : WorkerState T)
      (h : Move settings (s.workers worker) state) : SystemStep settings s (s.setWorker worker state)
  | crawl (worker : WorkerId) (job : Job T) (running : s.workers worker = .running job)
      (a : T.Act) (clock : ℕ → Instant) (task : T.State) (h : T.step job.task a = some task) :
      SystemStep settings s ((s.setWorker worker (.running (job.crawled task clock))).setLog
        job.crawl job.lease
        { reports := (s.history job.crawl job.lease).reports ++ job.newReports task clock
          result := T.result task })
  | job (worker : WorkerId) (job : Job T) (running : s.workers worker = .running job)
      (a : JobAct T) (state : WorkerState T) (h : JobStep job a state) :
      SystemStep settings s (s.setWorker worker state)

theorem call_claim_none {store store' : Store} {skip : List CrawlId} {want : CrawlId}
    {worker : WorkerId} {now : Instant}
    (h : store.call (.claim skip want worker now) = some (store', .claimed none)) :
    store' = store := by
  obtain ⟨-, hdb, hreaps, hreply⟩ := call_spec h
  cases ho : store.db.oldestQueued (fun id => id ∈ skip) want with
  | none =>
    rw [Call.exec, lookup_claim_none ho] at hdb
    cases store
    cases store'
    simp_all
  | some row => simp [Call.exec, Db.claim, ho] at hreply

namespace System

theorem alive_some {s s' : System T} {worker : WorkerId} {next : Option (System T)}
    (h : s.alive worker next = some s') : next = some s' := by
  unfold alive at h
  split at h
  · cases h
  · exact h

theorem api_spec {s s' : System T} {call : Call} (h : s.api call = some s') :
    ∃ store, storeStep s.store (.call call) = some store ∧ s' = { s with store } := by
  simp only [api, Option.map_eq_some_iff] at h
  obtain ⟨⟨store, reply⟩, hcall, rfl⟩ := h
  exact ⟨store, by simp [storeStep, hcall], rfl⟩

theorem setLog_history (s : System T) (c c' : CrawlId) (n n' : ℕ) (log : LeaseLog) :
    (s.setLog c n log).history c' n' = if c' = c ∧ n' = n then log else s.history c' n' := by
  simp only [setLog, Function.update_apply]
  by_cases hc : c' = c
  · subst hc
    simp [Function.update_apply]
  · simp [hc]

@[simp] theorem setLog_self (s : System T) (c : CrawlId) (n : ℕ) :
    s.setLog c n (s.history c n) = s := by
  simp [setLog]

theorem job_spec {settings : Settings} {s s' : System T} {worker : WorkerId} {a : JobAct T}
    {job : Job T} (hw : s.workers worker = .running job) (h : s.job worker a = some s') :
    SystemStep settings s s' := by
  simp only [System.job, hw, Option.map_eq_some_iff] at h
  obtain ⟨state, hstate, rfl⟩ := h
  by_cases hcrawl : ∃ a' clock, a = .crawl a' clock
  · obtain ⟨a', clock, rfl⟩ := hcrawl
    obtain ⟨task, htask, rfl⟩ := Job.crawl_spec hstate
    simp only [LeaseLog.extend, htask]
    exact .crawl worker job hw a' clock task htask
  · have hquiet : ∀ a' clock, a ≠ .crawl a' clock := fun a' clock he => hcrawl ⟨a', clock, he⟩
    have hlog : (s.history job.crawl job.lease).extend job a =
        (s.setWorker worker state).history job.crawl job.lease := by
      cases a with
      | crawl a' clock => exact absurd rfl (hquiet a' clock)
      | _ => rfl
    rw [hlog, setLog_self]
    exact .job worker job hw a state (Job.step_cases hquiet hstate)

theorem step_cases {settings : Settings} {s s' : System T} {a : SystemAct T}
    (h : s.step settings a = some s') : SystemStep settings s s' := by
  cases a with
  | create id seed config now =>
    obtain ⟨store, hstore, rfl⟩ := api_spec h
    exact .external _ store rfl hstore
  | requestCancel id now =>
    obtain ⟨store, hstore, rfl⟩ := api_spec h
    exact .external _ store rfl hstore
  | beginReap id leaseMicros maxAttempts now =>
    obtain ⟨store, hstore, rfl⟩ := Option.map_eq_some_iff.mp h
    exact .external (.beginReap id leaseMicros maxAttempts now) store rfl hstore
  | statement id =>
    obtain ⟨store, hstore, rfl⟩ := Option.map_eq_some_iff.mp h
    exact .external (.statement id) store rfl hstore
  | rollbackReap id =>
    simp only [step, Option.map_eq_some_iff] at h
    obtain ⟨store, hstore, rfl⟩ := h
    exact .external (.rollbackReap id) store rfl hstore
  | commitReap id => exact .reap id s' h
  | crash worker =>
    obtain rfl := Option.some.inj h
    exact .crash worker
  | claim worker =>
    have h' := alive_some h
    split at h'
    · rename_i hw
      obtain rfl := Option.some.inj h'
      exact .move worker _ (hw ▸ .claim)
    · cases h'
  | claimCommit worker skip want now =>
    simp only [step, claimCommit] at h
    split at h
    · rename_i store row hw hcall
      obtain rfl := Option.some.inj h
      exact .claim worker skip want now hw store row hcall
    · rename_i store hw hcall
      obtain rfl := Option.some.inj h
      obtain rfl := call_claim_none hcall
      exact .move worker _ (hw ▸ .emptyQueue)
    · cases h
  | claimReturned worker =>
    have h' := alive_some h
    simp only [claimReturned] at h'
    split at h'
    · obtain rfl := Option.some.inj h'
      exact .move worker _ (.giveUp _)
    · rename_i row lease hw
      obtain rfl := Option.some.inj h'
      exact .move worker _ (hw ▸ .start row lease)
    · cases h'
  | claimRaised worker =>
    have h' := alive_some h
    simp only [claimRaised] at h'
    split at h'
    · obtain rfl := Option.some.inj h'
      exact .move worker _ (.giveUp _)
    · obtain rfl := Option.some.inj h'
      exact .move worker _ (.giveUp _)
    · cases h'
  | commit worker slot now =>
    cases hi : (s.workers worker).issued worker now slot with
    | none => simp [step, commit, hi] at h
    | some call => exact .commit worker slot now call hi s' h
  | job worker a =>
    have h' := alive_some h
    cases hw : s.workers worker with
    | running job => exact job_spec hw h'
    | idle | claiming | claimed | recording => simp [System.job, hw] at h'
  | record worker a =>
    have h' := alive_some h
    simp only [record] at h'
    split at h'
    · rename_i r hw
      obtain ⟨state, hstate, rfl⟩ := Option.map_eq_some_iff.mp h'
      exact .move worker state (hw ▸ .record r a state hstate)
    · cases h'

theorem commitReap_spec {s s' : System T} {id : ReapId} (h : s.commitReap id = some s') :
    ∃ tx, s.store.reaps.lookup id = some tx ∧ s.store.commitReap id = some s'.store ∧
      s'.workers = s.workers ∧ s'.leases = s.leases ∧ s'.history = s.history ∧
      s'.recorded = s.recorded ∧ s'.held = fun c => s.held c && !tx.locks c := by
  simp only [commitReap, Option.map_eq_some_iff] at h
  obtain ⟨store, hstore, rfl⟩ := h
  obtain ⟨tx, htx, -⟩ := UrlCrawler.commitReap_spec hstore
  exact ⟨tx, htx, hstore, rfl, rfl, rfl, rfl, by simp [htx]⟩

theorem commit_spec {s s' : System T} {worker : WorkerId} {slot : Slot} {now : Instant} {call : Call}
    (hi : (s.workers worker).issued worker now slot = some call)
    (h : s.commit worker slot now = some s') : ∃ reply,
      s.store.call call = some (s'.store, reply) ∧
      s'.workers = Function.update s.workers worker ((s.workers worker).answer reply slot) ∧
      s'.leases = s.leases ∧ s'.history = s.history ∧
      s'.held = heldAfter s.held call reply ∧
      s'.recorded =
        recordedAfter s.recorded ((s.workers worker).lease.map Prod.snd) call reply := by
  simp only [commit, hi, Option.map_eq_some_iff] at h
  obtain ⟨⟨store, reply⟩, hcall, rfl⟩ := h
  exact ⟨reply, hcall, rfl, rfl, rfl, rfl, rfl⟩

end System
end

/-! ## The database under the steps nobody's job takes -/

/-- A claim takes a queued row, gives it to the worker and wipes its pages. -/
theorem call_claim_spec {store store' : Store} {skip : List CrawlId} {want : CrawlId}
    {worker : WorkerId} {now : Instant} {row : Crawl}
    (h : store.call (.claim skip want worker now) = some (store', .claimed (some row))) :
    (∃ r, store.db.crawl.lookup row.id = some r ∧ r.state = .queued) ∧
      store'.db.crawl.lookup row.id = some row ∧ row.workerId = some worker ∧
      row.state = .running ∧
      (∀ c, c ≠ row.id → store'.db.crawl.lookup c = store.db.crawl.lookup c) ∧
      ∀ k, store'.db.page.lookup k = if k.1 = row.id then none else store.db.page.lookup k := by
  obtain ⟨-, hdb, -, hreply⟩ := call_spec h
  cases ho : store.db.oldestQueued (fun id => id ∈ skip) want with
  | none => simp [Call.exec, lookup_claim_none ho] at hreply
  | some r =>
    have hrow : row = (claimUpdate r.id r.attempts worker now).set r := by
      simpa [Call.exec, Db.claim, ho] using hreply
    have hid : row.id = r.id := by rw [hrow]; rfl
    obtain ⟨hr, hq, -⟩ := oldestQueued_spec ho
    have hlook : ∀ c, store'.db.crawl.lookup c =
        if c = r.id then some row else store.db.crawl.lookup c := by
      intro c
      rw [hdb, hrow]
      exact lookup_claim_some ho worker now c
    rw [hid]
    refine ⟨⟨r, hr, hq⟩, by simp [hlook], by rw [hrow]; rfl, by rw [hrow]; rfl,
      fun c hc => by simp [hlook, hc], fun k => ?_⟩
    rw [hdb]
    exact page_claim_some ho worker now k

theorem external_page {store store' : Store} {a : StoreAction} (ha : a.external = true)
    (h : storeStep store a = some store') : store'.db.page = store.db.page := by
  cases a with
  | call call =>
    simp only [storeStep, Option.map_eq_some_iff] at h
    obtain ⟨⟨t, reply⟩, hcall, rfl⟩ := h
    obtain ⟨-, hdb, -, -⟩ := call_spec hcall
    rw [hdb]
    refine page_exec ?_ ?_
    · rintro skip want worker now rfl
      cases ha
    · rintro id worker rows rfl
      cases ha
  | beginReap id leaseMicros maxAttempts now => rw [(lookup_beginReap h).1]
  | statement id =>
    obtain ⟨_, _, _, _, _, hdb, _⟩ := statement_spec h
    rw [hdb]
  | rollbackReap id =>
    obtain rfl := Option.some.inj h
    rfl
  | commitReap id => cases ha

/-- A row after such a step: new, as it was, or cancelled. -/
theorem external_row {store store' : Store} {a : StoreAction} (ha : a.external = true)
    (h : storeStep store a = some store') {c : CrawlId} {r' : Crawl}
    (hr' : store'.db.crawl.lookup c = some r') :
    (r'.workerId = none ∧ r'.state = .queued ∧ r'.cancelRequested = false) ∨
      ∃ r, store.db.crawl.lookup c = some r ∧
        (r' = r ∨ ∃ now, a = .call (.requestCancel c now) ∧ r' = cancelRow now r) := by
  cases a with
  | call call =>
    simp only [storeStep, Option.map_eq_some_iff] at h
    obtain ⟨⟨t, reply⟩, hcall, rfl⟩ := h
    obtain ⟨-, hdb, -, -⟩ := call_spec hcall
    rw [hdb] at hr'
    cases hr : store.db.crawl.lookup c with
    | none =>
      obtain ⟨seed, config, now, -, rfl⟩ := lookup_exec_none hr hr'
      exact .inl ⟨rfl, rfl, rfl⟩
    | some r =>
      rw [lookup_exec hr] at hr'
      obtain rfl := Option.some.inj hr'
      refine .inr ⟨r, rfl, ?_⟩
      cases call with
      | create => exact .inl rfl
      | requestCancel id now =>
        simp only [Call.rowAfter]
        split
        · rename_i hid
          obtain rfl : id = c := hid.symm.trans (KeyedTable.lookup_key hr)
          exact .inr ⟨now, rfl, rfl⟩
        · exact .inl rfl
      | claim | heartbeat | finish | release | reap | insertPages => cases ha
  | beginReap id leaseMicros maxAttempts now =>
    rw [(lookup_beginReap h).1] at hr'
    exact .inr ⟨r', hr', .inl rfl⟩
  | statement id =>
    obtain ⟨_, _, _, _, _, hdb, _⟩ := statement_spec h
    rw [hdb] at hr'
    exact .inr ⟨r', hr', .inl rfl⟩
  | rollbackReap id =>
    obtain rfl := Option.some.inj h
    exact .inr ⟨r', hr', .inl rfl⟩
  | commitReap id => cases ha

theorem cancelRow_workerId (now : Instant) (r : Crawl) : (cancelRow now r).workerId = r.workerId := by
  unfold cancelRow
  cases r.state <;> rfl

end UrlCrawler
