import UrlCrawler.Service.Orm

/-! # The repository

`url_crawler_service/repository.py`: every crawl and page read or write. Each function here is what
its transaction does to the database when it runs alone; `now` is the transaction's `now()`.
`UPDATE` statements are values (`CrawlUpdate`), so that `reap` can be run as one transaction here and
statement by statement where other transactions may commit in between.
-/
set_option autoImplicit false

namespace UrlCrawler

def leaseLostError : String := "worker lost"
def cancelledError : String := "cancelled by request"
def cancelledBeforeStartError : String := "cancelled before start"

/-- `session.add(Crawl(seed=seed, config=config))`; `none` when the primary key is taken. -/
def Db.create (db : Db) (id : CrawlId) (seed : Text) (config : StoredConfig) (now : Instant) :
    Option Db :=
  match db.crawl.lookup id with
  | some _ => none
  | none => some { db with crawl := db.crawl.insertIgnore { id, seed, config, createdAt := now } }

def Db.get (db : Db) (id : CrawlId) : Option Crawl := db.crawl.lookup id

/-! ## Claiming -/

/-- The rows `ORDER BY created_at LIMIT 1 FOR UPDATE SKIP LOCKED` may answer with: the oldest queued
ones among those no other transaction holds. -/
def Db.claimable (db : Db) (locked : CrawlId → Bool) : List Crawl :=
  let queued := db.crawl.rows.filter fun r => r.state = .queued && !locked r.id
  queued.filter fun r => queued.all fun r' => r.createdAt ≤ r'.createdAt

/-- The row the `SELECT` answers with. Rows equally old come in no set order: `want` settles it. -/
def Db.oldestQueued (db : Db) (locked : CrawlId → Bool) (want : CrawlId) : Option Crawl :=
  let rows := db.claimable locked
  (rows.find? fun r => r.id = want).orElse fun _ => rows.head?

def claimUpdate (id : CrawlId) (attempts : ℤ) (worker : WorkerId) (now : Instant) :
    CrawlUpdate where
  cond r := r.id = id
  set r :=
    { r with
      state := .running
      startedAt := some now
      heartbeatAt := some now
      workerId := some worker
      attempts := attempts + 1 }
  set_key _ := rfl

/-- Take the oldest queued crawl, wipe its pages and start its lease. -/
def Db.claim (db : Db) (locked : CrawlId → Bool) (want : CrawlId) (worker : WorkerId)
    (now : Instant) : Db × Option Crawl :=
  match db.oldestQueued locked want with
  | none => (db, none)
  | some row =>
    let claimed := claimUpdate row.id row.attempts worker now
    ({ crawl := db.crawl.apply claimed
       page := db.page.deleteWhere fun p => p.key.1 = row.id },
      some (claimed.set row))

/-! ## The writes of the lease's holder -/

def heartbeatUpdate (id : CrawlId) (worker : WorkerId) (stats : Summary) (now : Instant) :
    CrawlUpdate where
  cond r := r.id = id && r.workerId = some worker && r.state = .running
  set r := { r with heartbeatAt := some now, stats := some stats }
  set_key _ := rfl

/-- Refresh the lease and report the cancel flag; `none` means the lease is gone. -/
def Db.heartbeat (db : Db) (id : CrawlId) (worker : WorkerId) (stats : Summary) (now : Instant) :
    Db × Option Bool :=
  let statement := heartbeatUpdate id worker stats now
  ({ db with crawl := db.crawl.apply statement },
    (db.crawl.matching statement).head?.map Crawl.cancelRequested)

def finishUpdate (id : CrawlId) (worker : WorkerId) (state : CrawlState) (stats : Summary)
    (error : Option String) (now : Instant) : CrawlUpdate where
  cond r := r.id = id && r.workerId = some worker
  set r := { r with state, finishedAt := some now, stats := some stats, error }
  set_key _ := rfl

/-- Record the terminal state; `false` when this worker no longer owns the crawl, and `none` for the
`ValueError` on a state that is not terminal. -/
def Db.finish (db : Db) (id : CrawlId) (worker : WorkerId) (state : CrawlState) (stats : Summary)
    (error : Option String) (now : Instant) : Db × Option Bool :=
  if state.terminal then
    let statement := finishUpdate id worker state stats error now
    ({ db with crawl := db.crawl.apply statement },
      some !(db.crawl.matching statement).isEmpty)
  else (db, none)

def releaseUpdate (id : CrawlId) (worker : WorkerId) : CrawlUpdate where
  cond r := r.id = id && r.workerId = some worker && r.cancelRequested = false
  set r :=
    { r with
      state := .queued
      workerId := none
      heartbeatAt := none
      attempts := max (r.attempts - 1) 0 }
  set_key _ := rfl

/-- Requeue a crawl on graceful shutdown, unless a cancel request raced it. -/
def Db.release (db : Db) (id : CrawlId) (worker : WorkerId) : Db × Bool :=
  let statement := releaseUpdate id worker
  ({ db with crawl := db.crawl.apply statement }, !(db.crawl.matching statement).isEmpty)

/-! ## Reaping -/

/-- A running row whose heartbeat is older than the lease; never a row without a heartbeat. The lease
is `timedelta(seconds=lease_seconds)`, in microseconds as an `Instant` is. -/
def Crawl.expired (r : Crawl) (leaseMicros : ℤ) (now : Instant) : Bool :=
  r.state = .running && r.heartbeatAt.any fun at_ => at_ < now - leaseMicros

def abortCancelled (leaseMicros : ℤ) (now : Instant) : CrawlUpdate where
  cond r := r.expired leaseMicros now && r.cancelRequested
  set r :=
    { r with
      state := .aborted
      workerId := none
      finishedAt := some now
      error := some cancelledError }
  set_key _ := rfl

def requeue (leaseMicros maxAttempts : ℤ) (now : Instant) : CrawlUpdate where
  cond r := r.expired leaseMicros now && r.attempts < maxAttempts
  set r := { r with state := .queued, workerId := none, heartbeatAt := none }
  set_key _ := rfl

def giveUp (leaseMicros : ℤ) (now : Instant) : CrawlUpdate where
  cond r := r.expired leaseMicros now
  set r :=
    { r with
      state := .failed
      workerId := none
      finishedAt := some now
      error := some leaseLostError }
  set_key _ := rfl

/-- The statements of `reap`, in the order they run. -/
def reapStatements (leaseMicros maxAttempts : ℤ) (now : Instant) : List CrawlUpdate :=
  [abortCancelled leaseMicros now, requeue leaseMicros maxAttempts now, giveUp leaseMicros now]

/-- Run `UPDATE … RETURNING` statements in order, counting the rows they give back. -/
def Db.executeAll (db : Db) (statements : List CrawlUpdate) : Db × ℕ :=
  statements.foldl
    (fun (db, touched) statement =>
      ({ db with crawl := db.crawl.apply statement },
        touched + (db.crawl.matching statement).length))
    (db, 0)

/-- Settle crawls whose worker stopped heartbeating: abort, requeue or fail them. -/
def Db.reap (db : Db) (leaseMicros maxAttempts : ℤ) (now : Instant) : Db × ℕ :=
  db.executeAll (reapStatements leaseMicros maxAttempts now)

/-! ## Cancelling -/

def abortQueued (id : CrawlId) (now : Instant) : CrawlUpdate where
  cond r := r.id = id
  set r :=
    { r with
      state := .aborted
      finishedAt := some now
      error := some cancelledBeforeStartError }
  set_key _ := rfl

def flagCancel (id : CrawlId) : CrawlUpdate where
  cond r := r.id = id
  set r := { r with cancelRequested := true }
  set_key _ := rfl

/-- Abort a queued crawl outright, flag a running one, leave a finished one alone. -/
def Db.requestCancel (db : Db) (id : CrawlId) (now : Instant) : Db × Option CrawlState :=
  match db.crawl.lookup id with
  | none => (db, none)
  | some found =>
    match found.state with
    | .queued => ({ db with crawl := db.crawl.apply (abortQueued id now) }, some .aborted)
    | .running => ({ db with crawl := db.crawl.apply (flagCancel id) }, some .running)
    | state => (db, some state)

/-! ## Pages -/

/-- Whether `worker` holds the running crawl `id`: the row `SELECT … FOR SHARE` looks for. -/
def Db.owned (db : Db) (id : CrawlId) (worker : WorkerId) : Bool :=
  (db.crawl.lookup id).any fun r => r.workerId = some worker && r.state = .running

/-- Write a batch of pages, but only while this worker still owns the running crawl; `false` is
`LeaseLostError`. -/
def Db.insertPages (db : Db) (id : CrawlId) (worker : WorkerId) (rows : List PageRow) :
    Db × Bool :=
  if rows.isEmpty then (db, true)
  else if db.owned id worker then
    ({ db with
       page := db.page.insertAllIgnore (rows.map fun row => { row with crawlId := id }) }, true)
  else (db, false)

/-- The pages of a crawl after `afterSeq`, by `seq`, at most `limit` of them. -/
def Db.listPages (db : Db) (id : CrawlId) (afterSeq limit : ℕ) : List Page :=
  ((db.page.rows.filter fun p => p.crawlId = id && afterSeq < p.seq).mergeSort
    fun p q => p.seq ≤ q.seq).take limit

/-! ## What each call does to one row -/

theorem lookup_create {db db' : Db} {id : CrawlId} {seed : Text} {config : StoredConfig}
    {now : Instant} (h : db.create id seed config now = some db') (c : CrawlId) :
    db.crawl.lookup id = none ∧ db'.page = db.page ∧
      db'.crawl.lookup c =
        if c = id then some { id, seed, config, createdAt := now } else db.crawl.lookup c := by
  unfold Db.create at h
  cases hid : db.crawl.lookup id with
  | some r => simp [hid] at h
  | none =>
    rw [hid] at h
    obtain rfl := Option.some.inj h
    refine ⟨rfl, rfl, ?_⟩
    rw [KeyedTable.lookup_insertIgnore]
    by_cases hc : c = id
    · subst hc
      simp [hid]
    · cases db.crawl.lookup c <;> simp [hc, Ne.symm hc]

theorem oldestQueued_mem {db : Db} {locked : CrawlId → Bool} {want : CrawlId} {row : Crawl}
    (h : db.oldestQueued locked want = some row) : row ∈ db.claimable locked := by
  unfold Db.oldestQueued at h
  cases hw : (db.claimable locked).find? fun r => r.id = want with
  | some r =>
    simp only [hw, Option.orElse_some, Option.some.injEq] at h
    exact h ▸ List.mem_of_find?_eq_some hw
  | none =>
    simp only [hw, Option.orElse_none] at h
    exact List.mem_of_mem_head? h

/-- The row a claim takes is queued and not held by another transaction. -/
theorem oldestQueued_spec {db : Db} {locked : CrawlId → Bool} {want : CrawlId} {row : Crawl}
    (h : db.oldestQueued locked want = some row) :
    db.crawl.lookup row.id = some row ∧ row.state = .queued ∧ locked row.id = false := by
  have hm := oldestQueued_mem h
  simp only [Db.claimable, List.mem_filter, Bool.and_eq_true, decide_eq_true_eq,
    Bool.not_eq_eq_eq_not, Bool.not_true] at hm
  exact ⟨KeyedTable.lookup_of_mem hm.1.1, hm.1.2.1, hm.1.2.2⟩

theorem lookup_claim_none {db : Db} {locked : CrawlId → Bool} {want : CrawlId}
    (h : db.oldestQueued locked want = none) (worker : WorkerId) (now : Instant) :
    db.claim locked want worker now = (db, none) := by
  simp [Db.claim, h]

theorem lookup_claim_some {db : Db} {locked : CrawlId → Bool} {want : CrawlId} {row : Crawl}
    (h : db.oldestQueued locked want = some row) (worker : WorkerId) (now : Instant)
    (c : CrawlId) :
    (db.claim locked want worker now).1.crawl.lookup c =
      if c = row.id then some ((claimUpdate row.id row.attempts worker now).set row)
      else db.crawl.lookup c := by
  have hrow := (oldestQueued_spec h).1
  simp only [Db.claim, h, KeyedTable.lookup_apply]
  by_cases hc : c = row.id
  · subst hc
    rw [hrow, if_pos rfl, Option.map_some, Update.onRow_of_cond (by simp [claimUpdate])]
  · rw [if_neg hc]
    cases hr : db.crawl.lookup c with
    | none => rfl
    | some r =>
      have hid : r.id ≠ row.id := KeyedTable.lookup_key hr ▸ hc
      rw [Option.map_some, Update.onRow_of_not_cond (by simpa [claimUpdate] using hid)]

theorem page_claim_some {db : Db} {locked : CrawlId → Bool} {want : CrawlId} {row : Crawl}
    (h : db.oldestQueued locked want = some row) (worker : WorkerId) (now : Instant)
    (k : CrawlId × ℕ) :
    (db.claim locked want worker now).1.page.lookup k =
      if k.1 = row.id then none else db.page.lookup k := by
  simp only [Db.claim, h]
  rw [KeyedTable.lookup_deleteWhere db.page (fun k => k.1 = row.id)]
  simp

/-! Each of the holder's writes names its crawl, and its worker. -/

theorem heartbeatUpdate_cond {id : CrawlId} {worker : WorkerId} {stats : Summary} {now : Instant}
    {r : Crawl} (h : (heartbeatUpdate id worker stats now).cond r = true) :
    r.id = id ∧ r.workerId = some worker ∧ r.state = .running := by
  simp only [heartbeatUpdate, Bool.and_eq_true, decide_eq_true_eq] at h
  exact ⟨h.1.1, h.1.2, h.2⟩

theorem finishUpdate_cond {id : CrawlId} {worker : WorkerId} {state : CrawlState}
    {stats : Summary} {error : Option String} {now : Instant} {r : Crawl}
    (h : (finishUpdate id worker state stats error now).cond r = true) :
    r.id = id ∧ r.workerId = some worker := by
  simp only [finishUpdate, Bool.and_eq_true, decide_eq_true_eq] at h
  exact h

theorem releaseUpdate_cond {id : CrawlId} {worker : WorkerId} {r : Crawl}
    (h : (releaseUpdate id worker).cond r = true) :
    r.id = id ∧ r.workerId = some worker ∧ r.cancelRequested = false := by
  simp only [releaseUpdate, Bool.and_eq_true, decide_eq_true_eq] at h
  exact ⟨h.1.1, h.1.2, h.2⟩

theorem heartbeat_reply (db : Db) (id : CrawlId) (worker : WorkerId) (stats : Summary)
    (now : Instant) :
    (db.heartbeat id worker stats now).2 =
      ((db.crawl.lookup id).filter (heartbeatUpdate id worker stats now).cond).map
        Crawl.cancelRequested := by
  simp only [Db.heartbeat, KeyedTable.matching_of_key _ fun r hr => (heartbeatUpdate_cond hr).1]
  cases (db.crawl.lookup id).filter (heartbeatUpdate id worker stats now).cond <;> rfl

theorem finish_of_terminal {state : CrawlState} (h : state.terminal = true) (db : Db)
    (id : CrawlId) (worker : WorkerId) (stats : Summary) (error : Option String) (now : Instant) :
    db.finish id worker state stats error now =
      ({ db with crawl := db.crawl.apply (finishUpdate id worker state stats error now) },
        some ((db.crawl.lookup id).any (finishUpdate id worker state stats error now).cond)) := by
  simp only [Db.finish, h, if_true,
    KeyedTable.matching_of_key _ fun r hr => (finishUpdate_cond hr).1]
  cases hl : db.crawl.lookup id with
  | none => rfl
  | some r => cases hc : (finishUpdate id worker state stats error now).cond r <;>
      simp [Option.filter, hc]

theorem release_reply (db : Db) (id : CrawlId) (worker : WorkerId) :
    (db.release id worker).2 = (db.crawl.lookup id).any (releaseUpdate id worker).cond := by
  simp only [Db.release, KeyedTable.matching_of_key _ fun r hr => (releaseUpdate_cond hr).1]
  cases hl : db.crawl.lookup id with
  | none => rfl
  | some r => cases hc : (releaseUpdate id worker).cond r <;> simp [Option.filter, hc]

/-- What `reap` makes of one row. -/
def reapRow (leaseMicros maxAttempts : ℤ) (now : Instant) (r : Crawl) : Crawl :=
  if r.expired leaseMicros now then
    if r.cancelRequested then (abortCancelled leaseMicros now).set r
    else if r.attempts < maxAttempts then (requeue leaseMicros maxAttempts now).set r
    else (giveUp leaseMicros now).set r
  else r

theorem expired_running {r : Crawl} {leaseMicros : ℤ} {now : Instant}
    (h : r.expired leaseMicros now = true) : r.state = .running := by
  simp only [Crawl.expired, Bool.and_eq_true, decide_eq_true_eq] at h
  exact h.1

theorem not_expired_of_settled {r : Crawl} (h : r.state ≠ .running) (leaseMicros : ℤ)
    (now : Instant) : r.expired leaseMicros now = false := by
  simp [Crawl.expired, h]

theorem requeue_onRow_settled {r : Crawl} (h : r.state ≠ .running) (leaseMicros maxAttempts : ℤ)
    (now : Instant) : (requeue leaseMicros maxAttempts now).onRow r = r :=
  Update.onRow_of_not_cond (by simp [requeue, not_expired_of_settled h])

theorem giveUp_onRow_settled {r : Crawl} (h : r.state ≠ .running) (leaseMicros : ℤ)
    (now : Instant) : (giveUp leaseMicros now).onRow r = r :=
  Update.onRow_of_not_cond (by simp [giveUp, not_expired_of_settled h])

/-- Each statement takes the rows it settles out of the next one's reach. -/
theorem statements_onRow (leaseMicros maxAttempts : ℤ) (now : Instant) (r : Crawl) :
    (giveUp leaseMicros now).onRow
        ((requeue leaseMicros maxAttempts now).onRow ((abortCancelled leaseMicros now).onRow r)) =
      reapRow leaseMicros maxAttempts now r := by
  unfold reapRow
  cases hexp : r.expired leaseMicros now with
  | false => simp [Update.onRow, abortCancelled, requeue, giveUp, hexp]
  | true =>
    cases hcan : r.cancelRequested with
    | true =>
      rw [Update.onRow_of_cond (u := abortCancelled leaseMicros now)
          (by simp [abortCancelled, hexp, hcan]),
        requeue_onRow_settled (by simp [abortCancelled]),
        giveUp_onRow_settled (by simp [abortCancelled])]
      rfl
    | false =>
      rw [Update.onRow_of_not_cond (u := abortCancelled leaseMicros now)
          (by simp [abortCancelled, hcan])]
      by_cases hatt : r.attempts < maxAttempts
      · rw [Update.onRow_of_cond (u := requeue leaseMicros maxAttempts now)
            (by simp [requeue, hexp, hatt]), giveUp_onRow_settled (by simp [requeue])]
        simp [hatt]
      · rw [Update.onRow_of_not_cond (u := requeue leaseMicros maxAttempts now)
            (by simp [requeue, hatt]), Update.onRow_of_cond (by simp [giveUp, hexp])]
        simp [hatt]

theorem lookup_reap (db : Db) (leaseMicros maxAttempts : ℤ) (now : Instant) (c : CrawlId) :
    (db.reap leaseMicros maxAttempts now).1.crawl.lookup c =
      (db.crawl.lookup c).map (reapRow leaseMicros maxAttempts now) := by
  simp only [Db.reap, Db.executeAll, reapStatements, List.foldl_cons, List.foldl_nil,
    KeyedTable.lookup_apply, Option.map_map]
  congr 1
  funext r
  exact statements_onRow leaseMicros maxAttempts now r

theorem page_reap (db : Db) (leaseMicros maxAttempts : ℤ) (now : Instant) :
    (db.reap leaseMicros maxAttempts now).1.page = db.page := rfl

/-- What `request_cancel` makes of the row it is about. -/
def cancelRow (now : Instant) (r : Crawl) : Crawl :=
  match r.state with
  | .queued => (abortQueued r.id now).set r
  | .running => (flagCancel r.id).set r
  | _ => r

theorem lookup_requestCancel (db : Db) (id : CrawlId) (now : Instant) (c : CrawlId) :
    (db.requestCancel id now).1.crawl.lookup c =
      (db.crawl.lookup c).map fun r => if c = id then cancelRow now r else r := by
  unfold Db.requestCancel
  cases hid : db.crawl.lookup id with
  | none =>
    cases hc : db.crawl.lookup c with
    | none => rfl
    | some r =>
      have hne : c ≠ id := fun he => by simp [he, hid] at hc
      simp [hne]
  | some found =>
    have hfound := KeyedTable.lookup_key hid
    have hother : ∀ (u : CrawlUpdate), (∀ r, u.cond r = decide (r.id = id)) →
        (∀ r, r.id = id → r = found → u.set r = cancelRow now r) →
        (db.crawl.apply u).lookup c =
          (db.crawl.lookup c).map fun r => if c = id then cancelRow now r else r := by
      intro u hcond hset
      rw [KeyedTable.lookup_apply]
      cases hc : db.crawl.lookup c with
      | none => rfl
      | some r =>
        have hkey : r.id = c := KeyedTable.lookup_key hc
        by_cases he : c = id
        · subst he
          have hr : r = found := Option.some.inj (hc.symm.trans hid)
          simp [Update.onRow, hcond, hkey, hset r hkey hr]
        · simp [Update.onRow, hcond, hkey, he]
    cases hst : found.state with
    | queued =>
      simp only [hst]
      refine hother (abortQueued id now) (fun _ => rfl) fun r hr he => ?_
      subst he
      simp only [cancelRow, hst, hr]
    | running =>
      simp only [hst]
      refine hother (flagCancel id) (fun _ => rfl) fun r hr he => ?_
      subst he
      simp only [cancelRow, hst, hr]
    | finished | failed | aborted =>
      simp only [hst]
      cases hc : db.crawl.lookup c with
      | none => rfl
      | some r =>
        by_cases he : c = id
        · subst he
          have hr : r = found := Option.some.inj (hc.symm.trans hid)
          subst hr
          simp [cancelRow, hst]
        · simp [he]

theorem page_requestCancel (db : Db) (id : CrawlId) (now : Instant) :
    (db.requestCancel id now).1.page = db.page := by
  unfold Db.requestCancel
  cases db.crawl.lookup id with
  | none => rfl
  | some found => cases hst : found.state <;> simp [hst]

theorem requestCancel_reply {db : Db} {id : CrawlId} {now : Instant} {state : CrawlState}
    (h : (db.requestCancel id now).2 = some state) :
    ∃ r, db.crawl.lookup id = some r ∧ state = (cancelRow now r).state := by
  unfold Db.requestCancel at h
  cases hid : db.crawl.lookup id with
  | none => simp [hid] at h
  | some found =>
    refine ⟨found, rfl, ?_⟩
    cases hst : found.state <;> simp only [hid, hst, Option.some.injEq] at h <;>
      simp [cancelRow, hst, ← h, abortQueued, flagCancel]

theorem crawl_insertPages (db : Db) (id : CrawlId) (worker : WorkerId) (rows : List PageRow) :
    (db.insertPages id worker rows).1.crawl = db.crawl := by
  unfold Db.insertPages
  split
  · rfl
  · split <;> rfl

end UrlCrawler
