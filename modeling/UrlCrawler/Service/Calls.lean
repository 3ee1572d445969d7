import UrlCrawler.Service.Repository
import UrlCrawler.Library.Execution

/-! # Sequences of repository calls

A `Call` is one call of a repository method with all its arguments, including what the environment
settles (the transaction's `now()`, the fresh primary key, the rows other transactions hold while a
claim skips them). `Call.exec` runs it as one transaction. `Call.rowAfter` says what a call makes of
each row of the `crawl` table, and `RowStep` lists the ways a row can change: every invariant of the
table is read off these.
-/
set_option autoImplicit false

namespace UrlCrawler

inductive Call
  | create (id : CrawlId) (seed : Text) (config : StoredConfig) (now : Instant)
  | claim (skip : List CrawlId) (want : CrawlId) (worker : WorkerId) (now : Instant)
  | heartbeat (id : CrawlId) (worker : WorkerId) (stats : Summary) (now : Instant)
  | finish (id : CrawlId) (worker : WorkerId) (state : CrawlState) (stats : Summary)
      (error : Option String) (now : Instant)
  | release (id : CrawlId) (worker : WorkerId)
  | reap (leaseMicros maxAttempts : ℤ) (now : Instant)
  | requestCancel (id : CrawlId) (now : Instant)
  | insertPages (id : CrawlId) (worker : WorkerId) (rows : List PageRow)

/-- What a call answers. `invalid` stands for a refused argument: a primary key that is taken, or a
state that is not terminal. -/
inductive Reply
  | created (crawl : CrawlId)
  | claimed (row : Option Crawl)
  | heartbeat (cancelRequested : Option Bool)
  | finished (recorded : Bool)
  | released (requeued : Bool)
  | reaped (touched : ℕ)
  | cancelled (state : Option CrawlState)
  | inserted
  | leaseLost
  | invalid

def Call.exec (db : Db) : Call → Db × Reply
  | .create id seed config now =>
    match db.create id seed config now with
    | some db' => (db', .created id)
    | none => (db, .invalid)
  | .claim skip want worker now =>
    let (db', row) := db.claim (fun id => id ∈ skip) want worker now
    (db', .claimed row)
  | .heartbeat id worker stats now =>
    let (db', flag) := db.heartbeat id worker stats now
    (db', .heartbeat flag)
  | .finish id worker state stats error now =>
    match db.finish id worker state stats error now with
    | (db', some recorded) => (db', .finished recorded)
    | (db', none) => (db', .invalid)
  | .release id worker =>
    let (db', requeued) := db.release id worker
    (db', .released requeued)
  | .reap leaseMicros maxAttempts now =>
    let (db', touched) := db.reap leaseMicros maxAttempts now
    (db', .reaped touched)
  | .requestCancel id now =>
    let (db', state) := db.requestCancel id now
    (db', .cancelled state)
  | .insertPages id worker rows =>
    match db.insertPages id worker rows with
    | (db', true) => (db', .inserted)
    | (db', false) => (db', .leaseLost)

/-! ## Row by row -/

/-- What a call makes of the row `r` of the database `db`. -/
def Call.rowAfter (db : Db) : Call → Crawl → Crawl
  | .create .., r => r
  | .claim skip want worker now, r =>
    match db.oldestQueued (fun id => id ∈ skip) want with
    | some row =>
      if r.id = row.id then (claimUpdate row.id row.attempts worker now).set row else r
    | none => r
  | .heartbeat id worker stats now, r => (heartbeatUpdate id worker stats now).onRow r
  | .finish id worker state stats error now, r =>
    if state.terminal then (finishUpdate id worker state stats error now).onRow r else r
  | .release id worker, r => (releaseUpdate id worker).onRow r
  | .reap leaseMicros maxAttempts now, r => reapRow leaseMicros maxAttempts now r
  | .requestCancel id now, r => if r.id = id then cancelRow now r else r
  | .insertPages .., r => r

theorem lookup_exec {db : Db} {call : Call} {c : CrawlId} {r : Crawl}
    (h : db.crawl.lookup c = some r) :
    (call.exec db).1.crawl.lookup c = some (call.rowAfter db r) := by
  have hid : r.id = c := KeyedTable.lookup_key h
  cases call with
  | create id seed config now =>
    simp only [Call.exec, Call.rowAfter]
    cases hc : db.create id seed config now with
    | none => exact h
    | some db' =>
      obtain ⟨hnone, -, hlook⟩ := lookup_create hc c
      have hne : c ≠ id := fun he => by simp [← he, h] at hnone
      simp [hlook, hne, h]
  | claim skip want worker now =>
    simp only [Call.exec, Call.rowAfter]
    cases ho : db.oldestQueued (fun id => id ∈ skip) want with
    | none => rw [lookup_claim_none ho]; exact h
    | some row =>
      simp only [lookup_claim_some ho, hid]
      split
      · rfl
      · exact h
  | heartbeat id worker stats now =>
    simp [Call.exec, Call.rowAfter, Db.heartbeat, KeyedTable.lookup_apply, h]
  | finish id worker state stats error now =>
    simp only [Call.exec, Call.rowAfter]
    cases ht : state.terminal with
    | false => simp [Db.finish, ht, h]
    | true => simp [finish_of_terminal ht, KeyedTable.lookup_apply, h]
  | release id worker =>
    simp [Call.exec, Call.rowAfter, Db.release, KeyedTable.lookup_apply, h]
  | reap leaseMicros maxAttempts now =>
    simp [Call.exec, Call.rowAfter, lookup_reap, h]
  | requestCancel id now =>
    simp [Call.exec, Call.rowAfter, lookup_requestCancel, h, hid]
  | insertPages id worker rows =>
    simp only [Call.exec, Call.rowAfter]
    have hcrawl := crawl_insertPages db id worker rows
    cases hi : db.insertPages id worker rows with
    | mk db' ok =>
      rw [hi] at hcrawl
      cases ok <;> simpa [← hcrawl] using h

/-- A row that was not there has just been created. -/
theorem lookup_exec_none {db : Db} {call : Call} {c : CrawlId} {r : Crawl}
    (h : db.crawl.lookup c = none) (h' : (call.exec db).1.crawl.lookup c = some r) :
    ∃ seed config now, call = .create c seed config now ∧
      r = { id := c, seed, config, createdAt := now } := by
  cases call with
  | create id seed config now =>
    simp only [Call.exec] at h'
    cases hc : db.create id seed config now with
    | none => simp [hc, h] at h'
    | some db' =>
      obtain ⟨-, -, hlook⟩ := lookup_create hc c
      simp only [hc, hlook, h] at h'
      split at h'
      · rename_i he
        subst he
        exact ⟨seed, config, now, rfl, (Option.some.inj h').symm⟩
      · cases h'
  | claim skip want worker now =>
    simp only [Call.exec] at h'
    cases ho : db.oldestQueued (fun id => id ∈ skip) want with
    | none => simp [lookup_claim_none ho, h] at h'
    | some row =>
      rw [lookup_claim_some ho] at h'
      split at h'
      · rename_i he
        simp [he, (oldestQueued_spec ho).1] at h
      · simp [h] at h'
  | heartbeat id worker stats now =>
    simp [Call.exec, Db.heartbeat, KeyedTable.lookup_apply, h] at h'
  | finish id worker state stats error now =>
    simp only [Call.exec] at h'
    cases ht : state.terminal with
    | false => simp [Db.finish, ht, h] at h'
    | true => simp [finish_of_terminal ht, KeyedTable.lookup_apply, h] at h'
  | release id worker =>
    simp [Call.exec, Db.release, KeyedTable.lookup_apply, h] at h'
  | reap leaseMicros maxAttempts now => simp [Call.exec, lookup_reap, h] at h'
  | requestCancel id now => simp [Call.exec, lookup_requestCancel, h] at h'
  | insertPages id worker rows =>
    simp only [Call.exec] at h'
    have hcrawl := crawl_insertPages db id worker rows
    cases hi : db.insertPages id worker rows with
    | mk db' ok =>
      simp only [hi] at hcrawl
      cases ok <;> simp [hi, hcrawl, h] at h'

/-- Calls that are neither claims nor inserts leave the pages alone. -/
theorem page_exec {db : Db} {call : Call}
    (hclaim : ∀ skip want worker now, call ≠ .claim skip want worker now)
    (hinsert : ∀ id worker rows, call ≠ .insertPages id worker rows) :
    (call.exec db).1.page = db.page := by
  cases call with
  | create id seed config now =>
    simp only [Call.exec]
    cases hc : db.create id seed config now with
    | none => rfl
    | some db' => exact (lookup_create hc id).2.1
  | claim skip want worker now => exact absurd rfl (hclaim skip want worker now)
  | heartbeat | release => rfl
  | finish id worker state stats error now =>
    simp only [Call.exec]
    cases ht : state.terminal with
    | false => simp [Db.finish, ht]
    | true => simp [finish_of_terminal ht]
  | reap leaseMicros maxAttempts now => exact page_reap db leaseMicros maxAttempts now
  | requestCancel id now => exact page_requestCancel db id now
  | insertPages id worker rows => exact absurd rfl (hinsert id worker rows)

/-- The ways a row changes, whoever calls. -/
inductive RowStep (r : Crawl) : Crawl → Prop
  | keep : RowStep r r
  | claim (worker : WorkerId) (now : Instant) (queued : r.state = .queued) :
      RowStep r ((claimUpdate r.id r.attempts worker now).set r)
  | heartbeat (worker : WorkerId) (stats : Summary) (now : Instant) (running : r.state = .running)
      (owner : r.workerId = some worker) :
      RowStep r ((heartbeatUpdate r.id worker stats now).set r)
  | finish (worker : WorkerId) (state : CrawlState) (stats : Summary) (error : Option String)
      (now : Instant) (terminal : state.terminal = true) (owner : r.workerId = some worker) :
      RowStep r ((finishUpdate r.id worker state stats error now).set r)
  | release (worker : WorkerId) (owner : r.workerId = some worker)
      (uncancelled : r.cancelRequested = false) : RowStep r ((releaseUpdate r.id worker).set r)
  | reapAbort (leaseMicros : ℤ) (now : Instant) (running : r.state = .running)
      (cancelled : r.cancelRequested = true) : RowStep r ((abortCancelled leaseMicros now).set r)
  | reapRequeue (leaseMicros maxAttempts : ℤ) (now : Instant) (running : r.state = .running)
      (uncancelled : r.cancelRequested = false) (below : r.attempts < maxAttempts) :
      RowStep r ((requeue leaseMicros maxAttempts now).set r)
  | reapFail (leaseMicros maxAttempts : ℤ) (now : Instant) (running : r.state = .running)
      (uncancelled : r.cancelRequested = false) (atLimit : maxAttempts ≤ r.attempts) :
      RowStep r ((giveUp leaseMicros now).set r)
  | abort (now : Instant) (queued : r.state = .queued) : RowStep r ((abortQueued r.id now).set r)
  | flag (running : r.state = .running) : RowStep r ((flagCancel r.id).set r)

theorem reapRow_step (leaseMicros maxAttempts : ℤ) (now : Instant) (r : Crawl) :
    RowStep r (reapRow leaseMicros maxAttempts now r) := by
  unfold reapRow
  split
  · rename_i hexp
    have hrun := expired_running hexp
    split
    · rename_i hcan
      exact .reapAbort leaseMicros now hrun hcan
    · rename_i hcan
      have hcan' : r.cancelRequested = false := by simpa using hcan
      split
      · rename_i hatt
        exact .reapRequeue leaseMicros maxAttempts now hrun hcan' hatt
      · rename_i hatt
        exact .reapFail leaseMicros maxAttempts now hrun hcan' (not_lt.mp hatt)
  · exact .keep

theorem cancelRow_step (now : Instant) (r : Crawl) : RowStep r (cancelRow now r) := by
  unfold cancelRow
  cases hst : r.state with
  | queued => exact .abort now hst
  | running => exact .flag hst
  | finished | failed | aborted => exact .keep

/-- Everything a call can do to a row. -/
theorem rowAfter_step {db : Db} {c : CrawlId} {r : Crawl} (h : db.crawl.lookup c = some r)
    (call : Call) : RowStep r (call.rowAfter db r) := by
  cases call with
  | create id seed config now => exact .keep
  | claim skip want worker now =>
    simp only [Call.rowAfter]
    cases ho : db.oldestQueued (fun id => id ∈ skip) want with
    | none => exact .keep
    | some row =>
      obtain ⟨hrow, hq, -⟩ := oldestQueued_spec ho
      by_cases he : r.id = row.id
      · have hr : r = row := by
          rw [← he, KeyedTable.lookup_key h, h] at hrow
          exact Option.some.inj hrow
        subst hr
        simpa using RowStep.claim worker now hq
      · simpa [he] using RowStep.keep
  | heartbeat id worker stats now =>
    simp only [Call.rowAfter, Update.onRow]
    split
    · rename_i hc
      obtain ⟨rfl, howner, hrun⟩ := heartbeatUpdate_cond hc
      exact .heartbeat worker stats now hrun howner
    · exact .keep
  | finish id worker state stats error now =>
    simp only [Call.rowAfter, Update.onRow]
    split
    · rename_i ht
      split
      · rename_i hc
        obtain ⟨rfl, howner⟩ := finishUpdate_cond hc
        exact .finish worker state stats error now ht howner
      · exact .keep
    · exact .keep
  | release id worker =>
    simp only [Call.rowAfter, Update.onRow]
    split
    · rename_i hc
      obtain ⟨rfl, howner, hcan⟩ := releaseUpdate_cond hc
      exact .release worker howner hcan
    · exact .keep
  | reap leaseMicros maxAttempts now => exact reapRow_step leaseMicros maxAttempts now r
  | requestCancel id now =>
    simp only [Call.rowAfter]
    split
    · exact cancelRow_step now r
    · exact .keep
  | insertPages id worker rows => exact .keep

/-- Only `request_cancel` sets the flag. -/
theorem rowAfter_flag {db : Db} {c : CrawlId} {r : Crawl} (h : db.crawl.lookup c = some r)
    {call : Call} (hflag : (call.rowAfter db r).cancelRequested = true) :
    r.cancelRequested = true ∨ ∃ now, call = .requestCancel c now := by
  cases call with
  | create | insertPages => exact .inl hflag
  | claim skip want worker now =>
    simp only [Call.rowAfter] at hflag
    split at hflag
    · rename_i row ho
      split at hflag
      · rename_i he
        obtain ⟨hrow, -⟩ := oldestQueued_spec ho
        rw [← he, KeyedTable.lookup_key h] at hrow
        obtain rfl := Option.some.inj (h.symm.trans hrow)
        exact .inl hflag
      · exact .inl hflag
    · exact .inl hflag
  | heartbeat id worker stats now =>
    simp only [Call.rowAfter, Update.onRow] at hflag
    split at hflag <;> exact .inl hflag
  | finish id worker state stats error now =>
    simp only [Call.rowAfter, Update.onRow] at hflag
    split at hflag
    · split at hflag <;> exact .inl hflag
    · exact .inl hflag
  | release id worker =>
    simp only [Call.rowAfter, Update.onRow] at hflag
    split at hflag <;> exact .inl hflag
  | reap leaseMicros maxAttempts now =>
    simp only [Call.rowAfter, reapRow] at hflag
    split at hflag
    · split at hflag
      · exact .inl hflag
      · split at hflag <;> exact .inl hflag
    · exact .inl hflag
  | requestCancel id now =>
    simp only [Call.rowAfter] at hflag
    split at hflag
    · rename_i hid
      exact .inr ⟨now, by rw [← hid, KeyedTable.lookup_key h]⟩
    · exact .inl hflag

/-- An invariant of single rows: it holds of a fresh row and every step keeps it. -/
theorem rows_invariant {P : Crawl → Prop}
    (hcreate : ∀ id seed config now, P { id, seed, config, createdAt := now })
    (hstep : ∀ r r', P r → RowStep r r' → P r') {db : Db} (call : Call)
    (h : ∀ c r, db.crawl.lookup c = some r → P r) :
    ∀ c r, (call.exec db).1.crawl.lookup c = some r → P r := by
  intro c r' hr'
  cases hc : db.crawl.lookup c with
  | none =>
    obtain ⟨seed, config, now, -, rfl⟩ := lookup_exec_none hc hr'
    exact hcreate c seed config now
  | some r =>
    rw [lookup_exec hc] at hr'
    obtain rfl := Option.some.inj hr'
    exact hstep r _ (h c r hc) (rowAfter_step hc call)

/-- Calls one after the other; none is refused. -/
def callStep (db : Db) (call : Call) : Option Db := some (call.exec db).1

end UrlCrawler
