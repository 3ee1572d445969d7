import UrlCrawler.Service.Calls

/-! # The lifecycle of a crawl

`docs/data-model.md` draws the lifecycle: which state follows which, and that `finished_at` is null
while a crawl is queued or running. `heartbeat` and `insert_pages` test that the row is running;
`finish` and `release` compare only `worker_id`, and a row that `finish` settled keeps its
`worker_id`. So the lifecycle holds along a run exactly when no `finish` or `release` reaches a
settled row that still carries the caller's name (`respectsLifecycle_iff`).
-/
set_option autoImplicit false

namespace UrlCrawler
open Execution

/-- The edges of the lifecycle. -/
def CrawlState.edge : CrawlState → CrawlState → Bool
  | .queued, .running | .queued, .aborted => true
  | .running, .finished | .running, .failed | .running, .aborted | .running, .queued => true
  | _, _ => false

/-- A queued or running crawl has no `finished_at`. -/
def Crawl.openUnfinished (r : Crawl) : Prop := r.state.terminal = false → r.finishedAt = none

/-- The call changes the state of no crawl, or along an edge, and no open crawl carries a
`finished_at` afterwards. -/
def Call.followsLifecycle (db : Db) (call : Call) : Prop :=
  (∀ c r r', db.crawl.lookup c = some r → (call.exec db).1.crawl.lookup c = some r' →
    r'.state = r.state ∨ r.state.edge r'.state = true) ∧
  ∀ c r', (call.exec db).1.crawl.lookup c = some r' → r'.openUnfinished

/-- The lifecycle holds at every call of a run from the empty database. -/
def RespectsLifecycle (calls : List Call) : Prop :=
  Meets callStep Call.followsLifecycle Db.empty calls

/-- The call writes to a settled row that still carries its worker's name: `finish` with another
terminal state, or `release`. -/
def Call.rewritesSettled (db : Db) : Call → Prop
  | .finish id worker state _ _ _ =>
    ∃ r, db.crawl.lookup id = some r ∧ r.workerId = some worker ∧ r.state.terminal = true ∧
      state.terminal = true ∧ r.state ≠ state
  | .release id worker =>
    ∃ r, db.crawl.lookup id = some r ∧ r.workerId = some worker ∧ r.state.terminal = true ∧
      r.cancelRequested = false
  | _ => False

/-- What keeps `finish` and `release` off a queued row: it belongs to nobody. -/
def Crawl.lifecycleInv (r : Crawl) : Prop :=
  (r.state = .queued → r.workerId = none) ∧ r.openUnfinished

def LifecycleInv (db : Db) : Prop := ∀ c r, db.crawl.lookup c = some r → r.lifecycleInv

theorem lifecycleInv_empty : LifecycleInv Db.empty := by
  intro c r h
  cases h

theorem edge_source_open {s t : CrawlState} (h : s.edge t = true) : s.terminal = false := by
  cases s <;> cases t <;> simp_all [CrawlState.edge, CrawlState.terminal]

theorem terminal_cases {s : CrawlState} (h : s.terminal = false) : s = .queued ∨ s = .running := by
  cases s <;> simp_all [CrawlState.terminal]

/-! ## One call -/

/-- A row step that is no rewrite of a settled row follows an edge and keeps the invariant. -/
theorem rowStep_lifecycle {r r' : Crawl} (hinv : r.lifecycleInv) (h : RowStep r r')
    (hopen : ∀ worker, r.workerId = some worker → r.state.terminal = true → r'.state = r.state) :
    (r'.state = r.state ∨ r.state.edge r'.state = true) ∧ r'.lifecycleInv := by
  obtain ⟨howner, hfin⟩ := hinv
  cases h with
  | keep => exact ⟨.inl rfl, howner, hfin⟩
  | claim worker now queued =>
    refine ⟨.inr (by simp [claimUpdate, queued, CrawlState.edge]), by simp [claimUpdate], ?_⟩
    intro _
    exact hfin (by simp [queued, CrawlState.terminal])
  | heartbeat worker stats now running owner => exact ⟨.inl rfl, howner, hfin⟩
  | finish worker state stats error now terminal owner =>
    have hnq : r.state ≠ .queued := fun hq => by simp [howner hq] at owner
    refine ⟨?_, ?_, ?_⟩
    · cases ht : r.state.terminal with
      | true => exact .inl (hopen worker owner ht)
      | false =>
        have hrun : r.state = .running := (terminal_cases ht).resolve_left hnq
        right
        cases state <;> simp_all [finishUpdate, CrawlState.edge, CrawlState.terminal]
    · intro hq
      have hq' : state = .queued := hq
      simp [hq', CrawlState.terminal] at terminal
    · intro ht
      have ht' : state.terminal = false := ht
      simp [ht'] at terminal
  | release worker owner uncancelled =>
    have hnt : r.state.terminal = false := by
      cases ht : r.state.terminal with
      | false => rfl
      | true =>
        have hq : CrawlState.queued = r.state := hopen worker owner ht
        simp [← hq, CrawlState.terminal] at ht
    have hrun : r.state = .running :=
      (terminal_cases hnt).resolve_left fun hq => by simp [howner hq] at owner
    exact ⟨.inr (by simp [releaseUpdate, hrun, CrawlState.edge]), by simp [releaseUpdate],
      fun _ => hfin hnt⟩
  | reapAbort leaseMicros now running cancelled =>
    exact ⟨.inr (by simp [abortCancelled, running, CrawlState.edge]), by simp [abortCancelled],
      fun ht => by simp [abortCancelled, CrawlState.terminal] at ht⟩
  | reapRequeue leaseMicros maxAttempts now running uncancelled below =>
    refine ⟨.inr (by simp [requeue, running, CrawlState.edge]), by simp [requeue], ?_⟩
    intro _
    exact hfin (by simp [running, CrawlState.terminal])
  | reapFail leaseMicros maxAttempts now running uncancelled atLimit =>
    exact ⟨.inr (by simp [giveUp, running, CrawlState.edge]), by simp [giveUp],
      fun ht => by simp [giveUp, CrawlState.terminal] at ht⟩
  | abort now queued =>
    exact ⟨.inr (by simp [abortQueued, queued, CrawlState.edge]), by simp [abortQueued],
      fun ht => by simp [abortQueued, CrawlState.terminal] at ht⟩
  | flag running => exact ⟨.inl rfl, howner, hfin⟩

/-- A call that rewrites no settled row leaves the state of every settled, owned row alone. -/
theorem rowAfter_settled {db : Db} {call : Call} (hcall : ¬call.rewritesSettled db) {c : CrawlId}
    {r : Crawl} (h : db.crawl.lookup c = some r) (ht : r.state.terminal = true) :
    (call.rowAfter db r).state = r.state := by
  have hid : r.id = c := KeyedTable.lookup_key h
  have hnq : r.state ≠ .queued := fun hq => by simp [hq, CrawlState.terminal] at ht
  have hnr : r.state ≠ .running := fun hq => by simp [hq, CrawlState.terminal] at ht
  cases call with
  | create => rfl
  | insertPages => rfl
  | claim skip want worker now =>
    simp only [Call.rowAfter]
    cases ho : db.oldestQueued (fun id => id ∈ skip) want with
    | none => rfl
    | some row =>
      obtain ⟨hrow, hq, -⟩ := oldestQueued_spec ho
      have hne : r.id ≠ row.id := by
        intro he
        rw [← he, hid, h] at hrow
        exact hnq (Option.some.inj hrow ▸ hq)
      simp [hne]
  | heartbeat id worker stats now =>
    rw [Call.rowAfter, Update.onRow_of_not_cond (by simp [heartbeatUpdate, hnr])]
  | finish id worker state stats error now =>
    simp only [Call.rowAfter, Update.onRow]
    split
    · rename_i hst
      split
      · rename_i hc
        simp only [finishUpdate, Bool.and_eq_true, decide_eq_true_eq] at hc
        by_contra hne
        exact hcall ⟨r, hc.1 ▸ hid ▸ h, hc.2, ht, hst, fun he => hne he.symm⟩
      · rfl
    · rfl
  | release id worker =>
    simp only [Call.rowAfter, Update.onRow]
    split
    · rename_i hc
      simp only [releaseUpdate, Bool.and_eq_true, decide_eq_true_eq] at hc
      exact absurd ⟨r, hc.1.1 ▸ hid ▸ h, hc.1.2, ht, hc.2⟩ hcall
    · rfl
  | reap leaseMicros maxAttempts now =>
    simp [Call.rowAfter, reapRow, not_expired_of_settled hnr]
  | requestCancel id now =>
    simp only [Call.rowAfter, cancelRow]
    split
    · cases hst : r.state <;> simp_all
    · rfl

theorem followsLifecycle_of {db : Db} {call : Call} (hinv : LifecycleInv db)
    (hcall : ¬call.rewritesSettled db) :
    call.followsLifecycle db ∧ LifecycleInv (call.exec db).1 := by
  have hrow : ∀ c r, db.crawl.lookup c = some r →
      ((call.rowAfter db r).state = r.state ∨ r.state.edge (call.rowAfter db r).state = true) ∧
        (call.rowAfter db r).lifecycleInv := fun c r h =>
    rowStep_lifecycle (hinv c r h) (rowAfter_step h call) fun _ _ ht => rowAfter_settled hcall h ht
  have hnext : LifecycleInv (call.exec db).1 := by
    intro c r' hr'
    cases hc : db.crawl.lookup c with
    | none =>
      obtain ⟨seed, config, now, -, rfl⟩ := lookup_exec_none hc hr'
      exact ⟨fun _ => rfl, fun _ => rfl⟩
    | some r =>
      rw [lookup_exec hc] at hr'
      exact Option.some.inj hr' ▸ (hrow c r hc).2
  refine ⟨⟨fun c r r' hr hr' => ?_, fun c r' hr' => (hnext c r' hr').2⟩, hnext⟩
  rw [lookup_exec hr] at hr'
  exact Option.some.inj hr' ▸ (hrow c r hr).1

/-- Rewriting a settled row leaves the lifecycle. -/
theorem not_followsLifecycle {db : Db} {call : Call} (h : call.rewritesSettled db) :
    ¬call.followsLifecycle db := by
  rintro ⟨hedge, -⟩
  have hout : ∀ c r, db.crawl.lookup c = some r → r.state.terminal = true →
      (call.rowAfter db r).state = r.state := by
    intro c r hr ht
    rcases hedge c r _ hr (lookup_exec hr) with he | he
    · exact he
    · simp [edge_source_open he] at ht
  cases call with
  | finish id worker state stats error now =>
    obtain ⟨r, hr, howner, ht, hst, hne⟩ := h
    have hid : r.id = id := KeyedTable.lookup_key hr
    have := hout id r hr ht
    rw [Call.rowAfter, if_pos hst, Update.onRow_of_cond (by simp [finishUpdate, hid, howner])]
      at this
    exact hne this.symm
  | release id worker =>
    obtain ⟨r, hr, howner, ht, hcan⟩ := h
    have hid : r.id = id := KeyedTable.lookup_key hr
    have := hout id r hr ht
    rw [Call.rowAfter, Update.onRow_of_cond (by simp [releaseUpdate, hid, howner, hcan])] at this
    have hq : CrawlState.queued = r.state := this
    simp [← hq, CrawlState.terminal] at ht
  | create | claim | heartbeat | reap | requestCancel | insertPages => exact h

/-! ## Runs -/

theorem meets_followsLifecycle : ∀ {calls : List Call} {db : Db}, LifecycleInv db →
    Meets callStep (fun db call => ¬call.rewritesSettled db) db calls →
      Meets callStep Call.followsLifecycle db calls
  | [], _, _, _ => trivial
  | call :: calls, db, hinv, h => by
      obtain ⟨hf, hnext⟩ := followsLifecycle_of hinv h.1
      refine ⟨hf, fun db' hdb' => ?_⟩
      obtain rfl := Option.some.inj hdb'
      exact meets_followsLifecycle hnext (h.2 _ rfl)

theorem meets_not_rewritesSettled : ∀ {calls : List Call} {db : Db},
    Meets callStep Call.followsLifecycle db calls →
      Meets callStep (fun db call => ¬call.rewritesSettled db) db calls
  | [], _, _ => trivial
  | _ :: _, _, h =>
      ⟨fun hr => not_followsLifecycle hr h.1, fun db' hdb' =>
        meets_not_rewritesSettled (h.2 db' hdb')⟩

/-- The lifecycle holds along a run of repository calls if and only if none of them rewrites a
settled row. -/
theorem respectsLifecycle_iff (calls : List Call) :
    RespectsLifecycle calls ↔
      Meets callStep (fun db call => ¬call.rewritesSettled db) Db.empty calls :=
  ⟨meets_not_rewritesSettled, meets_followsLifecycle lifecycleInv_empty⟩

/-- A worker that finishes its crawl and then releases it: the settled row still carries its name,
so the crawl is queued again, with a `finished_at`. -/
def releaseAfterFinish : List Call :=
  [.create 1 "https://a.test/".toList
      { concurrency := 10, timeout := 10, maxPages := none, maxBytes := 5000000,
        respectRobots := true } 0,
    .claim [] 1 "host:1" 1,
    .finish 1 "host:1" .finished (summary {} 0) none 2,
    .release 1 "host:1"]

theorem releaseAfterFinish_leaves_lifecycle : ¬RespectsLifecycle releaseAfterFinish := by
  intro h
  have hm := (respectsLifecycle_iff _).mp h
  refine (hm.2 _ rfl).2 _ rfl |>.2 _ rfl |>.1 ⟨_, rfl, ?_, ?_, ?_⟩ <;> decide

end UrlCrawler
