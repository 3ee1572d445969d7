import UrlCrawler.Service.System

/-! # The lease fence

The repository knows the holder of a crawl by its worker's id alone. A lease token would be the
number of the claim: only the job started by the last one may write, and only until that lease is
reaped or released. `fence_is_leaseToken` says that the comparison of ids lets nothing else through.

The invariant is about rows that carry a worker's id: the lease is still held, and if that worker is
about this crawl at all, then under the last lease. A worker that lost a lease and claims the same
crawl again has dropped the first job by then.
-/
set_option autoImplicit false

namespace UrlCrawler
open Execution

/-! ## Calls of a job -/

/-- The crawl a job's call is about. -/
def Call.about : Call → Option CrawlId
  | .heartbeat id .. | .finish id .. | .release id _ | .insertPages id .. => some id
  | _ => none

/-- Whether the call finds the row it writes to, or under whose lock it writes. -/
def Call.takesEffect (db : Db) (call : Call) : Bool := call.about.any (call.takesLock db)

/-- The worker a job's call names. -/
def Call.issuer : Call → Option WorkerId
  | .heartbeat _ worker .. | .finish _ worker .. | .release _ worker
  | .insertPages _ worker _ => some worker
  | _ => none

/-- The row a call writes to names the call's worker as its holder. -/
theorem takesEffect_row {db : Db} {call : Call} {c : CrawlId} (hab : call.about = some c)
    (h : call.takesEffect db = true) :
    ∃ r, db.crawl.lookup c = some r ∧ r.workerId = call.issuer := by
  simp only [Call.takesEffect, hab, Option.any_some] at h
  obtain ⟨r, hr, hc⟩ := (Option.any_eq_true _ _).mp h
  refine ⟨r, hr, ?_⟩
  cases call with
  | heartbeat id worker stats now => exact (heartbeatUpdate_cond hc).2.1
  | finish id worker state stats error now =>
    exact (finishUpdate_cond (Bool.and_eq_true_iff.mp hc).2).2
  | release id worker => exact (releaseUpdate_cond hc).2.1
  | insertPages id worker rows =>
    simp only [Bool.and_eq_true, decide_eq_true_eq] at hc
    exact hc.1.2
  | create | claim | reap | requestCancel => cases hab

/-- A call of a job that finds no row changes nothing. -/
theorem exec_of_not_takesEffect {db : Db} {call : Call} {c : CrawlId} (hab : call.about = some c)
    (h : call.takesEffect db = false) : (call.exec db).1 = db := by
  simp only [Call.takesEffect, hab, Option.any_some] at h
  have hrow : ∀ (u : CrawlUpdate), (∀ r, u.cond r = true → r.id = c) →
      (∀ r, db.crawl.lookup c = some r → u.cond r = false) → db.crawl.apply u = db.crawl := by
    intro u hu hcond
    refine KeyedTable.apply_of_not_matching fun k r hr => ?_
    by_contra hne
    have hid := hu r (by simpa using hne)
    rw [KeyedTable.lookup_key hr] at hid
    exact hne (hcond r (hid ▸ hr))
  cases call with
  | heartbeat id worker stats now =>
    obtain rfl := Option.some.inj hab
    have happly := hrow (heartbeatUpdate id worker stats now) (fun _ hu => (heartbeatUpdate_cond hu).1)
      fun r hr => by simpa [Call.takesLock, hr] using h
    simp only [Call.exec, Db.heartbeat, happly]
  | finish id worker state stats error now =>
    obtain rfl := Option.some.inj hab
    simp only [Call.exec]
    cases ht : state.terminal with
    | false => simp [Db.finish, ht]
    | true =>
      have happly := hrow (finishUpdate id worker state stats error now)
        (fun _ hu => (finishUpdate_cond hu).1)
        fun r hr => by simpa [Call.takesLock, hr, ht] using h
      simp only [finish_of_terminal ht, happly]
  | release id worker =>
    obtain rfl := Option.some.inj hab
    have happly := hrow (releaseUpdate id worker) (fun _ hu => (releaseUpdate_cond hu).1)
      fun r hr => by simpa [Call.takesLock, hr] using h
    simp only [Call.exec, Db.release, happly]
  | insertPages id worker rows =>
    obtain rfl := Option.some.inj hab
    simp only [Call.exec, Db.insertPages]
    cases hrows : rows.isEmpty with
    | true => simp
    | false =>
      have hown : db.owned id worker = false := by
        unfold Db.owned
        cases hr : db.crawl.lookup id with
        | none => rfl
        | some r =>
          have hid : r.id = id := KeyedTable.lookup_key hr
          simpa [Call.takesLock, hr, hrows, hid] using h
      simp [hown]
  | create | claim | reap | requestCancel => cases hab

/-- A call of a job leaves every other crawl alone. -/
theorem exec_frame {db : Db} {call : Call} {c c' : CrawlId} (hab : call.about = some c)
    (hne : c' ≠ c) : (call.exec db).1.crawl.lookup c' = db.crawl.lookup c' ∧
      ∀ seq, (call.exec db).1.page.lookup (c', seq) = db.page.lookup (c', seq) := by
  have hrow : ∀ (u : CrawlUpdate), (∀ r, u.cond r = true → r.id = c) →
      (db.crawl.apply u).lookup c' = db.crawl.lookup c' := by
    intro u hu
    rw [KeyedTable.lookup_apply]
    cases hr : db.crawl.lookup c' with
    | none => rfl
    | some r =>
      have hid : r.id = c' := KeyedTable.lookup_key hr
      rw [Option.map_some, Update.onRow_of_not_cond]
      by_contra hcond
      exact hne (hid ▸ hu r (by simpa using hcond))
  cases call with
  | heartbeat id worker stats now =>
    obtain rfl := Option.some.inj hab
    exact ⟨hrow (heartbeatUpdate id worker stats now) fun _ hu => (heartbeatUpdate_cond hu).1,
      fun _ => rfl⟩
  | finish id worker state stats error now =>
    obtain rfl := Option.some.inj hab
    simp only [Call.exec]
    cases ht : state.terminal with
    | false => simp [Db.finish, ht]
    | true =>
      simp only [finish_of_terminal ht]
      exact ⟨hrow (finishUpdate id worker state stats error now)
        fun _ hu => (finishUpdate_cond hu).1, fun _ => trivial⟩
  | release id worker =>
    obtain rfl := Option.some.inj hab
    exact ⟨hrow (releaseUpdate id worker) fun _ hu => (releaseUpdate_cond hu).1, fun _ => rfl⟩
  | insertPages id worker rows =>
    obtain rfl := Option.some.inj hab
    have hcrawl := crawl_insertPages db id worker rows
    refine ⟨?_, fun seq => ?_⟩
    · simp only [Call.exec]
      cases hi : db.insertPages id worker rows with
      | mk db' ok =>
        rw [hi] at hcrawl
        cases ok <;> simp_all
    · simp only [Call.exec, Db.insertPages]
      cases hrows : rows.isEmpty with
      | true => simp
      | false =>
        cases hown : db.owned id worker with
        | false => simp
        | true =>
          simp only [Bool.false_eq_true, if_false, if_true, KeyedTable.lookup_insertAllIgnore]
          have hnone : (rows.map fun row => ({ row with crawlId := id } : Page)).find?
              (fun p => p.key = (c', seq)) = none := by
            simp [Page.key, Ne.symm hne]
          rw [hnone]
          cases db.page.lookup (c', seq) <;> rfl
  | create | claim | reap | requestCancel => cases hab

/-- Only a claim puts a worker's id into a row. -/
theorem rowAfter_workerId (db : Db) (r : Crawl) {call : Call}
    (hclaim : ∀ skip want worker now, call ≠ .claim skip want worker now) :
    (call.rowAfter db r).workerId = r.workerId ∨ (call.rowAfter db r).workerId = none := by
  cases call with
  | claim skip want worker now => exact absurd rfl (hclaim skip want worker now)
  | create | insertPages => exact .inl rfl
  | heartbeat id worker stats now =>
    simp only [Call.rowAfter, Update.onRow]
    split <;> exact .inl rfl
  | finish id worker state stats error now =>
    simp only [Call.rowAfter, Update.onRow]
    split
    · split <;> exact .inl rfl
    · exact .inl rfl
  | release id worker =>
    simp only [Call.rowAfter, Update.onRow]
    split
    · exact .inr rfl
    · exact .inl rfl
  | reap leaseMicros maxAttempts now =>
    simp only [Call.rowAfter, reapRow]
    split
    · split
      · exact .inr rfl
      · split <;> exact .inr rfl
    · exact .inl rfl
  | requestCancel id now =>
    simp only [Call.rowAfter]
    split
    · exact .inl (cancelRow_workerId now r)
    · exact .inl rfl

/-! ## What a worker is about -/

section
variable {T : CrawlTask} {settings : Settings}

theorem issued_spec {state : WorkerState T} {worker : WorkerId} {now : Instant} {slot : Slot}
    {call : Call} (h : state.issued worker now slot = some call) :
    ∃ c n, state.lease = some (c, n) ∧ call.about = some c ∧ call.issuer = some worker := by
  cases state with
  | idle | claiming | claimed => cases slot <;> simp [WorkerState.issued] at h
  | running job =>
    refine ⟨job.crawl, job.lease, rfl, ?_⟩
    cases slot with
    | heartbeat =>
      simp only [WorkerState.issued] at h
      split at h
      · obtain rfl := Option.some.inj h
        exact ⟨rfl, rfl⟩
      · cases h
    | flush task =>
      obtain ⟨rows, -, rfl⟩ := Option.map_eq_some_iff.mp h
      exact ⟨rfl, rfl⟩
    | record => simp [WorkerState.issued] at h
  | recording r =>
    refine ⟨r.crawl, r.lease, rfl, ?_⟩
    cases slot with
    | heartbeat | flush => simp [WorkerState.issued] at h
    | record =>
      simp only [WorkerState.issued] at h
      split at h
      · obtain rfl := Option.some.inj h
        exact ⟨rfl, rfl⟩
      · obtain rfl := Option.some.inj h
        exact ⟨rfl, rfl⟩
      · cases h

@[simp] theorem lease_answer (state : WorkerState T) (reply : Reply) (slot : Slot) :
    (state.answer reply slot).lease = state.lease := by
  unfold WorkerState.answer
  split
  · split <;> rfl
  · rfl
  · split <;> rfl
  · rfl

theorem lease_record (job : Job T) (state : CrawlState) (error : Option String)
    (stats : Summary) : (job.record state error stats).lease = none ∨
      (job.record state error stats).lease = some (job.crawl, job.lease) := by
  unfold Job.record
  split
  · exact .inl rfl
  · exact .inr rfl
  · exact .inr rfl

/-- A job stays about its crawl and lease until it is over. -/
theorem lease_jobStep {job : Job T} {a : JobAct T} {state : WorkerState T} (h : JobStep job a state) :
    state.lease = none ∨ state.lease = some (job.crawl, job.lease) := by
  cases h with
  | gone => exact .inl rfl
  | record => exact lease_record job _ _ _
  | _ => exact .inr rfl

theorem lease_runJob (settings : Settings) (row : Crawl) (n : ℕ) :
    (runJob T settings row n).lease = some (row.id, n) := by
  unfold runJob
  split <;> rfl

theorem lease_move {state state' : WorkerState T} (h : Move settings state state') :
    state'.lease = none ∨ state'.lease = state.lease := by
  cases h with
  | claim | emptyQueue | giveUp => exact .inl rfl
  | start row lease => exact .inr (lease_runJob settings row lease)
  | record r a state hstep =>
    obtain rfl | ⟨phase, rfl, -⟩ := Recording.step_cases hstep
    · exact .inl rfl
    · exact .inr rfl

namespace System

/-! ## The invariant -/

/-- A row that names a worker is under a lease that is still held, and a worker it names is about
it, if at all, under that lease. -/
structure FenceInv (s : System T) : Prop where
  tx : TxInv s.store
  held : ∀ c r worker, s.store.db.crawl.lookup c = some r → r.workerId = some worker →
    s.held c = true
  bound : ∀ worker c n, (s.workers worker).lease = some (c, n) → n ≤ s.leases c
  owner : ∀ worker c n r, (s.workers worker).lease = some (c, n) →
    s.store.db.crawl.lookup c = some r → r.workerId = some worker → n = s.leases c
  unique : ∀ worker worker' x, (s.workers worker).lease = some x →
    (s.workers worker').lease = some x → worker = worker'

theorem fenceInv_init : FenceInv ({} : System T) where
  tx := txInv_init
  held := by intro c r worker h; cases h
  bound := by intro worker c n h; cases h
  owner := by intro worker c n r h; cases h
  unique := by intro worker worker' x h; cases h

/-- A step that starts no lease: workers only drop theirs, rows only lose their worker, and a row
that keeps its worker keeps its lease. -/
theorem FenceInv.mono {s s' : System T} (h : FenceInv s) (htx : TxInv s'.store)
    (hleases : s'.leases = s.leases)
    (hrows : ∀ c r' worker, s'.store.db.crawl.lookup c = some r' → r'.workerId = some worker →
      (∃ r, s.store.db.crawl.lookup c = some r ∧ r.workerId = some worker) ∧
        s'.held c = s.held c)
    (hworkers : ∀ worker x, (s'.workers worker).lease = some x →
      (s.workers worker).lease = some x) : FenceInv s' where
  tx := htx
  held := by
    intro c r' worker hr' hw
    obtain ⟨⟨r, hr, hrw⟩, hheld⟩ := hrows c r' worker hr' hw
    rw [hheld]
    exact h.held c r worker hr hrw
  bound := by
    intro worker c n hl
    rw [hleases]
    exact h.bound worker c n (hworkers worker _ hl)
  owner := by
    intro worker c n r' hl hr' hw
    obtain ⟨⟨r, hr, hrw⟩, -⟩ := hrows c r' worker hr' hw
    rw [hleases]
    exact h.owner worker c n r (hworkers worker _ hl) hr hrw
  unique worker worker' x hl hl' :=
    h.unique worker worker' x (hworkers worker x hl) (hworkers worker' x hl')

/-- Setting a worker to a state with the same lease, or with none. -/
theorem lease_setWorker {s : System T} {worker : WorkerId} {state : WorkerState T}
    (h : state.lease = none ∨ state.lease = (s.workers worker).lease) (other : WorkerId)
    (x : CrawlId × ℕ) (hl : ((s.setWorker worker state).workers other).lease = some x) :
    (s.workers other).lease = some x := by
  simp only [setWorker, Function.update_apply] at hl
  split at hl
  · rename_i he
    subst he
    rcases h with h | h
    · rw [h] at hl
      cases hl
    · rw [← h]
      exact hl
  · exact hl

/-- What a committing reap makes of a row: nothing, or a row without a worker. -/
theorem reaped_row {store store' : Store} (hinv : TxInv store) {id : ReapId} {tx : ReapTx}
    (htx : store.reaps.lookup id = some tx) (h : store.commitReap id = some store') {c : CrawlId}
    {r' : Crawl} (hr' : store'.db.crawl.lookup c = some r') :
    ∃ r, store.db.crawl.lookup c = some r ∧
      (tx.locks c = false ∧ r' = r ∨ tx.Writes r r') := by
  obtain ⟨tx', htx', -, hcrawl, -⟩ := UrlCrawler.commitReap_spec h
  obtain rfl : tx = tx' := Option.some.inj (htx.symm.trans htx')
  rw [hcrawl, Option.map_eq_some_iff] at hr'
  obtain ⟨r, hr, rfl⟩ := hr'
  refine ⟨r, hr, ?_⟩
  rcases overlay_onRow (hinv.writes id tx htx) hr with ⟨hfree, hsame⟩ | ⟨-, hwrites⟩
  · exact .inl ⟨by simp [ReapTx.locks, hfree], hsame⟩
  · exact .inr hwrites

theorem writes_workerId {tx : ReapTx} {r r' : Crawl} (h : tx.Writes r r') : r'.workerId = none := by
  obtain ⟨u, hu, -, rfl⟩ := h
  simp only [ReapTx.statements, reapStatements, List.mem_cons, List.not_mem_nil, or_false] at hu
  rcases hu with rfl | rfl | rfl <;> rfl

/-- A call that is not a claim leaves a row its worker or none. -/
theorem called_row {db : Db} {call : Call} (hab : call.about ≠ none) {c : CrawlId} {r' : Crawl}
    (hr' : (call.exec db).1.crawl.lookup c = some r') :
    ∃ r, db.crawl.lookup c = some r ∧ r' = call.rowAfter db r := by
  cases hr : db.crawl.lookup c with
  | none =>
    obtain ⟨_, _, _, rfl, -⟩ := lookup_exec_none hr hr'
    exact absurd rfl hab
  | some r =>
    rw [lookup_exec hr] at hr'
    exact ⟨r, rfl, (Option.some.inj hr').symm⟩

/-- After a release that requeued, nobody holds the crawl. -/
theorem released_row {db : Db} {id : CrawlId} {worker : WorkerId}
    (h : ((Call.release id worker).exec db).2 = .released true) {r : Crawl}
    (hr : db.crawl.lookup id = some r) :
    ((Call.release id worker).rowAfter db r).workerId = none := by
  simp only [Call.exec, Reply.released.injEq, release_reply, hr, Option.any_some] at h
  simp only [Call.rowAfter, Update.onRow_of_cond h]
  rfl

theorem fenceInv_step {s s' : System T} (h : FenceInv s) (hs : SystemStep settings s s') :
    FenceInv s' := by
  cases hs with
  | external a store ha hstore =>
    refine h.mono (storeStep_txInv h.tx hstore) rfl (fun c r' worker hr' hw => ?_) fun _ _ hl => hl
    refine ⟨?_, rfl⟩
    obtain ⟨hnone, -⟩ | ⟨r, hr, rfl | ⟨now, -, rfl⟩⟩ := external_row ha hstore hr'
    · simp [hnone] at hw
    · exact ⟨r', hr, hw⟩
    · exact ⟨r, hr, (cancelRow_workerId now r).symm.trans hw⟩
  | reap id _ hreap =>
    obtain ⟨tx, htx, hstore, hworkers, hleases, -, -, hheld⟩ := commitReap_spec hreap
    refine h.mono (storeStep_txInv h.tx (a := .commitReap id) hstore) hleases
      (fun c r' worker hr' hw => ?_) fun _ _ hl => hworkers ▸ hl
    obtain ⟨r, hr, ⟨hfree, rfl⟩ | hwrites⟩ := reaped_row h.tx htx hstore hr'
    · exact ⟨⟨r', hr, hw⟩, by simp [hheld, hfree]⟩
    · simp [writes_workerId hwrites] at hw
  | crash worker => exact h.mono h.tx rfl (fun c r' _ hr' hw => ⟨⟨r', hr', hw⟩, rfl⟩) fun _ _ hl => hl
  | claim worker skip want now hw store row hcall =>
    obtain ⟨-, hrow, hholder, -, hothers, -⟩ := call_claim_spec hcall
    have hidle : (s.workers worker).lease = none := by rw [hw]; rfl
    have hlease : ∀ other x, ((s.setWorker worker (.claimed (some row)
        (s.leases row.id + 1))).workers other).lease = some x →
        other = worker ∧ x = (row.id, s.leases row.id + 1) ∨
          other ≠ worker ∧ (s.workers other).lease = some x := by
      intro other x hl
      simp only [setWorker, Function.update_apply] at hl
      split at hl
      · rename_i he
        exact .inl ⟨he, (Option.some.inj hl).symm⟩
      · rename_i hne
        exact .inr ⟨hne, hl⟩
    refine ⟨storeStep_txInv h.tx (a := .call (.claim skip want worker now))
      (by simp [storeStep, hcall]), ?_, ?_, ?_, ?_⟩
    · intro c r holder hr hh
      by_cases hc : c = row.id
      · simp [hc]
      · rw [hothers c hc] at hr
        simpa [hc] using h.held c r holder hr hh
    · intro other c n hl
      rcases hlease other _ hl with ⟨-, he⟩ | ⟨-, hl'⟩
      · obtain ⟨rfl, rfl⟩ := Prod.mk.inj he
        simp
      · have hle := h.bound other c n hl'
        by_cases hc : c = row.id
        · subst hc
          simpa using hle.trans (Nat.le_succ _)
        · simpa [hc] using hle
    · intro other c n r hl hr hh
      rcases hlease other _ hl with ⟨-, he⟩ | ⟨hne, hl'⟩
      · obtain ⟨rfl, rfl⟩ := Prod.mk.inj he
        simp
      · by_cases hc : c = row.id
        · -- the row now names the claiming worker, which is not this one
          subst hc
          obtain rfl := Option.some.inj (hrow.symm.trans hr)
          exact absurd (Option.some.inj (hh.symm.trans hholder)) hne
        · rw [hothers c hc] at hr
          simpa [hc] using h.owner other c n r hl' hr hh
    · intro other other' x hl hl'
      rcases hlease other x hl with ⟨he, hx⟩ | ⟨-, hx⟩ <;>
        rcases hlease other' x hl' with ⟨he', hx'⟩ | ⟨-, hx'⟩
      · exact he.trans he'.symm
      · subst hx
        have := h.bound other' _ _ hx'
        omega
      · subst hx'
        have := h.bound other _ _ hx
        omega
      · exact h.unique other other' x hx hx'
  | commit worker slot now call hi _ hcommit =>
    obtain ⟨reply, hcall, hworkers, hleases, -, hheld, -⟩ := commit_spec hi hcommit
    obtain ⟨-, hdb, -, hreply⟩ := call_spec hcall
    obtain ⟨c₀, n, -, hab, -⟩ := issued_spec hi
    refine h.mono (storeStep_txInv h.tx (a := .call call) (by simp [storeStep, hcall])) hleases
      (fun c r' holder hr' hw => ?_) fun other x hl => ?_
    · rw [hdb] at hr'
      obtain ⟨r, hr, rfl⟩ := called_row (by simp [hab]) hr'
      have hkeep : (call.rowAfter s.store.db r).workerId = r.workerId := by
        refine (rowAfter_workerId s.store.db r ?_).resolve_right (by simp [hw])
        rintro skip want worker' now' rfl
        cases hab
      refine ⟨⟨r, hr, hkeep ▸ hw⟩, ?_⟩
      rw [hheld]
      unfold heldAfter
      split
      · rename_i id worker'
        have hne : c ≠ id := by
          rintro rfl
          simp [released_row hreply.symm hr] at hw
        simp [hne]
      · rfl
    · rw [hworkers] at hl
      exact lease_setWorker (.inr (lease_answer _ reply slot)) other x hl
  | move worker state hmove =>
    exact h.mono h.tx rfl (fun c r' _ hr' hw => ⟨⟨r', hr', hw⟩, rfl⟩)
      (lease_setWorker (lease_move hmove))
  | crawl worker job hw a clock task htask =>
    exact h.mono h.tx rfl (fun c r' _ hr' hw => ⟨⟨r', hr', hw⟩, rfl⟩)
      (lease_setWorker (.inr (by rw [hw]; rfl)))
  | job worker job hw b state hstep =>
    exact h.mono h.tx rfl (fun c r' _ hr' hw => ⟨⟨r', hr', hw⟩, rfl⟩)
      (lease_setWorker (by rw [hw]; exact lease_jobStep hstep))

theorem fenceInv_reaches {s : System T} (h : Reaches (step settings) {} s) : FenceInv s :=
  h.invariant fenceInv_init fun _ _ _ hi hs => fenceInv_step hi (step_cases hs)

/-- The lease `n` of crawl `c` is its last one, neither reaped nor released. -/
def Current (s : System T) (c : CrawlId) (n : ℕ) : Prop := n = s.leases c ∧ s.held c = true

/-- A call that takes effect comes from the current lease of its crawl. -/
theorem FenceInv.current {s : System T} (h : FenceInv s) {worker : WorkerId} {slot : Slot}
    {now : Instant} {call : Call} (hi : (s.workers worker).issued worker now slot = some call)
    {c : CrawlId} {n : ℕ} (hl : (s.workers worker).lease = some (c, n))
    (heff : call.takesEffect s.store.db = true) : call.about = some c ∧ s.Current c n := by
  obtain ⟨c', n', hl', hab, hissuer⟩ := issued_spec hi
  obtain ⟨rfl, rfl⟩ := Prod.mk.inj (Option.some.inj (hl.symm.trans hl'))
  obtain ⟨r, hr, hw⟩ := takesEffect_row hab heff
  rw [hissuer] at hw
  exact ⟨hab, h.owner worker c n r hl hr hw, h.held c r worker hr hw⟩

end System

/-- The worker whose job takes the step. -/
def SystemAct.byJobOf : SystemAct T → Option WorkerId
  | .commit worker .. | .job worker _ | .record worker _ => some worker
  | _ => none

/-- The fence is as strong as a lease token: whatever step the job of a lease takes, a repository
call of it takes effect only while the lease is its crawl's last, neither reaped nor released; once
it is not, the step leaves the whole database as it is; and no other crawl is ever touched. -/
theorem fence_is_leaseToken {s s' : System T} (h : Reaches (System.step settings) {} s)
    {worker : WorkerId} {a : SystemAct T} (ha : a.byJobOf = some worker)
    (hs : s.step settings a = some s') :
    ∃ c n, (s.workers worker).lease = some (c, n) ∧
      (∀ slot now call, a = .commit worker slot now →
        (s.workers worker).issued worker now slot = some call →
        call.takesEffect s.store.db = true → call.about = some c ∧ s.Current c n) ∧
      (¬s.Current c n → s'.store.db = s.store.db) ∧
      ∀ c', c' ≠ c → s'.store.db.crawl.lookup c' = s.store.db.crawl.lookup c' ∧
        ∀ seq, s'.store.db.page.lookup (c', seq) = s.store.db.page.lookup (c', seq) := by
  have hinv := System.fenceInv_reaches h
  cases a with
  | commit w slot now =>
    obtain rfl := Option.some.inj ha
    cases hi : (s.workers w).issued w now slot with
    | none => simp [System.step, System.commit, hi] at hs
    | some call =>
      obtain ⟨c, n, hl, hab, -⟩ := issued_spec hi
      obtain ⟨reply, hcall, -⟩ := System.commit_spec hi hs
      obtain ⟨-, hdb, -, -⟩ := call_spec hcall
      refine ⟨c, n, hl, fun slot' now' call' he hi' heff => ?_, fun hgone => ?_, fun c' hne => ?_⟩
      · cases he
        exact hinv.current hi' hl heff
      · rw [hdb]
        refine exec_of_not_takesEffect hab ?_
        by_contra heff
        exact hgone (hinv.current hi hl (by simpa using heff)).2
      · rw [hdb]
        exact exec_frame hab hne
  | job w a =>
    obtain rfl := Option.some.inj ha
    have hs' := System.alive_some hs
    cases hw : s.workers w with
    | running job =>
      simp only [System.job, hw, Option.map_eq_some_iff] at hs'
      obtain ⟨state, -, rfl⟩ := hs'
      exact ⟨job.crawl, job.lease, rfl, by simp, fun _ => rfl, fun _ _ => ⟨rfl, fun _ => rfl⟩⟩
    | idle | claiming | claimed | recording => simp [System.job, hw] at hs'
  | record w a =>
    obtain rfl := Option.some.inj ha
    have hs' := System.alive_some hs
    cases hw : s.workers w with
    | recording r =>
      simp only [System.record, hw, Option.map_eq_some_iff] at hs'
      obtain ⟨state, -, rfl⟩ := hs'
      exact ⟨r.crawl, r.lease, rfl, by simp, fun _ => rfl, fun _ _ => ⟨rfl, fun _ => rfl⟩⟩
    | idle | claiming | claimed | running => simp [System.record, hw] at hs'
  | create | requestCancel | beginReap | statement | commitReap | rollbackReap | crash | claim
  | claimCommit | claimReturned | claimRaised => cases ha

end

/-- One worker claims a crawl and falls silent, the crawl is reaped and another worker claims it,
and then the first one's heartbeat comes through. -/
def lateHeartbeat : List (SystemAct (CrawlTask.replay [])) :=
  [.create 1 "https://a.test/".toList
      { concurrency := 10, timeout := 10, maxPages := none, maxBytes := 5000000,
        respectRobots := true } 0,
    .claim "host:1", .claimCommit "host:1" [] 1 1, .claimReturned "host:1",
    .job "host:1" (.beat 5),
    .beginReap 0 30 3 100, .statement 0, .statement 0, .statement 0, .commitReap 0,
    .claim "host:2", .claimCommit "host:2" [] 1 101]

theorem fence_is_leaseToken_lateHeartbeat :
    ∃ s s', run (System.step ⟨100, toString⟩) {} lateHeartbeat = some s ∧
      s.step ⟨100, toString⟩ (.commit "host:1" .heartbeat 102) = some s' ∧
      s.leases 1 = 2 ∧ s'.store.db = s.store.db := by
  have hrun : (run (System.step ⟨100, toString⟩) {} lateHeartbeat).any (fun s =>
      decide (s.leases 1 = 2 ∧ (s.workers "host:1").lease = some (1, 1) ∧
        (s.step ⟨100, toString⟩ (.commit "host:1" .heartbeat 102)).isSome)) = true := by
    decide +kernel
  obtain ⟨s, hs, hfacts⟩ := (Option.any_eq_true _ _).mp hrun
  obtain ⟨hleases, hlease, hstep⟩ := of_decide_eq_true hfacts
  obtain ⟨s', hs'⟩ := Option.isSome_iff_exists.mp hstep
  obtain ⟨c, n, hl, -, hgone, -⟩ := fence_is_leaseToken ⟨lateHeartbeat, hs⟩ rfl hs'
  obtain ⟨rfl, rfl⟩ := Prod.mk.inj (Option.some.inj (hlease.symm.trans hl))
  exact ⟨s, s', hs, hs', hleases, hgone fun hcur => by simp [System.Current, hleases] at hcur⟩

end UrlCrawler
