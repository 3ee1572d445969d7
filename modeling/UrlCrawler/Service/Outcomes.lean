import UrlCrawler.Service.LateStop
import UrlCrawler.Service.Lifecycle

/-! # A crawl that is over stays as it is

`finish` and `release` look at the worker's id alone, so a row that is terminal and still names its
worker could be written again. It is, when the answer to the final write was lost; what is written
then is what is already there, but for the time. So in the service as the workers run it, every
change of a crawl's state is an edge of the lifecycle, which the repository alone does not enforce.

`OwnerInv` says why: a worker that a row names has the crawl running, or has just recorded the state
and the error the row has.
-/
set_option autoImplicit false

namespace UrlCrawler
open Execution

/-- The state and the error the phase writes, or is about to write again. -/
def RecordPhase.writes : RecordPhase → Option (CrawlState × Option String)
  | .finishing state error _ | .retrying state error => some (state, error)
  | .releasing _ | .getting => none

/-- The row is as this recording leaves it. -/
structure Recording.Wrote (r : Recording) (row : Crawl) : Prop where
  writes : r.phase.writes = some (row.state, row.error)
  stats : row.stats = some r.stats
  terminal : row.state.terminal = true

/-- The row is the crawl the worker has running, or the one it has just recorded. -/
def WorkerState.Owns {T : CrawlTask} (state : WorkerState T) (row : Crawl) : Prop :=
  row.state = .running ∨ ∃ r, state = .recording r ∧ r.Wrote row

/-- The row has become `row'` at most in the time it was finished at. -/
def Crawl.Settled (row row' : Crawl) : Prop := row' = { row with finishedAt := row'.finishedAt }

theorem Crawl.Settled.refl (row : Crawl) : row.Settled row := rfl

theorem Crawl.Settled.trans {row row' row'' : Crawl} (h : row.Settled row')
    (h' : row'.Settled row'') : row.Settled row'' := by
  unfold Crawl.Settled at h h' ⊢
  rw [h', h]

theorem Crawl.Settled.state_eq {row row' : Crawl} (h : row.Settled row') :
    row'.state = row.state := by
  rw [h]

section
variable {T : CrawlTask} {settings : Settings}

/-! ## What a worker does next -/

theorem owns_move {state state' : WorkerState T} (hmove : Move settings state state') {row : Crawl}
    (h : state.Owns row) : state'.lease = none ∨ state'.Owns row := by
  cases hmove with
  | claim | emptyQueue | giveUp => exact .inl rfl
  | start crawl lease =>
    refine .inr (h.imp_right ?_)
    rintro ⟨r, hr, -⟩
    cases hr
  | record r a state hstep =>
    rcases h with hrunning | ⟨r', hr', hwrote⟩
    · exact .inr (.inl hrunning)
    obtain rfl := WorkerState.recording.inj hr'
    cases a with
    | returned =>
      simp only [Recording.step] at hstep
      split at hstep
      · exact .inl (by rw [← Option.some.inj hstep]; rfl)
      · rename_i hp
        have hwrites := hwrote.writes
        rw [hp] at hwrites
        cases hwrites
      · exact .inl (by rw [← Option.some.inj hstep]; rfl)
      · cases hstep
    | raised expired =>
      simp only [Recording.step] at hstep
      split at hstep
      · exact .inl (by rw [← Option.some.inj hstep]; rfl)
      · exact .inl (by rw [← Option.some.inj hstep]; rfl)
      · rename_i hp
        split at hstep
        · exact .inl (by rw [← Option.some.inj hstep]; rfl)
        · refine .inr (.inr ⟨_, (Option.some.inj hstep).symm, ?_, hwrote.stats, hwrote.terminal⟩)
          rw [← hwrote.writes, hp]
          rfl
      · cases hstep
    | got =>
      simp only [Recording.step] at hstep
      split at hstep
      · rename_i hp
        have hwrites := hwrote.writes
        rw [hp] at hwrites
        cases hwrites
      · cases hstep
    | retry =>
      simp only [Recording.step] at hstep
      split at hstep
      · rename_i hp
        refine .inr (.inr ⟨_, (Option.some.inj hstep).symm, ?_, hwrote.stats, hwrote.terminal⟩)
        rw [← hwrote.writes, hp]
        rfl
      · cases hstep

theorem owns_answer {state : WorkerState T} {row : Crawl} (h : state.Owns row) (reply : Reply)
    (slot : Slot) : (state.answer reply slot).Owns row := by
  refine h.imp_right ?_
  rintro ⟨r, rfl, hwrote⟩
  cases slot with
  | heartbeat | flush => exact ⟨r, rfl, hwrote⟩
  | record =>
    simp only [WorkerState.answer]
    split
    · rename_i hp
      have hwrites := hwrote.writes
      rw [hp] at hwrites
      cases hwrites
    · rename_i hp
      refine ⟨_, rfl, ?_, hwrote.stats, hwrote.terminal⟩
      rw [← hwrote.writes, hp]
      rfl
    · exact ⟨r, rfl, hwrote⟩

/-- A `finish` is the final write of a recording. -/
theorem issued_writes {state : WorkerState T} {worker : WorkerId} {now : Instant} {slot : Slot}
    {id : CrawlId} {worker' : WorkerId} {final : CrawlState} {stats : Summary}
    {error : Option String} {now' : Instant}
    (h : state.issued worker now slot = some (.finish id worker' final stats error now')) :
    slot = .record ∧ worker' = worker ∧
      ∃ r, state = .recording r ∧ r.crawl = id ∧ r.stats = stats ∧
        r.phase = .finishing final error .issued := by
  cases state with
  | recording r =>
    cases slot with
    | record =>
      simp only [WorkerState.issued] at h
      split at h
      · cases h
      · rename_i hp
        cases h
        exact ⟨rfl, rfl, r, rfl, rfl, rfl, hp⟩
      · cases h
    | heartbeat | flush => cases h
  | running job =>
    cases slot with
    | heartbeat =>
      simp only [WorkerState.issued] at h
      split at h <;> cases h
    | flush task =>
      obtain ⟨rows, -, hcall⟩ := Option.map_eq_some_iff.mp h
      cases hcall
    | record => cases h
  | idle | claiming | claimed => cases slot <;> cases h

/-- The final write, once it has landed. -/
theorem wrote_answer {state : WorkerState T} {worker : WorkerId} {now : Instant} {slot : Slot}
    {id : CrawlId} {worker' : WorkerId} {final : CrawlState} {stats : Summary}
    {error : Option String} {now' : Instant}
    (h : state.issued worker now slot = some (.finish id worker' final stats error now'))
    (hterminal : final.terminal = true) (reply : Reply) (row : Crawl) :
    (state.answer reply slot).Owns
      ((finishUpdate id worker' final stats error now').set row) := by
  obtain ⟨rfl, -, r, rfl, rfl, rfl, hp⟩ := issued_writes h
  refine .inr ⟨{ r with phase := .finishing final error (.answered reply) }, ?_, rfl, rfl,
    hterminal⟩
  simp only [WorkerState.answer, hp]

namespace System

/-! ## The invariant -/

structure OwnerInv (s : System T) : Prop where
  pages : PagesInv s
  owner : ∀ worker c n row, (s.workers worker).lease = some (c, n) →
    s.store.db.crawl.lookup c = some row → row.workerId = some worker → (s.workers worker).Owns row

theorem ownerInv_init : OwnerInv ({} : System T) where
  pages := pagesInv_init
  owner := by intro worker c n row h; cases h

/-- A row that keeps its worker under a call that leaves that worker's state alone. -/
theorem owns_called {s : System T} (h : OwnerInv s) {worker : WorkerId} {slot : Slot}
    {now : Instant} {call : Call} (hi : (s.workers worker).issued worker now slot = some call)
    {c : CrawlId} {n : ℕ} (hl : (s.workers worker).lease = some (c, n)) {row : Crawl}
    (hrow : s.store.db.crawl.lookup c = some row) (reply : Reply)
    (howner : (call.rowAfter s.store.db row).workerId = some worker) :
    ((s.workers worker).answer reply slot).Owns (call.rowAfter s.store.db row) := by
  obtain ⟨c', n', hl', hab, -⟩ := issued_spec hi
  obtain ⟨rfl, rfl⟩ := Prod.mk.inj (Option.some.inj (hl.symm.trans hl'))
  have hkept : row.workerId = some worker := by
    rw [← howner]
    refine ((rowAfter_workerId s.store.db row ?_).resolve_right (by simp [howner])).symm
    rintro skip want worker' now' rfl
    cases hab
  have howns := h.owner worker c n row hl hrow hkept
  cases call with
  | heartbeat id worker' stats now' =>
    simp only [Call.rowAfter, Update.onRow]
    split
    · rename_i hc
      exact .inl (heartbeatUpdate_cond hc).2.2
    · exact owns_answer howns reply slot
  | finish id worker' state stats error now' =>
    simp only [Call.rowAfter, Update.onRow]
    split
    · rename_i hterminal
      split
      · exact wrote_answer hi hterminal reply row
      · exact owns_answer howns reply slot
    · exact owns_answer howns reply slot
  | release id worker' =>
    simp only [Call.rowAfter, Update.onRow] at howner ⊢
    split at howner
    · cases howner
    · rename_i hc
      rw [if_neg hc]
      exact owns_answer howns reply slot
  | insertPages id worker' rows => exact owns_answer howns reply slot
  | create | claim | reap | requestCancel => cases hab

theorem ownerInv_step {s s' : System T} (h : OwnerInv s) (hs : SystemStep settings s s') :
    OwnerInv s' := by
  have hfence := h.pages.fence
  refine ⟨pagesInv_step h.pages hs, ?_⟩
  intro w c n row' hl hrow' howner
  cases hs with
  | external a store ha hstore =>
    obtain ⟨hnone, -⟩ | ⟨row, hrow, rfl | ⟨now, -, rfl⟩⟩ := external_row ha hstore hrow'
    · simp [hnone] at howner
    · exact h.owner w c n row' hl hrow howner
    · rw [cancelRow_workerId] at howner
      rcases h.owner w c n row hl hrow howner with hrunning | ⟨r, hr, hwrote⟩
      · exact .inl (by simp [cancelRow, hrunning, flagCancel])
      · have hsame : cancelRow now row = row := by
          have hterminal := hwrote.terminal
          cases hst : row.state with
          | queued | running => simp [hst, CrawlState.terminal] at hterminal
          | finished | failed | aborted => simp [cancelRow, hst]
        rw [hsame]
        exact .inr ⟨r, hr, hwrote⟩
  | reap id _ hreap =>
    obtain ⟨tx, htx, hstore, hworkers, -⟩ := commitReap_spec hreap
    rw [hworkers] at hl ⊢
    obtain ⟨row, hrow, ⟨-, rfl⟩ | hwrites⟩ := reaped_row hfence.tx htx hstore hrow'
    · exact h.owner w c n row' hl hrow howner
    · simp [writes_workerId hwrites] at howner
  | crash worker => exact h.owner w c n row' hl hrow' howner
  | claim worker skip want now hw store crawl hcall =>
    obtain ⟨-, hcrawl, hholder, hrunning, hothers, -⟩ := call_claim_spec hcall
    by_cases hc : c = crawl.id
    · subst hc
      obtain rfl := Option.some.inj (hcrawl.symm.trans hrow')
      exact .inl hrunning
    · have hne : w ≠ worker := by
        rintro rfl
        simp only [setWorker, Function.update_self] at hl
        exact hc (Prod.mk.inj (Option.some.inj hl)).1.symm
      have hsame : (s.setWorker worker (.claimed (some crawl) (s.leases crawl.id + 1))).workers w =
          s.workers w := Function.update_of_ne hne _ _
      rw [hothers c hc] at hrow'
      have howns := h.owner w c n row' (hsame ▸ hl) hrow' howner
      exact hsame.symm ▸ howns
  | commit worker slot now call hi _ hcommit =>
    obtain ⟨reply, hcall, hworkers, -⟩ := commit_spec hi hcommit
    obtain ⟨-, hdb, -, -⟩ := call_spec hcall
    obtain ⟨c₀, n₀, hl₀, hab, hissuer⟩ := issued_spec hi
    rw [hdb] at hrow'
    by_cases hw : w = worker
    · subst hw
      rw [hworkers, Function.update_self] at hl ⊢
      rw [lease_answer] at hl
      obtain ⟨row, hrow, rfl⟩ := called_row (by simp [hab]) hrow'
      exact owns_called h hi hl hrow reply howner
    · rw [hworkers, Function.update_of_ne hw] at hl ⊢
      have hkeep : s.store.db.crawl.lookup c = some row' := by
        by_cases hc : c = c₀
        · subst hc
          cases heff : call.takesEffect s.store.db with
          | false => rwa [exec_of_not_takesEffect hab heff] at hrow'
          | true =>
            -- the row is the caller's, so it does not name this worker
            obtain ⟨row, hrow, hholder⟩ := takesEffect_row hab heff
            obtain ⟨row₁, hrow₁, rfl⟩ := called_row (by simp [hab]) hrow'
            obtain rfl := Option.some.inj (hrow.symm.trans hrow₁)
            have hclaim : ∀ skip want worker' now', call ≠ .claim skip want worker' now' := by
              intro skip want worker' now' he
              subst he
              cases hab
            have hkept := (rowAfter_workerId s.store.db row hclaim).resolve_right (by
              simp [howner])
            rw [howner, hholder, hissuer] at hkept
            exact absurd (Option.some.inj hkept) hw
        · rwa [(exec_frame hab hc).1] at hrow'
      exact h.owner w c n row' hl hkeep howner
  | move worker state hmove =>
    by_cases hw : w = worker
    · subst hw
      have hstate : (s.setWorker w state).workers w = state := Function.update_self ..
      rw [hstate] at hl ⊢
      have hlease : (s.workers w).lease = some (c, n) := by
        rcases lease_move hmove with hnone | hsame
        · simp [hnone] at hl
        · exact hsame ▸ hl
      exact (owns_move hmove (h.owner w c n row' hlease hrow' howner)).resolve_left (by simp [hl])
    · have hsame : (s.setWorker worker state).workers w = s.workers w :=
        Function.update_of_ne hw _ _
      rw [hsame] at hl ⊢
      exact h.owner w c n row' hl hrow' howner
  | crawl worker job hjob a clock task htask =>
    by_cases hw : w = worker
    · subst hw
      have hlease : (s.workers w).lease = some (c, n) := by
        rw [hjob, ← hl]
        simp [setLog, setWorker, WorkerState.lease, Job.crawled]
      rcases h.owner w c n row' hlease hrow' howner with hrunning | ⟨r, hr, -⟩
      · exact .inl hrunning
      · simp [hjob] at hr
    · have hsame : (s.setWorker worker (.running (job.crawled task clock))).workers w =
          s.workers w := Function.update_of_ne hw _ _
      have howns := h.owner w c n row' (hsame ▸ hl) hrow' howner
      exact hsame.symm ▸ howns
  | job worker job hjob b state hstep =>
    by_cases hw : w = worker
    · subst hw
      have hstate : (s.setWorker w state).workers w = state := Function.update_self ..
      rw [hstate] at hl ⊢
      have hlease : (s.workers w).lease = some (c, n) := by
        rw [hjob]
        rcases lease_jobStep hstep with hnone | hsame
        · simp [hnone] at hl
        · rw [← hl, hsame]
          rfl
      rcases h.owner w c n row' hlease hrow' howner with hrunning | ⟨r, hr, -⟩
      · exact .inl hrunning
      · simp [hjob] at hr
    · have hsame : (s.setWorker worker state).workers w = s.workers w :=
        Function.update_of_ne hw _ _
      rw [hsame] at hl ⊢
      exact h.owner w c n row' hl hrow' howner

/-! ## A terminal row -/

theorem cancelRow_terminal {row : Crawl} (h : row.state.terminal = true) (now : Instant) :
    cancelRow now row = row := by
  cases hst : row.state with
  | queued | running => simp [hst, CrawlState.terminal] at h
  | finished | failed | aborted => simp [cancelRow, hst]

theorem external_terminal {store store' : Store} {a : StoreAction} (ha : a.external = true)
    (h : storeStep store a = some store') {c : CrawlId} {row : Crawl}
    (hrow : store.db.crawl.lookup c = some row) (hterminal : row.state.terminal = true) :
    store'.db.crawl.lookup c = some row := by
  cases a with
  | call call =>
    simp only [storeStep, Option.map_eq_some_iff] at h
    obtain ⟨⟨t, reply⟩, hcall, rfl⟩ := h
    obtain ⟨-, hdb, -, -⟩ := call_spec hcall
    rw [hdb, lookup_exec hrow]
    cases call with
    | create => rfl
    | requestCancel id now =>
      simp only [Call.rowAfter, cancelRow_terminal hterminal, ite_self]
    | claim | heartbeat | finish | release | reap | insertPages => cases ha
  | beginReap id leaseMicros maxAttempts now => rwa [(lookup_beginReap h).1]
  | statement id =>
    obtain ⟨_, _, _, _, _, hdb, _⟩ := statement_spec h
    rwa [hdb]
  | rollbackReap id =>
    obtain rfl := Option.some.inj h
    exact hrow
  | commitReap id => cases ha

/-- What the holder of a terminal row writes to it is the state and the error it has. -/
theorem rowAfter_wrote {state : WorkerState T} {worker : WorkerId} {slot : Slot} {now : Instant}
    {call : Call} (hi : state.issued worker now slot = some call) {row : Crawl} (howns : state.Owns row)
    (hnot : row.state ≠ .running) (db : Db) : row.Settled (call.rowAfter db row) := by
  obtain ⟨r, rfl, hwrote⟩ := howns.resolve_left hnot
  have hwrites := hwrote.writes
  cases slot with
  | record =>
    simp only [WorkerState.issued] at hi
    split at hi
    · rename_i hp
      rw [hp] at hwrites
      cases hwrites
    · rename_i state error hp
      rw [hp] at hwrites
      obtain ⟨rfl, rfl⟩ := Prod.mk.inj (Option.some.inj hwrites)
      obtain rfl := Option.some.inj hi
      simp only [Call.rowAfter, hwrote.terminal, if_true, Update.onRow]
      split
      · simp only [Crawl.Settled, finishUpdate, ← hwrote.stats]
      · exact .refl row
    · cases hi
  | heartbeat | flush => cases hi

/-- A step leaves a terminal row as it is, but for the time it was finished at, and its pages. -/
theorem settled_step {s s' : System T} (h : OwnerInv s) (hs : SystemStep settings s s')
    {c : CrawlId} {row : Crawl} (hrow : s.store.db.crawl.lookup c = some row)
    (hterminal : row.state.terminal = true) :
    (∃ row', s'.store.db.crawl.lookup c = some row' ∧ row.Settled row') ∧
      ∀ seq, s'.store.db.page.lookup (c, seq) = s.store.db.page.lookup (c, seq) := by
  have hnot : row.state ≠ .running ∧ row.state ≠ .queued := by
    constructor <;> intro hst <;> simp [hst, CrawlState.terminal] at hterminal
  refine ⟨?_, ?_⟩
  · cases hs with
    | external a store ha hstore =>
      exact ⟨row, external_terminal ha hstore hrow hterminal, .refl row⟩
    | reap id _ hreap =>
      obtain ⟨tx, htx, hstore, -⟩ := commitReap_spec hreap
      obtain ⟨tx', htx', -, hcrawl, -⟩ := UrlCrawler.commitReap_spec hstore
      refine ⟨tx'.overlay.onRow row, by rw [hcrawl, hrow, Option.map_some], ?_⟩
      rcases overlay_onRow (h.pages.fence.tx.writes id tx' htx') hrow with
        ⟨-, hsame⟩ | ⟨-, u, hu, hcond, -⟩
      · rw [hsame]
        exact .refl row
      · exact absurd (statement_cond_running hu hcond) hnot.1
    | claim worker skip want now hw store crawl hcall =>
      obtain ⟨⟨row₁, hrow₁, hqueued⟩, -, -, -, hothers, -⟩ := call_claim_spec hcall
      by_cases hc : c = crawl.id
      · subst hc
        obtain rfl := Option.some.inj (hrow.symm.trans hrow₁)
        exact absurd hqueued hnot.2
      · exact ⟨row, (hothers c hc).trans hrow, .refl row⟩
    | commit worker slot now call hi _ hcommit =>
      obtain ⟨reply, hcall, -⟩ := commit_spec hi hcommit
      obtain ⟨-, hdb, -, -⟩ := call_spec hcall
      obtain ⟨c₀, n, hl, hab, hissuer⟩ := issued_spec hi
      rw [hdb]
      by_cases hc : c = c₀
      · subst hc
        cases heff : call.takesEffect s.store.db with
        | false =>
          rw [exec_of_not_takesEffect hab heff]
          exact ⟨row, hrow, .refl row⟩
        | true =>
          obtain ⟨row₁, hrow₁, hholder⟩ := takesEffect_row hab heff
          obtain rfl := Option.some.inj (hrow.symm.trans hrow₁)
          have howns := h.owner worker c n row hl hrow (hholder.trans hissuer)
          exact ⟨_, lookup_exec hrow, rowAfter_wrote hi howns hnot.1 _⟩
      · rw [(exec_frame hab hc).1]
        exact ⟨row, hrow, .refl row⟩
    | crash | move | crawl | job => exact ⟨row, hrow, .refl row⟩
  · rcases pages_step h.pages hs c with hsame | hclaim | ⟨_, _, r, -, -, -, hr, hrunning⟩
    · exact hsame
    · rcases leases_step hs c with hsame | ⟨-, r, hr, hqueued⟩
      · omega
      · obtain rfl := Option.some.inj (hrow.symm.trans hr)
        exact absurd hqueued hnot.2
    · obtain rfl := Option.some.inj (hrow.symm.trans hr)
      exact absurd hrunning hnot.1

/-! ## How a row changes -/

/-- What a transaction makes of a row: what a call does to it, or a statement of a reap. -/
def RowMove (row row' : Crawl) : Prop := RowStep row row' ∨ ∃ tx : ReapTx, tx.Writes row row'

/-- A row stays, and moves on by one transaction at most. -/
theorem row_moves {s s' : System T} (h : FenceInv s) (hs : SystemStep settings s s') {c : CrawlId}
    {row : Crawl} (hrow : s.store.db.crawl.lookup c = some row) :
    ∃ row', s'.store.db.crawl.lookup c = some row' ∧ RowMove row row' := by
  have hcall : ∀ (call : Call), ∃ row', (call.exec s.store.db).1.crawl.lookup c = some row' ∧
      RowMove row row' := fun call => ⟨_, lookup_exec hrow, .inl (rowAfter_step hrow call)⟩
  cases hs with
  | external a store ha hstore =>
    cases a with
    | call call =>
      simp only [storeStep, Option.map_eq_some_iff] at hstore
      obtain ⟨⟨t, reply⟩, hstore, rfl⟩ := hstore
      obtain ⟨-, hdb, -, -⟩ := call_spec hstore
      exact hdb ▸ hcall call
    | beginReap id leaseMicros maxAttempts now =>
      exact ⟨row, (lookup_beginReap hstore).1 ▸ hrow, .inl .keep⟩
    | statement id =>
      obtain ⟨_, _, _, _, _, hdb, _⟩ := statement_spec hstore
      exact ⟨row, hdb ▸ hrow, .inl .keep⟩
    | rollbackReap id =>
      obtain rfl := Option.some.inj hstore
      exact ⟨row, hrow, .inl .keep⟩
    | commitReap id => cases ha
  | reap id _ hreap =>
    obtain ⟨tx, htx, hstore, -⟩ := commitReap_spec hreap
    obtain ⟨tx', htx', -, hcrawl, -⟩ := UrlCrawler.commitReap_spec hstore
    refine ⟨tx'.overlay.onRow row, by rw [hcrawl, hrow, Option.map_some], ?_⟩
    rcases overlay_onRow (h.tx.writes id tx' htx') hrow with ⟨-, hsame⟩ | ⟨-, hwrites⟩
    · rw [hsame]
      exact .inl .keep
    · exact .inr ⟨tx', hwrites⟩
  | claim worker skip want now hw store crawl hstore =>
    obtain ⟨-, hdb, -, -⟩ := call_spec hstore
    exact hdb ▸ hcall (.claim skip want worker now)
  | commit worker slot now call hi _ hcommit =>
    obtain ⟨reply, hstore, -⟩ := commit_spec hi hcommit
    obtain ⟨-, hdb, -, -⟩ := call_spec hstore
    exact hdb ▸ hcall call
  | crash | move | crawl | job => exact ⟨row, hrow, .inl .keep⟩

/-- A row that is new is queued, and nobody's. -/
theorem row_new {s s' : System T} (hs : SystemStep settings s s') {c : CrawlId}
    (hnone : s.store.db.crawl.lookup c = none) {row' : Crawl}
    (hrow' : s'.store.db.crawl.lookup c = some row') :
    row'.state = .queued ∧ row'.lifecycleInv := by
  have hkept : ¬s'.store.db.crawl.lookup c = s.store.db.crawl.lookup c := by
    rw [hrow', hnone]
    exact Option.some_ne_none _
  have hcall : ∀ (call : Call), (call.exec s.store.db).1.crawl.lookup c = some row' →
      row'.state = .queued ∧ row'.lifecycleInv := by
    intro call hlookup
    obtain ⟨seed, config, now, -, rfl⟩ := lookup_exec_none hnone hlookup
    exact ⟨rfl, fun _ => rfl, fun _ => rfl⟩
  cases hs with
  | external a store ha hstore =>
    cases a with
    | call call =>
      simp only [storeStep, Option.map_eq_some_iff] at hstore
      obtain ⟨⟨t, reply⟩, hstore, rfl⟩ := hstore
      obtain ⟨-, hdb, -, -⟩ := call_spec hstore
      exact hcall call (hdb ▸ hrow')
    | beginReap id leaseMicros maxAttempts now =>
      exact absurd (by rw [(lookup_beginReap hstore).1]) hkept
    | statement id =>
      obtain ⟨_, _, _, _, _, hdb, _⟩ := statement_spec hstore
      exact absurd (by rw [hdb]) hkept
    | rollbackReap id =>
      obtain rfl := Option.some.inj hstore
      exact absurd rfl hkept
    | commitReap id => cases ha
  | reap id _ hreap =>
    obtain ⟨tx, htx, hstore, -⟩ := commitReap_spec hreap
    obtain ⟨tx', htx', -, hcrawl, -⟩ := UrlCrawler.commitReap_spec hstore
    rw [hcrawl, hnone] at hrow'
    cases hrow'
  | claim worker skip want now hw store crawl hstore =>
    obtain ⟨-, hdb, -, -⟩ := call_spec hstore
    exact hcall (.claim skip want worker now) (hdb ▸ hrow')
  | commit worker slot now call hi _ hcommit =>
    obtain ⟨reply, hstore, -⟩ := commit_spec hi hcommit
    obtain ⟨-, hdb, -, -⟩ := call_spec hstore
    exact hcall call (hdb ▸ hrow')
  | crash | move | crawl | job => exact absurd rfl hkept

/-- A row moves along an edge of the lifecycle if its state does not change once it is terminal. -/
theorem rowMove_lifecycle {row row' : Crawl} (hinv : row.lifecycleInv) (h : RowMove row row')
    (hopen : row.state.terminal = true → row'.state = row.state) :
    (row'.state = row.state ∨ row.state.edge row'.state = true) ∧ row'.lifecycleInv := by
  rcases h with hstep | ⟨tx, u, hu, hcond, rfl⟩
  · exact rowStep_lifecycle hinv hstep fun _ _ => hopen
  · have hrunning := statement_cond_running hu hcond
    simp only [ReapTx.statements, reapStatements, List.mem_cons, List.not_mem_nil, or_false] at hu
    rcases hu with rfl | rfl | rfl
    · exact ⟨.inr (by simp [abortCancelled, hrunning, CrawlState.edge]), by simp [abortCancelled],
        fun ht => by simp [abortCancelled, CrawlState.terminal] at ht⟩
    · refine ⟨.inr (by simp [requeue, hrunning, CrawlState.edge]), by simp [requeue], ?_⟩
      intro _
      exact hinv.2 (by simp [hrunning, CrawlState.terminal])
    · exact ⟨.inr (by simp [giveUp, hrunning, CrawlState.edge]), by simp [giveUp],
        fun ht => by simp [giveUp, CrawlState.terminal] at ht⟩

/-- A step of the service moves each crawl along an edge of the lifecycle, if at all. -/
theorem lifecycle_step {s s' : System T} (h : OwnerInv s) (hinv : LifecycleInv s.store.db)
    (hs : SystemStep settings s s') {c : CrawlId} {row' : Crawl}
    (hrow' : s'.store.db.crawl.lookup c = some row') :
    (∀ row, s.store.db.crawl.lookup c = some row →
      row'.state = row.state ∨ row.state.edge row'.state = true) ∧ row'.lifecycleInv := by
  cases hrow : s.store.db.crawl.lookup c with
  | none =>
    refine ⟨fun row hrow₁ => ?_, (row_new hs hrow hrow').2⟩
    cases hrow₁
  | some row =>
    obtain ⟨row₁, hrow₁, hmove⟩ := row_moves h.pages.fence hs hrow
    obtain rfl := Option.some.inj (hrow'.symm.trans hrow₁)
    have hopen : row.state.terminal = true → row'.state = row.state := by
      intro hterminal
      obtain ⟨⟨row₁, hrow₁, hsettled⟩, -⟩ := settled_step h hs hrow hterminal
      obtain rfl := Option.some.inj (hrow'.symm.trans hrow₁)
      exact hsettled.state_eq
    obtain ⟨hedge, hnext⟩ := rowMove_lifecycle (hinv c row hrow) hmove hopen
    refine ⟨fun row₂ hrow₂ => ?_, hnext⟩
    obtain rfl := Option.some.inj hrow₂
    exact hedge

/-- What holds of the rows of the service. -/
structure RowsInv (s : System T) : Prop where
  owner : OwnerInv s
  lifecycle : LifecycleInv s.store.db

theorem rowsInv_step {s s' : System T} (h : RowsInv s) (hs : SystemStep settings s s') :
    RowsInv s' :=
  ⟨ownerInv_step h.owner hs, fun _ _ hrow' => (lifecycle_step h.owner h.lifecycle hs hrow').2⟩

theorem rowsInv_reaches {s : System T} (h : Reaches (step settings) {} s) : RowsInv s :=
  h.invariant ⟨ownerInv_init, lifecycleInv_empty⟩ fun _ _ _ hi hs => rowsInv_step hi (step_cases hs)

end System

/-- In the service as the workers run it every change of a crawl's state is an edge of the
lifecycle, and a crawl that is queued or running has no `finished_at`. -/
theorem service_followsLifecycle {s s' : System T} (h : Reaches (System.step settings) {} s)
    {a : SystemAct T} (hs : s.step settings a = some s') {c : CrawlId} {row' : Crawl}
    (hrow' : s'.store.db.crawl.lookup c = some row') :
    (∀ row, s.store.db.crawl.lookup c = some row →
      row'.state = row.state ∨ row.state.edge row'.state = true) ∧ row'.openUnfinished := by
  have hinv := System.rowsInv_reaches h
  obtain ⟨hedge, hnext⟩ :=
    System.lifecycle_step hinv.owner hinv.lifecycle (System.step_cases hs) hrow'
  exact ⟨hedge, hnext.2⟩

/-- Once a crawl is finished, failed or aborted, nothing that happens in the service changes its row
or its pages, but for the time it was finished at. -/
theorem terminal_settled {s : System T} (h : Reaches (System.step settings) {} s) {c : CrawlId}
    {row : Crawl} (hrow : s.store.db.crawl.lookup c = some row)
    (hterminal : row.state.terminal = true) {s' : System T}
    (hlater : Reaches (System.step settings) s s') :
    (∃ row', s'.store.db.crawl.lookup c = some row' ∧ row.Settled row') ∧
      ∀ seq, s'.store.db.page.lookup (c, seq) = s.store.db.page.lookup (c, seq) := by
  have hinv := (System.rowsInv_reaches h).owner
  let kept (t : System T) : Prop := System.OwnerInv t ∧
    (∃ row', t.store.db.crawl.lookup c = some row' ∧ row.Settled row') ∧
      ∀ seq, t.store.db.page.lookup (c, seq) = s.store.db.page.lookup (c, seq)
  have hkept : kept s' := by
    refine hlater.invariant (P := kept) ⟨hinv, ⟨row, hrow, .refl row⟩, fun _ => rfl⟩ ?_
    rintro t a t' ⟨hi, ⟨row', hrow', hsettled⟩, hpages⟩ ht
    have hstep := System.step_cases ht
    obtain ⟨⟨row'', hrow'', hsettled'⟩, hpages'⟩ :=
      System.settled_step hi hstep hrow' (hsettled.state_eq ▸ hterminal)
    exact ⟨System.ownerInv_step hi hstep, ⟨row'', hrow'', hsettled.trans hsettled'⟩,
      fun seq => (hpages' seq).trans (hpages seq)⟩
  exact hkept.2

end

/-- The final write of a crawl of one page. -/
theorem service_followsLifecycle_finish :
    ∃ s row s' row', run (System.step ⟨100, toString⟩) {}
        (stoppedTooLate false ++ [.job "host:1" (.clientClosed 5)]) = some s ∧
      s.store.db.crawl.lookup 1 = some row ∧
      s.step ⟨100, toString⟩ (.commit "host:1" .record 9) = some s' ∧
      s'.store.db.crawl.lookup 1 = some row' ∧ row'.state = .finished ∧
      (row'.state = row.state ∨ row.state.edge row'.state = true) := by
  have hrun : (run (System.step ⟨100, toString⟩) {}
      (stoppedTooLate false ++ [.job "host:1" (.clientClosed 5)])).any (fun s =>
        (s.store.db.crawl.lookup 1).isSome &&
        (s.step ⟨100, toString⟩ (.commit "host:1" .record 9)).any fun s' =>
          (s'.store.db.crawl.lookup 1).any fun row => decide (row.state = .finished)) = true := by
    decide +kernel
  obtain ⟨s, hs, hfacts⟩ := (Option.any_eq_true _ _).mp hrun
  simp only [Bool.and_eq_true, Option.any_eq_true, decide_eq_true_eq,
    Option.isSome_iff_exists] at hfacts
  obtain ⟨⟨row, hrow⟩, s', hs', row', hrow', hfinished⟩ := hfacts
  exact ⟨s, row, s', row', hs, hrow, hs', hrow', hfinished,
    (service_followsLifecycle ⟨_, hs⟩ hs' hrow').1 row hrow⟩

/-- A crawl of one page whose final write lands, is not acknowledged and is made again. -/
def recordedTwice : List (SystemAct (CrawlTask.replay [examplePage ""])) :=
  stoppedTooLate false ++ [.job "host:1" (.clientClosed 5), .commit "host:1" .record 9]

theorem terminal_settled_recordedTwice :
    ∃ s row s' row', run (System.step ⟨100, toString⟩) {} recordedTwice = some s ∧
      s.store.db.crawl.lookup 1 = some row ∧ row.finishedAt = some 9 ∧
      run (System.step ⟨100, toString⟩) s
        [.record "host:1" (.raised false), .record "host:1" .retry,
          .commit "host:1" .record 20] = some s' ∧
      s'.store.db.crawl.lookup 1 = some row' ∧ row'.finishedAt = some 20 ∧ row.Settled row' := by
  have hrun : (run (System.step ⟨100, toString⟩) {} recordedTwice).any (fun s =>
      ((s.store.db.crawl.lookup 1).any fun row =>
        decide (row.state.terminal = true ∧ row.finishedAt = some 9)) &&
      (run (System.step ⟨100, toString⟩) s
        [.record "host:1" (.raised false), .record "host:1" .retry,
          .commit "host:1" .record 20]).any fun s' =>
            (s'.store.db.crawl.lookup 1).any fun row => decide (row.finishedAt = some 20)) =
      true := by
    decide +kernel
  obtain ⟨s, hs, hfacts⟩ := (Option.any_eq_true _ _).mp hrun
  simp only [Bool.and_eq_true, Option.any_eq_true, decide_eq_true_eq] at hfacts
  obtain ⟨⟨row, hrow, hterminal, hnine⟩, s', hs', row', hrow', htwenty⟩ := hfacts
  obtain ⟨⟨row₁, hrow₁, hsettled⟩, -⟩ :=
    terminal_settled ⟨recordedTwice, hs⟩ hrow hterminal ⟨_, hs'⟩
  obtain rfl := Option.some.inj (hrow'.symm.trans hrow₁)
  exact ⟨s, row, s', row', hs, hrow, hnine, hs', hrow', htwenty, hsettled⟩

end UrlCrawler
