import UrlCrawler.Service.Calls

/-! # Transactions that interleave

Every repository call but `reap` is one statement, or a few under one row lock, and is atomic.
`reap` is three `UPDATE` statements in one READ COMMITTED transaction: each statement sees what has
committed so far, other transactions may commit in between on rows `reap` has not written yet, and
the rows it has written stay locked, their new versions unseen by anybody else, until it commits.

A `Store` is the committed database and the reaps under way. `TxInv` says what an open reap holds:
versions made from the committed rows by one of its statements, on rows nobody else holds.
-/
set_option autoImplicit false

namespace UrlCrawler

abbrev ReapId := ℕ

/-- A `reap` under way: its arguments, the `now()` it started with, how many of its statements have
run and the row versions they wrote. -/
structure ReapTx where
  id : ReapId
  leaseMicros : ℤ
  maxAttempts : ℤ
  now : Instant
  ran : ℕ := 0
  writes : CrawlId → Option Crawl := fun _ => none

def ReapTx.statements (tx : ReapTx) : List CrawlUpdate :=
  reapStatements tx.leaseMicros tx.maxAttempts tx.now

/-- The version of a committed row that the transaction's own statements see. -/
def ReapTx.version (tx : ReapTx) (r : Crawl) : Crawl := (tx.writes r.id).getD r

def ReapTx.locks (tx : ReapTx) (c : CrawlId) : Bool := (tx.writes c).isSome

structure Store where
  db : Db := Db.empty
  reaps : KeyedTable ReapId ReapTx ReapTx.id := KeyedTable.empty

def Store.locked (s : Store) (c : CrawlId) : Bool := s.reaps.rows.any fun tx => tx.locks c

/-! ## Atomic calls -/

/-- Whether the call takes the lock of row `c`, which it does on the rows it matches. A claim skips
locked rows instead of waiting for them. -/
def Call.takesLock (db : Db) (call : Call) (c : CrawlId) : Bool :=
  (db.crawl.lookup c).any fun r =>
    match call with
    | .heartbeat id worker stats now => (heartbeatUpdate id worker stats now).cond r
    | .finish id worker state stats error now =>
      state.terminal && (finishUpdate id worker state stats error now).cond r
    | .release id worker => (releaseUpdate id worker).cond r
    | .requestCancel id _ => r.id = id
    | .insertPages id worker rows =>
      !rows.isEmpty && r.id = id && r.workerId = some worker && r.state = .running
    | .claim .. | .create .. | .reap .. => false

/-- The call need not wait: no row it locks is held by an open reap, and a claim skips those. -/
def Store.admits (s : Store) (call : Call) : Bool :=
  s.db.crawl.rows.all fun r => !s.locked r.id ||
    match call with
    | .claim skip _ _ _ => r.id ∈ skip
    | .reap .. => false
    | call => !call.takesLock s.db r.id

/-- Run a call now; `none` while it waits for a lock. A `reap` is run by `beginReap`. -/
def Store.call (s : Store) (call : Call) : Option (Store × Reply) :=
  match call with
  | .reap .. => none
  | call =>
    if s.admits call then some ({ s with db := (call.exec s.db).1 }, (call.exec s.db).2) else none

/-! ## Reaps, statement by statement -/

/-- Begin a `reap`. -/
def Store.beginReap (s : Store) (id : ReapId) (leaseMicros maxAttempts : ℤ) (now : Instant) :
    Option Store :=
  match s.reaps.lookup id with
  | some _ => none
  | none =>
    some { s with reaps := s.reaps.insertIgnore { id, leaseMicros, maxAttempts, now } }

/-- The writes of a reap after it has run the statement `u`. -/
def ReapTx.execute (tx : ReapTx) (db : Db) (u : CrawlUpdate) : ReapTx :=
  { tx with
    ran := tx.ran + 1
    writes := fun c =>
      match db.crawl.lookup c with
      | some r => if u.cond (tx.version r) then some (u.set (tx.version r)) else tx.writes c
      | none => tx.writes c }

/-- Put `tx` in the place of the open reap with its id. -/
def replaceReap (tx : ReapTx) : Update ReapId ReapTx ReapTx.id where
  cond old := old.id = tx.id
  set old := { tx with id := old.id }
  set_key _ := rfl

/-- Whether the statement `u` of `tx` matches a row another open reap holds, and so has to wait. -/
def Store.blocked (s : Store) (tx : ReapTx) (u : CrawlUpdate) : Bool :=
  s.db.crawl.rows.any fun r => u.cond (tx.version r) &&
    s.reaps.rows.any fun other => other.id ≠ tx.id && other.locks r.id

/-- Run the next statement of an open reap. -/
def Store.statement (s : Store) (id : ReapId) : Option Store :=
  match s.reaps.lookup id with
  | none => none
  | some tx =>
    match tx.statements[tx.ran]? with
    | none => none
    | some u =>
      if s.blocked tx u then none
      else some { s with reaps := s.reaps.apply (replaceReap (tx.execute s.db u)) }

/-- Put the versions a reap wrote in the place of the committed rows. -/
def ReapTx.overlay (tx : ReapTx) : CrawlUpdate where
  cond r := (tx.writes r.id).isSome
  set r := { tx.version r with id := r.id }
  set_key _ := rfl

/-- Commit a reap whose statements have all run. -/
def Store.commitReap (s : Store) (id : ReapId) : Option Store :=
  match s.reaps.lookup id with
  | none => none
  | some tx =>
    if tx.ran = tx.statements.length then
      some
        { db := { s.db with crawl := s.db.crawl.apply tx.overlay }
          reaps := s.reaps.deleteWhere fun tx => tx.id = id }
    else none

/-- Roll an open reap back, or lose its connection. -/
def Store.rollbackReap (s : Store) (id : ReapId) : Option Store :=
  some { s with reaps := s.reaps.deleteWhere fun tx => tx.id = id }

inductive StoreAction
  | call (call : Call)
  | beginReap (id : ReapId) (leaseMicros maxAttempts : ℤ) (now : Instant)
  | statement (id : ReapId)
  | commitReap (id : ReapId)
  | rollbackReap (id : ReapId)

/-- Any caller, any order, any arguments. -/
def storeStep (s : Store) : StoreAction → Option Store
  | .call call => (s.call call).map Prod.fst
  | .beginReap id leaseMicros maxAttempts now => s.beginReap id leaseMicros maxAttempts now
  | .statement id => s.statement id
  | .commitReap id => s.commitReap id
  | .rollbackReap id => s.rollbackReap id

/-! ## What an open reap holds -/

/-- `v` is what one of the reap's statements makes of the row `r`. -/
def ReapTx.Writes (tx : ReapTx) (r v : Crawl) : Prop :=
  ∃ u ∈ tx.statements, u.cond r = true ∧ v = u.set r

def ReapTx.WritesInv (db : Db) (tx : ReapTx) : Prop :=
  ∀ c v, tx.writes c = some v → ∃ r, db.crawl.lookup c = some r ∧ tx.Writes r v

/-- The versions an open reap wrote come from the committed rows, and no two reaps hold one row. -/
structure TxInv (s : Store) : Prop where
  writes : ∀ id tx, s.reaps.lookup id = some tx → tx.WritesInv s.db
  exclusive : ∀ id id' tx tx', s.reaps.lookup id = some tx → s.reaps.lookup id' = some tx' →
    id ≠ id' → ∀ c, tx.writes c = none ∨ tx'.writes c = none

theorem txInv_init : TxInv {} := by
  refine ⟨fun _ _ h => ?_, fun _ _ _ _ h => ?_⟩ <;> cases h

theorem statement_cond_running {tx : ReapTx} {u : CrawlUpdate} (hu : u ∈ tx.statements)
    {r : Crawl} (h : u.cond r = true) : r.state = .running := by
  simp only [ReapTx.statements, reapStatements, List.mem_cons, List.not_mem_nil, or_false] at hu
  rcases hu with rfl | rfl | rfl
  · simp only [abortCancelled, Bool.and_eq_true] at h
    exact expired_running h.1
  · simp only [requeue, Bool.and_eq_true] at h
    exact expired_running h.1
  · exact expired_running h

theorem statement_set_settles {tx : ReapTx} {u : CrawlUpdate} (hu : u ∈ tx.statements)
    (r : Crawl) : (u.set r).state ≠ .running := by
  simp only [ReapTx.statements, reapStatements, List.mem_cons, List.not_mem_nil, or_false] at hu
  rcases hu with rfl | rfl | rfl
  · simp [abortCancelled]
  · simp [requeue]
  · simp [giveUp]

theorem Writes_id {tx : ReapTx} {r v : Crawl} (h : tx.Writes r v) : v.id = r.id := by
  obtain ⟨u, -, -, rfl⟩ := h
  exact u.set_key r

/-- A row the reap has written is settled for it: no later statement of it matches the row. -/
theorem version_eq {db : Db} {tx : ReapTx} (h : tx.WritesInv db) {u : CrawlUpdate}
    (hu : u ∈ tx.statements) {c : CrawlId} {r : Crawl} (hr : db.crawl.lookup c = some r)
    (hcond : u.cond (tx.version r) = true) : tx.writes c = none ∧ tx.version r = r := by
  have hid : r.id = c := KeyedTable.lookup_key hr
  have hrun := statement_cond_running hu hcond
  cases hw : tx.writes c with
  | none => exact ⟨rfl, by simp [ReapTx.version, hid, hw]⟩
  | some v =>
    obtain ⟨r', -, u', hu', -, rfl⟩ := h c v hw
    have hver : tx.version r = u'.set r' := by simp [ReapTx.version, hid, hw]
    exact absurd (hver ▸ hrun) (statement_set_settles hu' r')

theorem locked_of_writes {s : Store} {id : ReapId} {tx : ReapTx}
    (h : s.reaps.lookup id = some tx) {c : CrawlId} (hw : tx.writes c ≠ none) :
    s.locked c = true := by
  simp only [Store.locked, List.any_eq_true]
  exact ⟨tx, KeyedTable.mem_of_lookup h, Option.isSome_iff_ne_none.mpr hw⟩

/-- An admitted call leaves a locked row as it is. -/
theorem rowAfter_locked {s : Store} {call : Call} (hadmits : s.admits call = true) {c : CrawlId}
    {r : Crawl} (hr : s.db.crawl.lookup c = some r) (hlock : s.locked c = true) :
    call.rowAfter s.db r = r := by
  have hid : r.id = c := KeyedTable.lookup_key hr
  have hrow := List.all_eq_true.mp hadmits r (KeyedTable.mem_of_lookup hr)
  rw [hid, hlock] at hrow
  cases call with
  | create => rfl
  | insertPages => rfl
  | reap => simp at hrow
  | claim skip want worker now =>
    have hskip : c ∈ skip := by simpa using hrow
    simp only [Call.rowAfter]
    cases ho : s.db.oldestQueued (fun id => id ∈ skip) want with
    | none => rfl
    | some row =>
      have hfree : row.id ∉ skip := by simpa using (oldestQueued_spec ho).2.2
      have hne : r.id ≠ row.id := fun he => hfree (he ▸ hid ▸ hskip)
      simp [hne]
  | heartbeat id worker stats now =>
    exact Update.onRow_of_not_cond (by simpa [Call.takesLock, hr] using hrow)
  | finish id worker state stats error now =>
    simp only [Call.rowAfter]
    split
    · rename_i ht
      exact Update.onRow_of_not_cond (by simpa [Call.takesLock, hr, ht] using hrow)
    · rfl
  | release id worker =>
    exact Update.onRow_of_not_cond (by simpa [Call.takesLock, hr] using hrow)
  | requestCancel id now =>
    have hne : r.id ≠ id := by simpa [Call.takesLock, hr] using hrow
    simp [Call.rowAfter, hne]

/-! ## What each action does -/

theorem call_spec {s s' : Store} {call : Call} {reply : Reply}
    (h : s.call call = some (s', reply)) :
    s.admits call = true ∧ s'.db = (call.exec s.db).1 ∧ s'.reaps = s.reaps ∧
      reply = (call.exec s.db).2 := by
  unfold Store.call at h
  split at h
  · cases h
  · split at h
    · rename_i hadmits
      obtain ⟨rfl, rfl⟩ := Prod.mk.inj (Option.some.inj h)
      exact ⟨hadmits, rfl, rfl, rfl⟩
    · cases h

theorem lookup_beginReap {s s' : Store} {id : ReapId} {leaseMicros maxAttempts : ℤ}
    {now : Instant} (h : s.beginReap id leaseMicros maxAttempts now = some s') :
    s'.db = s.db ∧ s.reaps.lookup id = none ∧ ∀ id', s'.reaps.lookup id' =
      if id' = id then some { id, leaseMicros, maxAttempts, now } else s.reaps.lookup id' := by
  unfold Store.beginReap at h
  cases hid : s.reaps.lookup id with
  | some tx => simp [hid] at h
  | none =>
    rw [hid] at h
    obtain rfl := Option.some.inj h
    refine ⟨rfl, rfl, fun id' => ?_⟩
    rw [KeyedTable.lookup_insertIgnore]
    by_cases he : id' = id
    · subst he
      simp [hid]
    · cases s.reaps.lookup id' <;> simp [he, Ne.symm he]

theorem statement_spec {s s' : Store} {id : ReapId} (h : s.statement id = some s') :
    ∃ tx u, s.reaps.lookup id = some tx ∧ tx.statements[tx.ran]? = some u ∧
      s.blocked tx u = false ∧ s'.db = s.db ∧ ∀ id', s'.reaps.lookup id' =
        if id' = id then some (tx.execute s.db u) else s.reaps.lookup id' := by
  unfold Store.statement at h
  cases hid : s.reaps.lookup id with
  | none => simp [hid] at h
  | some tx =>
    simp only [hid] at h
    cases hu : tx.statements[tx.ran]? with
    | none => simp [hu] at h
    | some u =>
      simp only [hu] at h
      split at h
      · cases h
      · rename_i hb
        obtain rfl := Option.some.inj h
        refine ⟨tx, u, rfl, hu, by simpa using hb, rfl, fun id' => ?_⟩
        have hkey : tx.id = id := KeyedTable.lookup_key hid
        rw [KeyedTable.lookup_apply]
        by_cases he : id' = id
        · subst he
          rw [hid, Option.map_some, if_pos rfl,
            Update.onRow_of_cond (by simp [replaceReap, ReapTx.execute])]
          rfl
        · rw [if_neg he]
          cases hid' : s.reaps.lookup id' with
          | none => rfl
          | some other =>
            have hne : other.id ≠ tx.id := by
              rw [KeyedTable.lookup_key hid', hkey]
              exact he
            rw [Option.map_some, Update.onRow_of_not_cond
              (by simp [replaceReap, ReapTx.execute, hne])]

theorem lookup_closeReap (s : Store) (id id' : ReapId) :
    (s.reaps.deleteWhere fun tx => tx.id = id).lookup id' =
      if id' = id then none else s.reaps.lookup id' := by
  rw [KeyedTable.lookup_deleteWhere s.reaps (fun k => k = id)]
  simp

theorem commitReap_spec {s s' : Store} {id : ReapId} (h : s.commitReap id = some s') :
    ∃ tx, s.reaps.lookup id = some tx ∧ s'.db.page = s.db.page ∧
      (∀ c, s'.db.crawl.lookup c = (s.db.crawl.lookup c).map tx.overlay.onRow) ∧
      ∀ id', s'.reaps.lookup id' = if id' = id then none else s.reaps.lookup id' := by
  unfold Store.commitReap at h
  cases hid : s.reaps.lookup id with
  | none => simp [hid] at h
  | some tx =>
    simp only [hid] at h
    split at h
    · obtain rfl := Option.some.inj h
      exact ⟨tx, rfl, rfl, KeyedTable.lookup_apply _ _, lookup_closeReap s id⟩
    · cases h

/-- A committed row after a reap: as it was, or as one of the reap's statements set it. -/
theorem overlay_onRow {db : Db} {tx : ReapTx} (h : tx.WritesInv db) {c : CrawlId} {r : Crawl}
    (hr : db.crawl.lookup c = some r) :
    (tx.writes c = none ∧ tx.overlay.onRow r = r) ∨
      tx.writes c ≠ none ∧ tx.Writes r (tx.overlay.onRow r) := by
  have hid : r.id = c := KeyedTable.lookup_key hr
  cases hw : tx.writes c with
  | none =>
    exact .inl ⟨rfl, Update.onRow_of_not_cond (by simp [ReapTx.overlay, hid, hw])⟩
  | some v =>
    obtain ⟨r', hr', hwrites⟩ := h c v hw
    obtain rfl : r = r' := Option.some.inj (hr.symm.trans hr')
    have hver : tx.version r = v := by simp [ReapTx.version, hid, hw]
    have hon : tx.overlay.onRow r = v := by
      rw [Update.onRow_of_cond (by simp [ReapTx.overlay, hid, hw])]
      show ({ tx.version r with id := r.id } : Crawl) = v
      rw [hver, ← Writes_id hwrites]
    exact .inr ⟨Option.some_ne_none v, hon ▸ hwrites⟩

theorem execute_writesInv {db : Db} {tx : ReapTx} (h : tx.WritesInv db) {u : CrawlUpdate}
    (hu : u ∈ tx.statements) : (tx.execute db u).WritesInv db := by
  intro c v hv
  have hstat : (tx.execute db u).statements = tx.statements := rfl
  simp only [ReapTx.execute] at hv
  cases hr : db.crawl.lookup c with
  | none =>
    rw [hr] at hv
    obtain ⟨r, hr', -⟩ := h c v hv
    simp [hr] at hr'
  | some r =>
    simp only [hr] at hv
    split at hv
    · rename_i hcond
      obtain ⟨-, hver⟩ := version_eq h hu hr hcond
      rw [hver] at hcond hv
      exact ⟨r, rfl, u, hstat ▸ hu, hcond, (Option.some.inj hv).symm⟩
    · obtain ⟨r', hr', hw⟩ := h c v hv
      exact ⟨r', hr.symm.trans hr', hw⟩

/-- What a statement newly locks was locked by nobody. -/
theorem execute_writes_unlocked {s : Store} {tx : ReapTx} {u : CrawlUpdate}
    (hb : s.blocked tx u = false) {id' : ReapId} {other : ReapTx}
    (hother : s.reaps.lookup id' = some other) (hne : id' ≠ tx.id) {c : CrawlId}
    (hw : (tx.execute s.db u).writes c ≠ none) (hold : tx.writes c = none) :
    other.writes c = none := by
  simp only [ReapTx.execute] at hw
  cases hr : s.db.crawl.lookup c with
  | none => simp [hr, hold] at hw
  | some r =>
    simp only [hr] at hw
    split at hw
    · rename_i hcond
      by_contra hlock
      have hid : r.id = c := KeyedTable.lookup_key hr
      have hoid : other.id = id' := KeyedTable.lookup_key hother
      rw [Store.blocked, List.any_eq_false] at hb
      refine hb r (KeyedTable.mem_of_lookup hr) ?_
      rw [hcond, Bool.true_and, List.any_eq_true]
      refine ⟨other, KeyedTable.mem_of_lookup hother, ?_⟩
      simp only [ReapTx.locks, hid, Bool.and_eq_true, decide_eq_true_eq, hoid]
      exact ⟨hne, Option.isSome_iff_ne_none.mpr hlock⟩
    · exact absurd hold hw

theorem storeStep_txInv {s s' : Store} {a : StoreAction} (h : TxInv s)
    (hs : storeStep s a = some s') : TxInv s' := by
  cases a with
  | call call =>
    simp only [storeStep, Option.map_eq_some_iff] at hs
    obtain ⟨⟨t, reply⟩, hcall, rfl⟩ := hs
    obtain ⟨hadmits, hdb, hreaps, -⟩ := call_spec hcall
    refine ⟨fun id tx htx c v hv => ?_, fun id id' tx tx' htx htx' => ?_⟩
    · rw [hreaps] at htx
      obtain ⟨r, hr, hw⟩ := h.writes id tx htx c v hv
      have hlock := locked_of_writes htx (c := c) (by simp [hv])
      exact ⟨r, by rw [hdb, lookup_exec hr, rowAfter_locked hadmits hr hlock], hw⟩
    · rw [hreaps] at htx htx'
      exact h.exclusive id id' tx tx' htx htx'
  | beginReap id leaseMicros maxAttempts now =>
    obtain ⟨hdb, hfresh, hlook⟩ := lookup_beginReap hs
    refine ⟨fun id' tx htx => ?_, fun i j tx tx' htx htx' hne c => ?_⟩
    · rw [hlook] at htx
      split at htx
      · obtain rfl := Option.some.inj htx
        intro c v hv
        cases hv
      · rw [ReapTx.WritesInv, hdb]
        exact h.writes id' tx htx
    · rw [hlook] at htx htx'
      split at htx
      · obtain rfl := Option.some.inj htx
        exact .inl rfl
      · split at htx'
        · obtain rfl := Option.some.inj htx'
          exact .inr rfl
        · exact h.exclusive i j tx tx' htx htx' hne c
  | statement id =>
    obtain ⟨tx, u, htx, hu, hb, hdb, hlook⟩ := statement_spec hs
    have hmem : u ∈ tx.statements := List.mem_of_getElem? hu
    have hid : tx.id = id := KeyedTable.lookup_key htx
    have hself := execute_writesInv (h.writes id tx htx) hmem
    have hpair : ∀ id' other, s.reaps.lookup id' = some other → id' ≠ id → ∀ c,
        (tx.execute s.db u).writes c = none ∨ other.writes c = none := by
      intro id' other hother hne c
      by_cases hw : (tx.execute s.db u).writes c = none
      · exact .inl hw
      · right
        by_cases hold : tx.writes c = none
        · exact execute_writes_unlocked hb hother (hid ▸ hne) hw hold
        · exact (h.exclusive id id' tx other htx hother (Ne.symm hne) c).resolve_left hold
    refine ⟨fun id' tx' htx' => ?_, fun i j t t' ht ht' hne c => ?_⟩
    · rw [hlook] at htx'
      rw [hdb]
      split at htx'
      · obtain rfl := Option.some.inj htx'
        exact hself
      · exact h.writes id' tx' htx'
    · rw [hlook] at ht ht'
      split at ht
      · rename_i hi
        obtain rfl := Option.some.inj ht
        have hj : j ≠ id := fun hj => hne (hi.trans hj.symm)
        rw [if_neg hj] at ht'
        exact hpair j t' ht' hj c
      · rename_i hi
        split at ht'
        · obtain rfl := Option.some.inj ht'
          exact (hpair i t ht hi c).symm
        · exact h.exclusive i j t t' ht ht' hne c
  | commitReap id =>
    obtain ⟨tx, htx, -, hcrawl, hlook⟩ := commitReap_spec hs
    refine ⟨fun id' tx' htx' c v hv => ?_, fun i j t t' ht ht' hne c => ?_⟩
    · rw [hlook] at htx'
      split at htx'
      · cases htx'
      · rename_i hne
        obtain ⟨r, hr, hw⟩ := h.writes id' tx' htx' c v hv
        have hfree : tx.writes c = none :=
          (h.exclusive id id' tx tx' htx htx' (Ne.symm hne) c).resolve_right (by simp [hv])
        rcases overlay_onRow (h.writes id tx htx) hr with ⟨-, hsame⟩ | ⟨hheld, -⟩
        · exact ⟨r, by rw [hcrawl, hr, Option.map_some, hsame], hw⟩
        · exact absurd hfree hheld
    · rw [hlook] at ht ht'
      split at ht
      · cases ht
      · split at ht'
        · cases ht'
        · exact h.exclusive i j t t' ht ht' hne c
  | rollbackReap id =>
    obtain rfl := Option.some.inj hs
    refine ⟨fun id' tx' htx' => ?_, fun i j t t' ht ht' hne c => ?_⟩
    · rw [lookup_closeReap] at htx'
      split at htx'
      · cases htx'
      · exact h.writes id' tx' htx'
    · rw [lookup_closeReap] at ht ht'
      split at ht
      · cases ht
      · split at ht'
        · cases ht'
        · exact h.exclusive i j t t' ht ht' hne c

end UrlCrawler
