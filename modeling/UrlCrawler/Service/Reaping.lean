import UrlCrawler.Service.Calls

/-! # Reaping

`reap` runs three overlapping `UPDATE`s in one transaction; together they are one case split on the
expired rows. A row without a heartbeat would never expire, but a running row always has one.
-/
set_option autoImplicit false

namespace UrlCrawler
open Execution

/-! ## Running rows are visible -/

/-- A running crawl has a worker and a heartbeat. -/
def Crawl.visible (r : Crawl) : Prop :=
  r.state = .running → r.workerId.isSome = true ∧ r.heartbeatAt.isSome = true

theorem visible_step {r r' : Crawl} (h : r.visible) (hstep : RowStep r r') : r'.visible := by
  cases hstep with
  | keep => exact h
  | claim worker now queued => exact fun _ => ⟨rfl, rfl⟩
  | heartbeat worker stats now running owner => exact fun _ => ⟨(h running).1, rfl⟩
  | finish worker state stats error now terminal owner =>
    intro hrun
    have hstate : state = .running := hrun
    rw [hstate] at terminal
    cases terminal
  | release worker owner uncancelled => exact nofun
  | reapAbort leaseMicros now running cancelled => exact nofun
  | reapRequeue leaseMicros maxAttempts now running uncancelled below => exact nofun
  | reapFail leaseMicros maxAttempts now running uncancelled atLimit => exact nofun
  | abort now queued => exact nofun
  | flag running => exact h

theorem visible_reaches {db : Db} (h : Reaches callStep Db.empty db) :
    ∀ c r, db.crawl.lookup c = some r → r.visible := by
  refine h.invariant (P := fun db => ∀ c r, db.crawl.lookup c = some r → r.visible) ?_ ?_
  · intro c r hr
    cases hr
  · intro db call db' hdb hcall
    obtain rfl := Option.some.inj hcall
    refine rows_invariant (fun id seed config now hrun => ?_) (fun r r' => visible_step) call hdb
    cases hrun

/-! ## The rows a reap moves -/

/-- The statements count a row once if it has expired, and not at all otherwise. -/
theorem counted_once (leaseMicros maxAttempts : ℤ) (now : Instant) (r : Crawl) :
    ((abortCancelled leaseMicros now).cond r).toNat +
      ((requeue leaseMicros maxAttempts now).cond
        ((abortCancelled leaseMicros now).onRow r)).toNat +
      ((giveUp leaseMicros now).cond ((requeue leaseMicros maxAttempts now).onRow
        ((abortCancelled leaseMicros now).onRow r))).toNat =
      (r.expired leaseMicros now).toNat := by
  have habort : (abortCancelled leaseMicros now).cond r =
      (r.expired leaseMicros now && r.cancelRequested) := rfl
  have hrequeue : ∀ r' : Crawl, (requeue leaseMicros maxAttempts now).cond r' =
      (r'.expired leaseMicros now && decide (r'.attempts < maxAttempts)) := fun _ => rfl
  have hgiveUp : ∀ r' : Crawl, (giveUp leaseMicros now).cond r' = r'.expired leaseMicros now :=
    fun _ => rfl
  cases hexp : r.expired leaseMicros now with
  | false => simp [Update.onRow, habort, hrequeue, hgiveUp, hexp]
  | true =>
    cases hcancel : r.cancelRequested with
    | true =>
      have hsettled : ((abortCancelled leaseMicros now).set r).expired leaseMicros now = false :=
        not_expired_of_settled (by simp [abortCancelled]) _ _
      simp [Update.onRow, habort, hrequeue, hgiveUp, hexp, hcancel, hsettled]
    | false =>
      by_cases hbelow : r.attempts < maxAttempts
      · have hsettled : ((requeue leaseMicros maxAttempts now).set r).expired leaseMicros now =
            false :=
          not_expired_of_settled (by simp [requeue]) _ _
        simp [Update.onRow, habort, hrequeue, hgiveUp, hexp, hcancel, hbelow, hsettled]
      · simp [Update.onRow, habort, hrequeue, hgiveUp, hexp, hcancel, hbelow]

theorem counted_rows (leaseMicros maxAttempts : ℤ) (now : Instant) (rows : List Crawl) :
    (rows.filter (abortCancelled leaseMicros now).cond).length +
      ((rows.map (abortCancelled leaseMicros now).onRow).filter
        (requeue leaseMicros maxAttempts now).cond).length +
      (((rows.map (abortCancelled leaseMicros now).onRow).map
        (requeue leaseMicros maxAttempts now).onRow).filter (giveUp leaseMicros now).cond).length =
      (rows.filter fun r => r.expired leaseMicros now).length := by
  induction rows with
  | nil => rfl
  | cons r rows ih =>
    have hlength : ∀ (p : Crawl → Bool) (r : Crawl) (rows : List Crawl),
        ((r :: rows).filter p).length = (p r).toNat + (rows.filter p).length := by
      intro p r rows
      cases hp : p r with
      | false => simp [hp]
      | true =>
        simp only [List.filter_cons, hp, if_true, List.length_cons, Bool.toNat_true]
        omega
    have hone := counted_once leaseMicros maxAttempts now r
    simp only [List.map_cons, hlength]
    omega

theorem reap_count (db : Db) (leaseMicros maxAttempts : ℤ) (now : Instant) :
    (db.reap leaseMicros maxAttempts now).2 =
      (db.crawl.rows.filter fun r => r.expired leaseMicros now).length := by
  rw [← counted_rows leaseMicros maxAttempts now]
  simp [Db.reap, Db.executeAll, reapStatements, KeyedTable.matching, KeyedTable.apply]

/-! ## What a reap settles -/

/-- Where a reap moves an expired row. -/
def reapedState (maxAttempts : ℤ) (r : Crawl) : CrawlState :=
  if r.cancelRequested then .aborted else if r.attempts < maxAttempts then .queued else .failed

theorem reapRow_expired {r : Crawl} {leaseMicros : ℤ} {now : Instant}
    (h : r.expired leaseMicros now = true) (maxAttempts : ℤ) :
    (reapRow leaseMicros maxAttempts now r).state = reapedState maxAttempts r ∧
      (reapRow leaseMicros maxAttempts now r).workerId = none := by
  rw [reapRow, if_pos h, reapedState]
  split
  · exact ⟨rfl, rfl⟩
  · split
    · exact ⟨rfl, rfl⟩
    · exact ⟨rfl, rfl⟩

theorem reapRow_alive {r : Crawl} {leaseMicros : ℤ} {now : Instant}
    (h : r.expired leaseMicros now = false) (maxAttempts : ℤ) :
    reapRow leaseMicros maxAttempts now r = r := by
  rw [reapRow, h, if_neg Bool.false_ne_true]

theorem reapedState_ne_running (maxAttempts : ℤ) (r : Crawl) :
    reapedState maxAttempts r ≠ .running := by
  unfold reapedState
  split
  · exact nofun
  · split <;> exact nofun

/-- A reap of `db` settles the expired rows, each as its flag and its attempts say, and nothing
else. -/
structure Settles (db : Db) (leaseMicros maxAttempts : ℤ) (now : Instant) : Prop where
  moved : ∀ c r t, db.crawl.lookup c = some r → r.state = .running → r.heartbeatAt = some t →
    t < now - leaseMicros → ∃ r', (db.reap leaseMicros maxAttempts now).1.crawl.lookup c = some r' ∧
      r'.state = reapedState maxAttempts r ∧ r'.workerId = none
  kept : ∀ c, (∀ r t, db.crawl.lookup c = some r → r.state = .running → r.heartbeatAt = some t →
    now - leaseMicros ≤ t) →
      (db.reap leaseMicros maxAttempts now).1.crawl.lookup c = db.crawl.lookup c
  pages : (db.reap leaseMicros maxAttempts now).1.page = db.page
  gone : ∀ c r, (db.reap leaseMicros maxAttempts now).1.crawl.lookup c = some r →
    r.expired leaseMicros now = false
  count : (db.reap leaseMicros maxAttempts now).2 =
    (db.crawl.rows.filter fun r => r.expired leaseMicros now).length

theorem reap_settles_all (db : Db) (leaseMicros maxAttempts : ℤ) (now : Instant) :
    Settles db leaseMicros maxAttempts now where
  moved c r t hr hrun hbeat hold := by
    have hexp : r.expired leaseMicros now = true := by simp [Crawl.expired, hrun, hbeat, hold]
    exact ⟨_, by rw [lookup_reap, hr]; rfl, reapRow_expired hexp maxAttempts⟩
  kept c h := by
    rw [lookup_reap]
    cases hr : db.crawl.lookup c with
    | none => rfl
    | some r =>
      have halive : r.expired leaseMicros now = false := by
        rw [Bool.eq_false_iff]
        intro hexp
        obtain ⟨t, hbeat, hold⟩ : ∃ t, r.heartbeatAt = some t ∧ t < now - leaseMicros := by
          simpa [Crawl.expired, expired_running hexp, Option.any_eq_true] using hexp
        exact absurd hold (not_lt.mpr (h r t hr (expired_running hexp) hbeat))
      rw [Option.map_some, reapRow_alive halive]
  pages := page_reap db leaseMicros maxAttempts now
  gone c r' hr' := by
    rw [lookup_reap] at hr'
    obtain ⟨r, -, rfl⟩ := Option.map_eq_some_iff.mp hr'
    cases hexp : r.expired leaseMicros now with
    | false => rw [reapRow_alive hexp, hexp]
    | true =>
      apply not_expired_of_settled
      rw [(reapRow_expired hexp maxAttempts).1]
      exact reapedState_ne_running maxAttempts r
  count := reap_count db leaseMicros maxAttempts now

/-- In every state the repository's calls lead to, the running crawls are visible to the reaper, and
a reap settles the silent ones and only those. -/
theorem reap_settles {db : Db} (h : Reaches callStep Db.empty db) :
    (∀ c r, db.crawl.lookup c = some r → r.visible) ∧
      ∀ leaseMicros maxAttempts now, Settles db leaseMicros maxAttempts now :=
  ⟨visible_reaches h, reap_settles_all db⟩

theorem reap_settles_claimed :
    ∃ db, Reaches callStep Db.empty db ∧ (∃ r, db.crawl.lookup 1 = some r ∧ r.state = .running) ∧
      (∀ c r, db.crawl.lookup c = some r → r.visible) ∧
        ∀ leaseMicros maxAttempts now, Settles db leaseMicros maxAttempts now := by
  have hrun : ((run callStep Db.empty [.create 1 "https://a.test/".toList ⟨10, 10, none, 1, true, []⟩ 0,
      .claim [] 1 "host:1" 5]).any fun db =>
        (db.crawl.lookup 1).any fun r => r.state = .running) = true := by
    decide +kernel
  obtain ⟨db, hdb, hrow⟩ := (Option.any_eq_true _ _).mp hrun
  obtain ⟨r, hr, hrunning⟩ := (Option.any_eq_true _ _).mp hrow
  have hreaches : Reaches callStep Db.empty db := ⟨_, hdb⟩
  exact ⟨db, hreaches, ⟨r, hr, of_decide_eq_true hrunning⟩, reap_settles hreaches⟩

end UrlCrawler
