import UrlCrawler.Service.Calls
import Mathlib.Tactic.Linarith

/-! # Attempts

`attempts` goes up with every claim and down with every release; `reap` compares it with
`max_attempts` and leaves it alone. The ledger keeps the calls made so far with their answers, so
that `claims` and `releases` count what happened rather than what a column says; the invariant ties
the column to them.
-/
set_option autoImplicit false

namespace UrlCrawler
open Execution

/-- The database and every call made so far with its answer. -/
structure Ledger where
  db : Db := Db.empty
  log : List (Call × Reply) := []

/-- Whether a reap uses the service's one `max_attempts`. -/
def Call.reapsAt (maxAttempts : ℤ) : Call → Bool
  | .reap _ m _ => m = maxAttempts
  | _ => true

def Ledger.record (s : Ledger) (call : Call) : Ledger :=
  ⟨(call.exec s.db).1, s.log ++ [(call, (call.exec s.db).2)]⟩

/-- Any call by anyone; reaps all use the same `max_attempts`. -/
def ledgerStep (maxAttempts : ℤ) (s : Ledger) (call : Call) : Option Ledger :=
  if call.reapsAt maxAttempts then some (s.record call) else none

/-- The call was a claim that took crawl `c`. -/
def isClaimOf (c : CrawlId) : Call × Reply → Bool
  | (_, .claimed (some row)) => row.id = c
  | _ => false

/-- The call was a release of crawl `c` that requeued it. -/
def isReleaseOf (c : CrawlId) : Call × Reply → Bool
  | (.release id _, .released true) => id = c
  | _ => false

/-- The successful claims of a crawl. -/
def Ledger.claims (s : Ledger) (c : CrawlId) : ℕ := s.log.countP (isClaimOf c)

/-- The successful releases of a crawl. -/
def Ledger.releases (s : Ledger) (c : CrawlId) : ℕ := s.log.countP (isReleaseOf c)

theorem claims_record (s : Ledger) (call : Call) (c : CrawlId) :
    (s.record call).claims c =
      s.claims c + if isClaimOf c (call, (call.exec s.db).2) then 1 else 0 := by
  simp [Ledger.claims, Ledger.record, List.countP_append, List.countP_cons]

theorem releases_record (s : Ledger) (call : Call) (c : CrawlId) :
    (s.record call).releases c =
      s.releases c + if isReleaseOf c (call, (call.exec s.db).2) then 1 else 0 := by
  simp [Ledger.releases, Ledger.record, List.countP_append, List.countP_cons]

/-! ## Which calls count -/

theorem isClaimOf_exec {db : Db} {call : Call} {c : CrawlId} :
    isClaimOf c (call, (call.exec db).2) = true ↔
      ∃ skip want worker now row, call = .claim skip want worker now ∧
        db.oldestQueued (fun id => id ∈ skip) want = some row ∧ row.id = c := by
  cases call with
  | claim skip want worker now =>
    cases ho : db.oldestQueued (fun id => id ∈ skip) want with
    | none => simp [Call.exec, lookup_claim_none ho, isClaimOf, ho]
    | some row => simp [Call.exec, Db.claim, ho, isClaimOf, claimUpdate]
  | create id seed config now =>
    simp only [Call.exec]
    cases db.create id seed config now <;> simp [isClaimOf]
  | finish id worker state stats error now =>
    simp only [Call.exec]
    rcases db.finish id worker state stats error now with ⟨db', _ | recorded⟩ <;>
      simp [isClaimOf]
  | insertPages id worker rows =>
    simp only [Call.exec]
    rcases db.insertPages id worker rows with ⟨db', _ | _⟩ <;> simp [isClaimOf]
  | heartbeat | release | reap | requestCancel => simp [Call.exec, isClaimOf]

theorem isReleaseOf_exec {db : Db} {call : Call} {c : CrawlId} :
    isReleaseOf c (call, (call.exec db).2) = true ↔
      ∃ worker r, call = .release c worker ∧ db.crawl.lookup c = some r ∧
        (releaseUpdate c worker).cond r = true := by
  cases call with
  | release id worker =>
    simp only [Call.exec, release_reply]
    cases hr : (db.crawl.lookup id).any (releaseUpdate id worker).cond with
    | false =>
      simp only [isReleaseOf, Bool.false_eq_true, false_iff]
      rintro ⟨w, r, he, hl, hc⟩
      obtain ⟨rfl, rfl⟩ := Call.release.inj he
      simp [hl, hc] at hr
    | true =>
      obtain ⟨r, hl, hc⟩ := (Option.any_eq_true _ _).mp hr
      simp only [isReleaseOf, decide_eq_true_eq]
      constructor
      · rintro rfl
        exact ⟨worker, r, rfl, hl, hc⟩
      · rintro ⟨w, r', he, -, -⟩
        exact (Call.release.inj he).1
  | create id seed config now =>
    simp only [Call.exec]
    cases db.create id seed config now <;> simp [isReleaseOf]
  | finish id worker state stats error now =>
    simp only [Call.exec]
    rcases db.finish id worker state stats error now with ⟨db', _ | recorded⟩ <;>
      simp [isReleaseOf]
  | insertPages id worker rows =>
    simp only [Call.exec]
    rcases db.insertPages id worker rows with ⟨db', _ | _⟩ <;> simp [isReleaseOf]
  | claim | heartbeat | reap | requestCancel => simp [isReleaseOf]

/-! ## The invariant -/

/-- A row against the number `k` of its leases not given back. A row somebody holds has had a lease
that was not given back, which is why a release never meets the clamp. -/
structure Crawl.AttemptsInv (maxAttempts k : ℤ) (r : Crawl) : Prop where
  count : r.attempts = k
  nonneg : 0 ≤ r.attempts
  held : r.workerId ≠ none → 1 ≤ r.attempts
  le : r.attempts ≤ maxAttempts
  queued : r.state = .queued → r.attempts < maxAttempts

/-- Every row's column counts its ledger entries, and a crawl not created yet has none. -/
def LedgerInv (maxAttempts : ℤ) (s : Ledger) : Prop :=
  ∀ c, (∀ r, s.db.crawl.lookup c = some r →
      r.AttemptsInv maxAttempts (s.claims c - s.releases c)) ∧
    (s.db.crawl.lookup c = none → s.claims c = 0 ∧ s.releases c = 0)

theorem ledgerInv_init (maxAttempts : ℤ) : LedgerInv maxAttempts {} := by
  intro c
  refine ⟨fun r h => ?_, fun _ => ⟨rfl, rfl⟩⟩
  cases h

/-- The lease a call takes (`1`) or gives back (`-1`) of the row `r` of crawl `c`. -/
def leaseDelta (db : Db) (call : Call) (c : CrawlId) : ℤ :=
  (if isClaimOf c (call, (call.exec db).2) then 1 else 0) -
    if isReleaseOf c (call, (call.exec db).2) then 1 else 0

theorem leaseDelta_eq_zero {db : Db} {call : Call} {c : CrawlId}
    (hclaim : ∀ skip want worker now, call ≠ .claim skip want worker now)
    (hrelease : ∀ worker, call ≠ .release c worker) : leaseDelta db call c = 0 := by
  have h1 : ¬isClaimOf c (call, (call.exec db).2) = true := by
    rw [isClaimOf_exec]
    rintro ⟨skip, want, worker, now, row, he, -⟩
    exact hclaim skip want worker now he
  have h2 : ¬isReleaseOf c (call, (call.exec db).2) = true := by
    rw [isReleaseOf_exec]
    rintro ⟨worker, r, he, -⟩
    exact hrelease worker he
  simp [leaseDelta, h1, h2]

theorem claim_attempts {M k : ℤ} {r : Crawl} (h : r.AttemptsInv M k) (hq : r.state = .queued)
    (worker : WorkerId) (now : Instant) :
    ((claimUpdate r.id r.attempts worker now).set r).AttemptsInv M (k + 1) := by
  have hlt := h.queued hq
  have hnn := h.nonneg
  refine ⟨?_, ?_, fun _ => ?_, ?_, fun he => ?_⟩
  · simp [claimUpdate, h.count]
  · simp only [claimUpdate]; omega
  · simp only [claimUpdate]; omega
  · simp only [claimUpdate]; omega
  · simp [claimUpdate] at he

theorem release_attempts {M k : ℤ} {r : Crawl} (h : r.AttemptsInv M k) {worker : WorkerId}
    (howner : r.workerId = some worker) :
    ((releaseUpdate r.id worker).set r).AttemptsInv M (k - 1) := by
  have hpos := h.held (by simp [howner])
  have hle := h.le
  have hk := h.count
  refine ⟨?_, ?_, fun he => ?_, ?_, fun _ => ?_⟩
  · simp only [releaseUpdate]; omega
  · simp only [releaseUpdate]; omega
  · simp [releaseUpdate] at he
  · simp only [releaseUpdate]; omega
  · simp only [releaseUpdate]; omega

/-- The steps that leave `attempts` alone, let nobody new hold the row and queue it only below the
limit. -/
theorem Crawl.AttemptsInv.keep {M k : ℤ} {r r' : Crawl} (h : r.AttemptsInv M k)
    (ha : r'.attempts = r.attempts) (hw : r'.workerId ≠ none → r.workerId ≠ none)
    (hq : r'.state = .queued → r.state = .queued ∨ r.attempts < M) : r'.AttemptsInv M k where
  count := ha.trans h.count
  nonneg := ha ▸ h.nonneg
  held hw' := ha ▸ h.held (hw hw')
  le := ha ▸ h.le
  queued he := ha ▸ (hq he).elim h.queued fun hlt => hlt

theorem reapRow_attempts {M k : ℤ} {r : Crawl} (h : r.AttemptsInv M k) (leaseMicros : ℤ)
    (now : Instant) : (reapRow leaseMicros M now r).AttemptsInv M k := by
  unfold reapRow
  split
  · split
    · exact h.keep rfl (by simp [abortCancelled]) (by simp [abortCancelled])
    · split
      · rename_i hatt
        exact h.keep rfl (by simp [requeue]) fun _ => .inr hatt
      · exact h.keep rfl (by simp [giveUp]) (by simp [giveUp])
  · exact h

theorem cancelRow_attempts {M k : ℤ} {r : Crawl} (h : r.AttemptsInv M k) (now : Instant) :
    (cancelRow now r).AttemptsInv M k := by
  unfold cancelRow
  split
  · exact h.keep rfl id (by simp [abortQueued])
  · exact h.keep rfl (fun hw => hw) fun he => .inl he
  · exact h

theorem rowAfter_attempts {M k : ℤ} {db : Db} {call : Call} {c : CrawlId} {r : Crawl}
    (hr : db.crawl.lookup c = some r) (hM : call.reapsAt M = true) (h : r.AttemptsInv M k) :
    (call.rowAfter db r).AttemptsInv M (k + leaseDelta db call c) := by
  have hid : r.id = c := KeyedTable.lookup_key hr
  cases call with
  | create => simpa [Call.rowAfter, leaseDelta_eq_zero] using h
  | insertPages => simpa [Call.rowAfter, leaseDelta_eq_zero] using h
  | claim skip want worker now =>
    have hrel : ¬isReleaseOf c (.claim skip want worker now,
        (Call.exec db (.claim skip want worker now)).2) = true := by
      simp [isReleaseOf_exec]
    simp only [Call.rowAfter]
    cases ho : db.oldestQueued (fun id => id ∈ skip) want with
    | none =>
      have hcl : ¬isClaimOf c (.claim skip want worker now,
          (Call.exec db (.claim skip want worker now)).2) = true := by
        simp [isClaimOf_exec, ho]
      simpa [leaseDelta, hcl, hrel] using h
    | some row =>
      obtain ⟨hrow, hq, -⟩ := oldestQueued_spec ho
      have hcl : isClaimOf c (.claim skip want worker now,
          (Call.exec db (.claim skip want worker now)).2) = true ↔ row.id = c := by
        simp only [isClaimOf_exec, Call.claim.injEq]
        constructor
        · rintro ⟨_, _, _, _, row', ⟨rfl, rfl, rfl, rfl⟩, ho', hrc⟩
          rw [ho] at ho'
          exact (Option.some.inj ho').symm ▸ hrc
        · intro hrc
          exact ⟨_, _, _, _, row, ⟨rfl, rfl, rfl, rfl⟩, ho, hrc⟩
      by_cases he : row.id = c
      · have hrr : r = row := by
          rw [he, hr] at hrow
          exact Option.some.inj hrow
        subst hrr
        simpa [leaseDelta, hcl.mpr he, hrel] using claim_attempts h hq worker now
      · have hne : r.id ≠ row.id := fun hh => he (hh ▸ hid)
        have hcl' : ¬isClaimOf c (.claim skip want worker now,
            (Call.exec db (.claim skip want worker now)).2) = true := fun hh => he (hcl.mp hh)
        simpa [leaseDelta, hcl', hrel, hne] using h
  | heartbeat id worker stats now =>
    rw [leaseDelta_eq_zero (by simp) (by simp), add_zero]
    simp only [Call.rowAfter, Update.onRow]
    split
    · exact h.keep rfl (fun hw => hw) fun he => .inl he
    · exact h
  | finish id worker state stats error now =>
    rw [leaseDelta_eq_zero (by simp) (by simp), add_zero]
    simp only [Call.rowAfter, Update.onRow]
    split
    · rename_i ht
      split
      · refine h.keep rfl (fun hw => hw) fun he => ?_
        have he' : state = .queued := he
        simp [he', CrawlState.terminal] at ht
      · exact h
    · exact h
  | release id worker =>
    have hcl : ¬isClaimOf c (.release id worker, (Call.exec db (.release id worker)).2) = true := by
      simp [isClaimOf_exec]
    simp only [Call.rowAfter, Update.onRow]
    split
    · rename_i hc
      have hc' := hc
      simp only [releaseUpdate, Bool.and_eq_true, decide_eq_true_eq] at hc'
      obtain ⟨⟨hidr, howner⟩, -⟩ := hc'
      have hci : c = id := hid.symm.trans hidr
      have hrel : isReleaseOf c (.release id worker,
          (Call.exec db (.release id worker)).2) = true :=
        isReleaseOf_exec.mpr ⟨worker, r, by rw [hci], hr, hci ▸ hc⟩
      have := release_attempts h howner
      rw [hidr] at this
      simpa [leaseDelta, hcl, hrel, sub_eq_add_neg] using this
    · rename_i hc
      have hrel : ¬isReleaseOf c (.release id worker,
          (Call.exec db (.release id worker)).2) = true := by
        rw [isReleaseOf_exec]
        rintro ⟨w, r', he, hr', hc'⟩
        obtain ⟨rfl, rfl⟩ := Call.release.inj he
        rw [hr] at hr'
        exact hc (Option.some.inj hr' ▸ hc')
      simpa [leaseDelta, hcl, hrel] using h
  | reap leaseMicros maxAttempts now =>
    rw [leaseDelta_eq_zero (by simp) (by simp), add_zero]
    have hm : maxAttempts = M := by simpa [Call.reapsAt] using hM
    subst hm
    exact reapRow_attempts h leaseMicros now
  | requestCancel id now =>
    rw [leaseDelta_eq_zero (by simp) (by simp), add_zero]
    simp only [Call.rowAfter]
    split
    · exact cancelRow_attempts h now
    · exact h

theorem ledgerStep_inv {M : ℤ} (hM : 1 ≤ M) {s s' : Ledger} {call : Call}
    (h : LedgerInv M s) (hs : ledgerStep M s call = some s') : LedgerInv M s' := by
  unfold ledgerStep at hs
  split at hs
  · rename_i hreap
    obtain rfl := Option.some.inj hs
    intro c
    have hclaims := claims_record s call c
    have hreleases := releases_record s call c
    have hdelta : ((s.record call).claims c : ℤ) - (s.record call).releases c =
        s.claims c - s.releases c + leaseDelta s.db call c := by
      rw [hclaims, hreleases]
      unfold leaseDelta
      push_cast
      ring
    obtain ⟨hsome, hnone⟩ := h c
    cases hc : s.db.crawl.lookup c with
    | some r =>
      have hlook : (s.record call).db.crawl.lookup c = some (call.rowAfter s.db r) :=
        lookup_exec hc
      refine ⟨fun r' hr' => ?_, fun hn => by simp [hlook] at hn⟩
      rw [hlook] at hr'
      obtain rfl := Option.some.inj hr'
      rw [hdelta]
      exact rowAfter_attempts hc hreap (hsome r hc)
    | none =>
      have hcl : ¬isClaimOf c (call, (call.exec s.db).2) = true := by
        rw [isClaimOf_exec]
        rintro ⟨skip, want, worker, now, row, -, ho, rfl⟩
        simp [(oldestQueued_spec ho).1] at hc
      have hrel : ¬isReleaseOf c (call, (call.exec s.db).2) = true := by
        rw [isReleaseOf_exec]
        rintro ⟨worker, r, -, hr, -⟩
        simp [hc] at hr
      have hzero : (s.record call).claims c = 0 ∧ (s.record call).releases c = 0 := by
        simp [hclaims, hreleases, hnone hc, hcl, hrel]
      refine ⟨fun r' hr' => ?_, fun _ => hzero⟩
      obtain ⟨seed, config, now, -, rfl⟩ := lookup_exec_none hc hr'
      rw [hzero.1, hzero.2]
      exact ⟨rfl, le_refl _, fun hw => absurd rfl hw, by simp; omega, fun _ => by simp; omega⟩
  · cases hs

theorem ledgerInv_reaches {M : ℤ} (hM : 1 ≤ M) {s : Ledger}
    (hs : Reaches (ledgerStep M) {} s) : LedgerInv M s :=
  hs.invariant (ledgerInv_init M) fun _ _ _ h hs => ledgerStep_inv hM h hs

/-- `reap` fails only a row at the limit. -/
theorem reapRow_failed {leaseMicros M : ℤ} {now : Instant} {r : Crawl} (h : r.state ≠ .failed)
    (h' : (reapRow leaseMicros M now r).state = .failed) : M ≤ r.attempts := by
  unfold reapRow at h'
  split at h'
  · split at h'
    · simp [abortCancelled] at h'
    · split at h'
      · simp [requeue] at h'
      · rename_i hatt
        exact not_lt.mp hatt
  · exact absurd h' h

/-- `attempts` counts the leases not given back. It stays within the limit and below it while the
crawl is queued, the clamp of `release` never bites, and the reaper gives up on a crawl only when
exactly `M` of its leases were not given back; so as long as fewer were lost, no number of
claims and releases lets it fail. -/
theorem attempts_exact {M : ℤ} (hM : 1 ≤ M) {s : Ledger} (hs : Reaches (ledgerStep M) {} s)
    (c : CrawlId) (r : Crawl) (hr : s.db.crawl.lookup c = some r) :
    r.attempts = s.claims c - s.releases c ∧
    r.attempts ≤ M ∧
    (r.state = .queued → r.attempts < M) ∧
    (∀ worker, (s.db.release c worker).2 = true → max (r.attempts - 1) 0 = r.attempts - 1) ∧
    (∀ leaseMicros now r', (s.db.reap leaseMicros M now).1.crawl.lookup c = some r' →
      r.state ≠ .failed → r'.state = .failed →
        r'.error = some leaseLostError ∧ (s.claims c : ℤ) - s.releases c = M) ∧
    ((s.claims c : ℤ) - s.releases c < M → r.state ≠ .failed →
      ∀ leaseMicros now r', (s.db.reap leaseMicros M now).1.crawl.lookup c = some r' →
        r'.state ≠ .failed) := by
  have h := (ledgerInv_reaches hM hs c).1 r hr
  have hfail : ∀ leaseMicros now r',
      (s.db.reap leaseMicros M now).1.crawl.lookup c = some r' → r.state ≠ .failed →
        r'.state = .failed → (s.claims c : ℤ) - s.releases c = M := by
    intro leaseMicros now r' hr' hne hf
    rw [lookup_reap, hr] at hr'
    obtain rfl := Option.some.inj hr'
    have hge := reapRow_failed hne hf
    have hle := h.le
    have hk := h.count
    omega
  refine ⟨h.count, h.le, h.queued, ?_, ?_, ?_⟩
  · intro worker hrel
    rw [release_reply, hr] at hrel
    simp only [Option.any_some, releaseUpdate, Bool.and_eq_true, decide_eq_true_eq] at hrel
    have hpos := h.held (by simp [hrel.1.2])
    omega
  · intro leaseMicros now r' hr' hne hf
    refine ⟨?_, hfail leaseMicros now r' hr' hne hf⟩
    rw [lookup_reap, hr] at hr'
    obtain rfl := Option.some.inj hr'
    unfold reapRow at hf ⊢
    split at hf
    · split at hf
      · simp [abortCancelled] at hf
      · split at hf
        · simp [requeue] at hf
        · rename_i hexp hcan hatt
          simp [hexp, hcan, hatt, giveUp]
    · exact absurd hf hne
  · intro hlt hne leaseMicros now r' hr' hf
    have := hfail leaseMicros now r' hr' hne hf
    omega

/-- Two graceful handoffs and a third lease still held. -/
def handoffs : List Call :=
  [.create 1 "https://a.test/".toList
      { concurrency := 10, timeout := 10, maxPages := none, maxBytes := 5000000,
        respectRobots := true } 0,
    .claim [] 1 "host:1" 1, .release 1 "host:1",
    .claim [] 1 "host:2" 2, .release 1 "host:2",
    .claim [] 1 "host:3" 3]

theorem attempts_exact_handoffs :
    ∃ s r, run (ledgerStep 3) {} handoffs = some s ∧ s.db.crawl.lookup 1 = some r ∧
      s.claims 1 = 3 ∧ s.releases 1 = 2 ∧ r.attempts = s.claims 1 - s.releases 1 ∧
      r.attempts ≤ 3 :=
  ⟨_, _, rfl, rfl, by decide, by decide,
    (attempts_exact (M := 3) (by decide) ⟨handoffs, rfl⟩ 1 _ rfl).1,
    (attempts_exact (M := 3) (by decide) ⟨handoffs, rfl⟩ 1 _ rfl).2.1⟩

end UrlCrawler
