import UrlCrawler.Core.Pool

/-! # The pool comes to an end

A measure falls with every step of the pool, as long as the keys that can still be found are in a
finite set, and as long as the run is not over some step is possible. Together: every run of the
pool ends.
-/
set_option autoImplicit false

namespace UrlCrawler
open Execution Crawler Worklist

/-! ## The measure -/

section Grows
variable {u : Unicode} {P : Text → Prop} {f f' : Frontier}

/-- A key that is seen for the first time pays for its place in the queue. -/
theorem work_grows (keys : Finset Text) (a : ℕ) (hg : Frontier.Grows u P f f')
    (hkeys : ∀ key ∈ f'.seen, key ∈ f.seen ∨ key ∈ keys) :
    (keys \ f'.seen).card * (a + 1) + f'.queue.length * a ≤
      (keys \ f.seen).card * (a + 1) + f.queue.length * a := by
  induction hg with
  | refl => exact le_rfl
  | dropped g _ ih => exact ih hkeys
  | added g url key hgrown _ _ hnew ih =>
    have hin : key ∈ keys := by
      apply (hkeys key (Finset.mem_insert_self key g.seen)).resolve_left
      intro hold
      exact hnew (hgrown.seen_subset hold)
    have hcard : (keys \ g.seen).card = (keys \ insert key g.seen).card + 1 := by
      rw [Finset.sdiff_insert]
      have hmem : key ∈ keys \ g.seen := Finset.mem_sdiff.mpr ⟨hin, hnew⟩
      rw [← Finset.card_erase_add_one hmem]
    have hrest := ih fun key' hkey' => hkeys key' (Finset.mem_insert_of_mem hkey')
    simp only [List.length_append, List.length_singleton]
    rw [hcard] at hrest
    calc (keys \ insert key g.seen).card * (a + 1) + (g.queue.length + 1) * a
        ≤ ((keys \ insert key g.seen).card + 1) * (a + 1) + g.queue.length * a := by
          rw [Nat.add_mul, Nat.add_mul]
          omega
      _ ≤ _ := hrest

end Grows

/-- How far the pool is from being left. -/
def RunPhase.rest : RunPhase → ℕ
  | joining => 2
  | leaving _ => 1
  | _ => 0

namespace CrawlRun
variable {d : Deps} {site : Site} {s s' : CrawlRun} {keys : Finset Text}

/-- How much the workers still have to do with the URLs they have. -/
def labour (d : Deps) (s : CrawlRun) : ℕ :=
  (s.workers.map fun phase => phase.weight d.maxAttempts).sum

/-- What is left to do, if no other keys than `keys` are found. -/
def work (d : Deps) (keys : Finset Text) (s : CrawlRun) : ℕ :=
  (keys \ s.crawler.frontier.seen).card * (d.maxAttempts + 5 + 1) +
    s.crawler.frontier.queue.length * (d.maxAttempts + 5) + s.labour d + s.phase.rest

theorem labour_set {w : ℕ} {phase : WorkerPhase} (hw : s.workers[w]? = some phase)
    (phase' : WorkerPhase) : ∃ rest, s.labour d = phase.weight d.maxAttempts + rest ∧
      (s.setWorker w phase').labour d = phase'.weight d.maxAttempts + rest := by
  obtain ⟨hlt, rfl⟩ := List.getElem?_eq_some_iff.mp hw
  refine ⟨((s.workers.eraseIdx w).map fun phase => phase.weight d.maxAttempts).sum, ?_, ?_⟩
  · have hperm := (List.getElem_cons_eraseIdx_perm hlt).map fun phase => phase.weight d.maxAttempts
    rw [labour, ← hperm.sum_eq, List.map_cons, List.sum_cons]
  · have hperm := (List.set_perm_cons_eraseIdx hlt phase').map
      fun phase => phase.weight d.maxAttempts
    rw [labour, setWorker, hperm.sum_eq, List.map_cons, List.sum_cons]

section Step
variable {config : CrawlConfig} {chain : List Text} {final : Text} {scope : HostScope}
  {policy : RobotsPolicy}

/-- Keys seen that are not those of the seed chain are found from its end. -/
theorem Pool.seen_cases (h : s.Pool d site config chain final scope policy) {key : Text}
    (hkey : key ∈ s.crawler.frontier.seen) :
    (∃ url ∈ chain, Keyed d.unicode url key) ∨ site.Covers d scope policy final key :=
  h.explores.sound.seen key hkey

/-- The keys of reported pages are seen. -/
theorem Pool.reported_seen (h : s.Pool d site config chain final scope policy) {url key : Text}
    (hurl : url ∈ s.crawler.reported) (hkey : Keyed d.unicode url key) :
    key ∈ s.crawler.frontier.seen := by
  obtain ⟨key', hseen, hok⟩ := h.explores.fresh.seen url
    (List.mem_append_left _ (List.mem_append_left _ hurl))
  obtain rfl := Except.ok.inj (hkey.2.symm.trans hok)
  exact hseen

/-- Every step of the pool leaves less to do. -/
theorem Pool.work_lt (hd : d.NormalLinks)
    (hkeys : ∀ key, site.Covers d scope policy final key → key ∈ keys)
    (h : s.Pool d site config chain final scope policy) (hs : PoolStep d site s s') :
    s'.work d keys < s.work d keys := by
  have hpool' := h.of_step hd hs
  cases hs with
  | @drop url frontier hphase hget hstop =>
    obtain ⟨hqueue, -, hseen⟩ := Frontier.get_spec hget
    have hlength := congrArg List.length hqueue
    rw [List.length_cons] at hlength
    show (keys \ frontier.seen).card * _ + frontier.queue.length * _ + s.labour d + _ < _
    unfold work
    rw [hseen, hlength, Nat.add_mul]
    show _ + _ + _ + s.phase.rest < _
    omega
  | @take w url frontier phase hphase hw hget hroom hurl events =>
    obtain ⟨hqueue, -, hseen⟩ := Frontier.get_spec hget
    have hlength := congrArg List.length hqueue
    rw [List.length_cons] at hlength
    obtain ⟨rest, hold, hnew⟩ := labour_set (d := d) hw phase
    have hweight : phase.weight d.maxAttempts ≤ d.maxAttempts + 4 := by
      rcases hurl with rfl | ⟨rfl, -⟩ <;> simp only [WorkerPhase.weight] <;> omega
    have hready : WorkerPhase.ready.weight d.maxAttempts = 1 := rfl
    show (keys \ frontier.seen).card * _ + frontier.queue.length * _ +
      (s.setWorker w phase).labour d + s.phase.rest < _
    unfold work
    rw [hseen, hlength, Nat.add_mul, hold, hnew]
    omega
  | @move w phase phase' hphase hw hurl hbusy hless hawake events =>
    obtain ⟨rest, hold, hnew⟩ := labour_set (d := d) hw phase'
    show _ + _ + (s.setWorker w phase').labour d + s.phase.rest < _
    unfold work
    rw [hold, hnew]
    show (keys \ s.crawler.frontier.seen).card * _ + s.crawler.frontier.queue.length * _ + _ + _ < _
    omega
  | @handle w attempt url crawler hphase hw hfollows hreported htally =>
    obtain ⟨rest, hold, hnew⟩ := labour_set (d := d) hw .ready
    have hgrown := work_grows keys (d.maxAttempts + 5) hfollows.frontier fun key hkey => by
      rcases hpool'.seen_cases hkey with ⟨next, hchain, hnext⟩ | hcover
      · exact .inl (h.reported_seen (h.chained.subset hchain) hnext)
      · exact .inr (hkeys key hcover)
    have hready : WorkerPhase.ready.weight d.maxAttempts = 1 := rfl
    have hfetching : 2 ≤ (WorkerPhase.fetching url attempt).weight d.maxAttempts := by
      simp only [WorkerPhase.weight]
      omega
    show (keys \ crawler.frontier.seen).card * _ + crawler.frontier.queue.length * _ +
      (s.setWorker w .ready).labour d + s.phase.rest < _
    unfold work
    rw [hold, hnew]
    omega
  | join hphase hnone =>
    show _ + _ + s.labour d + 1 < _
    unfold work
    rw [hphase]
    show (keys \ s.crawler.frontier.seen).card * _ + s.crawler.frontier.queue.length * _ + _ + _ < _
    exact Nat.lt_succ_self _
  | @cancel w hphase hw =>
    obtain ⟨rest, hold, hnew⟩ := labour_set (d := d) hw .done
    have hready : WorkerPhase.ready.weight d.maxAttempts = 1 := rfl
    have hdone : WorkerPhase.done.weight d.maxAttempts = 0 := rfl
    show _ + _ + (s.setWorker w .done).labour d + s.phase.rest < _
    unfold work
    rw [hold, hnew]
    show (keys \ s.crawler.frontier.seen).card * _ + s.crawler.frontier.queue.length * _ + _ + _ < _
    omega
  | leave hphase =>
    have hleave : (s.leave false).work d keys + 1 = s.work d keys := by
      unfold work
      rw [hphase]
      rfl
    omega

/-! ## Progress -/

/-- A worker that has a URL can go on with it. -/
theorem Pool.busy_step (hdelay : s.crawler.robots.endless = false) (hphase : s.phase = .joining)
    {w : ℕ} {phase : WorkerPhase} (hw : s.workers[w]? = some phase)
    (hbusy : phase.url?.isSome = true) :
    ∃ act s', site.Serves s act ∧ s.step d act = some s' := by
  cases phase with
  | ready | done | failed => cases hbusy
  | locking url =>
    cases hsleeping : s.workers.any WorkerPhase.isSleeping with
    | false =>
      refine ⟨.locked w, s.setWorker w (.sleeping url), trivial, ?_⟩
      simp [step, locked, hphase, hw, hsleeping]
    | true =>
      -- the one who sleeps in the lock goes first
      obtain ⟨phase, hmem, hsleeps⟩ := List.any_eq_true.mp hsleeping
      obtain ⟨v, hv⟩ := List.mem_iff_getElem?.mp hmem
      cases phase with
      | sleeping next =>
        exact ⟨.slept v, s.poolFetch v next, trivial, slept_some.mpr ⟨next, hphase, hv, hdelay, rfl⟩⟩
      | locking _ | ready | done | failed | fetching _ _ => cases hsleeps
  | sleeping url =>
    exact ⟨.slept w, s.poolFetch w url, trivial, slept_some.mpr ⟨url, hphase, hw, hdelay, rfl⟩⟩
  | fetching url attempt =>
    cases hanswer : site url with
    | ok response =>
      refine ⟨.workerAttempted w (.fetched response),
        s.worked d w url (.ok (response.outcome url attempt)), ?_, ?_⟩
      · simp [Site.Serves, hw, Site.Gives, hanswer]
      · simp [step, workerAttempted, hphase, hw]
    | error e =>
      refine ⟨.workerAttempted w (.raised e), s.worked d w url (.error e), ?_, ?_⟩
      · simp [Site.Serves, hw, Site.Gives, hanswer]
      · simp [step, workerAttempted, hphase, hw]

/-- Workers that wait in a delay that never ends, or for the lock it is slept in, wait until the run is
cancelled. -/
theorem step_asleep (hdelay : s.crawler.robots.endless = true) (hphase : s.phase = .joining)
    (herrors : s.errors = []) (hunfinished : s.crawler.frontier.unfinished ≠ 0)
    (hwait : ∀ phase ∈ s.workers, ∃ url, phase = .locking url ∨ phase = .sleeping url)
    (hsleeping : s.workers.any WorkerPhase.isSleeping = true) {act : CrawlerAct}
    (hact : act ≠ .cancel) : s.step d act = none := by
  have hwaits : ∀ w phase, s.workers[w]? = some phase →
      ∃ url, phase = WorkerPhase.locking url ∨ phase = .sleeping url := fun w phase hw =>
    hwait phase (List.mem_of_getElem? hw)
  cases act with
  | cancel => exact absurd rfl hact
  | take w | slept w | workerAttempted w answer =>
    cases hw : s.workers[w]? with
    | none => simp [step, take, slept, workerAttempted, hphase, hw]
    | some phase =>
      obtain ⟨url, rfl | rfl⟩ := hwaits w phase hw <;>
        simp [step, take, slept, workerAttempted, hphase, hw, hdelay]
  | locked w =>
    simp only [step, locked]
    split
    · rw [if_pos hsleeping]
    · rfl
  | workerCancelled w =>
    cases hw : s.workers[w]? with
    | none => simp [step, workerCancelled, hw]
    | some phase => simp [step, workerCancelled, hw, cancelling, hphase, herrors]
  | begin | guarded _ | guardRaised _ | attempted _ | robotsGuarded _ | robotsGuardRaised _
  | robotsAnswered _ | joined | failed | left =>
    simp [step, guarded, guardRaised, attempted, robotsGuarded, robotsGuardRaised, robotsAnswered,
      joined, failed, CrawlRun.left, hphase, herrors, hunfinished]

/-- As long as the run is not over, some step is possible, unless the delay never ends. -/
theorem poolPhase_progress (hdelay : s.crawler.robots.endless = false) (hpool : s.PoolPhase)
    (hlt : 0 < s.workers.length) (hcore : s.Core d) (hover : ∀ result, s.phase ≠ .done result) :
    ∃ act s', site.Serves s act ∧ s.step d act = some s' := by
  unfold PoolPhase at hpool
  split at hpool
  · rename_i hphase
    by_cases hnone : s.crawler.frontier.unfinished = 0
    · exact ⟨.joined, { s with phase := .leaving false }, trivial, by
        simp [step, joined, hphase, hnone]⟩
    · cases hbusy : s.busy with
      | cons url rest =>
        obtain ⟨phase, hmem, hurl⟩ := List.mem_filterMap.mp
          (hbusy ▸ List.mem_cons_self .. : url ∈ s.busy)
        obtain ⟨w, hw⟩ := List.mem_iff_getElem?.mp hmem
        exact Pool.busy_step hdelay hphase hw (by rw [hurl]; rfl)
      | nil =>
        -- nobody is busy, so there is a queue and the first worker is waiting for it
        have hcount := hcore.unfinished
        rw [hbusy, List.length_nil] at hcount
        have hw : s.workers[0]? = some s.workers[0] := List.getElem?_eq_getElem hlt
        have hlive := hpool _ (List.getElem_mem hlt)
        have hready : s.workers[0] = .ready := by
          cases hfirst : s.workers[0] with
          | ready => rfl
          | done | failed =>
            rw [hfirst] at hlive
            cases hlive
          | locking url | sleeping url | fetching url _ =>
            have hmem : url ∈ s.busy := mem_busy hw (by rw [hfirst]; rfl)
            rw [hbusy] at hmem
            cases hmem
        rw [hready] at hw
        cases hqueue : s.crawler.frontier.queue with
        | nil =>
          rw [hqueue, List.length_nil] at hcount
          exact absurd hcount hnone
        | cons url queue =>
          have hget : s.crawler.frontier.get =
              some (url, { s.crawler.frontier with queue }) := by
            unfold Frontier.get
            rw [hqueue]
          refine ⟨.take 0, ?_⟩
          simp only [step, take, hphase, hw, hget, Site.Serves, true_and]
          split <;> exact ⟨_, rfl⟩
  · rename_i cancelled hphase
    obtain ⟨rfl, hnone⟩ := hpool
    by_cases hover : s.workers.all WorkerPhase.isOver = true
    · exact ⟨.left, s.leave false, trivial, by simp [step, left, hphase, hover]⟩
    · have hsome : ∃ phase ∈ s.workers, phase.isOver = false := by
        simpa [List.all_eq_true] using hover
      obtain ⟨phase, hmem, hlive⟩ := hsome
      obtain ⟨w, hw⟩ := List.mem_iff_getElem?.mp hmem
      refine ⟨.workerCancelled w, ?_⟩
      simp only [step, workerCancelled, hw, cancelling, hphase, hlive, Site.Serves, true_and]
      cases phase.url?.isSome <;> exact ⟨_, rfl⟩
  · rename_i result hphase
    exact absurd hphase (hover result)
  · exact hpool.elim

theorem Pool.progress (h : s.Pool d site config chain final scope policy) (hcore : s.Core d)
    (hdelay : policy.endless = false) (hover : ∀ result, s.phase ≠ .done result) :
    ∃ act s', site.Serves s act ∧ s.step d act = some s' := by
  have hpos := config.concurrency_pos
  have hlt : 0 < s.workers.length := by
    rw [h.workers]
    omega
  exact poolPhase_progress (h.explores.robots_eq ▸ hdelay) h.phase hlt hcore hover

/-- Once the workers are told to stop, nothing is queued or in progress. -/
theorem Pool.drained (h : s.Pool d site config chain final scope policy) (hcore : s.Core d)
    (hphase : s.phase ≠ .joining) : s.crawler.frontier.queue = [] ∧ s.busy = [] := by
  have hpool := h.phase
  unfold PoolPhase at hpool
  split at hpool
  · rename_i hjoining
    exact absurd hjoining hphase
  · exact idle_of_unfinished hcore hpool.2
  · exact idle_of_unfinished hcore hpool.1
  · exact hpool.elim

end Step
end CrawlRun
end UrlCrawler
