import UrlCrawler.Core.PoolInvariant

/-! # What a step does to the crawler

The coroutine of `run` and its workers change the crawler in few ways. What all of them keep is kept
by every step: `SeedInvariant` collects the ways of the seed part, `PoolMove` those of the pool.
-/
set_option autoImplicit false

namespace UrlCrawler
open Execution Crawler Effects

/-- `run` has not come to its workers yet. -/
def RunPhase.isSeeding : RunPhase → Bool
  | created | guarding .. | fetching .. | robotsGuarding .. | robotsFetching .. => true
  | joining | leaving _ | done _ => false

/-- The policies a crawl may be given. -/
def Deps.Makes (d : Deps) (policy : RobotsPolicy) : Prop :=
  policy = .allowAll ∨ policy = .denyAll ∨ ∃ text agent, policy = d.robotsTxt text agent

theorem makes_of_robotsNext {d : Deps} {agent url : Text} {left : ℕ} {answer : RobotsAnswer}
    {policy : RobotsPolicy}
    (h : robotsNext d.unicode d.robotsTxt agent url left answer = .policy policy) :
    d.Makes policy := by
  unfold robotsNext at h
  repeat' split at h
  all_goals cases h
  all_goals first | exact .inl rfl | exact .inr (.inl rfl) | exact .inr (.inr ⟨_, _, rfl⟩)

/-! ## The seed part -/

/-- What `run` does to the crawler before its workers start keeps `J`. -/
structure SeedInvariant (d : Deps) (J : Crawler → Prop) : Prop where
  frontier : ∀ c frontier, J c → J { c with frontier }
  scope : ∀ c scope, J c → J { c with scope }
  robots : ∀ c policy, d.Makes policy → J c → J { c with robots := policy }
  claimed : ∀ c claimed, J c → J { c with claimed }
  followed : ∀ c url result target, J c →
    Ends (followRedirect d url result target) c (fun _ => J) fun _ => J
  handled : ∀ c url result, J c → Ends (handle d url (.ok result)) c (fun _ => J) fun _ => J

theorem SeedInvariant.and {d : Deps} {J K : Crawler → Prop} (hJ : SeedInvariant d J)
    (hK : SeedInvariant d K) : SeedInvariant d fun c => J c ∧ K c where
  frontier := fun c frontier h => ⟨hJ.frontier c frontier h.1, hK.frontier c frontier h.2⟩
  scope := fun c scope h => ⟨hJ.scope c scope h.1, hK.scope c scope h.2⟩
  robots := fun c policy hp h => ⟨hJ.robots c policy hp h.1, hK.robots c policy hp h.2⟩
  claimed := fun c claimed h => ⟨hJ.claimed c claimed h.1, hK.claimed c claimed h.2⟩
  followed := fun c url result target h =>
    (hJ.followed c url result target h.1).and (hK.followed c url result target h.2)
  handled := fun c url result h => (hJ.handled c url result h.1).and (hK.handled c url result h.2)

namespace CrawlRun
variable {d : Deps} {s s' : CrawlRun} {J : Crawler → Prop}

/-- No worker has started, or they all start now. -/
def Beginning (s : CrawlRun) : Prop :=
  match s.phase with
  | .joining => s.workers = List.replicate s.crawler.config.concurrency.toNat .ready
  | .leaving _ | .done (.returned _) => False
  | _ => s.workers = []

/-- The crawler satisfies `J`, and the run is before its pool, at the start of it, or over. -/
structure Seeds (J : Crawler → Prop) (s : CrawlRun) : Prop where
  crawler : J s.crawler
  errors : s.errors = []
  beginning : s.Beginning

theorem Seeds.workers (h : s.Seeds J) (hphase : s.phase.isSeeding = true) : s.workers = [] := by
  have hbegin := h.beginning
  unfold Beginning at hbegin
  cases hp : s.phase with
  | created | guarding _ _ | fetching _ _ _ | robotsGuarding _ _ _ _ | robotsFetching _ _ _ _ =>
    rw [hp] at hbegin
    exact hbegin
  | joining | leaving _ | done _ =>
    rw [hp] at hphase
    cases hphase

section Closed
variable (hJ : SeedInvariant d J) (hc : J s.crawler) (herrors : s.errors = [])
  (hworkers : s.workers = [])
include hc herrors hworkers

theorem seeds_fetchSeed (url : Text) (hops : ℕ) : (s.fetchSeed d url hops).Seeds J := by
  unfold fetchSeed
  split <;> exact ⟨hc, herrors, hworkers⟩

theorem seeds_robotsHop (url : Text) (result : FetchResult) (robotsUrl : Text) (left : ℕ) :
    (s.robotsHop d url result robotsUrl left).Seeds J := by
  unfold robotsHop
  split <;> exact ⟨hc, herrors, hworkers⟩

include hJ

theorem seeds_loaded (url : Text) (result : FetchResult) {policy : RobotsPolicy}
    (hpolicy : d.Makes policy) : (s.loaded d url result policy).Seeds J := by
  have hloaded := hJ.robots _ _ hpolicy hc
  unfold loaded
  dsimp only
  split
  · exact ⟨hloaded, herrors, hworkers⟩
  · exact ⟨hloaded, herrors, hworkers⟩
  · refine exec_of_ends ((hJ.handled _ url result hloaded).mono ?_ ?_)
    · exact fun _ c hhandled => ⟨hJ.claimed _ _ hhandled, herrors, rfl⟩
    · exact fun _ c hhandled => ⟨hhandled, herrors, hworkers⟩

theorem seeds_landed (url : Text) (result : FetchResult) : (s.landed d url result).Seeds J := by
  unfold landed
  split
  · exact ⟨hc, herrors, hworkers⟩
  rename_i scope hscope
  have hscoped := hJ.scope _ (some scope) hc
  dsimp only
  split
  · exact ⟨hscoped, herrors, hworkers⟩
  · unfold loadRobots
    split
    · split
      · exact ⟨hscoped, herrors, hworkers⟩
      · apply seeds_robotsHop <;> assumption
    · exact seeds_loaded hJ (by exact hscoped) (by exact herrors) (by exact hworkers) url result (.inl rfl)

theorem seeds_seedFetched (url : Text) (hops : ℕ) (outcome : FetchOutcome) :
    (s.seedFetched d url hops outcome).Seeds J := by
  unfold seedFetched
  cases outcome with
  | error error => exact ⟨hc, herrors, hworkers⟩
  | ok result =>
    dsimp only
    split
    · exact ⟨hc, herrors, hworkers⟩
    · exact seeds_landed hJ hc herrors hworkers url result
    · rename_i target htarget
      cases hops with
      | zero => exact ⟨hc, herrors, hworkers⟩
      | succ hops =>
        refine exec_of_ends ((hJ.followed _ url result target hc).mono ?_ ?_)
        · intro new c hfollowed
          cases new with
          | false => exact ⟨hfollowed, herrors, hworkers⟩
          | true => apply seeds_fetchSeed <;> assumption
        · exact fun _ c hfollowed => ⟨hfollowed, herrors, hworkers⟩

theorem seeds_begin : (s.begin d).Seeds J := by
  unfold begin
  split
  · exact ⟨hc, herrors, hworkers⟩
  · rename_i start hstart
    refine exec_of_ends ?_
    rw [ends_markSeen]
    refine ⟨fun new frontier _ => ?_, fun e _ => ⟨hc, herrors, hworkers⟩⟩
    have hmarked := hJ.frontier _ frontier hc
    apply seeds_fetchSeed <;> assumption

end Closed

/-- Every step before the pool keeps `J`, and leads to the start of the pool at most. -/
theorem Seeds.step (hJ : SeedInvariant d J) (h : s.Seeds J) (hphase : s.phase.isSeeding = true)
    {act : CrawlerAct} (hs : s.step d act = some s') : s'.Seeds J := by
  have hworkers := h.workers hphase
  cases act with
  | begin =>
    simp only [CrawlRun.step] at hs
    split at hs <;> cases hs
    exact seeds_begin hJ h.crawler h.errors hworkers
  | guarded reason =>
    simp only [CrawlRun.step, guarded] at hs
    split at hs
    · split at hs <;> cases hs
      · exact ⟨h.crawler, h.errors, hworkers⟩
      · exact ⟨h.crawler, h.errors, hworkers⟩
    · cases hs
  | guardRaised e | robotsGuardRaised e =>
    simp only [CrawlRun.step, guardRaised, robotsGuardRaised] at hs
    split at hs <;> cases hs
    exact ⟨h.crawler, h.errors, hworkers⟩
  | attempted answer =>
    simp only [CrawlRun.step, attempted] at hs
    split at hs
    · cases answer with
      | retry =>
        dsimp only at hs
        split at hs <;> cases hs
        exact ⟨h.crawler, h.errors, hworkers⟩
      | fetched response =>
        cases hs
        exact seeds_seedFetched hJ h.crawler h.errors hworkers _ _ _
      | raised e =>
        cases hs
        exact ⟨h.crawler, h.errors, hworkers⟩
    · cases hs
  | robotsGuarded reason =>
    simp only [CrawlRun.step, robotsGuarded] at hs
    split at hs
    · split at hs <;> cases hs
      · exact seeds_loaded hJ h.crawler h.errors hworkers _ _ (.inr (.inl rfl))
      · exact ⟨h.crawler, h.errors, hworkers⟩
    · cases hs
  | robotsAnswered answer =>
    simp only [CrawlRun.step, robotsAnswered] at hs
    split at hs
    · split at hs <;> cases hs
      · exact ⟨h.crawler, h.errors, hworkers⟩
      · rename_i policy hnext
        exact seeds_loaded hJ h.crawler h.errors hworkers _ _ (makes_of_robotsNext hnext)
      · exact seeds_robotsHop h.crawler h.errors hworkers _ _ _ _
    · cases hs
  | take w | locked w | slept w | workerAttempted w answer | joined | failed | left =>
    -- these wait for the pool
    simp only [CrawlRun.step, take, locked, slept, workerAttempted, joined, failed,
      CrawlRun.left] at hs
    split at hs
    · rename_i hpool _
      simp_all [RunPhase.isSeeding]
    · cases hs
  | cancel =>
    simp only [CrawlRun.step, cancel] at hs
    split at hs
    · cases hs
    · rename_i hpool
      simp [hpool, RunPhase.isSeeding] at hphase
    · rename_i hpool
      simp [hpool, RunPhase.isSeeding] at hphase
    · cases hs
      exact ⟨h.crawler, h.errors, hworkers⟩
  | workerCancelled w =>
    simp [CrawlRun.step, workerCancelled, hworkers] at hs

/-! ## The pool -/

/-- What a step past the seed does to the crawler: it leaves all but the frontier alone, or a worker
takes a URL, or a worker is through with its fetch. -/
inductive PoolMove (d : Deps) (s : CrawlRun) : CrawlerAct → Crawler → Prop
  | rest {act : CrawlerAct} (hact : ∀ w response, act ≠ .workerAttempted w (.fetched response))
      (frontier : Frontier) : PoolMove d s act { s.crawler with frontier }
  | claim (w : ℕ) (before after : Frontier) :
      PoolMove d s (.take w)
        { { s.crawler with frontier := before }.claim.2 with frontier := after }
  | work {w attempt : ℕ} {url : Text} {answer : Answer} {c : Crawler} (hphase : s.phase = .joining)
      (hw : s.workers[w]? = some (.fetching url attempt)) (fetched : Except Exn FetchOutcome)
      (hanswer : match answer with
        | .retry => False
        | .fetched response => fetched = .ok (response.outcome url attempt)
        | .raised e => fetched = .error e)
      (hends : ∀ {P : Crawler → Prop},
        Ends (Crawler.work d url fetched) s.crawler (fun _ => P) (fun _ => P) → P c)
      (after : Frontier) : PoolMove d s (.workerAttempted w answer) { c with frontier := after }

theorem poolMove_worked {w attempt : ℕ} {url : Text} {answer : Answer} (hphase : s.phase = .joining)
    (hw : s.workers[w]? = some (.fetching url attempt)) {fetched : Except Exn FetchOutcome}
    (hanswer : match answer with
      | .retry => False
      | .fetched response => fetched = .ok (response.outcome url attempt)
      | .raised e => fetched = .error e) :
    PoolMove d s (.workerAttempted w answer) (s.worked d w url fetched).crawler := by
  unfold worked
  split
  · rename_i crawler hwork
    exact .work hphase hw fetched hanswer (fun h => h.of_ok hwork) _
  · rename_i e crawler hwork
    exact .work hphase hw fetched hanswer (fun h => h.of_error hwork) _

theorem step_poolMove (hphase : s.phase.isSeeding = false) {act : CrawlerAct}
    (hs : s.step d act = some s') : PoolMove d s act s'.crawler := by
  have hrest : (∀ w response, act ≠ .workerAttempted w (.fetched response)) →
      PoolMove d s act s.crawler := fun hact => .rest hact s.crawler.frontier
  cases act with
  | take w =>
    simp only [step, take] at hs
    split at hs
    · rename_i url frontier hjoining hw hget
      have hmove := PoolMove.claim (d := d) (s := s) w frontier
      generalize { s.crawler with frontier }.claim = claimed at hs hmove
      obtain ⟨claim, crawler⟩ := claimed
      cases claim <;> cases hs
      · exact hmove _
      · exact hmove crawler.frontier
      · exact hmove crawler.frontier
    · cases hs
  | workerAttempted w answer =>
    simp only [step, workerAttempted] at hs
    split at hs
    · rename_i url attempt hjoining hw
      cases answer with
      | retry =>
        dsimp only at hs
        split at hs <;> cases hs
        exact hrest (by simp)
      | fetched response =>
        cases hs
        exact poolMove_worked hjoining hw rfl
      | raised e =>
        cases hs
        exact poolMove_worked hjoining hw rfl
    · cases hs
  | workerCancelled w =>
    simp only [step, workerCancelled] at hs
    split at hs
    · split at hs
      · cases hs
      · split at hs <;> cases hs
        · exact .rest (by simp) _
        · exact hrest (by simp)
    · cases hs
  | locked w | joined | failed | left =>
    simp only [step, locked, joined, failed, CrawlRun.left] at hs
    split at hs
    · split at hs <;> cases hs
      exact hrest (by simp)
    · cases hs
  | slept w =>
    obtain ⟨url, -, -, -, rfl⟩ := slept_some.mp hs
    exact hrest (by simp)
  | cancel =>
    simp only [step, cancel] at hs
    split at hs <;> cases hs <;> exact hrest (by simp)
  | begin | guarded _ | guardRaised _ | attempted _ | robotsGuarded _ | robotsGuardRaised _
  | robotsAnswered _ =>
    -- these wait for the seed
    simp only [step, guarded, guardRaised, attempted, robotsGuarded, robotsGuardRaised,
      robotsAnswered] at hs
    split at hs
    · rename_i hseed
      simp [hseed, RunPhase.isSeeding] at hphase
    · cases hs

theorem poolMove_robots {act : CrawlerAct} {c : Crawler} (h : PoolMove d s act c) :
    c.robots = s.crawler.robots := by
  cases h with
  | rest hact frontier => rfl
  | claim w before after =>
    obtain ⟨-, -, hrobots, -⟩ := claim_frame { s.crawler with frontier := before }
    exact hrobots
  | @work w attempt url answer c hjoining hw fetched hanswer hends after =>
    have hfollows : Follows d (foundLinks d url fetched) s.crawler c :=
      hends (work_follows url fetched s.crawler)
    exact hfollows.robots

/-- No step leads out of a run that is over. -/
theorem step_done {result : RunResult} (h : s.phase = .done result) (act : CrawlerAct) :
    s.step d act = none := by
  cases act with
  | workerCancelled w =>
    simp only [step, workerCancelled, cancelling, h]
    split <;> rfl
  | _ => simp [step, guarded, guardRaised, attempted, robotsGuarded, robotsGuardRaised,
      robotsAnswered, take, locked, slept, workerAttempted, joined, failed, cancel, CrawlRun.left, h]

theorem worked_phase (w : ℕ) (url : Text) (fetched : Except Exn FetchOutcome) :
    (s.worked d w url fetched).phase = s.phase := by
  unfold worked
  split <;> rfl

/-- Where `run` is after a step past its seed: where it was, leaving the task group, or at its end. -/
theorem step_phase (hphase : s.phase.isSeeding = false) {act : CrawlerAct}
    (hs : s.step d act = some s') :
    s'.phase = s.phase ∨ (∃ cancelled, s'.phase = .leaving cancelled) ∨
      s'.phase = .done .cancelled ∨ ∃ cancelled, s' = s.leave cancelled := by
  cases act with
  | take w =>
    simp only [step, take] at hs
    split at hs
    · split at hs <;> cases hs <;> exact .inl rfl
    · cases hs
  | locked w =>
    simp only [step, locked] at hs
    split at hs
    · split at hs <;> cases hs
      exact .inl rfl
    · cases hs
  | slept w =>
    obtain ⟨url, -, -, -, rfl⟩ := slept_some.mp hs
    exact .inl rfl
  | workerAttempted w answer =>
    simp only [step, workerAttempted] at hs
    split at hs
    · cases answer with
      | retry =>
        dsimp only at hs
        split at hs <;> cases hs
        exact .inl rfl
      | fetched response =>
        cases hs
        exact .inl (worked_phase ..)
      | raised e =>
        cases hs
        exact .inl (worked_phase ..)
    · cases hs
  | joined | failed =>
    simp only [step, joined, failed] at hs
    split at hs
    · split at hs <;> cases hs
      exact .inr (.inl ⟨_, rfl⟩)
    · cases hs
  | cancel =>
    simp only [step, cancel] at hs
    split at hs <;> cases hs
    · exact .inr (.inl ⟨_, rfl⟩)
    · exact .inr (.inl ⟨_, rfl⟩)
    · exact .inr (.inr (.inl rfl))
  | workerCancelled w =>
    simp only [step, workerCancelled] at hs
    split at hs
    · split at hs
      · cases hs
      · split at hs <;> cases hs <;> exact .inl rfl
    · cases hs
  | left =>
    simp only [step, CrawlRun.left] at hs
    split at hs
    · split at hs <;> cases hs
      exact .inr (.inr (.inr ⟨_, rfl⟩))
    · cases hs
  | begin | guarded _ | guardRaised _ | attempted _ | robotsGuarded _ | robotsGuardRaised _
  | robotsAnswered _ =>
    simp only [step, guarded, guardRaised, attempted, robotsGuarded, robotsGuardRaised,
      robotsAnswered] at hs
    split at hs
    · rename_i hseed
      simp [hseed, RunPhase.isSeeding] at hphase
    · cases hs

theorem leave_phase (s : CrawlRun) (cancelled : Bool) :
    ∃ result, (s.leave cancelled).phase = .done result ∧ ∀ outcome, result = .returned outcome →
      outcome = ⟨s.crawler.stats.pagesTotal, s.crawler.aborted, s.crawler.reason⟩ := by
  refine ⟨_, rfl, fun outcome h => ?_⟩
  split at h
  · cases h
  · split at h <;> cases h
    rfl

theorem step_past_seed (hphase : s.phase.isSeeding = false) {act : CrawlerAct}
    (hs : s.step d act = some s') : s'.phase.isSeeding = false := by
  rcases step_phase hphase hs with hsame | ⟨cancelled, hleaving⟩ | hdone | ⟨cancelled, rfl⟩
  · rw [hsame, hphase]
  · rw [hleaving]
    rfl
  · rw [hdone]
    rfl
  · rfl

/-- A run past its seed that a step brings to its end returns what the crawler has counted. -/
theorem step_returned (hphase : s.phase.isSeeding = false) {act : CrawlerAct}
    (hs : s.step d act = some s') {outcome : CrawlOutcome}
    (hdone : s'.phase = .done (.returned outcome)) :
    outcome = ⟨s'.crawler.stats.pagesTotal, s'.crawler.aborted, s'.crawler.reason⟩ := by
  rcases step_phase hphase hs with hsame | ⟨cancelled, hleaving⟩ | hover | ⟨cancelled, rfl⟩
  · rw [step_done (hsame.symm.trans hdone) act] at hs
    cases hs
  · rw [hleaving] at hdone
    cases hdone
  · rw [hover] at hdone
    cases hdone
  · obtain ⟨result, hresult, hreturned⟩ := s.leave_phase cancelled
    exact hreturned outcome (RunPhase.done.inj (hresult.symm.trans hdone))

end CrawlRun
end UrlCrawler
