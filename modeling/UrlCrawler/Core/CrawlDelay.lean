import UrlCrawler.Core.Coverage
import UrlCrawler.Core.CrawlerSteps

/-! # The crawl delay

The delay of a policy is slept once for each page, in a lock the workers share; the retries of
`Fetcher.fetch` come after their own backoff. So a sleep lies between any two pages the pool
begins to fetch, and none needs to lie before a retry.
-/
set_option autoImplicit false

namespace UrlCrawler
open Execution Crawler Effects

/-- What happens in the pool, for the delay: a worker begins to sleep in the lock, it wakes, it sends
a request, which may be a retry. -/
inductive DelayEvent
  | sleeps (w : ℕ)
  | wakes (w : ℕ)
  | request (w : ℕ) (retry : Bool)
deriving DecidableEq

namespace DelayEvent

def isRequest : DelayEvent → Bool
  | request _ _ => true
  | _ => false

/-- The first request for a page. -/
def beginsPage : DelayEvent → Bool
  | request _ false => true
  | _ => false

end DelayEvent

/-- A sleep begins and completes in the stretch, and no other one overlaps it. -/
def Slept (stretch : List DelayEvent) : Prop :=
  ∃ before w during after, stretch = before ++ .sleeps w :: (during ++ .wakes w :: after) ∧
    ∀ e ∈ during, e.isRequest = true

/-- What a step of the pool does with the lock and the server. -/
def CrawlRun.delayEvents (s : CrawlRun) : CrawlerAct → List DelayEvent
  | .take w =>
    match s.crawler.frontier.get with
    | some (_, rest) =>
      if { s.crawler with frontier := rest }.claim.1 = .fetches then [.request w false] else []
    | none => []
  | .locked w => [.sleeps w]
  | .slept w => [.wakes w, .request w false]
  | .workerAttempted w .retry => [.request w true]
  | _ => []

/-- The events of a run so far. -/
def DelayEvent.note (s : CrawlRun) (trace : List DelayEvent) (act : CrawlerAct) : List DelayEvent :=
  trace ++ s.delayEvents act

namespace CrawlRun
variable {d : Deps} {s s' : CrawlRun} {trace : List DelayEvent}

/-- Pages are spaced so far, and a worker that sleeps is the only one and began after the last page. -/
structure Delayed (s : CrawlRun) (trace : List DelayEvent) : Prop where
  spaced : Spaced DelayEvent.beginsPage Slept trace
  alone : ∀ (w : ℕ) (url : Text), s.workers[w]? = some (.sleeping url) →
    ∀ (w' : ℕ) (url' : Text), s.workers[w']? = some (.sleeping url') → w' = w
  begun : ∀ (w : ℕ) (url : Text), s.workers[w]? = some (.sleeping url) → ∃ before during,
    since DelayEvent.beginsPage trace = before ++ .sleeps w :: during ∧
      ∀ e ∈ during, e.isRequest = true

/-- No worker falls asleep, and no page is begun. -/
theorem Delayed.keep (h : s.Delayed trace)
    (hworkers : ∀ (w : ℕ) (url : Text), s'.workers[w]? = some (.sleeping url) →
      s.workers[w]? = some (.sleeping url)) : s'.Delayed trace where
  spaced := h.spaced
  alone := fun w url hw w' url' hw' => h.alone w url (hworkers w url hw) w' url' (hworkers w' url' hw')
  begun := fun w url hw => h.begun w url (hworkers w url hw)

/-- A retry. -/
theorem Delayed.retry (h : s.Delayed trace) (w : ℕ) : s.Delayed (trace ++ [.request w true]) where
  spaced := h.spaced.unmarked rfl
  alone := h.alone
  begun := fun v url hv => by
    obtain ⟨before, during, hsince, hduring⟩ := h.begun v url hv
    refine ⟨before, during ++ [.request w true], ?_, ?_⟩
    · rw [since_unmarked rfl, hsince, List.append_assoc]
      rfl
    · intro e he
      rcases List.mem_append.mp he with hold | hnew
      · exact hduring e hold
      · rw [List.mem_singleton.mp hnew]
        rfl

theorem sleeping_of_set {w v : ℕ} {url : Text} {phase : WorkerPhase}
    (hphase : phase.isSleeping = false) (h : (s.workers.set w phase)[v]? = some (.sleeping url)) :
    s.workers[v]? = some (.sleeping url) := by
  by_cases hvw : w = v
  · subst hvw
    rw [List.getElem?_set_self'] at h
    cases hw : s.workers[w]? with
    | none =>
      rw [hw] at h
      cases h
    | some old =>
      rw [hw] at h
      obtain rfl := Option.some.inj h
      cases hphase
  · rw [List.getElem?_set_ne hvw] at h
    exact h

/-- Nobody sleeps, and a worker falls asleep. -/
theorem Delayed.locked (h : s.Delayed trace) {w : ℕ} (url : Text)
    (hnone : s.workers.any WorkerPhase.isSleeping = false) :
    (s.setWorker w (.sleeping url)).Delayed (trace ++ [.sleeps w]) := by
  have hawake : ∀ (v : ℕ) (next : Text),
      (s.setWorker w (.sleeping url)).workers[v]? = some (.sleeping next) →
      v = w := by
    intro v next hv
    by_contra hne
    rw [setWorker, List.getElem?_set_ne (Ne.symm hne)] at hv
    have hsleeps := List.any_eq_false.mp hnone _ (List.mem_of_getElem? hv)
    exact hsleeps rfl
  exact
    { spaced := h.spaced.unmarked rfl
      alone := fun v next hv v' next' hv' => (hawake v' next' hv').trans (hawake v next hv).symm
      begun := fun v next hv => by
        obtain rfl := hawake v next hv
        refine ⟨since DelayEvent.beginsPage trace, [], since_unmarked rfl, ?_⟩
        exact fun e he => by cases he }

/-- The one who sleeps wakes and begins its page. -/
theorem Delayed.slept (h : s.Delayed trace) {w : ℕ} {url : Text}
    (hw : s.workers[w]? = some (.sleeping url)) :
    (s.poolFetch w url).Delayed (trace ++ [.wakes w, .request w false]) := by
  obtain ⟨before, during, hsince, hduring⟩ := h.begun w url hw
  have hawake : ∀ (v : ℕ) (next : Text), (s.poolFetch w url).workers[v]? ≠ some (.sleeping next) := by
    intro v next hv
    have hset : (s.workers.set w (.fetching url 1))[v]? = some (.sleeping next) := hv
    have hold := sleeping_of_set rfl hset
    obtain rfl := h.alone w url hw v next hold
    have hlt := (List.getElem?_eq_some_iff.mp hw).1
    have hnow : (s.workers.set v (.fetching url 1))[v]? = some (.fetching url 1) := by simp [hlt]
    rw [show (s.poolFetch v url).workers[v]? = (s.workers.set v (.fetching url 1))[v]? from rfl,
      hnow] at hv
    cases hv
  refine ⟨?_, fun v next hv => absurd hv (hawake v next), fun v next hv => absurd hv (hawake v next)⟩
  have hwoken : Spaced DelayEvent.beginsPage Slept (trace ++ [.wakes w]) := h.spaced.unmarked rfl
  have hslept : Slept (since DelayEvent.beginsPage (trace ++ [.wakes w])) := by
    refine ⟨before, w, during, [], ?_, hduring⟩
    rw [since_unmarked rfl, hsince, List.append_assoc]
    rfl
  have hmarked := hwoken.marked (e := .request w false) hslept
  rwa [List.append_assoc] at hmarked

/-- With a policy that delays, a worker that takes a URL waits for the lock. -/
theorem delayEvents_take (hdelays : s.crawler.robots.delays = true) (w : ℕ) :
    s.delayEvents (.take w) = [] := by
  simp only [delayEvents]
  split
  · rename_i url rest _
    rw [if_neg]
    intro hfetches
    unfold Crawler.claim at hfetches
    simp only [hdelays, if_true] at hfetches
    split at hfetches
    · cases hfetches
    · split at hfetches <;> cases hfetches
  · rfl

/-- Every step of the pool keeps the pages spaced. -/
theorem Delayed.step (h : s.Delayed trace) (hdelays : s.crawler.robots.delays = true)
    (hphase : s.phase.isSeeding = false) {act : CrawlerAct} (hs : s.step d act = some s') :
    s'.Delayed (DelayEvent.note s trace act) := by
  have hkeep : s.delayEvents act = [] → (∀ (w : ℕ) (url : Text),
      s'.workers[w]? = some (.sleeping url) → s.workers[w]? = some (.sleeping url)) →
      s'.Delayed (DelayEvent.note s trace act) := by
    intro hevents hworkers
    rw [DelayEvent.note, hevents, List.append_nil]
    exact h.keep hworkers
  cases act with
  | take w =>
    refine hkeep (delayEvents_take hdelays w) ?_
    simp only [CrawlRun.step, take] at hs
    split at hs
    · split at hs <;> cases hs
      · exact fun _ _ hv => hv
      · exact fun _ _ hv => sleeping_of_set rfl hv
      · exact fun _ _ hv => sleeping_of_set rfl hv
    · cases hs
  | locked w =>
    simp only [CrawlRun.step, CrawlRun.locked] at hs
    split at hs
    · rename_i url hjoining hw
      split at hs <;> cases hs
      rename_i hnone
      exact h.locked url (by simpa using hnone)
    · cases hs
  | slept w =>
    obtain ⟨url, -, hw, -, rfl⟩ := slept_some.mp hs
    exact h.slept hw
  | workerAttempted w answer =>
    simp only [CrawlRun.step, workerAttempted] at hs
    split at hs
    · rename_i url attempt hjoining hw
      have hworked : ∀ fetched (v : ℕ) (next : Text),
          (s.worked d w url fetched).workers[v]? = some (.sleeping next) →
            s.workers[v]? = some (.sleeping next) := by
        intro fetched v next hv
        unfold worked at hv
        split at hv <;> exact sleeping_of_set rfl hv
      cases answer with
      | retry =>
        dsimp only at hs
        split at hs <;> cases hs
        exact (h.retry w).keep fun _ _ hv => sleeping_of_set rfl hv
      | fetched response =>
        cases hs
        exact hkeep rfl (hworked _)
      | raised e =>
        cases hs
        exact hkeep rfl (hworked _)
    · cases hs
  | workerCancelled w =>
    refine hkeep rfl ?_
    simp only [CrawlRun.step, workerCancelled] at hs
    split at hs
    · split at hs
      · cases hs
      · split at hs <;> cases hs <;> exact fun _ _ hv => sleeping_of_set rfl hv
    · cases hs
  | joined | failed | left =>
    refine hkeep rfl ?_
    simp only [CrawlRun.step, joined, failed, CrawlRun.left] at hs
    split at hs
    · split at hs <;> cases hs
      exact fun _ _ hv => hv
    · cases hs
  | cancel =>
    refine hkeep rfl ?_
    simp only [CrawlRun.step, cancel] at hs
    split at hs <;> cases hs <;> exact fun _ _ hv => hv
  | begin | guarded _ | guardRaised _ | attempted _ | robotsGuarded _ | robotsGuardRaised _
  | robotsAnswered _ =>
    -- these wait for the seed
    simp only [CrawlRun.step, guarded, guardRaised, attempted, robotsGuarded, robotsGuardRaised,
      robotsAnswered] at hs
    split at hs
    · rename_i hseed
      simp [hseed, RunPhase.isSeeding] at hphase
    · cases hs

theorem delayEvents_seed (hphase : s.phase.isSeeding = true) {act : CrawlerAct}
    (hs : s.step d act = some s') : s.delayEvents act = [] := by
  have hpool : s.phase ≠ .joining := by
    intro hjoining
    rw [hjoining] at hphase
    cases hphase
  cases act with
  | take w | locked w | slept w =>
    simp only [CrawlRun.step, take, CrawlRun.locked, CrawlRun.slept] at hs
    split at hs
    · exact absurd ‹s.phase = .joining› hpool
    · cases hs
  | workerAttempted w answer =>
    simp only [CrawlRun.step, workerAttempted] at hs
    split at hs
    · exact absurd ‹s.phase = .joining› hpool
    · cases hs
  | begin | guarded _ | guardRaised _ | attempted _ | robotsGuarded _ | robotsGuardRaised _
  | robotsAnswered _ | joined | failed | cancel | workerCancelled _ | left => rfl

/-- Before the pool nothing sleeps; in the pool the pages are spaced, if the policy delays. -/
structure Paced (s : CrawlRun) (trace : List DelayEvent) : Prop where
  seed : s.phase.isSeeding = true → s.Seeds (fun _ => True) ∧ trace = []
  pool : s.phase.isSeeding = false → s.crawler.robots.delays = true → s.Delayed trace

theorem ends_true {α : Type} (m : CrawlerM α) (c : Crawler) :
    Ends m c (fun _ _ => True) fun _ _ => True := by
  unfold Ends
  split <;> trivial

theorem true_seed : SeedInvariant d fun _ => True where
  frontier := fun _ _ _ => trivial
  scope := fun _ _ _ => trivial
  robots := fun _ _ _ _ => trivial
  claimed := fun _ _ _ => trivial
  followed := fun _ _ _ _ _ => ends_true _ _
  handled := fun _ _ _ _ => ends_true _ _

/-- The workers start awake. -/
theorem awake_of_seeds {J : Crawler → Prop} (h : s.Seeds J) (w : ℕ) (url : Text) :
    s.workers[w]? ≠ some (.sleeping url) := by
  intro hw
  have hmem := List.mem_of_getElem? hw
  have hbegin := h.beginning
  unfold Beginning at hbegin
  split at hbegin
  · rw [hbegin] at hmem
    cases (List.mem_replicate.mp hmem).2
  · exact hbegin
  · exact hbegin
  · rw [hbegin] at hmem
    cases hmem

theorem paced_create (config : CrawlConfig) (seed : Text) : (create config seed).Paced [] :=
  ⟨fun _ => ⟨⟨trivial, rfl, rfl⟩, rfl⟩, fun h => by cases h⟩

theorem Paced.step (h : s.Paced trace) {act : CrawlerAct} (hs : s.step d act = some s') :
    s'.Paced (DelayEvent.note s trace act) := by
  cases hphase : s.phase.isSeeding with
  | true =>
    obtain ⟨hseeds, rfl⟩ := h.seed hphase
    have hseeds' := hseeds.step true_seed hphase hs
    have hnone : DelayEvent.note s [] act = [] := delayEvents_seed hphase hs
    rw [hnone]
    have hawake := awake_of_seeds hseeds'
    exact ⟨fun _ => ⟨hseeds', rfl⟩, fun _ _ => ⟨.nil, fun w url hw => absurd hw (hawake w url),
      fun w url hw => absurd hw (hawake w url)⟩⟩
  | false =>
    have hrobots := poolMove_robots (step_poolMove hphase hs)
    refine ⟨fun hseeding => ?_, fun _ hdelays => ?_⟩
    · rw [step_past_seed hphase hs] at hseeding
      cases hseeding
    · rw [hrobots] at hdelays
      exact (h.pool hphase hdelays).step hdelays hphase hs

end CrawlRun

/-- Under a policy with a crawl delay, a sleep in the lock begins and completes between any two pages
that the pool begins to fetch one after the other. -/
theorem pages_delayed {d : Deps} {config : CrawlConfig} {seed : Text} {as : List CrawlerAct}
    {s : CrawlRun} {trace : List DelayEvent}
    (hrun : run (noted (CrawlRun.step d) DelayEvent.note) (CrawlRun.create config seed, []) as =
      some (s, trace))
    (hdelay : ∃ delay, s.crawler.robots.crawlDelay = some delay ∧ 0 < delay) :
    Spaced DelayEvent.beginsPage Slept trace := by
  have hpaced : s.Paced trace := by
    refine run_invariant (P := fun state : CrawlRun × List DelayEvent => state.1.Paced state.2) ?_
      (CrawlRun.paced_create config seed) hrun
    rintro ⟨u, trace₁⟩ act ⟨u', trace₂⟩ hu hs
    obtain ⟨hs, rfl⟩ := noted_some.mp hs
    exact hu.step hs
  cases hphase : s.phase.isSeeding with
  | true =>
    obtain ⟨-, rfl⟩ := hpaced.seed hphase
    exact .nil
  | false =>
    obtain ⟨delay, hsome, hpos⟩ := hdelay
    have hdelays : s.crawler.robots.delays = true := by
      rw [RobotsPolicy.delays, hsome]
      exact decide_eq_true hpos.ne'
    exact (hpaced.pool hphase hdelays).spaced

/-- A crawl of two pages with a delay of a quarter of a second, whose second page is retried. -/
def delayedRun : List CrawlerAct :=
  [.begin, .guarded none, .attempted (.fetched (linkPage nextUrl)), .robotsGuarded none,
    .robotsAnswered (.response 200 none (.ok (delayFile "0.25"))), .take 0, .locked 0, .slept 0,
    .workerAttempted 0 .retry]

theorem delayedRun_trace : ∃ s trace,
    run (noted (CrawlRun.step bodyIsLink) DelayEvent.note)
      (CrawlRun.create { concurrency := 1 } homeUrl, []) delayedRun = some (s, trace) ∧
    s.crawler.robots.crawlDelay = some quarterSecond ∧
    trace = [.sleeps 0, .wakes 0, .request 0 false, .request 0 true] := by
  have hrun : ((run (noted (CrawlRun.step bodyIsLink) DelayEvent.note)
      (CrawlRun.create { concurrency := 1 } homeUrl, []) delayedRun).any fun state =>
        decide (state.1.crawler.robots.crawlDelay = some quarterSecond ∧
          state.2 = [.sleeps 0, .wakes 0, .request 0 false, .request 0 true])) = true := by
    decide +kernel
  obtain ⟨⟨s, trace⟩, hs, hfacts⟩ := (Option.any_eq_true _ _).mp hrun
  obtain ⟨hdelay, htrace⟩ := of_decide_eq_true hfacts
  exact ⟨s, trace, hs, hdelay, htrace⟩

theorem pages_delayed_retried : ∃ s trace,
    run (noted (CrawlRun.step bodyIsLink) DelayEvent.note)
      (CrawlRun.create { concurrency := 1 } homeUrl, []) delayedRun = some (s, trace) ∧
    Spaced DelayEvent.beginsPage Slept trace := by
  obtain ⟨s, trace, hs, hdelay, -⟩ := delayedRun_trace
  exact ⟨s, trace, hs, pages_delayed hs ⟨quarterSecond, hdelay, by decide +kernel⟩⟩

/-- A retry follows its request with no sleep of the crawl delay between the two. -/
theorem retry_not_delayed : ∃ s trace,
    run (noted (CrawlRun.step bodyIsLink) DelayEvent.note)
      (CrawlRun.create { concurrency := 1 } homeUrl, []) delayedRun = some (s, trace) ∧
    (∃ delay, s.crawler.robots.crawlDelay = some delay ∧ 0 < delay) ∧
    ¬Spaced DelayEvent.isRequest Slept trace := by
  obtain ⟨s, trace, hs, hdelay, rfl⟩ := delayedRun_trace
  refine ⟨s, _, hs, ⟨quarterSecond, hdelay, by decide +kernel⟩, fun hspaced => ?_⟩
  obtain ⟨before, w, during, after, hstretch, -⟩ := hspaced [.sleeps 0, .wakes 0] (.request 0 false) []
    (.request 0 true) [] rfl rfl rfl (fun _ h => by cases h)
  simp at hstretch

end UrlCrawler
