import UrlCrawler.Core.Coverage
import UrlCrawler.Core.CrawlerSteps

/-! # The counters of a run

At every await of a run, and when it is over, however it ended, the counters are a fold of the
reports. What is dropped as a duplicate is what the enqueued pages offered and was not queued; what
was queued is still in the queue or was taken by a worker.
-/
set_option autoImplicit false

namespace UrlCrawler
open Execution Crawler Effects

def CrawlerAct.isTake : CrawlerAct → Bool
  | take _ => true
  | _ => false

/-- How many URLs the workers took off the queue in a run. -/
def taken (as : List CrawlerAct) : ℕ := as.countP CrawlerAct.isTake

def CrawlerAct.takes (n : ℕ) (act : CrawlerAct) : ℕ := if act.isTake then n + 1 else n

theorem foldl_takes (as : List CrawlerAct) (n : ℕ) :
    as.foldl CrawlerAct.takes n = n + taken as := by
  induction as generalizing n with
  | nil => rfl
  | cons act as ih =>
    rw [List.foldl_cons, ih]
    unfold taken CrawlerAct.takes
    rw [List.countP_cons]
    split <;> omega

namespace CrawlRun
variable {d : Deps} {config : CrawlConfig} {seed : Text} {s s' : CrawlRun} {n : ℕ}

/-- The pages passed through `_handle`: all reports but those of the seed redirects. -/
def handledPages (s : CrawlRun) : List PageResult :=
  s.crawler.reports.drop ((seedUrls s.log).length - 1)

/-- The link occurrences on the pages passed through `_enqueue` that scope and policy allow. -/
def offeredLinks (d : Deps) (s : CrawlRun) : List Text :=
  match s.crawler.scope with
  | none => []
  | some scope => s.handledPages.flatMap (followedLinks d scope s.crawler.robots)

/-- How the reports of the seed chain stand to its fetches, by the place where the run waits. -/
def ChainReports (s : CrawlRun) : Prop :=
  match s.phase with
  | .created | .guarding .. =>
    s.crawler.scope = none ∧ s.crawler.reports.length = (seedUrls s.log).length
  | .fetching .. =>
    s.crawler.scope = none ∧ s.crawler.reports.length + 1 = (seedUrls s.log).length
  | .robotsGuarding .. | .robotsFetching .. =>
    s.crawler.reports.length + 1 = (seedUrls s.log).length
  | .joining | .leaving _ => (seedUrls s.log).length ≤ s.crawler.reports.length
  | .done _ => True

theorem seedUrls_append {log events : List Event}
    (h : ∀ e ∈ events, e.seedFetched? = none) : seedUrls (log ++ events) = seedUrls log := by
  rw [seedUrls, List.filterMap_append, List.filterMap_eq_nil_iff.mpr h, List.append_nil]
  rfl

theorem chainReports_joining (hphase : s.phase = .joining) :
    s.ChainReports ↔ (seedUrls s.log).length ≤ s.crawler.reports.length := by
  unfold ChainReports
  rw [hphase]

/-- The counters are those of the reports, with `n` URLs taken off the queue so far. -/
structure Counted (d : Deps) (s : CrawlRun) (n : ℕ) : Prop where
  tally : s.crawler.Tallied
  decides : s.crawler.robots.Decides d.unicode
  shown : s.crawler.stats.duplicatesDropped = s.crawler.frontier.duplicatesDropped
  offered : s.crawler.frontier.duplicatesDropped + s.crawler.frontier.queue.length + n =
    (s.offeredLinks d).length

theorem counted_create : (create config seed).Counted d 0 :=
  ⟨CrawlStats.Tallies.init, allowAll_decides, rfl, rfl⟩

theorem Counted.congr (h : s.Counted d n) (htally : s'.crawler.Tallied)
    (hreports : s'.crawler.reports = s.crawler.reports)
    (hscope : s'.crawler.scope = s.crawler.scope) (hrobots : s'.crawler.robots = s.crawler.robots)
    (hshown : s'.crawler.stats.duplicatesDropped = s.crawler.stats.duplicatesDropped)
    (hdropped : s'.crawler.frontier.duplicatesDropped = s.crawler.frontier.duplicatesDropped)
    (hqueue : s'.crawler.frontier.queue = s.crawler.frontier.queue)
    (hseed : seedUrls s'.log = seedUrls s.log) : s'.Counted d n where
  tally := htally
  decides := hrobots ▸ h.decides
  shown := by rw [hshown, hdropped, h.shown]
  offered := by
    unfold offeredLinks handledPages
    rw [hreports, hscope, hrobots, hdropped, hqueue, hseed]
    exact h.offered

/-- Before the scope is there, nothing is offered. -/
theorem Counted.of_unscoped (h : s.Counted d n) (hnone : s.crawler.scope = none)
    (htally : s'.crawler.Tallied) (hscope : s'.crawler.scope = none)
    (hrobots : s'.crawler.robots = s.crawler.robots)
    (hshown : s'.crawler.stats.duplicatesDropped = s.crawler.stats.duplicatesDropped)
    (hdropped : s'.crawler.frontier.duplicatesDropped = s.crawler.frontier.duplicatesDropped)
    (hqueue : s'.crawler.frontier.queue = s.crawler.frontier.queue) : s'.Counted d n where
  tally := htally
  decides := hrobots ▸ h.decides
  shown := by rw [hshown, hdropped, h.shown]
  offered := by
    have hoffered := h.offered
    unfold offeredLinks at hoffered ⊢
    rw [hnone] at hoffered
    rw [hscope, hdropped, hqueue]
    exact hoffered

/-- A page is handled: its links are offered. -/
theorem Counted.enqueued (h : s.Counted d n) (hchain : (seedUrls s.log).length ≤
      s.crawler.reports.length + 1) {scope : HostScope} (hscope : s.crawler.scope = some scope)
    {c : Crawler} (he : Enqueued d scope s.crawler c) (htally : c.Tallied)
    (hscope' : c.scope = s.crawler.scope) (hrobots : c.robots = s.crawler.robots) :
    { s with crawler := c }.Counted d n where
  tally := htally
  decides := by
    show c.robots.Decides d.unicode
    rw [hrobots]
    exact h.decides
  shown := he.shown
  offered := by
    obtain ⟨page, hreports, hoffered⟩ := he.page
    have hsum := h.offered
    have hlinks := hoffered.frontier
    unfold offeredLinks handledPages at hsum ⊢
    rw [hscope] at hsum
    dsimp only
    rw [hscope', hscope, hrobots, hreports, List.drop_append_of_le_length (by omega)]
    dsimp only at hsum ⊢
    rw [List.flatMap_append, List.length_append, List.flatMap_singleton]
    omega

theorem Counted.same (h : s.Counted d n) {c : Crawler} (htally : c.Tallied)
    (hsame : SameQueue s.crawler c) (hscope : c.scope = s.crawler.scope)
    (hrobots : c.robots = s.crawler.robots) : { s with crawler := c }.Counted d n :=
  h.congr htally hsame.reports hscope hrobots hsame.shown
    (congrArg Frontier.duplicatesDropped hsame.frontier) (congrArg Frontier.queue hsame.frontier) rfl

/-- A URL is taken off the queue. -/
theorem Counted.taken (h : s.Counted d n) {url : Text} {frontier : Frontier}
    (hget : s.crawler.frontier.get = some (url, frontier)) {c : Crawler}
    (hfrontier : c.frontier = frontier) (hstats : c.stats = s.crawler.stats)
    (hreports : c.reports = s.crawler.reports) (hscope : c.scope = s.crawler.scope)
    (hrobots : c.robots = s.crawler.robots) : { s with crawler := c }.Counted d (n + 1) := by
  unfold Frontier.get at hget
  split at hget
  · cases hget
  · rename_i next queue hqueue
    cases hget
    refine ⟨?_, ?_, ?_, ?_⟩
    · show c.stats.Tallies c.reports
      rw [hstats, hreports]
      exact h.tally
    · show c.robots.Decides d.unicode
      rw [hrobots]
      exact h.decides
    · show c.stats.duplicatesDropped = c.frontier.duplicatesDropped
      rw [hstats, hfrontier]
      exact h.shown
    · have hsum := h.offered
      rw [hqueue, List.length_cons] at hsum
      unfold offeredLinks handledPages at hsum ⊢
      dsimp only
      rw [hreports, hscope, hrobots, hfrontier]
      dsimp only
      omega

structure Counts (d : Deps) (n : ℕ) (s : CrawlRun) : Prop where
  counted : s.Counted d n
  chain : s.ChainReports

theorem Counted.finish (h : s.Counted d n) (result : RunResult) : (s.finish result).Counts d n :=
  ⟨h.congr h.tally rfl rfl rfl rfl rfl rfl rfl, trivial⟩

/-! ## The seed chain -/

theorem counted_startFetch (h : s.Counted d n) (hnone : s.crawler.scope = none)
    (hreports : s.crawler.reports.length = (seedUrls s.log).length) (url : Text) (hops : ℕ) :
    (s.startFetch url hops).Counts d n := by
  refine ⟨h.of_unscoped hnone h.tally hnone rfl rfl rfl rfl, hnone, ?_⟩
  show s.crawler.reports.length + 1 = (seedUrls (s.log ++ [.fetch url false, .request url])).length
  rw [seedUrls, List.filterMap_append, List.length_append, ← seedUrls, hreports]
  rfl

theorem counted_fetchSeed (h : s.Counted d n) (hnone : s.crawler.scope = none)
    (hreports : s.crawler.reports.length = (seedUrls s.log).length) (url : Text) (hops : ℕ) :
    (s.fetchSeed d url hops).Counts d n := by
  unfold fetchSeed
  split
  · exact ⟨h.congr h.tally rfl rfl rfl rfl rfl rfl rfl, hnone, hreports⟩
  · exact counted_startFetch h hnone hreports url hops

theorem counted_begin (h : s.Counts d n) (hphase : s.phase = .created) :
    (s.begin d).Counts d n := by
  obtain ⟨h, hchain⟩ := h
  unfold ChainReports at hchain
  rw [hphase] at hchain
  obtain ⟨hnone, hreports⟩ := hchain
  unfold begin
  split
  · exact h.finish _
  · refine exec_of_ends ?_
    rw [ends_markSeen]
    refine ⟨fun new frontier hm => ?_, fun e _ => ?_⟩
    · obtain ⟨hqueue, -, hdropped, -⟩ := Frontier.markSeen_spec hm
      apply counted_fetchSeed
      · exact h.of_unscoped hnone h.tally hnone rfl rfl hdropped hqueue
      · exact hnone
      · exact hreports
    · refine Counted.finish ?_ _
      exact h.congr h.tally rfl rfl rfl rfl rfl rfl rfl

section Silent
variable (hd : d.NormalLinks) (hsilent : ∀ pages page, d.reporter pages page = none)
include hd hsilent

theorem counted_loaded (h : s.Counted d n)
    (hreports : s.crawler.reports.length + 1 = (seedUrls s.log).length) {scope : HostScope}
    (hscope : s.crawler.scope = some scope) {policy : RobotsPolicy}
    (hpolicy : policy.Decides d.unicode) (url : Text) (result : FetchResult) :
    (s.loaded d url result policy).Counts d n := by
  unfold loaded
  dsimp only
  generalize hs : { s with crawler := { s.crawler with robots := policy } }.note
    [.ready url s.crawler.scope policy] = s₁
  have hlog : seedUrls s₁.log = seedUrls s.log := by
    rw [← hs]
    exact seedUrls_append (by simp [Event.seedFetched?])
  have hscope₁ : s₁.crawler.scope = some scope := by
    rw [← hs]
    exact hscope
  have hrobots₁ : s₁.crawler.robots = policy := by
    rw [← hs]
    rfl
  have hreports₁ : s₁.crawler.reports.length + 1 = (seedUrls s₁.log).length := by
    rw [hlog, ← hs]
    exact hreports
  -- no page has been handled, so what is allowed does not matter yet
  have hcounted : s₁.Counted d n := by
    have hnothing : ∀ s₂ : CrawlRun, s₂.crawler.scope = some scope →
        s₂.crawler.reports.length + 1 = (seedUrls s₂.log).length → s₂.offeredLinks d = [] := by
      intro s₂ hscope₂ hreports₂
      unfold offeredLinks handledPages
      rw [hscope₂, ← hreports₂, Nat.add_sub_cancel, List.drop_length]
      rfl
    have hsum := h.offered
    rw [hnothing s hscope hreports] at hsum
    refine ⟨?_, hrobots₁ ▸ hpolicy, ?_, ?_⟩
    · rw [← hs]
      exact h.tally
    · rw [← hs]
      exact h.shown
    · rw [hnothing s₁ hscope₁ hreports₁, ← hs]
      exact hsum
  clear hs
  split
  · exact hcounted.finish _
  · exact hcounted.finish _
  · have hhandle := ((handle_enqueued hsilent url (.ok result) hscope₁
      (decides_links hd hcounted.decides hscope₁ rfl) hcounted.shown).and
      (handle_tallied hsilent url (.ok result) hcounted.tally)).and
      (handle_follows url (.ok result) s₁.crawler)
    refine exec_of_ends (hhandle.mono ?_ ?_)
    · rintro - c ⟨⟨henqueued, htally⟩, hfollows⟩
      have hpage := hcounted.enqueued (by omega) hscope₁ henqueued htally hfollows.scope
        hfollows.robots
      refine ⟨hpage.congr hpage.tally rfl rfl rfl rfl rfl rfl rfl, ?_⟩
      obtain ⟨page, hpages, -⟩ := henqueued.page
      show (seedUrls s₁.log).length ≤ c.reports.length
      rw [hpages, List.length_append, List.length_singleton]
      omega
    · rintro e c ⟨⟨hsame, htally⟩, hfollows⟩
      refine Counted.finish ?_ _
      exact hcounted.same htally hsame hfollows.scope hfollows.robots

omit hd hsilent in
theorem counted_robotsRequest (h : s.Counted d n)
    (hreports : s.crawler.reports.length + 1 = (seedUrls s.log).length) (url : Text)
    (result : FetchResult) (robotsUrl : Text) (left : ℕ) :
    (s.robotsRequest url result robotsUrl left).Counts d n := by
  have hlog : seedUrls (s.robotsRequest url result robotsUrl left).log = seedUrls s.log :=
    seedUrls_append (by simp [Event.seedFetched?])
  refine ⟨h.congr h.tally rfl rfl rfl rfl rfl rfl hlog, ?_⟩
  show s.crawler.reports.length + 1 = (seedUrls (s.robotsRequest url result robotsUrl left).log).length
  rw [hlog]
  exact hreports

omit hd hsilent in
theorem counted_robotsHop (h : s.Counted d n)
    (hreports : s.crawler.reports.length + 1 = (seedUrls s.log).length) (url : Text)
    (result : FetchResult) (robotsUrl : Text) (left : ℕ) :
    (s.robotsHop d url result robotsUrl left).Counts d n := by
  unfold robotsHop
  split
  · exact ⟨h.congr h.tally rfl rfl rfl rfl rfl rfl rfl, hreports⟩
  · exact counted_robotsRequest h hreports url result robotsUrl left

theorem counted_loadRobots (h : s.Counted d n)
    (hreports : s.crawler.reports.length + 1 = (seedUrls s.log).length) {scope : HostScope}
    (hscope : s.crawler.scope = some scope) (url : Text) (result : FetchResult) :
    (s.loadRobots d url result).Counts d n := by
  unfold loadRobots
  split
  · split
    · exact h.finish _
    · exact counted_robotsHop h hreports url result _ _
  · exact counted_loaded hd hsilent h hreports hscope allowAll_decides url result

theorem counted_landed (h : s.Counted d n) (hnone : s.crawler.scope = none)
    (hreports : s.crawler.reports.length + 1 = (seedUrls s.log).length) (url : Text)
    (result : FetchResult) : (s.landed d url result).Counts d n := by
  unfold landed
  split
  · exact h.finish _
  · rename_i scope _
    have hscoped : { s with crawler := { s.crawler with scope := some scope } }.Counted d n := by
      refine ⟨h.tally, h.decides, h.shown, ?_⟩
      have hsum := h.offered
      unfold offeredLinks at hsum ⊢
      rw [hnone] at hsum
      unfold handledPages
      dsimp only
      rw [← hreports, Nat.add_sub_cancel, List.drop_length]
      exact hsum
    dsimp only
    split
    · exact hscoped.finish _
    · exact counted_loadRobots hd hsilent hscoped hreports rfl url result

theorem counted_seedFetched (h : s.Counted d n) (hnone : s.crawler.scope = none)
    (hreports : s.crawler.reports.length + 1 = (seedUrls s.log).length) (url : Text) (hops : ℕ)
    (outcome : FetchOutcome) : (s.seedFetched d url hops outcome).Counts d n := by
  cases outcome with
  | error error => exact h.finish _
  | ok result =>
    unfold seedFetched
    dsimp only
    split
    · exact h.finish _
    · exact counted_landed hd hsilent h hnone hreports url result
    · rename_i target htarget
      cases hops with
      | zero => exact h.finish _
      | succ hops =>
        have hstatus := status_of_redirectTarget htarget
        have hfollow := ((followRedirect_queue (d := d) url target result s.crawler).and
          (followRedirect_tallied hsilent url target hstatus h.tally)).and
          (ends_followRedirect url target result s.crawler)
        refine exec_of_ends (hfollow.mono ?_ ?_)
        · rintro new c ⟨⟨⟨hshown, hqueue, hdropped⟩, htally⟩, frontier, -, -, hfollows, hpages, -⟩
          have hcounted : { s with crawler := c }.Counted d n :=
            h.of_unscoped hnone htally (hfollows.scope.trans hnone) hfollows.robots hshown hdropped
              hqueue
          cases new with
          | false => exact hcounted.finish _
          | true =>
            apply counted_fetchSeed hcounted (hfollows.scope.trans hnone)
            show c.reports.length = (seedUrls s.log).length
            rw [hpages, List.length_append, List.length_singleton, hreports]
        · rintro e c ⟨⟨⟨hshown, hqueue, hdropped⟩, htally⟩, hfollows⟩
          refine Counted.finish ?_ _
          exact h.of_unscoped hnone htally (hfollows.scope.trans hnone) hfollows.robots hshown
            hdropped hqueue

/-! ## The pool -/

theorem counted_worked (h : s.Counts d n) (hphase : s.phase = .joining) {scope : HostScope}
    (hscope : s.crawler.scope = some scope) (w : ℕ) (url : Text)
    (fetched : Except Exn FetchOutcome) : (s.worked d w url fetched).Counts d n := by
  obtain ⟨h, hchain⟩ := h
  rw [chainReports_joining hphase] at hchain
  have hwork := ((work_enqueued hsilent url fetched hscope
    (decides_links hd h.decides hscope rfl) h.shown).and
    (work_tallied hsilent url fetched h.tally)).and (work_follows url fetched s.crawler)
  unfold worked
  split
  · rename_i crawler hok
    obtain ⟨⟨henqueued, htally⟩, hfollows⟩ := hwork.of_ok hok
    have hpage := h.enqueued (by omega) hscope henqueued htally hfollows.scope hfollows.robots
    refine ⟨hpage.congr hpage.tally rfl rfl rfl rfl rfl rfl rfl, ?_⟩
    obtain ⟨page, hpages, -⟩ := henqueued.page
    apply (chainReports_joining (by exact hphase)).mpr
    show (seedUrls s.log).length ≤ crawler.reports.length
    rw [hpages, List.length_append]
    omega
  · rename_i e crawler herror
    obtain ⟨⟨hsame, htally⟩, hfollows⟩ := hwork.of_error herror
    have hpage := h.same htally hsame hfollows.scope hfollows.robots
    refine ⟨hpage.congr hpage.tally rfl rfl rfl rfl rfl rfl rfl, ?_⟩
    apply (chainReports_joining (by exact hphase)).mpr
    show (seedUrls s.log).length ≤ crawler.reports.length
    rw [hsame.reports]
    exact hchain

end Silent

/-- In the pool, a step that handles no page leaves the counters alone. -/
theorem Counts.keep (h : s.Counts d n) (hphase : s.phase = .joining) (hphase' : s'.phase = .joining)
    (hstats : s'.crawler.stats = s.crawler.stats) (hreports : s'.crawler.reports = s.crawler.reports)
    (hscope : s'.crawler.scope = s.crawler.scope) (hrobots : s'.crawler.robots = s.crawler.robots)
    (hdropped : s'.crawler.frontier.duplicatesDropped = s.crawler.frontier.duplicatesDropped)
    (hqueue : s'.crawler.frontier.queue = s.crawler.frontier.queue)
    (hseed : seedUrls s'.log = seedUrls s.log) : s'.Counts d n := by
  obtain ⟨h, hchain⟩ := h
  refine ⟨h.congr ?_ hreports hscope hrobots (by rw [hstats]) hdropped hqueue hseed, ?_⟩
  · unfold Tallied
    rw [hstats, hreports]
    exact h.tally
  · rw [chainReports_joining hphase] at hchain
    rw [chainReports_joining hphase', hseed, hreports]
    exact hchain

theorem counted_take (h : s.Counts d n) {w : ℕ} (hs : s.take w = some s') :
    s'.Counts d (n + 1) := by
  unfold take at hs
  split at hs
  · rename_i url frontier hphase hw hget
    obtain ⟨h, hchain⟩ := h
    have hframe := claim_frame { s.crawler with frontier }
    have hstats := claim_stats { s.crawler with frontier }
    generalize hc : { s.crawler with frontier }.claim = claimed at hs hframe hstats
    obtain ⟨claim, crawler⟩ := claimed
    obtain ⟨hfrontier, hscope, hrobots, -, hreports⟩ := hframe
    have htaken := h.taken hget hfrontier hstats hreports hscope hrobots
    have hcounts : { s with crawler }.Counts d (n + 1) := by
      refine ⟨htaken, ?_⟩
      rw [chainReports_joining hphase] at hchain
      apply (chainReports_joining (by exact hphase)).mpr
      show (seedUrls s.log).length ≤ crawler.reports.length
      rw [hreports]
      exact hchain
    cases claim <;> cases hs
    · exact hcounts.keep hphase hphase rfl rfl rfl rfl rfl rfl rfl
    · exact hcounts.keep hphase hphase rfl rfl rfl rfl rfl rfl rfl
    · exact hcounts.keep hphase hphase rfl rfl rfl rfl rfl rfl
        (seedUrls_append (by simp [Event.seedFetched?]))
  · cases hs

theorem counted_guarded (h : s.Counts d n) {reason : Option String}
    (hs : s.guarded reason = some s') : s'.Counts d n := by
  unfold guarded at hs
  split at hs
  · rename_i url hops hphase
    obtain ⟨h, hchain⟩ := h
    obtain ⟨hnone, hreports⟩ : s.crawler.scope = none ∧
        s.crawler.reports.length = (seedUrls s.log).length := by
      simpa [ChainReports, hphase] using hchain
    split at hs <;> cases hs
    · exact h.finish _
    · have hseed : seedUrls (s.note [.passed url]).log = seedUrls s.log :=
        seedUrls_append (by simp [Event.seedFetched?])
      apply counted_startFetch
      · exact h.congr h.tally rfl rfl rfl rfl rfl rfl hseed
      · exact hnone
      · rw [hseed]
        exact hreports
  · cases hs

/-- Whatever the phase before, a run that is left or ends keeps its counters. -/
theorem counted_leaving (h : s.Counts d n) (hphase : s.phase = .joining ∨
    ∃ cancelled, s.phase = .leaving cancelled) (cancelled : Bool) :
    { s with phase := .leaving cancelled }.Counts d n := by
  obtain ⟨h, hchain⟩ := h
  refine ⟨h.congr h.tally rfl rfl rfl rfl rfl rfl rfl, ?_⟩
  rcases hphase with hphase | ⟨cancelled', hphase⟩ <;>
    simpa [ChainReports, hphase] using hchain

/-- What the reports of a landed chain are and that its scope is there. -/
theorem robots_phase (h : s.Counts d n) (hinv : s.Inv d) {url : Text} {result : FetchResult}
    {robotsUrl : Text} {left : ℕ} (hphase : s.phase = .robotsGuarding url result robotsUrl left ∨
      s.phase = .robotsFetching url result robotsUrl left) :
    s.crawler.reports.length + 1 = (seedUrls s.log).length ∧
      ∃ scope, s.crawler.scope = some scope := by
  have hchain := h.chain
  have hat := hinv.phase
  unfold ChainReports at hchain
  rcases hphase with hphase | hphase <;> rw [hphase] at hchain hat
  · obtain ⟨-, -, scope, hscope, -⟩ := hat
    exact ⟨hchain, scope, hscope⟩
  · obtain ⟨-, -, ⟨scope, hscope, -⟩, -⟩ := hat
    exact ⟨hchain, scope, hscope⟩

section Step
variable (hd : d.NormalLinks) (hsilent : ∀ pages page, d.reporter pages page = none)
include hd hsilent

theorem counted_attempted (h : s.Counts d n) {answer : Answer}
    (hs : s.attempted d answer = some s') : s'.Counts d n := by
  unfold attempted at hs
  split at hs
  · rename_i url hops attempt hphase
    obtain ⟨h, hchain⟩ := h
    obtain ⟨hnone, hreports⟩ : s.crawler.scope = none ∧
        s.crawler.reports.length + 1 = (seedUrls s.log).length := by
      simpa [ChainReports, hphase] using hchain
    cases answer with
    | retry =>
      dsimp only at hs
      split at hs <;> cases hs
      have hseed : seedUrls (s.log ++ [.request url]) = seedUrls s.log :=
        seedUrls_append (by simp [Event.seedFetched?])
      refine ⟨h.of_unscoped hnone h.tally hnone rfl rfl rfl rfl, hnone, ?_⟩
      show s.crawler.reports.length + 1 = (seedUrls (s.log ++ [.request url])).length
      rw [hseed]
      exact hreports
    | fetched response =>
      cases hs
      exact counted_seedFetched hd hsilent h hnone hreports url hops _
    | raised e =>
      cases hs
      exact h.finish _
  · cases hs

theorem counted_workerAttempted (h : s.Counts d n) (hinv : s.Inv d) {w : ℕ} {answer : Answer}
    (hs : s.workerAttempted d w answer = some s') : s'.Counts d n := by
  unfold workerAttempted at hs
  split at hs
  · rename_i url attempt hphase hw
    obtain ⟨-, -, ⟨scope, hscope, -⟩, -⟩ := hinv.pooled hphase
    cases answer with
    | retry =>
      dsimp only at hs
      split at hs <;> cases hs
      exact h.keep hphase hphase rfl rfl rfl rfl rfl rfl (seedUrls_append (by simp [Event.seedFetched?]))
    | fetched response =>
      cases hs
      exact counted_worked hd hsilent h hphase hscope w url _
    | raised e =>
      cases hs
      exact counted_worked hd hsilent h hphase hscope w url _
  · cases hs

theorem counted_step (h : s.Counts d n) (hinv : s.Inv d) {act : CrawlerAct}
    (hs : s.step d act = some s') : s'.Counts d (act.takes n) := by
  cases act with
  | begin =>
    simp only [step] at hs
    split at hs <;> cases hs
    rename_i hphase
    exact counted_begin h hphase
  | guarded reason => exact counted_guarded h hs
  | guardRaised e =>
    simp only [step, guardRaised] at hs
    split at hs <;> cases hs
    exact h.counted.finish _
  | attempted answer => exact counted_attempted hd hsilent h hs
  | robotsGuarded reason =>
    simp only [step, robotsGuarded] at hs
    split at hs
    · rename_i url result robotsUrl left hphase
      obtain ⟨hreports, scope, hscope⟩ := robots_phase h hinv (.inl hphase)
      split at hs <;> cases hs
      · exact counted_loaded hd hsilent h.counted hreports hscope denyAll_decides url
          result
      · have hseed : seedUrls (s.note [.passed robotsUrl]).log = seedUrls s.log :=
          seedUrls_append (by simp [Event.seedFetched?])
        apply counted_robotsRequest
        · exact h.counted.congr h.counted.tally rfl rfl rfl rfl rfl rfl hseed
        · rw [hseed]
          exact hreports
    · cases hs
  | robotsGuardRaised e =>
    simp only [step, robotsGuardRaised] at hs
    split at hs <;> cases hs
    exact h.counted.finish _
  | robotsAnswered answer =>
    simp only [step, robotsAnswered] at hs
    split at hs
    · rename_i url result robotsUrl left hphase
      obtain ⟨hreports, scope, hscope⟩ := robots_phase h hinv (.inr hphase)
      split at hs <;> cases hs
      · exact h.counted.finish _
      · rename_i policy hnext
        exact counted_loaded hd hsilent h.counted hreports hscope (robotsNext_decides hnext)
          url result
      · exact counted_robotsHop h.counted hreports url result _ _
    · cases hs
  | take w => exact counted_take h hs
  | locked w =>
    simp only [step, locked] at hs
    split at hs
    · rename_i url hphase hw
      split at hs <;> cases hs
      exact h.keep hphase hphase rfl rfl rfl rfl rfl rfl rfl
    · cases hs
  | slept w =>
    obtain ⟨url, hphase, -, -, rfl⟩ := slept_some.mp hs
    exact h.keep hphase hphase rfl rfl rfl rfl rfl rfl (seedUrls_append (by simp [Event.seedFetched?]))
  | workerAttempted w answer => exact counted_workerAttempted hd hsilent h hinv hs
  | joined =>
    simp only [step, joined] at hs
    split at hs
    · rename_i hphase
      split at hs <;> cases hs
      exact counted_leaving h (.inl hphase) false
    · cases hs
  | failed =>
    simp only [step, failed] at hs
    split at hs
    · rename_i hphase
      split at hs <;> cases hs
      exact counted_leaving h (.inl hphase) false
    · cases hs
  | cancel =>
    simp only [step, cancel] at hs
    split at hs
    · cases hs
    · rename_i hphase
      cases hs
      exact counted_leaving h (.inl hphase) true
    · rename_i cancelled hphase
      cases hs
      exact counted_leaving h (.inr ⟨cancelled, hphase⟩) true
    · cases hs
      exact h.counted.finish _
  | workerCancelled w =>
    simp only [step, workerCancelled] at hs
    split at hs
    · split at hs
      · cases hs
      · split at hs <;> cases hs
        · exact ⟨h.counted.congr h.counted.tally rfl rfl rfl rfl rfl rfl rfl, h.chain⟩
        · exact ⟨h.counted.congr h.counted.tally rfl rfl rfl rfl rfl rfl rfl, h.chain⟩
    · cases hs
  | left =>
    simp only [step, CrawlRun.left] at hs
    split at hs
    · split at hs <;> cases hs
      exact h.counted.finish _
    · cases hs

end Step
/-! ## The reports only grow -/

theorem longer_seed (reports : List PageResult) :
    SeedInvariant d fun c => reports <+: c.reports where
  frontier := fun _ _ h => h
  scope := fun _ _ h => h
  robots := fun _ _ _ h => h
  claimed := fun _ _ h => h
  followed := fun c url result target h =>
    (ends_followRedirect url target result c).mono
      (fun new c' hf => by
        obtain ⟨frontier, -, -, hfollows, -⟩ := hf
        exact h.trans hfollows.reports)
      fun e c' hfollows => h.trans hfollows.reports
  handled := fun c url result h =>
    (handle_follows url (.ok result) c).mono (fun _ c' hfollows => h.trans hfollows.reports)
      fun e c' hfollows => h.trans hfollows.reports

/-- As long as `run` is at its seed, no worker has started. -/
theorem seeds_of_reaches (hreaches : Reaches (CrawlRun.step d) (create config seed) s) :
    s.phase.isSeeding = true → s.Seeds fun c => [] <+: c.reports := by
  refine hreaches.invariant (P := fun s => s.phase.isSeeding = true → s.Seeds fun c =>
    [] <+: c.reports) (fun _ => ⟨List.nil_prefix, rfl, rfl⟩) fun s act s' h hs hphase' => ?_
  cases hphase : s.phase.isSeeding with
  | true => exact (h hphase).step (longer_seed []) hphase hs
  | false =>
    rw [step_past_seed hphase hs] at hphase'
    cases hphase'

/-- No step takes a report back. -/
theorem reports_step (hreaches : Reaches (CrawlRun.step d) (create config seed) s)
    {act : CrawlerAct} (hs : s.step d act = some s') :
    s.crawler.reports <+: s'.crawler.reports := by
  cases hphase : s.phase.isSeeding with
  | true =>
    have hbegun := seeds_of_reaches hreaches hphase
    have hseeds : s.Seeds fun c => s.crawler.reports <+: c.reports :=
      ⟨List.prefix_rfl, hbegun.errors, hbegun.beginning⟩
    exact (hseeds.step (longer_seed s.crawler.reports) hphase hs).crawler
  | false =>
    have hmove := step_poolMove hphase hs
    generalize s'.crawler = c at hmove ⊢
    cases hmove with
    | rest hact frontier => exact List.prefix_rfl
    | claim w before after =>
      obtain ⟨-, -, -, -, hreports⟩ := claim_frame { s.crawler with frontier := before }
      show s.crawler.reports <+: { s.crawler with frontier := before }.claim.2.reports
      rw [hreports]
    | work hjoining hw fetched hanswer hends after =>
      have hfollows : Follows d _ s.crawler _ := hends (work_follows _ fetched s.crawler)
      exact hfollows.reports

theorem counts_of_run (hd : d.NormalLinks) (hsilent : ∀ pages page, d.reporter pages page = none)
    {as : List CrawlerAct} (hrun : run (CrawlRun.step d) (create config seed) as = some s) :
    s.Counts d (as.foldl CrawlerAct.takes 0) := by
  have hcounts : s.Counts d (as.foldl CrawlerAct.takes 0) ∧ s.Inv d := by
    refine run_ghost (P := fun s n => s.Counts d n ∧ s.Inv d) CrawlerAct.takes ?_
      ⟨⟨counted_create, rfl, rfl⟩, inv_create config seed⟩ hrun
    intro s act s' n hbefore hs
    obtain ⟨hcounts, hinv⟩ := hbefore
    exact ⟨counted_step hd hsilent hcounts hinv hs, inv_step hd hinv hs⟩
  exact hcounts.1

end CrawlRun

/-- However a run has gone so far, its counters can be recomputed from the reports; what was dropped
as a duplicate is what was offered and never queued. -/
theorem stats_fold {d : Deps} {lexbor : Lexbor} {config : CrawlConfig} {seed : Text} {s : CrawlRun}
    {as : List CrawlerAct}
    (hextract : ∀ body url, d.extract body url = extractLinks d.unicode lexbor body url ∨
      ∃ e, d.extract body url = .error e)
    (hsilent : ∀ pages page, d.reporter pages page = none)
    (hrun : run (CrawlRun.step d) (CrawlRun.create config seed) as = some s) :
    s.crawler.stats.Tallies s.crawler.reports ∧
      s.crawler.stats.duplicatesDropped + (s.crawler.frontier.queue.length + taken as) =
        (s.offeredLinks d).length := by
  have hd : d.NormalLinks := by
    intro body url links hlinks link hlink
    rcases hextract body url with hsame | ⟨e, herror⟩
    · rw [hsame] at hlinks
      exact normalize_of_extractLinks hlinks hlink
    · rw [herror] at hlinks
      cases hlinks
  have hcounts : s.Counts d (as.foldl CrawlerAct.takes 0) ∧ s.Inv d := by
    refine run_ghost (P := fun s n => s.Counts d n ∧ s.Inv d) CrawlerAct.takes ?_
      ⟨⟨CrawlRun.counted_create, rfl, rfl⟩, CrawlRun.inv_create config seed⟩ hrun
    rintro s act s' n ⟨hcounts, hinv⟩ hs
    exact ⟨CrawlRun.counted_step hd hsilent hcounts hinv hs, CrawlRun.inv_step hd hinv hs⟩
  obtain ⟨⟨hcounted, -⟩, -⟩ := hcounts
  have hoffered := hcounted.offered
  rw [foldl_takes] at hoffered
  refine ⟨hcounted.tally, ?_⟩
  rw [hcounted.shown]
  omega

/-- The second page links back to the first: of two links offered one was queued and taken. -/
theorem stats_fold_backlink :
    ∃ s, run (CrawlRun.step bodyIsLink) (CrawlRun.create {} homeUrl)
        [.begin, .guarded none, .attempted (.fetched (linkPage nextUrl)), .robotsGuarded none,
          .robotsAnswered (.response 404 none (.ok [])), .take 0,
          .workerAttempted 0 (.fetched (linkPage homeUrl))] = some s ∧
      s.crawler.stats.Tallies s.crawler.reports ∧ s.crawler.stats.duplicatesDropped = 1 ∧
      s.crawler.stats.duplicatesDropped + (s.crawler.frontier.queue.length + 1) =
        (s.offeredLinks bodyIsLink).length := by
  have hrun : ((run (CrawlRun.step bodyIsLink) (CrawlRun.create {} homeUrl)
      [.begin, .guarded none, .attempted (.fetched (linkPage nextUrl)), .robotsGuarded none,
        .robotsAnswered (.response 404 none (.ok [])), .take 0,
        .workerAttempted 0 (.fetched (linkPage homeUrl))]).any fun s =>
      decide (s.crawler.stats.duplicatesDropped = 1)) = true := by
    decide +kernel
  obtain ⟨s, hs, hdropped⟩ := (Option.any_eq_true _ _).mp hrun
  have hextract : ∀ body url, bodyIsLink.extract body url = extractLinks bodyIsLink.unicode
      (fun body => { base := none, hrefs := [some (body.map fun byte => Char.ofNat byte.toNat)] })
      body url ∨ ∃ e, bodyIsLink.extract body url = .error e := fun _ _ => .inl rfl
  obtain ⟨htally, hoffered⟩ := stats_fold hextract (fun _ _ => rfl) hs
  exact ⟨s, hs, htally, of_decide_eq_true hdropped, hoffered⟩

end UrlCrawler
