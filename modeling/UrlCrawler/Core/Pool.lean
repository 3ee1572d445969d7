import UrlCrawler.Core.Exploration
import UrlCrawler.Core.Counters

/-! # The pool against a site

What a step of the pool can do when a site answers, in one inversion (`PoolStep`), and from it that
the pool goes on searching the site, that no step leaves it stuck, and that a measure falls.
-/
set_option autoImplicit false

namespace UrlCrawler
open Execution Crawler Effects

/-- How far a worker is from its next round. -/
def WorkerPhase.weight (maxAttempts : ℕ) : WorkerPhase → ℕ
  | locking _ => maxAttempts + 4
  | sleeping _ => maxAttempts + 3
  | fetching _ attempt => maxAttempts - attempt + 2
  | ready => 1
  | done | failed => 0

/-- A worker has sent a request. -/
def WorkerPhase.isFetching : WorkerPhase → Bool
  | fetching _ _ => true
  | ready | locking _ | sleeping _ | done | failed => false

/-- Every in-scope URL gets an answer from the policy. -/
def RobotsPolicy.Decides (u : Unicode) (policy : RobotsPolicy) : Prop :=
  ∀ url key, Keyed u url key → ∃ allowed, policy.allows url = .ok allowed

section Robots
variable {u : Unicode}

theorem allowAll_decides : RobotsPolicy.allowAll.Decides u := fun _ _ _ => ⟨true, rfl⟩

theorem denyAll_decides : RobotsPolicy.denyAll.Decides u := fun _ _ _ => ⟨false, rfl⟩

/-- A robots.txt answers wherever a page has a key: both take the URL apart. -/
theorem robotsTxt_decides (d : Deps) (body userAgent : Text) :
    (d.robotsTxt body userAgent).Decides d.unicode := by
  intro url key hkeyed
  obtain ⟨parts, hparts, -⟩ := map_eq_ok.mp hkeyed.2
  show ∃ allowed, RobotsTxt.allows _ _ _ = .ok allowed
  rw [RobotsTxt.allows, targetPath, hparts]
  exact ⟨_, rfl⟩

theorem robotsNext_decides {d : Deps} {agent url : Text} {left : ℕ} {answer : RobotsAnswer}
    {policy : RobotsPolicy}
    (hnext : robotsNext d.unicode d.robotsTxt agent url left answer = .policy policy) :
    policy.Decides d.unicode := by
  unfold robotsNext at hnext
  repeat' split at hnext
  all_goals cases hnext
  all_goals first | exact denyAll_decides | exact allowAll_decides | exact robotsTxt_decides d _ _

end Robots

/-- Every page was reported as what its fetch ended in. -/
def Crawler.Faithful (d : Deps) (site : Site) (c : Crawler) : Prop :=
  ∀ page ∈ c.reports, ∃ attempts, page = reportOf d page.url (site.fetched page.url attempts)

theorem Crawler.Faithful.reported {d : Deps} {site : Site} {c c' : Crawler} {url : Text}
    {attempts : ℕ} (h : c.Faithful d site)
    (hr : Reported d url (site.fetched url attempts) c c') : c'.Faithful d site := by
  intro page hpage
  rw [hr.reports] at hpage
  rcases List.mem_append.mp hpage with hold | hnew
  · exact h page hold
  · obtain rfl := List.mem_singleton.mp hnew
    exact ⟨attempts, by rw [reportOf_url]⟩

namespace CrawlRun
variable {d : Deps} {site : Site} {s s' : CrawlRun}

/-- What a step of the pool does when the site answers and nobody cancels the run. -/
inductive PoolStep (d : Deps) (site : Site) (s : CrawlRun) : CrawlRun → Prop
  | drop {url : Text} {frontier : Frontier} (hphase : s.phase = .joining)
      (hget : s.crawler.frontier.get = some (url, frontier))
      (hstop : s.crawler.stopping = true ∨ s.crawler.Capped) :
      PoolStep d site s { s with crawler := { s.crawler with frontier, stopping := true } }.taskDone
  | take {w : ℕ} {url : Text} {frontier : Frontier} {phase : WorkerPhase}
      (hphase : s.phase = .joining) (hw : s.workers[w]? = some .ready)
      (hget : s.crawler.frontier.get = some (url, frontier)) (hroom : ¬s.crawler.Capped)
      (hurl : phase = .locking url ∨ phase = .fetching url 1 ∧ s.crawler.robots.endless = false)
      (events : List Event) :
      PoolStep d site s (({ s with crawler :=
        { s.crawler with frontier, claimed := s.crawler.claimed + 1 } }.setWorker w phase).note
          events)
  | move {w : ℕ} {phase phase' : WorkerPhase} (hphase : s.phase = .joining)
      (hw : s.workers[w]? = some phase) (hurl : phase'.url? = phase.url?)
      (hbusy : phase'.url?.isSome = true)
      (hless : phase'.weight d.maxAttempts < phase.weight d.maxAttempts)
      (hawake : phase'.isFetching = true →
        phase.isFetching = true ∨ s.crawler.robots.endless = false) (events : List Event) :
      PoolStep d site s ((s.setWorker w phase').note events)
  | handle {w attempt : ℕ} {url : Text} {crawler : Crawler} (hphase : s.phase = .joining)
      (hw : s.workers[w]? = some (.fetching url attempt))
      (hfollows : Follows d (site.links d url) s.crawler crawler)
      (hreported : Reported d url (site.fetched url attempt) s.crawler crawler)
      (htally : s.crawler.Tallied → crawler.Tallied) :
      PoolStep d site s ({ s with crawler }.setWorker w .ready).taskDone
  | join (hphase : s.phase = .joining) (hnone : s.crawler.frontier.unfinished = 0) :
      PoolStep d site s { s with phase := .leaving false }
  | cancel {w : ℕ} (hphase : s.phase = .leaving false) (hw : s.workers[w]? = some .ready) :
      PoolStep d site s (s.setWorker w .done)
  | leave (hphase : s.phase = .leaving false) : PoolStep d site s (s.leave false)

/-- The pool is at work, or it is being left with nothing unfinished. -/
def PoolPhase (s : CrawlRun) : Prop :=
  match s.phase with
  | .joining => ∀ phase ∈ s.workers, phase.isOver = false
  | .leaving cancelled => cancelled = false ∧ s.crawler.frontier.unfinished = 0
  | .done result => s.crawler.frontier.unfinished = 0 ∧
      result = .returned ⟨s.crawler.stats.pagesTotal, s.crawler.aborted, s.crawler.reason⟩
  | _ => False

/-- The pool of a run searches the site from the end of the seed chain on. -/
structure Pool (d : Deps) (site : Site) (config : CrawlConfig) (chain : List Text) (final : Text)
    (scope : HostScope) (policy : RobotsPolicy) (s : CrawlRun) : Prop where
  config_eq : s.crawler.config = config
  explores : s.crawler.Explores d site scope policy final
    {key | ∃ url ∈ chain, Keyed d.unicode url key} s.busy
  chained : chain <+: s.crawler.reported
  capped : ∀ max ∈ config.maxPages, (s.crawler.claimed : ℤ) ≤ max ⊔ (chain.length : ℤ)
  tally : s.crawler.Tallied
  faithful : s.crawler.Faithful d site
  errors : s.errors = []
  workers : s.workers.length = config.concurrency.toNat
  phase : s.PoolPhase

theorem busy_perm {w : ℕ} {phase : WorkerPhase} (hw : s.workers[w]? = some phase)
    (phase' : WorkerPhase) : ∃ rest, s.busy.Perm (phase.url?.toList ++ rest) ∧
      (s.setWorker w phase').busy.Perm (phase'.url?.toList ++ rest) := by
  obtain ⟨rest, -, hold, hnew, -, -⟩ := setWorker_urls hw phase'
  exact ⟨rest, hold, hnew⟩

theorem idle_of_unfinished (h : s.Core d) (hnone : s.crawler.frontier.unfinished = 0) :
    s.crawler.frontier.queue = [] ∧ s.busy = [] := by
  have hcount := h.unfinished
  exact ⟨List.length_eq_zero_iff.mp (by omega), List.length_eq_zero_iff.mp (by omega)⟩

section Step
variable {config : CrawlConfig} {chain : List Text} {final : Text} {scope : HostScope}
  {policy : RobotsPolicy}

/-! ## The inversion -/

/-- With a policy that answers, `_enqueue` comes to an answer about every link of a page. -/
theorem decides_links (hd : d.NormalLinks) (hpolicy : policy.Decides d.unicode) {c : Crawler}
    (hscope : c.scope = some scope) (hrobots : c.robots = policy) {url : Text}
    {fetched : Except Exn FetchOutcome} :
    ∀ link ∈ foundLinks d url fetched, c.Decides d link := by
  intro link hlink
  obtain ⟨text, hnormal⟩ := normalized_foundLinks hd link hlink
  obtain ⟨inScope, hin⟩ := HostScope.allows_total hnormal scope
  cases inScope with
  | false =>
    refine ⟨scope, false, hscope, ?_, by simp⟩
    simp [Crawler.allows, hin, bind, Except.bind, pure, Except.pure]
  | true =>
    obtain ⟨-, -, key, hkey⟩ := HostScope.of_allows hnormal hin
    obtain ⟨allowed, hallowed⟩ := hpolicy link key ⟨⟨text, hnormal⟩, hkey⟩
    refine ⟨scope, allowed, hscope, ?_, fun _ => ⟨key, hkey⟩⟩
    simp [Crawler.allows, hin, bind, Except.bind, hrobots, hallowed]

theorem take_cases {w : ℕ} (hs : s.take w = some s') : PoolStep d site s s' := by
  unfold take at hs
  split at hs
  · rename_i url frontier hphase hw hget
    by_cases hstop : s.crawler.stopping = true ∨ s.crawler.Capped
    · have hclaim : { s.crawler with frontier }.claim =
          (.dropped, { s.crawler with frontier, stopping := true }) := claim_of_stopping hstop
      rw [hclaim] at hs
      cases hs
      exact .drop hphase hget hstop
    · obtain ⟨hgoing, hroom⟩ := not_or.mp hstop
      have hclaim : { s.crawler with frontier }.claim =
          (if s.crawler.robots.delays then .waits else .fetches,
            { s.crawler with frontier, claimed := s.crawler.claimed + 1 }) :=
        claim_of_room hgoing hroom
      rw [hclaim] at hs
      by_cases hdelay : s.crawler.robots.delays = true
      · rw [if_pos hdelay] at hs
        cases hs
        have htake := @PoolStep.take d site s w url frontier _ hphase hw hget hroom (.inl rfl) []
        simpa [CrawlRun.note] using htake
      · rw [if_neg hdelay] at hs
        cases hs
        have hends : s.crawler.robots.endless = false := by
          by_contra hendless
          exact hdelay (RobotsPolicy.delays_of_endless (by simpa using hendless))
        exact .take hphase hw hget hroom (.inr ⟨rfl, hends⟩) _
  · cases hs

theorem locked_cases {w : ℕ} (hs : s.locked w = some s') : PoolStep d site s s' := by
  unfold locked at hs
  split at hs
  · rename_i url hphase hw
    split at hs <;> cases hs
    have hmove : PoolStep d site s ((s.setWorker w (.sleeping url)).note []) :=
      .move hphase hw (by rfl) (by rfl) (by simp [WorkerPhase.weight])
        (fun hfetching => by cases hfetching) []
    simpa [CrawlRun.note] using hmove
  · cases hs

theorem slept_cases {w : ℕ} (hs : s.slept w = some s') : PoolStep d site s s' := by
  obtain ⟨url, hphase, hw, hends, rfl⟩ := slept_some.mp hs
  refine .move hphase hw (by rfl) (by rfl) ?_ (fun _ => .inr hends) _
  simp only [WorkerPhase.weight]
  omega

section Silent
variable (hd : d.NormalLinks) (hquiet : ∀ url result, Quiet (pageLinks d url result))
  (hsilent : ∀ pages page, d.reporter pages page = none)
include hd hquiet hsilent

theorem worked_cases (hpolicy : policy.Decides d.unicode)
    (hscope : s.crawler.scope = some scope) (hrobots : s.crawler.robots = policy)
    (hphase : s.phase = .joining) {w attempt : ℕ} {url : Text}
    (hw : s.workers[w]? = some (.fetching url attempt)) (hsite : Quiet (site.fetched url attempt)) :
    PoolStep d site s (s.worked d w url (site.fetched url attempt)) := by
  have hreported := work_reported hsilent hquiet url hsite hscope
    (decides_links hd hpolicy hscope hrobots)
  have hfollows := work_follows (d := d) url (site.fetched url attempt) s.crawler
  rw [Site.links_eq] at hfollows
  unfold worked
  split
  · rename_i crawler hwork
    refine .handle hphase hw (hfollows.of_ok hwork) (hreported.of_ok hwork) fun h => ?_
    exact (work_tallied hsilent url (site.fetched url attempt) h).of_ok hwork
  · rename_i e crawler hwork
    exact (hreported.of_error hwork).elim

theorem workerAttempted_cases (hsite : ∀ url, Quiet (site url))
    (hpolicy : policy.Decides d.unicode) (hscope : s.crawler.scope = some scope)
    (hrobots : s.crawler.robots = policy) {w : ℕ} {answer : Answer}
    (hserves : site.Serves s (.workerAttempted w answer))
    (hs : s.workerAttempted d w answer = some s') : PoolStep d site s s' := by
  unfold workerAttempted at hs
  split at hs
  · rename_i url attempt hphase hw
    have hgives : site.Gives url answer := by
      simpa [Site.Serves, hw] using hserves
    have hworked := worked_cases hd hquiet hsilent hpolicy hscope hrobots hphase hw
      ((hsite url).map _)
    cases answer with
    | retry =>
      dsimp only at hs
      split at hs <;> cases hs
      refine .move hphase hw (by rfl) (by rfl) ?_ (fun _ => .inl rfl) _
      simp only [WorkerPhase.weight]
      omega
    | fetched response =>
      cases hs
      have hresponse : site url = .ok response := hgives
      simpa [Site.fetched, hresponse, Except.map] using hworked
    | raised e =>
      cases hs
      have herror : site url = .error e := hgives
      simpa [Site.fetched, herror, Except.map] using hworked
  · cases hs

/-- Every step of a pool in which nobody has failed is one of `PoolStep`. -/
theorem poolStep_of_step (hsite : ∀ url, Quiet (site url)) (hpolicy : policy.Decides d.unicode)
    (hphase : s.PoolPhase) (herrors : s.errors = []) (hscope : s.crawler.scope = some scope)
    (hrobots : s.crawler.robots = policy) (hcore : s.Core d) {act : CrawlerAct}
    (hserves : site.Serves s act) (hs : s.step d act = some s') : PoolStep d site s s' := by
  unfold PoolPhase at hphase
  cases act with
  | take w => exact take_cases hs
  | locked w => exact locked_cases hs
  | slept w => exact slept_cases hs
  | workerAttempted w answer =>
    exact workerAttempted_cases hd hquiet hsilent hsite hpolicy hscope hrobots hserves hs
  | joined =>
    simp only [step, joined] at hs
    split at hs
    · rename_i hjoining
      split at hs <;> cases hs
      rename_i hnone
      exact .join hjoining hnone
    · cases hs
  | failed =>
    simp only [step, failed, herrors] at hs
    split at hs <;> simp at hs
  | cancel => exact hserves.elim
  | workerCancelled w =>
    simp only [step, workerCancelled, cancelling] at hs
    split at hs
    · rename_i phase hw
      split at hphase
      · rename_i hjoining
        simp [hjoining, herrors] at hs
      · rename_i cancelled hleaving
        obtain ⟨rfl, hnone⟩ := hphase
        have hidle : phase.url? = none := by
          cases hurl : phase.url? with
          | none => rfl
          | some url =>
            have hmem := mem_busy hw hurl
            rw [(idle_of_unfinished hcore hnone).2] at hmem
            cases hmem
        cases phase with
        | ready =>
          simp only [hleaving, WorkerPhase.isOver, WorkerPhase.url?] at hs
          cases hs
          exact .cancel hleaving hw
        | done | failed => simp [WorkerPhase.isOver] at hs
        | locking _ | sleeping _ | fetching _ _ => cases hidle
      · rename_i result hdone
        simp [hdone] at hs
      · exact hphase.elim
    · cases hs
  | left =>
    simp only [step, left] at hs
    split at hs
    · rename_i cancelled hleaving
      rw [hleaving] at hphase
      obtain ⟨rfl, -⟩ := hphase
      split at hs <;> cases hs
      exact .leave hleaving
    · cases hs
  | begin | guarded _ | guardRaised _ | attempted _ | robotsGuarded _ | robotsGuardRaised _
  | robotsAnswered _ =>
    simp only [step, guarded, guardRaised, attempted, robotsGuarded, robotsGuardRaised,
      robotsAnswered] at hs
    split at hs
    · rename_i hseed
      simp [hseed] at hphase
    · cases hs

theorem Pool.step_cases (hsite : ∀ url, Quiet (site url)) (hpolicy : policy.Decides d.unicode)
    (h : s.Pool d site config chain final scope policy) (hcore : s.Core d) {act : CrawlerAct}
    (hserves : site.Serves s act) (hs : s.step d act = some s') : PoolStep d site s s' :=
  poolStep_of_step hd hquiet hsilent hsite hpolicy h.phase h.errors h.explores.scope_eq
    h.explores.robots_eq hcore hserves hs

end Silent

/-! ## The pool goes on searching -/

theorem poolPhase_set (hphase : s.phase = .joining) (h : s.PoolPhase) {w : ℕ}
    {phase : WorkerPhase} (hlive : phase.isOver = false) :
    ∀ phase' ∈ s.workers.set w phase, phase'.isOver = false := by
  unfold PoolPhase at h
  rw [hphase] at h
  intro phase' hmem
  rcases List.mem_or_eq_of_mem_set hmem with hold | rfl
  · exact h phase' hold
  · exact hlive

theorem isOver_of_url {phase : WorkerPhase} (h : phase.url?.isSome = true) :
    phase.isOver = false := by
  cases phase with
  | ready | done | failed => cases h
  | locking _ | sleeping _ | fetching _ _ => rfl

theorem poolPhase_joining (hphase : s.phase = .joining)
    (h : ∀ phase ∈ s.workers, phase.isOver = false) : s.PoolPhase := by
  unfold PoolPhase
  rw [hphase]
  exact h

/-- The pool is at work or through with it, and nobody has failed. -/
structure Orderly (s : CrawlRun) : Prop where
  phase : s.PoolPhase
  errors : s.errors = []

theorem Orderly.of_step (h : s.Orderly) (hs : PoolStep d site s s') : s'.Orderly := by
  cases hs with
  | drop hphase hget hstop =>
    have hlive := h.phase
    unfold PoolPhase at hlive
    rw [hphase] at hlive
    exact ⟨poolPhase_joining hphase hlive, h.errors⟩
  | @take w url frontier phase hphase hw hget hroom hurl events =>
    have hlive : phase.isOver = false := by
      rcases hurl with rfl | ⟨rfl, -⟩ <;> rfl
    exact ⟨poolPhase_joining hphase (poolPhase_set hphase h.phase hlive), h.errors⟩
  | move hphase hw hurl hbusy hless hawake events =>
    exact ⟨poolPhase_joining hphase (poolPhase_set hphase h.phase (isOver_of_url hbusy)), h.errors⟩
  | handle hphase hw hfollows hreported htally =>
    exact ⟨poolPhase_joining hphase (poolPhase_set hphase h.phase rfl), h.errors⟩
  | join hphase hnone => exact ⟨⟨rfl, hnone⟩, h.errors⟩
  | cancel hphase hw =>
    refine ⟨?_, h.errors⟩
    have hleaving := h.phase
    unfold PoolPhase at hleaving ⊢
    rw [hphase] at hleaving
    show match s.phase with
      | .joining => _ | .leaving cancelled => _ | .done result => _ | _ => False
    rw [hphase]
    exact hleaving
  | leave hphase =>
    have hleaving := h.phase
    unfold PoolPhase at hleaving
    rw [hphase] at hleaving
    have hresult : s.leave false =
        s.finish (.returned ⟨s.crawler.stats.pagesTotal, s.crawler.aborted, s.crawler.reason⟩) := by
      simp [CrawlRun.leave, h.errors]
    rw [hresult]
    exact ⟨⟨hleaving.2, rfl⟩, h.errors⟩

theorem PoolStep.length_workers (hs : PoolStep d site s s') :
    s'.workers.length = s.workers.length := by
  cases hs with
  | drop | join | leave => rfl
  | take | move | handle | cancel => exact List.length_set ..

theorem PoolStep.frame (hs : PoolStep d site s s') :
    s'.crawler.scope = s.crawler.scope ∧ s'.crawler.robots = s.crawler.robots := by
  cases hs with
  | handle hphase hw hfollows hreported htally => exact ⟨hfollows.scope, hfollows.robots⟩
  | drop | join | leave | take | move | cancel => exact ⟨rfl, rfl⟩

/-- Every step keeps the pool searching. -/
theorem Pool.of_step (hd : d.NormalLinks) (h : s.Pool d site config chain final scope policy)
    (hs : PoolStep d site s s') : s'.Pool d site config chain final scope policy := by
  obtain ⟨hphase', herrors'⟩ := Orderly.of_step ⟨h.phase, h.errors⟩ hs
  have hworkers' := hs.length_workers.trans h.workers
  cases hs with
  | drop hphase hget hstop =>
    exact { h with explores := (h.explores.dropped hget hstop).taskDone, phase := hphase' }
  | @take w url frontier phase hphase hw hget hroom hurl events =>
    have hsome : phase.url? = some url := by
      rcases hurl with rfl | ⟨rfl, -⟩ <;> rfl
    obtain ⟨rest, hold, hnew⟩ := busy_perm hw phase
    rw [hsome] at hnew
    have hlt : ∀ max ∈ config.maxPages, (s.crawler.claimed : ℤ) < max := by
      intro max hmax
      by_contra hle
      exact hroom ⟨max, h.config_eq ▸ hmax, not_lt.mp hle⟩
    exact
      { config_eq := h.config_eq
        explores := (h.explores.taken hget).perm ((hold.cons url).trans hnew.symm)
        chained := h.chained
        capped := fun max hmax => by
          have hle : ((s.crawler.claimed + 1 : ℕ) : ℤ) ≤ max := by
            have hbelow := hlt max hmax
            push_cast
            omega
          exact hle.trans le_sup_left
        tally := h.tally
        faithful := h.faithful
        errors := herrors'
        workers := hworkers'
        phase := hphase' }
  | @move w phase phase' hphase hw hurl hbusy hless hawake events =>
    obtain ⟨rest, hold, hnew⟩ := busy_perm hw phase'
    rw [hurl] at hnew
    exact
      { config_eq := h.config_eq
        explores := h.explores.perm (hold.trans hnew.symm)
        chained := h.chained
        capped := h.capped
        tally := h.tally
        faithful := h.faithful
        errors := herrors'
        workers := hworkers'
        phase := hphase' }
  | @handle w attempt url crawler hphase hw hfollows hreported htally =>
    obtain ⟨rest, hold, hnew⟩ := busy_perm hw .ready
    have hexplores := (h.explores.perm hold).handled hd hfollows hreported
    exact
      { config_eq := hfollows.config.trans h.config_eq
        explores := (hexplores.perm hnew.symm).taskDone
        chained := by
          show chain <+: crawler.reports.map PageResult.url
          rw [hreported.reports, List.map_append]
          exact h.chained.trans (List.prefix_append _ _)
        capped := fun max hmax => by
          show (crawler.claimed : ℤ) ≤ _
          rw [hfollows.claimed]
          exact h.capped max hmax
        tally := htally h.tally
        faithful := by
          have hfaithful : crawler.Faithful d site := h.faithful.reported hreported
          exact hfaithful
        errors := herrors'
        workers := hworkers'
        phase := hphase' }
  | join hphase hnone => exact { h with phase := hphase' }
  | @cancel w hphase hw =>
    obtain ⟨rest, hold, hnew⟩ := busy_perm hw .done
    exact
      { config_eq := h.config_eq
        explores := h.explores.perm (hold.trans hnew.symm)
        chained := h.chained
        capped := h.capped
        tally := h.tally
        faithful := h.faithful
        errors := herrors'
        workers := hworkers'
        phase := hphase' }
  | leave hphase => exact { h with phase := hphase' }

end Step
end CrawlRun
end UrlCrawler
