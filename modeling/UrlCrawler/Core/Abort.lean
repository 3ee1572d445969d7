import UrlCrawler.Core.Coverage
import UrlCrawler.Core.Fuse
import Mathlib.Data.Prod.Lex

/-! # A crawl that the fuse aborts

A run with what it hands to `_handle` and what its workers claim. The fuse is the automaton over the
results. Once it has tripped nothing more is claimed, and a run in which nobody interferes reports
what has been claimed and returns.
-/
set_option autoImplicit false

namespace UrlCrawler
open Execution Crawler Effects

namespace CrawlRun

/-- The page the seed chain has landed on, if the step starts the pool. -/
def landedPage (s : CrawlRun) (act : CrawlerAct) : List FetchResult :=
  match s.phase, act with
  | .fetching url _ attempt, .attempted (.fetched (.page status body contentType location)) =>
    [{ url, status, body, contentType, location, attempts := attempt }]
  | .robotsGuarding _ result .., _ | .robotsFetching _ result .., _ => [result]
  | _, _ => []

/-- What a step hands to `_handle`. -/
def handed (d : Deps) (s : CrawlRun) (act : CrawlerAct) : List FetchOutcome :=
  if s.phase.isSeeding then
    if (s.step d act).any fun s' => s'.phase.isJoining then (s.landedPage act).map .ok else []
  else
    match act with
    | .workerAttempted w (.fetched response) =>
      match s.workers[w]? with
      | some (.fetching url attempt) => [response.outcome url attempt]
      | _ => []
    | _ => []

/-- The URL a step claims. -/
def claims (s : CrawlRun) : CrawlerAct → List Text
  | .take _ =>
    match s.phase, s.crawler.frontier.get with
    | .joining, some (url, rest) =>
      if { s.crawler with frontier := rest }.claim.1 = .dropped then [] else [url]
    | _, _ => []
  | _ => []

end CrawlRun

/-- The results handed to `_handle` and the URLs claimed by the workers, in order. -/
structure PoolHistory where
  results : List FetchOutcome := []
  claimed : List Text := []

def PoolHistory.note (d : Deps) (s : CrawlRun) (history : PoolHistory) (act : CrawlerAct) :
    PoolHistory :=
  ⟨history.results ++ s.handed d act, history.claimed ++ s.claims act⟩

/-- Nobody cancels the run, and no fetch of a worker raises a broken pipe. -/
def Calm (_ : CrawlRun) : CrawlerAct → Prop
  | .cancel => False
  | .workerAttempted _ (.raised e) => e.brokenPipe = false
  | _ => True

instance (s : CrawlRun) : DecidablePred (Calm s)
  | .cancel => isFalse id
  | .workerAttempted _ (.raised e) => inferInstanceAs (Decidable (e.brokenPipe = false))
  | .workerAttempted _ .retry | .workerAttempted _ (.fetched _) | .begin | .guarded _
  | .guardRaised _ | .attempted _ | .robotsGuarded _ | .robotsGuardRaised _ | .robotsAnswered _
  | .take _ | .locked _ | .slept _ | .joined | .failed | .workerCancelled _ | .left => isTrue trivial

namespace CrawlRun
variable {d : Deps} {config : CrawlConfig} {seed : Text} {s s' : CrawlRun} {history : PoolHistory}

/-! ## The fuse of a run -/

theorem handed_of_fetched (hphase : s.phase = .joining) {w attempt : ℕ} {url : Text}
    (hw : s.workers[w]? = some (.fetching url attempt)) (response : Response) :
    s.handed d (.workerAttempted w (.fetched response)) = [response.outcome url attempt] := by
  simp [handed, hphase, RunPhase.isSeeding, hw]

/-- Past the seed only the answer to a worker hands something over. -/
theorem handed_of_other (hphase : s.phase.isSeeding = false) {act : CrawlerAct}
    (hact : ∀ w response, act ≠ .workerAttempted w (.fetched response)) : s.handed d act = [] := by
  unfold handed
  rw [hphase, if_neg (by simp)]
  split
  · exact absurd rfl (hact _ _)
  · rfl

/-- Before the pool starts nothing is handed over, and then a page. -/
theorem handed_seed (hphase : s.phase.isSeeding = true) {act : CrawlerAct}
    (hs : s.step d act = some s') :
    (∃ pages : List FetchResult, s.handed d act = pages.map .ok) ∧
      (s'.phase.isSeeding = true → s.handed d act = []) := by
  unfold handed
  rw [hphase, if_pos rfl, hs, Option.any_some]
  split
  · rename_i hjoining
    refine ⟨⟨_, rfl⟩, fun hseeding => ?_⟩
    rw [RunPhase.eq_joining hjoining] at hseeding
    cases hseeding
  · exact ⟨⟨[], rfl⟩, fun _ => rfl⟩

theorem claims_of_not_joining (hphase : s.phase ≠ .joining) (act : CrawlerAct) :
    s.claims act = [] := by
  unfold claims
  split
  · split
    · rename_i hjoining _
      exact absurd hjoining hphase
    · rfl
  · rfl

theorem claims_of_stopping (h : s.crawler.stopping = true) (act : CrawlerAct) :
    s.claims act = [] := by
  unfold claims
  split
  · split
    · rename_i url rest _ _
      have hclaim : { s.crawler with frontier := rest }.claim =
          (.dropped, { s.crawler with frontier := rest, stopping := true }) :=
        claim_of_stopping (.inl h)
      rw [hclaim, if_pos rfl]
    · rfl
  · rfl

/-- Nothing has gone off yet. -/
def Unfused (config : CrawlConfig) (c : Crawler) : Prop := c.config = config ∧ c.fuse = {}

theorem unfused_seed (hsilent : ∀ pages page, d.reporter pages page = none) :
    SeedInvariant d (Unfused config) where
  frontier := fun _ _ h => h
  scope := fun _ _ h => h
  robots := fun _ _ _ h => h
  claimed := fun _ _ h => h
  followed := by
    rintro c url result target ⟨hconfig, hfuse⟩
    simp only [followRedirect, countRetries, countOk, countRedirect, ends_bind, ends_modify,
      ends_report, ends_markSeen]
    exact ⟨fun _ => ⟨fun _ _ _ => ⟨hconfig, hfuse⟩, fun _ _ => ⟨hconfig, hfuse⟩⟩,
      fun _ _ => ⟨hconfig, hfuse⟩⟩
  handled := by
    rintro c url result ⟨hconfig, hfuse⟩
    have hends := (handle_follows url (.ok result) c).and (handle_fuses hsilent url (.ok result) c)
    have hnext : c.fuse.next c.config.failureFuse (.ok result) = {} := by
      rw [hfuse]
      rfl
    exact hends.mono (fun _ _ h => ⟨h.1.config.trans hconfig, h.2.fuse.trans hnext⟩) fun _ _ h =>
      ⟨h.1.config.trans hconfig, h.2.fuse.trans hnext⟩

/-- The fuse of the crawler is the automaton's, and what a run returns says so. -/
structure Fused (config : CrawlConfig) (s : CrawlRun) (history : PoolHistory) : Prop where
  config_eq : s.crawler.config = config
  fuse : s.crawler.fuse = history.results.foldl (Fuse.next config.failureFuse) {}
  latched : s.crawler.Latched
  returned : ∀ outcome, s.phase = .done (.returned outcome) →
    outcome.aborted = s.crawler.aborted ∧ outcome.reason = s.crawler.reason
  seeds : s.phase.isSeeding = true → s.Seeds (Unfused config) ∧ history = {}

theorem fused_create : (create config seed).Fused config {} where
  config_eq := rfl
  fuse := rfl
  latched := fun h => by cases h
  returned := fun _ h => by cases h
  seeds := fun _ => ⟨⟨⟨rfl, rfl⟩, rfl, rfl⟩, rfl⟩

theorem foldl_pages (fuse : ℤ) (pages : List FetchResult) :
    (pages.map FetchOutcome.ok).foldl (Fuse.next fuse) {} = {} := by
  induction pages with
  | nil => rfl
  | cons page pages ih => exact ih

theorem claim_fuse (c : Crawler) : c.claim.2.fuse = c.fuse ∧
    (c.stopping = true → c.claim.2.stopping = true) := by
  unfold Crawler.claim
  split
  · exact ⟨rfl, id⟩
  · split
    · exact ⟨rfl, fun _ => rfl⟩
    · exact ⟨rfl, id⟩

/-- What a step past the seed does to the fuse: it puts in what it hands over. -/
structure Moved (s : CrawlRun) (results : List FetchOutcome) (c : Crawler) : Prop where
  config_eq : c.config = s.crawler.config
  fuse : c.fuse = results.foldl (Fuse.next s.crawler.config.failureFuse) s.crawler.fuse
  latched : s.crawler.Latched → c.Latched

theorem moved_of_poolMove (hsilent : ∀ pages page, d.reporter pages page = none)
    (hphase : s.phase.isSeeding = false) {act : CrawlerAct} {c : Crawler}
    (h : PoolMove d s act c) : s.Moved (s.handed d act) c := by
  cases h with
  | rest hact frontier =>
    rw [handed_of_other hphase hact]
    exact ⟨rfl, rfl, id⟩
  | claim w before after =>
    rw [handed_of_other hphase (by simp)]
    obtain ⟨-, -, -, hconfig, -⟩ := claim_frame { s.crawler with frontier := before }
    obtain ⟨hfuse, hstopping⟩ := claim_fuse { s.crawler with frontier := before }
    refine ⟨hconfig, hfuse, fun h haborted => hstopping (h ?_)⟩
    have hsame := congrArg Fuse.aborted hfuse
    exact hsame.symm.trans haborted
  | @work w attempt url answer c hjoining hw fetched hanswer hends after =>
    have hfollows : Follows d (foundLinks d url fetched) s.crawler c :=
      hends (work_follows url fetched s.crawler)
    cases answer with
    | retry => exact hanswer.elim
    | fetched response =>
      dsimp only at hanswer
      subst hanswer
      have hfuses := hends (work_fuses hsilent url (response.outcome url attempt) s.crawler)
      rw [handed_of_fetched hjoining hw]
      exact ⟨hfollows.config, hfuses.fuse, hfuses.latched⟩
    | raised e =>
      dsimp only at hanswer
      subst hanswer
      have hsame := hends (work_raised_fuse url e s.crawler)
      rw [handed_of_other hphase (by simp)]
      exact ⟨hfollows.config, hsame.fuse, hsame.latched⟩

/-- Every step keeps the fuse that of the results. -/
theorem Fused.step (hsilent : ∀ pages page, d.reporter pages page = none)
    (h : s.Fused config history) {act : CrawlerAct} (hs : s.step d act = some s') :
    s'.Fused config (history.note d s act) := by
  cases hphase : s.phase.isSeeding with
  | true =>
    obtain ⟨hseeds, rfl⟩ := h.seeds hphase
    have hseeds' := hseeds.step (unfused_seed hsilent) hphase hs
    obtain ⟨⟨pages, hpages⟩, hnone⟩ := handed_seed hphase hs
    obtain ⟨hconfig, hfuse⟩ := hseeds'.crawler
    have hclaims : s.claims act = [] := claims_of_not_joining (by
      intro hjoining
      simp [hjoining, RunPhase.isSeeding] at hphase) act
    have hgoing : s'.crawler.aborted = false := congrArg Fuse.aborted hfuse
    exact
      { config_eq := hconfig
        fuse := by
          rw [hfuse, PoolHistory.note, hpages, List.nil_append, foldl_pages]
        latched := fun haborted => by
          rw [hgoing] at haborted
          cases haborted
        returned := fun outcome hdone => by
          have hbegin := hseeds'.beginning
          unfold Beginning at hbegin
          rw [hdone] at hbegin
          exact hbegin.elim
        seeds := fun hseeding => by
          refine ⟨hseeds', ?_⟩
          rw [PoolHistory.note, hnone hseeding, hclaims]
          rfl }
  | false =>
    have hmoved := moved_of_poolMove hsilent hphase (step_poolMove hphase hs)
    exact
      { config_eq := hmoved.config_eq.trans h.config_eq
        fuse := by
          rw [hmoved.fuse, h.fuse, h.config_eq, PoolHistory.note, List.foldl_append]
        latched := hmoved.latched h.latched
        returned := fun outcome hdone => by
          obtain rfl := step_returned hphase hs hdone
          exact ⟨rfl, rfl⟩
        seeds := fun hseeding => by
          rw [step_past_seed hphase hs] at hseeding
          cases hseeding }

/-! ## A run in which nobody interferes -/

theorem decides_seed : SeedInvariant d fun c => c.robots.Decides d.unicode where
  frontier := fun _ _ h => h
  scope := fun _ _ h => h
  robots := by
    rintro c policy (rfl | rfl | ⟨text, agent, rfl⟩) -
    · exact allowAll_decides
    · exact denyAll_decides
    · exact robotsTxt_decides d text agent
  claimed := fun _ _ h => h
  followed := fun c url result target h =>
    (ends_followRedirect url target result c).mono
      (fun new c' hf => by
        obtain ⟨frontier, -, -, hfollows, -⟩ := hf
        rw [hfollows.robots]
        exact h)
      fun e c' hfollows => by
        rw [hfollows.robots]
        exact h
  handled := fun c url result h =>
    (handle_follows url (.ok result) c).mono
      (fun _ c' hfollows => by
        rw [hfollows.robots]
        exact h)
      fun e c' hfollows => by
        rw [hfollows.robots]
        exact h

/-- What a quiet site answers is calm. -/
theorem calm_of_serves {site : Site} (hsite : ∀ url, Quiet (site url)) {act : CrawlerAct}
    (hserves : site.Serves s act) (hs : s.step d act = some s') : Calm s act := by
  cases act with
  | cancel => exact hserves
  | workerAttempted w answer =>
    simp only [CrawlRun.step, workerAttempted] at hs
    split at hs
    · rename_i url attempt hphase hw
      cases answer with
      | retry | fetched response => trivial
      | raised e =>
        have hgives : site url = .error e := by simpa [Site.Serves, hw, Site.Gives] using hserves
        exact hsite url e hgives
    · cases hs
  | begin | guarded _ | guardRaised _ | attempted _ | robotsGuarded _ | robotsGuardRaised _
  | robotsAnswered _ | take _ | locked _ | slept _ | joined | failed | workerCancelled _ | left =>
    trivial

/-- A site that gives the answer of a step whatever is asked. -/
def answering : CrawlerAct → Site
  | .workerAttempted _ (.fetched response) => fun _ => .ok response
  | .workerAttempted _ (.raised e) => fun _ => .error e
  | _ => fun _ => .ok (.error .timeout none "")

theorem answering_quiet {act : CrawlerAct} (hcalm : Calm s act) (url : Text) :
    Quiet (answering act url) := by
  unfold answering
  split
  · exact quiet_ok _
  · intro e he
    cases he
    exact hcalm
  · exact quiet_ok _

theorem answering_serves (hphase : s.phase.isSeeding = false) {act : CrawlerAct}
    (hcalm : Calm s act) : (answering act).Serves s act := by
  cases act with
  | cancel => exact hcalm
  | workerAttempted w answer =>
    simp only [Site.Serves]
    split
    · cases answer with
      | retry => trivial
      | fetched response | raised e => rfl
    · trivial
  | attempted answer =>
    simp only [Site.Serves]
    split
    · rename_i hseed
      simp [hseed, RunPhase.isSeeding] at hphase
    · trivial
  | begin | guarded _ | guardRaised _ | robotsGuarded _ | robotsGuardRaised _
  | robotsAnswered _ | take _ | locked _ | slept _ | joined | failed | workerCancelled _ | left =>
    trivial

/-- Under a delay that never ends no worker comes to a request, so nothing can go off. -/
def Dormant (s : CrawlRun) : Prop :=
  s.crawler.robots.endless = true →
    s.crawler.aborted = false ∧ ∀ phase ∈ s.workers, phase.isFetching = false

theorem Dormant.of_step {site : Site} (h : s.Dormant) (hs : PoolStep d site s s') : s'.Dormant := by
  have hset : ∀ {w : ℕ} {phase : WorkerPhase}, s.crawler.robots.endless = true →
      phase.isFetching = false → ∀ phase' ∈ s.workers.set w phase, phase'.isFetching = false := by
    intro w phase hendless hphase phase' hmem
    rcases List.mem_or_eq_of_mem_set hmem with hold | rfl
    · exact (h hendless).2 phase' hold
    · exact hphase
  cases hs with
  | drop | join | leave => exact h
  | take hphase hw hget hroom hurl events =>
    intro hendless
    refine ⟨(h hendless).1, hset hendless ?_⟩
    rcases hurl with rfl | ⟨rfl, hends⟩
    · rfl
    · exact absurd (hendless.symm.trans hends) (by simp)
  | @move w phase phase' hphase hw hurl hbusy hless hawake events =>
    intro hendless
    refine ⟨(h hendless).1, hset hendless ?_⟩
    cases hfetching : phase'.isFetching with
    | false => rfl
    | true =>
      rcases hawake hfetching with hbefore | hends
      · exact hbefore.symm.trans ((h hendless).2 phase (List.mem_of_getElem? hw))
      · exact absurd (hendless.symm.trans hends) (by simp)
  | handle hphase hw hfollows hreported htally =>
    intro hendless
    have hends : s.crawler.robots.endless = true := hfollows.robots ▸ hendless
    cases (h hends).2 _ (List.mem_of_getElem? hw)
  | cancel hphase hw => exact fun hendless => ⟨(h hendless).1, hset hendless rfl⟩

/-- A pool in which nobody has failed, and what its workers have claimed is in progress or
reported. -/
structure Calmed (d : Deps) (s : CrawlRun) (claimed : List Text) : Prop where
  orderly : s.Orderly
  workers : 0 < s.workers.length
  scope : ∃ scope, s.crawler.scope = some scope
  policy : s.crawler.robots.Decides d.unicode
  dormant : s.Dormant
  reported : ∀ url ∈ claimed, url ∈ s.busy ∨ url ∈ s.crawler.reported

theorem Orderly.past_seed (h : s.Orderly) : s.phase.isSeeding = false := by
  have hpool := h.phase
  unfold PoolPhase at hpool
  cases hp : s.phase with
  | joining | leaving _ | done _ => rfl
  | created | guarding _ _ | fetching _ _ _ | robotsGuarding _ _ _ _ | robotsFetching _ _ _ _ =>
    rw [hp] at hpool
    exact hpool.elim

/-- What is claimed is in progress from then on. -/
theorem busy_of_claims {act : CrawlerAct} (hs : s.step d act = some s') :
    ∀ url ∈ s.claims act, url ∈ s'.busy := by
  intro url hurl
  cases act with
  | take w =>
    simp only [CrawlRun.step, take] at hs
    unfold claims at hurl
    split at hs
    · rename_i next rest hphase hw hget
      have hlt := (List.getElem?_eq_some_iff.mp hw).1
      simp only [hphase, hget] at hurl
      generalize { s.crawler with frontier := rest }.claim = claimed at hs hurl
      obtain ⟨claim, crawler⟩ := claimed
      cases claim with
      | dropped => cases hurl
      | waits =>
        cases hs
        obtain rfl := List.mem_singleton.mp hurl
        have hnow : (s.workers.set w (.locking url))[w]? = some (.locking url) := by simp [hlt]
        exact mem_busy hnow rfl
      | fetches =>
        cases hs
        obtain rfl := List.mem_singleton.mp hurl
        have hnow : (s.workers.set w (.fetching url 1))[w]? = some (.fetching url 1) := by simp [hlt]
        exact mem_busy hnow rfl
    · cases hs
  | begin | guarded _ | guardRaised _ | attempted _ | robotsGuarded _ | robotsGuardRaised _
  | robotsAnswered _ | locked _ | slept _ | workerAttempted _ _ | joined | failed | cancel
  | workerCancelled _ | left => cases hurl

/-- A URL in progress stays in progress until it is reported. -/
theorem PoolStep.kept {site : Site} (hs : PoolStep d site s s') {url : Text}
    (h : url ∈ s.busy ∨ url ∈ s.crawler.reported) :
    url ∈ s'.busy ∨ url ∈ s'.crawler.reported := by
  cases hs with
  | drop | join | leave => exact h
  | @take w next frontier phase hphase hw hget hroom hurl events =>
    obtain ⟨rest, hold, hnew⟩ := busy_perm hw phase
    exact h.imp_left fun hbusy => hnew.mem_iff.mpr
      (List.mem_append_right _ (hold.mem_iff.mp hbusy))
  | @move w phase phase' hphase hw hurl hbusy hless hawake events =>
    obtain ⟨rest, hold, hnew⟩ := busy_perm hw phase'
    rw [hurl] at hnew
    exact h.imp_left fun hbusy => (hold.trans hnew.symm).mem_iff.mp hbusy
  | @handle w attempt next crawler hphase hw hfollows hreported htally =>
    obtain ⟨rest, hold, hnew⟩ := busy_perm hw .ready
    have hreports : crawler.reported = s.crawler.reported ++ [next] := by
      rw [reported, hreported.reports, List.map_append, List.map_singleton, reportOf_url]
      rfl
    rcases h with hbusy | hold'
    · rcases List.mem_cons.mp (hold.mem_iff.mp hbusy) with rfl | hrest
      · exact .inr (hreports ▸ List.mem_append_right _ (List.mem_singleton_self _))
      · exact .inl (hnew.mem_iff.mpr hrest)
    · exact .inr (hreports ▸ List.mem_append_left _ hold')
  | @cancel w hphase hw =>
    obtain ⟨rest, hold, hnew⟩ := busy_perm hw .done
    exact h.imp_left fun hbusy => (hold.trans hnew.symm).mem_iff.mp hbusy

section Calm
variable (hd : d.NormalLinks) (hquiet : ∀ url result, Quiet (pageLinks d url result))
  (hsilent : ∀ pages page, d.reporter pages page = none)
include hd hquiet hsilent

theorem Calmed.poolStep {claimed : List Text} (h : s.Calmed d claimed) (hcore : s.Core d)
    {act : CrawlerAct} (hcalm : Calm s act) (hs : s.step d act = some s') :
    PoolStep d (answering act) s s' := by
  obtain ⟨scope, hscope⟩ := h.scope
  exact poolStep_of_step hd hquiet hsilent (answering_quiet hcalm) h.policy h.orderly.phase
    h.orderly.errors hscope rfl hcore (answering_serves h.orderly.past_seed hcalm) hs

theorem Calmed.step {claimed : List Text} (h : s.Calmed d claimed) (hcore : s.Core d)
    {act : CrawlerAct} (hcalm : Calm s act) (hs : s.step d act = some s') :
    s'.Calmed d (claimed ++ s.claims act) := by
  have hstep := h.poolStep hd hquiet hsilent hcore hcalm hs
  obtain ⟨hscope, hrobots⟩ := hstep.frame
  exact
    { orderly := h.orderly.of_step hstep
      workers := by
        rw [hstep.length_workers]
        exact h.workers
      scope := hscope ▸ h.scope
      policy := hrobots ▸ h.policy
      dormant := h.dormant.of_step hstep
      reported := fun url hurl => by
        rcases List.mem_append.mp hurl with hold | hnew
        · exact hstep.kept (h.reported url hold)
        · exact .inl (busy_of_claims hs url hnew) }

/-- A run in which nobody interferes: before its pool or over without one, or in its pool. -/
structure Undisturbed (d : Deps) (config : CrawlConfig) (s : CrawlRun) (history : PoolHistory) :
    Prop where
  inv : s.Inv d
  fused : s.Fused config history
  place : (s.Seeds (fun c => Unfused config c ∧ c.robots.Decides d.unicode) ∧ s.phase ≠ .joining ∧
    history.claimed = []) ∨ s.Calmed d history.claimed

omit hd hquiet hsilent in
theorem undisturbed_create : (create config seed).Undisturbed d config {} where
  inv := inv_create config seed
  fused := fused_create
  place := .inl ⟨⟨⟨⟨rfl, rfl⟩, allowAll_decides⟩, rfl, rfl⟩, by simp [create], rfl⟩

omit hd hquiet hsilent in
theorem Beginning.cases (h : s.Beginning) :
    s.phase.isSeeding = true ∨ s.phase = .joining ∨ ∃ result, s.phase = .done result := by
  unfold Beginning at h
  cases hp : s.phase with
  | created | guarding _ _ | fetching _ _ _ | robotsGuarding _ _ _ _ | robotsFetching _ _ _ _ =>
    exact .inl rfl
  | joining => exact .inr (.inl rfl)
  | leaving cancelled =>
    rw [hp] at h
    exact h.elim
  | done result => exact .inr (.inr ⟨result, rfl⟩)

omit hd hquiet hsilent in
/-- The workers start, and nothing is claimed yet. -/
theorem calmed_start {J : Crawler → Prop} (h : s.Seeds J) (hpolicy : s.crawler.robots.Decides d.unicode)
    (hgoing : s.crawler.aborted = false) (hphase : s.phase = .joining) (hinv : s.Inv d) :
    s.Calmed d [] := by
  have hworkers := h.beginning
  unfold Beginning at hworkers
  rw [hphase] at hworkers
  have hpos := s.crawler.config.concurrency_pos
  obtain ⟨url, -, ⟨scope, hscope, -⟩, -⟩ := hinv.pooled hphase
  exact
    { orderly := ⟨poolPhase_joining hphase fun phase hmem => by
        rw [hworkers] at hmem
        rw [(List.mem_replicate.mp hmem).2]
        rfl, h.errors⟩
      workers := by
        rw [hworkers, List.length_replicate]
        omega
      scope := ⟨scope, hscope⟩
      policy := hpolicy
      dormant := fun _ => ⟨hgoing, fun phase hmem => by
        rw [hworkers] at hmem
        rw [(List.mem_replicate.mp hmem).2]
        rfl⟩
      reported := fun _ hurl => by cases hurl }

theorem Undisturbed.step (h : s.Undisturbed d config history) {act : CrawlerAct} (hcalm : Calm s act)
    (hs : s.step d act = some s') : s'.Undisturbed d config (history.note d s act) := by
  have hinv := inv_step hd h.inv hs
  have hfused := h.fused.step hsilent hs
  refine ⟨hinv, hfused, ?_⟩
  rcases h.place with ⟨hseeds, hjoining, hnone⟩ | hcalmed
  · have hclaimed : (history.note d s act).claimed = [] := by
      rw [PoolHistory.note, hnone, claims_of_not_joining hjoining]
      rfl
    rcases hseeds.beginning.cases with hseeding | hj | ⟨result, hdone⟩
    · have hseeds' := hseeds.step ((unfused_seed hsilent).and decides_seed) hseeding hs
      by_cases hstart : s'.phase = .joining
      · have hgoing : s'.crawler.aborted = false := congrArg Fuse.aborted hseeds'.crawler.1.2
        exact .inr (hclaimed ▸ calmed_start hseeds' hseeds'.crawler.2 hgoing hstart hinv)
      · exact .inl ⟨hseeds', hstart, hclaimed⟩
    · exact absurd hj hjoining
    · rw [step_done hdone act] at hs
      cases hs
  · exact .inr (hcalmed.step hd hquiet hsilent h.inv.core hcalm hs)

/-! ## An aborted run returns -/

/-- How far an aborted crawl is from its end. -/
def remaining (d : Deps) (s : CrawlRun) : ℕ ×ₗ ℕ :=
  toLex (s.labour d, s.crawler.frontier.queue.length + s.phase.rest)

omit hd hquiet hsilent in
/-- A stopping crawl claims nothing. -/
theorem claimed_of_stopping (hstop : s.crawler.stopping = true) {act : CrawlerAct} {c : Crawler}
    (h : PoolMove d s act c) : c.claimed = s.crawler.claimed := by
  cases h with
  | rest hact frontier => rfl
  | claim w before after =>
    have hclaim : { s.crawler with frontier := before }.claim =
        (.dropped, { s.crawler with frontier := before, stopping := true }) :=
      claim_of_stopping (.inl hstop)
    rw [hclaim]
  | @work w attempt url answer c hjoining hw fetched hanswer hends after =>
    have hfollows : Follows d (foundLinks d url fetched) s.crawler c :=
      hends (work_follows url fetched s.crawler)
    exact hfollows.claimed

omit hd hquiet hsilent in
/-- A step that claims nothing leaves less to do, whatever it puts into the queue. -/
theorem PoolStep.remaining_lt {site : Site} (hs : PoolStep d site s s')
    (hclaimed : s'.crawler.claimed = s.crawler.claimed) : s'.remaining d < s.remaining d := by
  rw [remaining, remaining, Prod.Lex.toLex_lt_toLex]
  cases hs with
  | @drop url rest hphase hget hstop =>
    obtain ⟨hqueue, -, -⟩ := Frontier.get_spec hget
    have hlength := congrArg List.length hqueue
    rw [List.length_cons] at hlength
    have hless : rest.queue.length < s.crawler.frontier.queue.length := by omega
    exact .inr ⟨rfl, Nat.add_lt_add_right hless _⟩
  | take hphase hw hget hroom hurl events =>
    have hmore : s.crawler.claimed + 1 = s.crawler.claimed := hclaimed
    omega
  | @move w phase phase' hphase hw hurl hbusy hless hawake events =>
    obtain ⟨rest, hold, hnew⟩ := labour_set (d := d) hw phase'
    refine .inl ?_
    show (s.setWorker w phase').labour d < s.labour d
    omega
  | @handle w attempt url crawler hphase hw hfollows hreported htally =>
    obtain ⟨rest, hold, hnew⟩ := labour_set (d := d) hw .ready
    refine .inl ?_
    show (s.setWorker w .ready).labour d < s.labour d
    simp only [WorkerPhase.weight] at hold hnew
    omega
  | join hphase hnone =>
    refine .inr ⟨rfl, ?_⟩
    simp only [hphase, RunPhase.rest]
    omega
  | @cancel w hphase hw =>
    obtain ⟨rest, hold, hnew⟩ := labour_set (d := d) hw .done
    refine .inl ?_
    show (s.setWorker w .done).labour d < s.labour d
    simp only [WorkerPhase.weight] at hold hnew
    omega
  | leave hphase =>
    refine .inr ⟨rfl, ?_⟩
    simp only [hphase, RunPhase.rest, CrawlRun.leave, CrawlRun.finish]
    omega

/-- An aborted run in which nobody interferes, with what it had claimed when it was aborted. -/
structure WindingDown (d : Deps) (config : CrawlConfig) (claimed : List Text) (s : CrawlRun) : Prop where
  inv : s.Inv d
  calmed : s.Calmed d claimed
  fused : ∃ history, s.Fused config history
  aborted : s.crawler.aborted = true

/-- The run has returned, aborted, and everything it had claimed is reported. -/
def ReturnsAborted (config : CrawlConfig) (claimed : List Text) (s : CrawlRun) : Prop :=
  (∃ pages, s.phase = .done (.returned ⟨pages, true, some (Fuse.reasonOf config.failureFuse)⟩)) ∧
    ∀ url ∈ claimed, url ∈ s.crawler.reported

omit hd hquiet hsilent in
theorem Fused.reason_eq (h : s.Fused config history) :
    s.crawler.reason =
      if s.crawler.aborted then some (Fuse.reasonOf config.failureFuse) else none := by
  have hafter := Fuse.after_foldl config.failureFuse_pos history.results
  rw [← h.fuse] at hafter
  exact hafter.reason

omit hd hquiet hsilent in
theorem Fused.aborted_iff (h : s.Fused config history) :
    s.crawler.aborted = true ↔ Trips config.failureFuse history.results := by
  have hafter := Fuse.after_foldl config.failureFuse_pos history.results
  rw [← h.fuse] at hafter
  exact hafter.aborted

omit hd hquiet hsilent in
theorem Fused.aborted_of_note {act : CrawlerAct} (h' : s'.Fused config (history.note d s act))
    (h : s.Fused config history) (haborted : s.crawler.aborted = true) :
    s'.crawler.aborted = true :=
  h'.aborted_iff.mpr (Fuse.Trips.append (h.aborted_iff.mp haborted) _)

omit hd hquiet hsilent in
/-- Once the run is over, nothing is in progress. -/
theorem WindingDown.returnsAborted {claimed : List Text} (h : s.WindingDown d config claimed)
    {result : RunResult}
    (hdone : s.phase = .done result) : s.ReturnsAborted config claimed := by
  obtain ⟨history, hfused⟩ := h.fused
  have hpool := h.calmed.orderly.phase
  unfold PoolPhase at hpool
  rw [hdone] at hpool
  obtain ⟨hnone, rfl⟩ := hpool
  obtain ⟨-, hidle⟩ := idle_of_unfinished h.inv.core hnone
  refine ⟨⟨s.crawler.stats.pagesTotal, ?_⟩, fun url hurl => ?_⟩
  · rw [hdone, hfused.reason_eq, h.aborted, if_pos rfl]
  · refine (h.calmed.reported url hurl).resolve_left ?_
    rw [hidle]
    exact List.not_mem_nil

theorem WindingDown.step {claimed : List Text} (h : s.WindingDown d config claimed) {act : CrawlerAct}
    (hcalm : Calm s act) (hs : s.step d act = some s') :
    s'.WindingDown d config claimed ∧ s'.remaining d < s.remaining d := by
  obtain ⟨history, hfused⟩ := h.fused
  have hstop := hfused.latched h.aborted
  have hmove := step_poolMove h.calmed.orderly.past_seed hs
  have hcalmed := h.calmed.step hd hquiet hsilent h.inv.core hcalm hs
  rw [claims_of_stopping hstop, List.append_nil] at hcalmed
  have hstep := h.calmed.poolStep hd hquiet hsilent h.inv.core hcalm hs
  refine ⟨⟨inv_step hd h.inv hs, hcalmed, ⟨_, hfused.step hsilent hs⟩, ?_⟩,
    hstep.remaining_lt (claimed_of_stopping hstop hmove)⟩
  exact (hfused.step hsilent hs).aborted_of_note hfused h.aborted

/-- Whatever the guards, the servers and the scheduler do, the run comes to its end. -/
theorem WindingDown.inevitable {claimed : List Text} (h : s.WindingDown d config claimed) :
    Inevitable (CrawlRun.step d) Calm (ReturnsAborted config claimed) s := by
  refine Inevitable.of_measure (I := WindingDown d config claimed) (remaining d) ?_ ?_ h
  · intro t ht hrunning
    have hover : ∀ result, t.phase ≠ .done result := fun result hdone => hrunning (ht.returnsAborted hdone)
    have hsite : ∀ url, Quiet (answering .begin url) := fun _ => quiet_ok _
    have hdelay : t.crawler.robots.endless = false := by
      by_contra hendless
      obtain ⟨hgoing, -⟩ := ht.calmed.dormant (by simpa using hendless)
      exact absurd (ht.aborted.symm.trans hgoing) (by simp)
    obtain ⟨act, t', hserves, hs⟩ := poolPhase_progress hdelay ht.calmed.orderly.phase
      ht.calmed.workers ht.inv.core hover
    exact ⟨act, t', calm_of_serves hsite hserves hs, hs⟩
  · intro t act t' ht _ hcalm hs
    exact .inr (ht.step hd hquiet hsilent hcalm hs)

end Calm

/-- After the abort nothing changes what it says, and nothing is claimed. -/
theorem Fused.latch (hsilent : ∀ pages page, d.reporter pages page = none)
    (h : s.Fused config history) (haborted : s.crawler.aborted = true) {as : List CrawlerAct}
    {t : CrawlRun} {history' : PoolHistory}
    (hrun : Execution.run (noted (CrawlRun.step d) (PoolHistory.note d)) (s, history) as =
      some (t, history')) :
    t.crawler.aborted = true ∧ t.crawler.reason = s.crawler.reason ∧
      history'.claimed = history.claimed := by
  have hkept := run_invariant (P := fun state : CrawlRun × PoolHistory =>
    state.1.Fused config state.2 ∧ state.1.crawler.aborted = true ∧
      state.2.claimed = history.claimed) ?_ ⟨h, haborted, rfl⟩ hrun
  · obtain ⟨hfused, haborted', hclaimed⟩ := hkept
    refine ⟨haborted', ?_, hclaimed⟩
    rw [hfused.reason_eq, h.reason_eq, haborted, haborted']
  · rintro ⟨u, history₁⟩ act ⟨u', history₂⟩ ⟨hu, ha, hc⟩ hs
    obtain ⟨hs, rfl⟩ := noted_some.mp hs
    have hu' := hu.step hsilent hs
    refine ⟨hu', hu'.aborted_of_note hu ha, ?_⟩
    show history₁.claimed ++ u.claims act = history.claimed
    rw [claims_of_stopping (hu.latched ha), List.append_nil]
    exact hc

end CrawlRun

/-- The fuse is exact. A crawl is aborted when, and only when, what was handed to `_handle` contains as
many failures that count as `failure_fuse` says, with no page between them; that number is the
reason, and there is none before. From then on nothing changes the verdict and nothing more is
claimed, and unless somebody interferes the run returns with all it had claimed reported. -/
theorem failureFuse_exact {d : Deps} {lexbor : Lexbor} {config : CrawlConfig} {seed : Text}
    {s : CrawlRun} {history : PoolHistory} {as : List CrawlerAct}
    (hextract : d.extract = extractLinks d.unicode lexbor)
    (hsilent : ∀ pages page, d.reporter pages page = none)
    (hrun : run (noted (CrawlRun.step d) (PoolHistory.note d)) (CrawlRun.create config seed, {}) as =
      some (s, history)) :
    (s.crawler.aborted = true ↔ Trips config.failureFuse history.results) ∧
    (s.crawler.reason =
      if s.crawler.aborted then some (Fuse.reasonOf config.failureFuse) else none) ∧
    (∀ outcome, s.phase = .done (.returned outcome) →
      outcome.aborted = s.crawler.aborted ∧ outcome.reason = s.crawler.reason) ∧
    (s.crawler.aborted = true →
      (∀ bs t history', run (noted (CrawlRun.step d) (PoolHistory.note d)) (s, history) bs =
        some (t, history') → t.crawler.aborted = true ∧ t.crawler.reason = s.crawler.reason ∧
          history'.claimed = history.claimed) ∧
      (Meets (CrawlRun.step d) Calm (CrawlRun.create config seed) as →
        Inevitable (CrawlRun.step d) Calm (CrawlRun.ReturnsAborted config history.claimed) s)) := by
  have hd := normalLinks_of_lexbor hextract
  have hquiet := pageLinks_quiet hextract
  have hfused : s.Fused config history := by
    refine run_invariant (P := fun state : CrawlRun × PoolHistory => state.1.Fused config state.2)
      ?_ CrawlRun.fused_create hrun
    rintro ⟨u, history₁⟩ act ⟨u', history₂⟩ hu hs
    obtain ⟨hs, rfl⟩ := noted_some.mp hs
    exact hu.step hsilent hs
  refine ⟨hfused.aborted_iff, hfused.reason_eq, hfused.returned, fun haborted => ⟨?_, ?_⟩⟩
  · exact fun bs t history' hrun' => hfused.latch hsilent haborted hrun'
  · intro hcalm
    have hundisturbed : s.Undisturbed d config history := by
      refine Meets.invariant (P := fun state : CrawlRun × PoolHistory =>
        state.1.Undisturbed d config state.2) ?_ (meets_noted hcalm)
        CrawlRun.undisturbed_create hrun
      rintro ⟨u, history₁⟩ act ⟨u', history₂⟩ hu hact hs
      obtain ⟨hs, rfl⟩ := noted_some.mp hs
      exact hu.step hd hquiet hsilent hact hs
    rcases hundisturbed.place with ⟨hseeds, -, -⟩ | hcalmed
    · have hgoing : s.crawler.aborted = false := congrArg Fuse.aborted hseeds.crawler.1.2
      rw [hgoing] at haborted
      cases haborted
    · exact CrawlRun.WindingDown.inevitable hd hquiet hsilent
        ⟨hundisturbed.inv, hcalmed, ⟨history, hfused⟩, haborted⟩

/-- A fuse of one failure, and the first page after the seed times out. -/
theorem failureFuse_exact_timeout : ∃ s history,
    run (noted (CrawlRun.step bodyIsLink) (PoolHistory.note bodyIsLink))
      (CrawlRun.create { concurrency := 1, respectRobots := false, failureFuse := 1 } homeUrl, {})
      [.begin, .guarded none, .attempted (.fetched (linkPage nextUrl)), .take 0,
        .workerAttempted 0 (.fetched (.error .timeout none "timed out"))] = some (s, history) ∧
    history.claimed = [nextUrl] ∧ Trips 1 history.results ∧
    s.crawler.reason = some "1 consecutive failures" ∧
    Inevitable (CrawlRun.step bodyIsLink) Calm
      (CrawlRun.ReturnsAborted
        { concurrency := 1, respectRobots := false, failureFuse := 1 } history.claimed) s := by
  have hrun : ((run (noted (CrawlRun.step bodyIsLink) (PoolHistory.note bodyIsLink))
      (CrawlRun.create { concurrency := 1, respectRobots := false, failureFuse := 1 } homeUrl, {})
      [.begin, .guarded none, .attempted (.fetched (linkPage nextUrl)), .take 0,
        .workerAttempted 0 (.fetched (.error .timeout none "timed out"))]).any fun state =>
      state.1.crawler.aborted && decide (state.2.claimed = [nextUrl])) = true := by
    decide +kernel
  have hcalm : Meets (CrawlRun.step bodyIsLink) Calm
      (CrawlRun.create { concurrency := 1, respectRobots := false, failureFuse := 1 } homeUrl)
      [.begin, .guarded none, .attempted (.fetched (linkPage nextUrl)), .take 0,
        .workerAttempted 0 (.fetched (.error .timeout none "timed out"))] := by
    decide +kernel
  obtain ⟨⟨s, history⟩, hs, hrest⟩ := (Option.any_eq_true _ _).mp hrun
  obtain ⟨haborted, hclaimed⟩ := Bool.and_eq_true_iff.mp hrest
  have hextract : bodyIsLink.extract = extractLinks bodyIsLink.unicode fun body =>
      { base := none, hrefs := [some (body.map fun byte => Char.ofNat byte.toNat)] } := rfl
  obtain ⟨htrips, hreason, -, hends⟩ := failureFuse_exact hextract (fun _ _ => rfl)
    hs
  have hreason₁ : s.crawler.reason = some "1 consecutive failures" := by
    rw [hreason, haborted, if_pos rfl]
    rfl
  exact ⟨s, history, hs, of_decide_eq_true hclaimed, htrips.mp haborted, hreason₁,
    (hends haborted).2 hcalm⟩

/-- The pages are links, and the line of a page that timed out cannot be written. -/
def fullDisk : Deps :=
  { bodyIsLink with
    reporter := fun _ page =>
      if page.error.any fun error => error.kind = .timeout then
        some ⟨"OSError", "[Errno 28] No space left on device"⟩
      else none }

/-- A failure whose report raises is handed over and does not count: with a fuse of one failure the run
returns as one that was not aborted. -/
theorem failureFuse_unreported : ∃ s history,
    run (noted (CrawlRun.step fullDisk) (PoolHistory.note fullDisk))
      (CrawlRun.create { concurrency := 1, respectRobots := false, failureFuse := 1 } homeUrl, {})
      [.begin, .guarded none, .attempted (.fetched (linkPage nextUrl)), .take 0,
        .workerAttempted 0 (.fetched (.error .timeout none "timed out")), .joined,
        .workerCancelled 0, .left] = some (s, history) ∧
    Trips 1 history.results ∧ s.phase = .done (.returned ⟨3, false, none⟩) := by
  have hrun : ((run (noted (CrawlRun.step fullDisk) (PoolHistory.note fullDisk))
      (CrawlRun.create { concurrency := 1, respectRobots := false, failureFuse := 1 } homeUrl, {})
      [.begin, .guarded none, .attempted (.fetched (linkPage nextUrl)), .take 0,
        .workerAttempted 0 (.fetched (.error .timeout none "timed out")), .joined,
        .workerCancelled 0, .left]).any fun state =>
      decide (state.1.result = some (.returned ⟨3, false, none⟩) ∧ state.2.results.getLast? =
        some (.error ⟨nextUrl, .timeout, none, "timed out", 1⟩))) = true := by
    decide +kernel
  obtain ⟨⟨s, history⟩, hs, hfacts⟩ := (Option.any_eq_true _ _).mp hrun
  obtain ⟨hdone, hlast⟩ := of_decide_eq_true hfacts
  obtain ⟨before, hresults⟩ := List.getLast?_eq_some_iff.mp hlast
  have htrips : Trips 1 history.results := by
    refine ⟨[.error ⟨nextUrl, .timeout, none, "timed out", 1⟩], ?_, by decide, by decide⟩
    rw [hresults]
    exact (List.suffix_append _ _).isInfix
  exact ⟨s, history, hs, htrips, CrawlRun.phase_of_result hdone⟩

end UrlCrawler
