import UrlCrawler.Core.PoolProgress

/-! # A run against a site, from its start

The seed chain walks the redirects of the site and reports them; the page it lands on is where the
pool starts to search. Every state of a run that a site answers is one of these.
-/
set_option autoImplicit false

namespace UrlCrawler
open Execution Crawler Effects Worklist

namespace Site
variable {site : Site} {d : Deps}

theorem target_of_fetched {url : Text} {attempts : ℕ} {result : FetchResult}
    (h : site.fetched url attempts = .ok (.ok result)) :
    site.target d url = (redirectTarget d url result).toOption.join := by
  unfold target
  unfold fetched at h ⊢
  cases hsite : site url with
  | error e =>
    rw [hsite] at h
    cases h
  | ok response =>
    rw [hsite] at h
    cases response with
    | error kind status message => cases h
    | page status body contentType location =>
      cases h
      rfl

end Site

/-- The seed chain has come to `url`, which is marked but not reported yet, and may follow `hops`
redirects from there. -/
structure Crawler.Chains (d : Deps) (site : Site) (config : CrawlConfig) (start : Text) (c : Crawler)
    (url : Text) (hops : ℕ) : Prop where
  config_eq : c.config = config
  chain : site.seedChain d config.maxSeedRedirects.toNat start =
    c.reported ++ site.seedChain d hops url
  normalized : ∀ next ∈ c.reported ++ [url], Normalized d.unicode next
  queue : c.frontier.queue = []
  fresh : c.frontier.Fresh d.unicode (c.reported ++ [url])
  search : Search (Keyed d.unicode) (fun a b => b ∈ site.links d a) c.frontier.seen c.reported [url]
  going : c.stopping = false
  tally : c.Tallied
  faithful : c.Faithful d site

section Chains
variable {d : Deps} {site : Site} {config : CrawlConfig} {start url target : Text} {c c' : Crawler}
  {hops : ℕ} {scope : HostScope} {policy : RobotsPolicy}

/-- The chain begins with the seed. -/
theorem chains_start (hnormal : Normalized d.unicode start) {new : Bool} {frontier : Frontier}
    (hm : ({} : Frontier).markSeen d.unicode start = .ok (new, frontier)) :
    Chains d site config start { config, frontier } start config.maxSeedRedirects.toNat := by
  obtain ⟨hqueue, -, -, key, hkey, hseen, hnew⟩ := Frontier.markSeen_spec hm
  have hempty : Frontier.Fresh d.unicode [] {} := ⟨List.Pairwise.nil, by simp⟩
  exact
    { config_eq := rfl
      chain := rfl
      normalized := by
        intro next hnext
        obtain rfl := List.mem_singleton.mp hnext
        exact hnormal
      queue := hqueue
      fresh := (hempty.markSeen hm).2 (hnew.mpr (Finset.notMem_empty key))
      search :=
        { covered := by
            intro key' hkey'
            rw [hseen, Finset.mem_insert] at hkey'
            rcases hkey' with rfl | hkey'
            · exact ⟨start, List.mem_cons_self .., hnormal, hkey⟩
            · exact absurd hkey' (Finset.notMem_empty _)
          closed := fun _ h => absurd h List.not_mem_nil }
      going := rfl
      tally := CrawlStats.Tallies.init
      faithful := fun _ h => absurd h List.not_mem_nil }

/-- A redirect is followed: its page is reported and its target marked. -/
theorem Crawler.Chains.followed (h : c.Chains d site config start url (hops + 1)) {attempts : ℕ}
    {result : FetchResult} (hresult : site.fetched url attempts = .ok (.ok result))
    (htarget : redirectTarget d url result = .ok (some target)) {frontier : Frontier}
    (hm : c.frontier.markSeen d.unicode target = .ok (true, frontier))
    (hfrontier : c'.frontier = frontier) (hconfig : c'.config = c.config)
    (hreports : c'.reports =
      c.reports ++ [{ url, status := some result.status, links := [target] }])
    (hstopping : c'.stopping = c.stopping) (htally : c'.Tallied) :
    c'.Chains d site config start target hops := by
  have hsite : site.target d url = some target := by
    rw [Site.target_of_fetched hresult, htarget]
    rfl
  have hreported : c'.reported = c.reported ++ [url] := by
    simp [reported, hreports]
  have hnormal : Normalized d.unicode target := CrawlRun.normalized_redirectTarget htarget
  obtain ⟨hqueue, -, -, key, hkey, hseen, -⟩ := Frontier.markSeen_spec hm
  have hstatus := CrawlRun.status_of_redirectTarget htarget
  exact
    { config_eq := hconfig.trans h.config_eq
      chain := by
        rw [h.chain, Site.seedChain, hsite, hreported, List.append_assoc]
        rfl
      normalized := by
        intro next hnext
        rw [hreported] at hnext
        rcases List.mem_append.mp hnext with hold | hnew
        · exact h.normalized next hold
        · obtain rfl := List.mem_singleton.mp hnew
          exact hnormal
      queue := by rw [hfrontier, hqueue, h.queue]
      fresh := by
        have hmarked := (h.fresh.markSeen hm).2 rfl
        rw [hfrontier, hreported]
        exact hmarked.perm ((List.perm_append_singleton _ _).symm.append_right _)
          (Finset.Subset.refl _)
      search := by
        rw [hfrontier, hseen, hreported]
        apply (h.search.discover ⟨hnormal, hkey⟩).settle (List.Subset.refl _)
        intro next hnext
        rw [Site.links_of_target hsite, List.mem_singleton] at hnext
        subst hnext
        exact ⟨key, Finset.mem_insert_self key _, hnormal, hkey⟩
      going := hstopping.trans h.going
      tally := htally
      faithful := by
        intro page hpage
        rw [hreports] at hpage
        rcases List.mem_append.mp hpage with hold | hnew
        · exact h.faithful page hold
        · obtain rfl := List.mem_singleton.mp hnew
          refine ⟨attempts, ?_⟩
          have hlinks : pageLinks d url result = .ok [target] := by
            rw [pageLinks, if_pos hstatus, htarget]
            rfl
          simp only [hresult, reportOf, hlinks] }

/-- Where the chain has landed, the search of the pool begins. -/
theorem Crawler.Chains.explores (h : c.Chains d site config start url 0)
    (hscope : c.scope = some scope) (hrobots : c.robots = policy) :
    Explores d site scope policy url
      {key | ∃ next ∈ site.seedChain d config.maxSeedRedirects.toNat start, Keyed d.unicode next key}
      { c with claimed := c.reports.length + 1 } [url] where
  scope_eq := hscope
  robots_eq := hrobots
  fresh := h.fresh
  normalized := by
    intro next hnext
    refine h.normalized next ?_
    rw [h.queue, List.append_nil] at hnext
    exact hnext
  sound :=
    { seen := by
        intro key hkey
        obtain ⟨next, hnext, hok⟩ := h.search.covered key hkey
        refine .inl ⟨next, ?_, hok⟩
        rw [h.chain]
        exact hnext
      pending := by
        intro next hnext
        rw [h.queue, List.append_nil] at hnext
        obtain rfl := List.mem_singleton.mp hnext
        have hmem : next ∈ c.reported ++ [next] := by simp
        obtain ⟨key, -, hok⟩ := h.fresh.seen next (List.mem_append_left _ hmem)
        have hkeyed : Keyed d.unicode next key := ⟨h.normalized next hmem, hok⟩
        exact ⟨key, hkeyed, .root hkeyed⟩ }
  search := by
    intro _
    show Search _ _ c.frontier.seen c.reported ([url] ++ c.frontier.queue)
    rw [h.queue, List.append_nil]
    exact h.search.mono fun _ _ hlead => hlead.1
  stopped := by
    intro hstop
    have hgoing := h.going
    exact absurd hstop (by simp [hgoing])
  claimed := rfl

end Chains

namespace CrawlRun
variable {d : Deps} {site : Site} {config : CrawlConfig} {seed start : Text} {s s' : CrawlRun}

structure Chaining (d : Deps) (site : Site) (config : CrawlConfig) (start : Text) (s : CrawlRun)
    (url : Text) (hops : ℕ) : Prop where
  chains : s.crawler.Chains d site config start url hops
  workers : s.workers = []
  errors : s.errors = []

/-- The chain has landed at `url` with a page. -/
structure Landed (d : Deps) (site : Site) (config : CrawlConfig) (start : Text) (s : CrawlRun)
    (url : Text) (result : FetchResult) : Prop where
  chaining : s.Chaining d site config start url 0
  scope : ∃ scope, s.crawler.scope = some scope ∧ HostScope.fromUrl d.unicode url = .ok scope
  fetched : ∃ attempts, site.fetched url attempts = .ok (.ok result)

/-- The pool searches the site from the end of the seed chain. -/
def Searching (d : Deps) (site : Site) (config : CrawlConfig) (start : Text) (s : CrawlRun) : Prop :=
  ∃ final scope policy, policy.Decides d.unicode ∧
    (site.seedChain d config.maxSeedRedirects.toNat start).getLast? = some final ∧
    HostScope.fromUrl d.unicode final = .ok scope ∧
    s.Pool d site config (site.seedChain d config.maxSeedRedirects.toNat start) final scope policy

/-- What holds of a run that the site answers, by the place where it waits. -/
def AtSite (d : Deps) (site : Site) (config : CrawlConfig) (seed start : Text) (s : CrawlRun) :
    Prop :=
  match s.phase with
  | .created => s = create config seed
  | .guarding url hops | .fetching url hops _ => s.Chaining d site config start url hops
  | .robotsGuarding url result .. | .robotsFetching url result .. =>
    s.Landed d site config start url result
  | .joining | .leaving _ | .done (.returned _) => s.Searching d site config start
  | .done _ => True

theorem Chaining.congr {url : Text} {hops : ℕ} (h : s.Chaining d site config start url hops)
    (hcrawler : s'.crawler = s.crawler) (hworkers : s'.workers = s.workers)
    (herrors : s'.errors = s.errors) : s'.Chaining d site config start url hops :=
  ⟨hcrawler ▸ h.chains, hworkers.trans h.workers, herrors.trans h.errors⟩

theorem Landed.congr {url : Text} {result : FetchResult}
    (h : s.Landed d site config start url result) (hcrawler : s'.crawler = s.crawler)
    (hworkers : s'.workers = s.workers) (herrors : s'.errors = s.errors) :
    s'.Landed d site config start url result :=
  ⟨h.chaining.congr hcrawler hworkers herrors, hcrawler ▸ h.scope, h.fetched⟩

theorem atSite_fetchSeed {url : Text} {hops : ℕ} (h : s.Chaining d site config start url hops) :
    (s.fetchSeed d url hops).AtSite d site config seed start := by
  unfold fetchSeed
  split
  · exact h.congr rfl rfl rfl
  · exact h.congr rfl rfl rfl

section Silent
variable (hd : d.NormalLinks) (hsilent : ∀ pages page, d.reporter pages page = none)
include hd hsilent

/-- The page the chain landed on is handled, and the workers start. -/
theorem atSite_loaded {url : Text} {result : FetchResult} {policy : RobotsPolicy}
    (h : s.Landed d site config start url result) (hpolicy : policy.Decides d.unicode) :
    (s.loaded d url result policy).AtSite d site config seed start := by
  obtain ⟨⟨hchains, hworkers, herrors⟩, ⟨scope, hscope, hanchor⟩, attempts, hfetched⟩ := h
  unfold loaded
  dsimp only
  split
  · trivial
  · trivial
  generalize hc : { s.crawler with robots := policy } = c
  have hchains₁ : c.Chains d site config start url 0 := by
    subst hc
    exact ⟨hchains.config_eq, hchains.chain, hchains.normalized, hchains.queue, hchains.fresh,
      hchains.search, hchains.going, hchains.tally, hchains.faithful⟩
  have hscope₁ : c.scope = some scope := by
    rw [← hc]
    exact hscope
  have hrobots₁ : c.robots = policy := by rw [← hc]
  have hexplores := hchains₁.explores hscope₁ hrobots₁
  have hhandled := ((handle_follows (d := d) url (.ok result) c).and
    (handle_reported url (.ok result) c)).and (handle_tallied hsilent url (.ok result) hchains₁.tally)
  refine exec_of_ends (hhandled.mono ?_ fun _ _ _ => trivial)
  rintro - c' ⟨⟨hfollows, hreported⟩, htally⟩
  rw [← hfetched] at hfollows hreported
  rw [Site.links_eq] at hfollows
  have htotal : c'.stats.pagesTotal = c.reports.length + 1 := by
    rw [htally.total, hreported.reports, List.length_append, List.length_singleton]
  -- the crawler claims the pages of the chain only now
  have hfollows₁ : Follows d (site.links d url) { c with claimed := c.reports.length + 1 }
      { c' with claimed := c'.stats.pagesTotal } :=
    ⟨hfollows.config, hfollows.scope, hfollows.robots, hfollows.frontier, htotal,
      hfollows.stopping, hfollows.aborted, hfollows.tripped, hfollows.reports⟩
  have hreported₁ : Reported d url (site.fetched url attempts)
      { c with claimed := c.reports.length + 1 } { c' with claimed := c'.stats.pagesTotal } :=
    ⟨hreported.reports, hreported.seen⟩
  have hchain : site.seedChain d config.maxSeedRedirects.toNat start = c.reported ++ [url] :=
    hchains₁.chain
  refine ⟨url, scope, policy, hpolicy, by rw [hchain]; exact List.getLast?_concat, hanchor, ?_⟩
  exact
    { config_eq := hfollows.config.trans hchains₁.config_eq
      explores := by
        have hbusy : (List.replicate c'.config.concurrency.toNat WorkerPhase.ready).filterMap
          WorkerPhase.url? = [] := filterMap_replicate_none rfl _
        unfold busy
        rw [hbusy]
        exact hexplores.handled hd hfollows₁ hreported₁
      chained := by
        show _ <+: c'.reports.map PageResult.url
        rw [hchain, hreported.reports, List.map_append, List.map_singleton, reportOf_url]
        exact List.prefix_rfl
      capped := by
        intro max _
        show (c'.stats.pagesTotal : ℤ) ≤ _
        rw [htotal, hchain, List.length_append, List.length_singleton, reported, List.length_map]
        exact le_sup_right
      tally := htally
      faithful := by
        have hfaithful : c'.Faithful d site := hchains₁.faithful.reported hreported
        exact hfaithful
      errors := herrors
      workers := by
        show (List.replicate c'.config.concurrency.toNat WorkerPhase.ready).length = _
        rw [List.length_replicate, hfollows.config, hchains₁.config_eq]
      phase := by
        intro phase hphase
        rw [(List.mem_replicate.mp hphase).2]
        rfl }

theorem atSite_loadRobots {url : Text} {result : FetchResult}
    (h : s.Landed d site config start url result) :
    (s.loadRobots d url result).AtSite d site config seed start := by
  unfold loadRobots
  split
  · split
    · trivial
    · unfold robotsHop
      split <;> exact h.congr rfl rfl rfl
  · exact atSite_loaded hd hsilent h allowAll_decides

theorem atSite_seedFetched {url : Text} {hops attempts : ℕ} {outcome : FetchOutcome}
    (h : s.Chaining d site config start url hops)
    (hfetched : site.fetched url attempts = .ok outcome) :
    (s.seedFetched d url hops outcome).AtSite d site config seed start := by
  cases outcome with
  | error error => trivial
  | ok result =>
    unfold seedFetched
    dsimp only
    split
    · trivial
    · rename_i htarget
      have hnone : site.target d url = none := by
        rw [Site.target_of_fetched hfetched, htarget]
        rfl
      have hchains := h.chains
      have hchain := hchains.chain
      rw [Site.seedChain_eq_singleton hnone] at hchain
      unfold landed
      split
      · trivial
      · rename_i scope hscope
        dsimp only
        split
        · trivial
        · apply atSite_loadRobots hd hsilent
          exact ⟨⟨⟨hchains.config_eq, hchain, hchains.normalized, hchains.queue, hchains.fresh,
            hchains.search, hchains.going, hchains.tally, hchains.faithful⟩, h.workers, h.errors⟩,
            ⟨scope, rfl, hscope⟩, attempts, hfetched⟩
    · rename_i target htarget
      cases hops with
      | zero => trivial
      | succ hops =>
        have hstatus := status_of_redirectTarget htarget
        have hfollowed := (ends_followRedirect (d := d) url target result s.crawler).and
          (followRedirect_tallied hsilent url target hstatus h.chains.tally)
        refine exec_of_ends (hfollowed.mono ?_ fun _ _ _ => trivial)
        rintro new c' ⟨⟨frontier, hm, hfrontier, hfollows, hreports, hstopping⟩, htally⟩
        cases new with
        | false => trivial
        | true =>
          apply atSite_fetchSeed
          exact ⟨h.chains.followed hfetched htarget hm hfrontier hfollows.config hreports hstopping
            htally, h.workers, h.errors⟩

end Silent

theorem atSite_of_searching (h : s.Searching d site config start) :
    s.AtSite d site config seed start := by
  obtain ⟨final, scope, policy, -, -, -, hpool⟩ := id h
  have hphase := hpool.phase
  unfold PoolPhase at hphase
  unfold AtSite
  split at hphase
  · rename_i hjoining
    rw [hjoining]
    exact h
  · rename_i cancelled hleaving
    rw [hleaving]
    exact h
  · rename_i result hdone
    rw [hdone, hphase.2]
    exact h
  · exact hphase.elim

theorem AtSite.searching (h : s.AtSite d site config seed start)
    (hphase : s.phase = .joining ∨ ∃ cancelled, s.phase = .leaving cancelled) :
    s.Searching d site config start := by
  unfold AtSite at h
  rcases hphase with hphase | ⟨cancelled, hphase⟩
  · rw [hphase] at h
    exact h
  · rw [hphase] at h
    exact h

/-! ## The step -/

section Step
variable (hd : d.NormalLinks) (hquiet : ∀ url result, Quiet (pageLinks d url result))
  (hsilent : ∀ pages page, d.reporter pages page = none) (hsite : ∀ url, Quiet (site url))

include hd hquiet hsilent hsite in
/-- The pool keeps to the search, however it goes on. -/
theorem Searching.of_step (h : s.Searching d site config start) (hcore : s.Core d)
    {act : CrawlerAct} (hserves : site.Serves s act) (hs : s.step d act = some s') :
    s'.Searching d site config start := by
  obtain ⟨final, scope, policy, hpolicy, hlast, hscope, hpool⟩ := h
  have hstep := hpool.step_cases hd hquiet hsilent hsite hpolicy hcore hserves hs
  exact ⟨final, scope, policy, hpolicy, hlast, hscope, hpool.of_step hd hstep⟩

theorem atSite_begin (hstart : normalize d.unicode seed = some start) :
    ((create config seed).begin d).AtSite d site config seed start := by
  unfold begin
  split
  · trivial
  · rename_i start' hstart'
    obtain rfl : start' = start := Option.some.inj (hstart'.symm.trans hstart)
    refine exec_of_ends ?_
    rw [ends_markSeen]
    refine ⟨fun new frontier hm => ?_, fun _ _ => trivial⟩
    exact atSite_fetchSeed ⟨chains_start ⟨_, hstart'⟩ hm, rfl, rfl⟩

theorem atSite_guarded (h : s.AtSite d site config seed start) {reason : Option String}
    (hs : s.guarded reason = some s') : s'.AtSite d site config seed start := by
  unfold guarded at hs
  split at hs
  · rename_i url hops hphase
    have hchaining : s.Chaining d site config start url hops := by
      simpa [AtSite, hphase] using h
    split at hs <;> cases hs
    · trivial
    · exact hchaining.congr rfl rfl rfl
  · cases hs

theorem phase_of_cancelling (h : s.cancelling = true) :
    s.phase = .joining ∨ ∃ cancelled, s.phase = .leaving cancelled := by
  unfold cancelling at h
  split at h
  · rename_i cancelled hphase
    exact .inr ⟨cancelled, hphase⟩
  · rename_i hphase
    exact .inl hphase
  · cases h

include hd hsilent

theorem atSite_robotsGuarded (h : s.AtSite d site config seed start) {reason : Option String}
    (hs : s.robotsGuarded d reason = some s') : s'.AtSite d site config seed start := by
  unfold robotsGuarded at hs
  split at hs
  · rename_i url result robotsUrl left hphase
    have hlanded : s.Landed d site config start url result := by
      simpa [AtSite, hphase] using h
    split at hs <;> cases hs
    · exact atSite_loaded hd hsilent hlanded denyAll_decides
    · exact hlanded.congr rfl rfl rfl
  · cases hs

theorem atSite_robotsAnswered (h : s.AtSite d site config seed start) {answer : RobotsAnswer}
    (hs : s.robotsAnswered d answer = some s') : s'.AtSite d site config seed start := by
  unfold robotsAnswered at hs
  split at hs
  · rename_i url result robotsUrl left hphase
    have hlanded : s.Landed d site config start url result := by
      simpa [AtSite, hphase] using h
    split at hs <;> cases hs
    · trivial
    · rename_i policy hnext
      exact atSite_loaded hd hsilent hlanded (robotsNext_decides hnext)
    · unfold robotsHop
      split <;> exact hlanded.congr rfl rfl rfl
  · cases hs

theorem atSite_attempted (h : s.AtSite d site config seed start) {answer : Answer}
    (hserves : site.Serves s (.attempted answer)) (hs : s.attempted d answer = some s') :
    s'.AtSite d site config seed start := by
  unfold attempted at hs
  split at hs
  · rename_i url hops attempt hphase
    have hgives : site.Gives url answer := by
      simpa [Site.Serves, hphase] using hserves
    have hchaining : s.Chaining d site config start url hops := by
      simpa [AtSite, hphase] using h
    cases answer with
    | retry =>
      dsimp only at hs
      split at hs <;> cases hs
      exact hchaining.congr rfl rfl rfl
    | fetched response =>
      cases hs
      have hresponse : site url = .ok response := hgives
      apply atSite_seedFetched hd hsilent hchaining
      rw [Site.fetched, hresponse]
      rfl
    | raised e =>
      cases hs
      trivial
  · cases hs

include hquiet hsite

theorem atSite_step (hstart : normalize d.unicode seed = some start) (h : s.AtSite d site config seed start)
    (hcore : s.Core d) {act : CrawlerAct} (hserves : site.Serves s act)
    (hs : s.step d act = some s') : s'.AtSite d site config seed start := by
  have hpool : (s.phase = .joining ∨ ∃ cancelled, s.phase = .leaving cancelled) →
      s'.AtSite d site config seed start := fun hphase => atSite_of_searching
    ((h.searching hphase).of_step hd hquiet hsilent hsite hcore hserves hs)
  cases act with
  | begin =>
    simp only [step] at hs
    split at hs <;> cases hs
    rename_i hphase
    obtain rfl : s = create config seed := by
      simpa [AtSite, hphase] using h
    exact atSite_begin hstart
  | guarded reason => exact atSite_guarded h hs
  | guardRaised e =>
    simp only [step, guardRaised] at hs
    split at hs <;> cases hs
    trivial
  | attempted answer => exact atSite_attempted hd hsilent h hserves hs
  | robotsGuarded reason => exact atSite_robotsGuarded hd hsilent h hs
  | robotsGuardRaised e =>
    simp only [step, robotsGuardRaised] at hs
    split at hs <;> cases hs
    trivial
  | robotsAnswered answer => exact atSite_robotsAnswered hd hsilent h hs
  | cancel => exact hserves.elim
  | take w | locked w | slept w | workerAttempted w answer | joined | failed =>
    simp only [step, take, locked, slept, workerAttempted, joined, failed] at hs
    split at hs
    · rename_i hphase
      exact hpool (.inl (by assumption))
    · cases hs
  | workerCancelled w =>
    simp only [step, workerCancelled] at hs
    split at hs
    · split at hs
      · cases hs
      · rename_i hlive
        have hcancelling : s.cancelling = true := by
          cases hc : s.cancelling with
          | true => rfl
          | false => simp [hc] at hlive
        exact hpool (phase_of_cancelling hcancelling)
    · cases hs
  | left =>
    simp only [step, CrawlRun.left] at hs
    split at hs
    · rename_i cancelled hphase
      exact hpool (.inr ⟨cancelled, hphase⟩)
    · cases hs

/-- Every state of a run that the site answers is known. -/
theorem atSite_run (hstart : normalize d.unicode seed = some start) {as : List CrawlerAct}
    (hserves : Meets (step d) site.Serves (create config seed) as)
    (hrun : run (step d) (create config seed) as = some s) :
    s.AtSite d site config seed start ∧ s.Inv d := by
  apply Meets.invariant (P := fun s => s.AtSite d site config seed start ∧ s.Inv d) ?_ hserves
    ⟨rfl, inv_create config seed⟩ hrun
  rintro s act s' ⟨hat, hinv⟩ hact hs
  exact ⟨atSite_step hd hquiet hsilent hsite hstart hat hinv.core hact hs,
    inv_step hd hinv hs⟩

end Step
end CrawlRun
end UrlCrawler
