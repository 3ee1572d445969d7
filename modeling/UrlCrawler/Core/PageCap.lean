import UrlCrawler.Core.Coverage

/-! # The cap on the pages

A crawl with `max_pages` set reports that many pages, or all there are if those are fewer, as long
as the pages of the seed chain fit. The chain is walked whatever the cap.
-/
set_option autoImplicit false

namespace UrlCrawler
open Execution Crawler

theorem CrawlRun.Pool.total_eq {d : Deps} {site : Site} {config : CrawlConfig} {chain : List Text}
    {final : Text} {scope : HostScope} {policy : RobotsPolicy} {s : CrawlRun}
    (h : s.Pool d site config chain final scope policy) :
    s.crawler.stats.pagesTotal = s.crawler.reported.length := by
  rw [h.tally.total, reported, List.length_map]

/-- As many keys are reported as pages. -/
theorem CrawlRun.Pool.encard_reported {d : Deps} {site : Site} {config : CrawlConfig}
    {chain : List Text} {final : Text} {scope : HostScope} {policy : RobotsPolicy} {s : CrawlRun}
    (h : s.Pool d site config chain final scope policy) :
    {key | ∃ url ∈ s.crawler.reported, Keyed d.unicode url key}.encard =
      (s.crawler.stats.pagesTotal : ℕ∞) := by
  obtain ⟨hnodup, hkeyed⟩ := h.reported_nodup
  let keyOf : Text → Text := fun url => (canonicalKey d.unicode url).toOption.getD []
  have hkeyOf : ∀ url key, Keyed d.unicode url key → keyOf url = key := by
    intro url key hkey
    simp [keyOf, hkey.2, Except.toOption]
  have hset : {key | ∃ url ∈ s.crawler.reported, Keyed d.unicode url key} =
      ((s.crawler.reported.map keyOf).toFinset : Set Text) := by
    ext key
    simp only [List.coe_toFinset, List.mem_map]
    show (∃ url ∈ s.crawler.reported, Keyed d.unicode url key) ↔ ∃ url ∈ _, keyOf url = key
    constructor
    · rintro ⟨url, hurl, hkey⟩
      exact ⟨url, hurl, hkeyOf url key hkey⟩
    · rintro ⟨url, hurl, rfl⟩
      obtain ⟨key, -, hkey⟩ := hkeyed url hurl
      exact ⟨url, hurl, (hkeyOf url key hkey).symm ▸ hkey⟩
  have hdistinct : (s.crawler.reported.map keyOf).Nodup := by
    rw [List.Nodup, List.pairwise_map]
    rw [reportedKeys, List.Nodup, List.pairwise_map] at hnodup
    refine hnodup.imp_of_mem fun {a b} ha hb hne heq => hne ?_
    obtain ⟨keyA, -, hkeyA⟩ := hkeyed a ha
    obtain ⟨keyB, -, hkeyB⟩ := hkeyed b hb
    rw [hkeyA.2, hkeyB.2, ← hkeyOf a keyA hkeyA, ← hkeyOf b keyB hkeyB, heq]
  rw [hset, Set.encard_coe_eq_coe_finsetCard, List.toFinset_card_of_nodup hdistinct,
    List.length_map, h.total_eq]

section Crawl
variable {d : Deps} {lexbor : Lexbor} {site : Site} {config : CrawlConfig} {seed start final : Text}
  {scope : HostScope} {s : CrawlRun} {as : List CrawlerAct} {outcome : CrawlOutcome}
  (hextract : d.extract = extractLinks d.unicode lexbor)
  (hsilent : ∀ pages page, d.reporter pages page = none) (hsite : ∀ url, Quiet (site url))
  (hstart : normalize d.unicode seed = some start)
  (hfinal : (site.seedChain d config.maxSeedRedirects.toNat start).getLast? = some final)
  (hscope : HostScope.fromUrl d.unicode final = .ok scope)
  (hconsistent : site.Consistent d)
include hextract hsilent hsite hstart hfinal hscope hconsistent

/-- How many pages a crawl has reported that came to its end un-aborted. -/
theorem pages_of_returned
    (hserves : Meets (CrawlRun.step d) site.Serves (CrawlRun.create config seed) as)
    (hrun : run (CrawlRun.step d) (CrawlRun.create config seed) as = some s)
    (hdone : s.phase = .done (.returned outcome)) (hgoing : outcome.aborted = false) :
    (site.seedChain d config.maxSeedRedirects.toNat start).length ≤ outcome.pages ∧
    (outcome.pages : ℕ∞) ≤ (site.keys d config start scope s.crawler.robots final).encard ∧
    ((outcome.pages : ℕ∞) = (site.keys d config start scope s.crawler.robots final).encard ∨
      ∃ max ∈ config.maxPages, max ≤ (outcome.pages : ℤ)) ∧
    ∀ max ∈ config.maxPages, (outcome.pages : ℤ) ≤
      max ⊔ ((site.seedChain d config.maxSeedRedirects.toNat start).length : ℤ) := by
  obtain ⟨-, hinv, hpool⟩ := pool_of_run hextract hsilent hsite hstart hfinal hscope
    hserves hrun (.inr (.inr ⟨outcome, hdone⟩))
  have hend := hpool.phase
  unfold CrawlRun.PoolPhase at hend
  rw [hdone] at hend
  obtain rfl : outcome = ⟨_, _, _⟩ := RunResult.returned.inj hend.2
  obtain ⟨hqueue, hbusy⟩ := hpool.drained hinv.core (by rw [hdone]; simp)
  have hclaimed : s.crawler.claimed = s.crawler.stats.pagesTotal := by
    rw [hpool.explores.claimed, hbusy, hpool.tally.total]
    rfl
  have hencard := hpool.encard_reported
  refine ⟨?_, ?_, ?_, ?_⟩
  · have hlength := hpool.chained.length_le
    rw [← hpool.total_eq] at hlength
    exact hlength
  · rw [← hencard]
    apply Set.encard_le_encard
    rintro key ⟨url, hurl, hkey⟩
    obtain ⟨key', hkey', hfound⟩ := hpool.reported_sound hurl
    rw [hkey.functional hkey']
    exact hfound
  · cases hstop : s.crawler.stopping with
    | false =>
      left
      rw [← hencard]
      congr 1
      ext key
      exact hpool.reported_exact hconsistent (List.mem_of_getLast? hfinal) hqueue hbusy hstop key
    | true =>
      right
      rcases hpool.explores.stopped hstop with haborted | ⟨max, hmax, hle⟩
      · rw [haborted] at hgoing
        cases hgoing
      · rw [hpool.config_eq] at hmax
        exact ⟨max, hmax, hclaimed ▸ hle⟩
  · rw [← hclaimed]
    exact hpool.capped

/-- A capped crawl that comes to its end un-aborted reports as many pages as the cap allows of those
the uncapped crawl reports, if and only if the cap leaves room for the seed chain. -/
theorem pages_capped {m : ℤ} (hcap : config.maxPages = some m)
    (hserves : Meets (CrawlRun.step d) site.Serves (CrawlRun.create config seed) as)
    (hrun : run (CrawlRun.step d) (CrawlRun.create config seed) as = some s)
    (hdone : s.phase = .done (.returned outcome)) (hgoing : outcome.aborted = false) :
    ∃ total : ℕ∞, total = (site.keys d config start scope s.crawler.robots final).encard ∧
      (∀ bs t uncapped,
        Meets (CrawlRun.step d) site.Serves (CrawlRun.create config.uncapped seed) bs →
        run (CrawlRun.step d) (CrawlRun.create config.uncapped seed) bs = some t →
        t.phase = .done (.returned uncapped) → uncapped.aborted = false →
        t.crawler.robots = s.crawler.robots → (uncapped.pages : ℕ∞) = total) ∧
      ((outcome.pages : ℕ∞) = min (m.toNat : ℕ∞) total ↔
        ((site.seedChain d config.maxSeedRedirects.toNat start).length : ℤ) ≤ m) := by
  obtain ⟨hchain, hle, hall, hcapped⟩ := pages_of_returned hextract hsilent hsite hstart
    hfinal hscope hconsistent hserves hrun hdone hgoing
  have hroom := hcapped m (by rw [hcap]; rfl)
  have hpos := config.maxPages_pos m hcap
  refine ⟨_, rfl, fun bs t uncapped hserves' hrun' hdone' hgoing' hsame => ?_, ?_⟩
  · have hfinal' : (site.seedChain d config.uncapped.maxSeedRedirects.toNat start).getLast? =
        some final := hfinal
    obtain ⟨-, -, hall', -⟩ := pages_of_returned hextract hsilent hsite hstart hfinal'
      hscope hconsistent hserves' hrun' hdone' hgoing'
    rcases hall' with hall' | ⟨max, hmax, -⟩
    · rw [hsame] at hall'
      exact hall'
    · cases hmax
  constructor
  · intro heq
    have hmin : (outcome.pages : ℕ∞) ≤ (m.toNat : ℕ∞) := heq ▸ min_le_left _ _
    have hpages : outcome.pages ≤ m.toNat := by exact_mod_cast hmin
    omega
  · intro hfits
    have hpages : (outcome.pages : ℤ) ≤ m := hroom.trans (sup_le le_rfl hfits)
    have hmin : (outcome.pages : ℕ∞) ≤ (m.toNat : ℕ∞) := by
      have hnat : outcome.pages ≤ m.toNat := by omega
      exact_mod_cast hnat
    apply le_antisymm (le_min hmin hle)
    rcases hall with hall | ⟨max, hmax, hreached⟩
    · rw [hall]
      exact min_le_right _ _
    · obtain rfl : m = max := Option.some.inj (hcap.symm.trans hmax)
      have hnat : m.toNat ≤ outcome.pages := by omega
      apply (min_le_left _ _).trans
      exact_mod_cast hnat

end Crawl

/-! ## A seed that redirects -/

/-- The home page is a redirect to the next one, which links back. -/
def redirectSite : Site := fun url =>
  if canonicalKey .ascii url = .ok homeUrl then .ok (.page 301 [] [] (some nextUrl))
  else .ok (linkPage homeUrl)

/-- The run of a crawl of that site. -/
def redirectedRun : List CrawlerAct :=
  [.begin, .guarded none, .attempted (.fetched (.page 301 [] [] (some nextUrl))), .guarded none,
    .attempted (.fetched (linkPage homeUrl)), .joined, .workerCancelled 0, .left]

theorem redirectSite_links {url key : Text} (h : Keyed .ascii url key) :
    redirectSite.links bodyIsLink url = if key = homeUrl then [nextUrl] else [homeUrl] := by
  obtain ⟨parts, hparts, -⟩ := map_eq_ok.mp h.2
  unfold Site.links Site.fetched redirectSite
  rw [h.2]
  by_cases hkey : key = homeUrl
  · have hresolve : resolveHref .ascii nextUrl url = .ok (some nextUrl) := by
      have hstrip : strip nextUrl = nextUrl := by decide
      have hnormal : normalize .ascii nextUrl = some nextUrl := by decide
      rw [resolveHref, hstrip, urljoin_nextUrl hparts, Except.map, hnormal]
    have htarget : redirectTarget bodyIsLink url ⟨url, 301, [], [], some nextUrl, 1⟩ =
        .ok (some nextUrl) := by
      have hstatus : 301 ∈ redirectStatuses := by decide
      rw [redirectTarget, if_pos hstatus]
      exact hresolve
    have hpage : pageLinks bodyIsLink url ⟨url, 301, [], [], some nextUrl, 1⟩ = .ok [nextUrl] := by
      have hstatus : 301 ∈ redirectStatuses := by decide
      rw [pageLinks, if_pos hstatus, htarget]
      rfl
    simp [hkey, Except.map, Response.outcome, foundLinks, hpage, Except.toOption]
  · simp [hkey, Except.map, links_linkPage (urljoin_homeUrl hparts) (.inl rfl)]

/-- With a cap of two pages the chain fits, and two are what the cap allows. -/
theorem pages_capped_redirected : ∃ s total,
    run (CrawlRun.step bodyIsLink)
      (CrawlRun.create
        (CrawlConfig.capped { concurrency := 1, respectRobots := false } 2 (by decide)) homeUrl)
      redirectedRun = some s ∧ s.phase = .done (.returned ⟨2, false, none⟩) ∧
    (((2 : ℕ) : ℕ∞) = min ((2 : ℤ).toNat : ℕ∞) total ↔ ((2 : ℕ) : ℤ) ≤ 2) := by
  have hserves : Meets (CrawlRun.step bodyIsLink) redirectSite.Serves
      (CrawlRun.create
        (CrawlConfig.capped { concurrency := 1, respectRobots := false } 2 (by decide)) homeUrl)
      redirectedRun := by
    decide +kernel
  have hrun : ((run (CrawlRun.step bodyIsLink)
      (CrawlRun.create
        (CrawlConfig.capped { concurrency := 1, respectRobots := false } 2 (by decide)) homeUrl)
      redirectedRun).any fun s =>
        decide (s.result = some (.returned ⟨2, false, none⟩))) = true := by
    decide +kernel
  obtain ⟨s, hs, hdone⟩ := (Option.any_eq_true _ _).mp hrun
  have hphase : s.phase = .done (.returned ⟨2, false, none⟩) :=
    CrawlRun.phase_of_result (of_decide_eq_true hdone)
  have hchain : redirectSite.seedChain bodyIsLink
      (CrawlConfig.capped { concurrency := 1, respectRobots := false } 2 (by decide)).maxSeedRedirects.toNat
      homeUrl = [homeUrl, nextUrl] := by
    decide +kernel
  have hextract : bodyIsLink.extract = extractLinks bodyIsLink.unicode fun body =>
      { base := none, hrefs := [some (body.map fun byte => Char.ofNat byte.toNat)] } := rfl
  have hsite : ∀ url, Quiet (redirectSite url) := by
    intro url
    unfold redirectSite
    split <;> exact quiet_ok _
  have hstart : normalize bodyIsLink.unicode homeUrl = some homeUrl := by decide +kernel
  have hfinal : (redirectSite.seedChain bodyIsLink
      (CrawlConfig.capped { concurrency := 1, respectRobots := false } 2 (by decide)).maxSeedRedirects.toNat
      homeUrl).getLast? = some nextUrl := by
    rw [hchain]
    rfl
  have hscope : HostScope.fromUrl bodyIsLink.unicode nextUrl = .ok ⟨"h".toList, none⟩ := by
    decide +kernel
  have hconsistent : redirectSite.Consistent bodyIsLink := by
    intro a b key ha hb
    rw [redirectSite_links ha, redirectSite_links hb]
  obtain ⟨total, -, -, hiff⟩ := pages_capped hextract (fun _ _ => rfl) hsite
    hstart hfinal hscope hconsistent rfl hserves hs hphase rfl
  rw [hchain] at hiff
  exact ⟨s, total, hs, hphase, hiff⟩

/-- With a cap of one page two are reported, so no total makes it the smaller of the two. -/
theorem redirectedSeed_exceeds_cap :
    Meets (CrawlRun.step bodyIsLink) redirectSite.Serves
      (CrawlRun.create
        (CrawlConfig.capped { concurrency := 1, respectRobots := false } 1 le_rfl) homeUrl)
      redirectedRun ∧
    ∃ s, run (CrawlRun.step bodyIsLink)
      (CrawlRun.create
        (CrawlConfig.capped { concurrency := 1, respectRobots := false } 1 le_rfl) homeUrl)
      redirectedRun = some s ∧ s.phase = .done (.returned ⟨2, false, none⟩) ∧
      ∀ total : ℕ∞, ((2 : ℕ) : ℕ∞) ≠ min ((1 : ℕ) : ℕ∞) total := by
  refine ⟨by decide +kernel, ?_⟩
  have hrun : ((run (CrawlRun.step bodyIsLink)
      (CrawlRun.create
        (CrawlConfig.capped { concurrency := 1, respectRobots := false } 1 le_rfl) homeUrl)
      redirectedRun).any fun s =>
        decide (s.result = some (.returned ⟨2, false, none⟩))) = true := by
    decide +kernel
  obtain ⟨s, hs, hdone⟩ := (Option.any_eq_true _ _).mp hrun
  refine ⟨s, hs, CrawlRun.phase_of_result (of_decide_eq_true hdone), fun total heq => ?_⟩
  have hle : ((2 : ℕ) : ℕ∞) ≤ ((1 : ℕ) : ℕ∞) := heq ▸ min_le_left _ _
  have hnat : 2 ≤ 1 := by exact_mod_cast hle
  omega

end UrlCrawler
