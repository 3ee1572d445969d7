import UrlCrawler.Core.SeedChain
import UrlCrawler.Core.CrawlerSteps
import UrlCrawler.Core.Outbound
import Mathlib.Data.Set.Card

/-! # What a crawl covers

A crawl that gets past its seed reports the seed chain and everything found from its end, each key
once, on every schedule. It comes to an end if that is finitely much.
-/
set_option autoImplicit false

namespace UrlCrawler
open Execution Crawler Worklist

/-- The keys of a crawl: those of the seed chain, and the least set that contains the final seed
URL's and, with the key of a page, the key of every link of it that scope and policy allow. -/
def Site.keys (site : Site) (d : Deps) (config : CrawlConfig) (start : Text) (scope : HostScope)
    (policy : RobotsPolicy) (final : Text) : Set Text :=
  {key | (∃ url ∈ site.seedChain d config.maxSeedRedirects.toNat start, Keyed d.unicode url key) ∨
    site.Covers d scope policy final key}

/-- The keys list a crawl of the site: each once, none but those of the crawl, and all of them unless
there is a cap on the pages and it was reached. -/
def Site.Lists (site : Site) (d : Deps) (config : CrawlConfig) (start : Text) (policy : RobotsPolicy)
    (keys : List (Except Exn Text)) : Prop :=
  ∃ final scope, (site.seedChain d config.maxSeedRedirects.toNat start).getLast? = some final ∧
    HostScope.fromUrl d.unicode final = .ok scope ∧ keys.Nodup ∧
    (∀ k ∈ keys, ∃ key ∈ site.keys d config start scope policy final, k = .ok key) ∧
    ((∀ key ∈ site.keys d config start scope policy final, .ok key ∈ keys) ∨
      ∃ max ∈ config.maxPages, max ≤ (keys.length : ℤ))

/-- The keys of the reported pages, in the order of the reports. -/
def Crawler.reportedKeys (d : Deps) (c : Crawler) : List (Except Exn Text) :=
  c.reported.map (canonicalKey d.unicode)

theorem Crawler.length_reportedKeys (d : Deps) (c : Crawler) :
    (c.reportedKeys d).length = c.reports.length := by
  rw [reportedKeys, reported, List.length_map, List.length_map]

theorem pageLinks_quiet {d : Deps} {lexbor : Lexbor}
    (hextract : d.extract = extractLinks d.unicode lexbor) (url : Text) (result : FetchResult) :
    Quiet (pageLinks d url result) := by
  unfold pageLinks
  by_cases hs : result.status ∈ redirectStatuses
  · rw [if_pos hs]
    apply Quiet.map
    rw [redirectTarget, if_pos hs]
    rcases result.location with _ | _ | ⟨c, location⟩
    · exact quiet_ok _
    · exact quiet_ok _
    · exact resolveHref_quiet d.unicode _ _
  · rw [if_neg hs, hextract]
    exact extractLinks_quiet d.unicode lexbor _ _

namespace CrawlRun
variable {d : Deps} {site : Site} {config : CrawlConfig} {chain : List Text} {final : Text}
  {scope : HostScope} {policy : RobotsPolicy} {s t : CrawlRun}

/-- The reported keys are distinct, and every reported page has one. -/
theorem Pool.reported_nodup (h : s.Pool d site config chain final scope policy) :
    (s.crawler.reportedKeys d).Nodup ∧
      ∀ url ∈ s.crawler.reported, ∃ key ∈ s.crawler.frontier.seen, Keyed d.unicode url key := by
  constructor
  · unfold reportedKeys
    rw [List.Nodup, List.pairwise_map]
    exact h.explores.fresh.distinct.sublist
      ((List.sublist_append_left _ _).trans (List.sublist_append_left _ _))
  · intro url hurl
    have hmem : url ∈ s.crawler.reported ++ s.busy := List.mem_append_left _ hurl
    obtain ⟨key, hkey, hok⟩ := h.explores.fresh.seen url (List.mem_append_left _ hmem)
    exact ⟨key, hkey, h.explores.normalized url (List.mem_append_left _ hmem), hok⟩

/-- Nothing but keys of the chain and of what is found is reported. -/
theorem Pool.reported_sound (h : s.Pool d site config chain final scope policy) {url : Text}
    (hurl : url ∈ s.crawler.reported) : ∃ key, Keyed d.unicode url key ∧
      ((∃ page ∈ chain, Keyed d.unicode page key) ∨ site.Covers d scope policy final key) := by
  obtain ⟨key, hkey, hkeyed⟩ := h.reported_nodup.2 url hurl
  exact ⟨key, hkeyed, h.seen_cases hkey⟩

/-- When nothing is queued or in progress and the crawl was not stopped, all of them are. -/
theorem Pool.reported_exact (hconsistent : site.Consistent d) (hfinal : final ∈ chain)
    (h : s.Pool d site config chain final scope policy) (hqueue : s.crawler.frontier.queue = [])
    (hbusy : s.busy = []) (hgoing : s.crawler.stopping = false) (key : Text) :
    (∃ url ∈ s.crawler.reported, Keyed d.unicode url key) ↔
      (∃ page ∈ chain, Keyed d.unicode page key) ∨ site.Covers d scope policy final key := by
  have hsearch := h.explores.search hgoing
  have hsound := h.explores.sound
  rw [hqueue, hbusy, List.append_nil] at hsearch hsound
  refine hsearch.exact (fun _ _ _ h h' => h.functional h') ?_ hsound ?_ ?_ ?_ key
  · intro a b key ha hb link hlink
    exact ⟨hconsistent a b key ha hb ▸ hlink.1, hlink.2⟩
  · rintro key ⟨url, hurl, hkeyed⟩
    exact h.reported_seen (h.chained.subset hurl) hkeyed
  · intro key hkeyed
    exact h.reported_seen (h.chained.subset hfinal) hkeyed
  · exact h.reported_nodup.2

theorem Pool.reportedKeys_exact (hconsistent : site.Consistent d) (hfinal : final ∈ chain)
    (h : s.Pool d site config chain final scope policy) (hqueue : s.crawler.frontier.queue = [])
    (hbusy : s.busy = []) (hgoing : s.crawler.stopping = false) (k : Except Exn Text) :
    k ∈ s.crawler.reportedKeys d ↔ ∃ key, ((∃ page ∈ chain, Keyed d.unicode page key) ∨
      site.Covers d scope policy final key) ∧ k = .ok key := by
  have hexact := h.reported_exact hconsistent hfinal hqueue hbusy hgoing
  constructor
  · intro hk
    obtain ⟨url, hurl, rfl⟩ := List.mem_map.mp hk
    obtain ⟨key, -, hkeyed⟩ := h.reported_nodup.2 url hurl
    exact ⟨key, (hexact key).mp ⟨url, hurl, hkeyed⟩, hkeyed.2⟩
  · rintro ⟨key, hkey, rfl⟩
    obtain ⟨url, hurl, hkeyed⟩ := (hexact key).mpr hkey
    exact List.mem_map.mpr ⟨url, hurl, hkeyed.2⟩

/-! ## A crawl that has returned -/

/-- A seed that `normalize` refuses is never crawled. -/
theorem unusable_seed {seed : Text} (hseed : normalize d.unicode seed = none)
    (h : Reaches (step d) (create config seed) s) :
    s = create config seed ∨ s.crawler.reports = [] ∧ s.log = [] ∧
      ∃ result, s.phase = .done result ∧ ∀ outcome, result ≠ .returned outcome := by
  refine h.invariant (P := fun s => s = create config seed ∨ s.crawler.reports = [] ∧
    s.log = [] ∧ ∃ result, s.phase = .done result ∧ ∀ outcome, result ≠ .returned outcome)
    (.inl rfl) fun s act s' hbefore hs => ?_
  obtain rfl | ⟨-, -, result, hdone, -⟩ := hbefore
  · right
    cases act with
    | begin =>
      have hbegin : s' = (create config seed).begin d := (Option.some.inj hs).symm
      rw [hbegin, begin]
      simp only [create, hseed]
      exact ⟨rfl, rfl, _, rfl, fun outcome h => by cases h⟩
    | cancel =>
      have hcancel : s' = (create config seed).finish .cancelled :=
        (Option.some.inj hs).symm
      rw [hcancel]
      exact ⟨rfl, rfl, _, rfl, fun outcome h => by cases h⟩
    | _ => cases hs
  · rw [step_done hdone] at hs
    cases hs

/-- A crawl that returned has a seed that `normalize` took. -/
theorem start_of_returned {seed : Text} (h : Reaches (step d) (create config seed) s)
    {outcome : CrawlOutcome} (hdone : s.phase = .done (.returned outcome)) :
    ∃ start, normalize d.unicode seed = some start := by
  refine Option.isSome_iff_exists.mp (Option.isSome_iff_ne_none.mpr fun hnone => ?_)
  obtain hcreated | ⟨-, -, result, hdone', hother⟩ := unusable_seed hnone h
  · rw [hcreated] at hdone
    cases hdone
  · exact hother outcome (RunPhase.done.inj (hdone'.symm.trans hdone))

/-- A crawl of the site that returned un-aborted lists it. -/
theorem AtSite.lists {seed start : Text} (h : s.AtSite d site config seed start)
    (hconsistent : site.Consistent d) (hcore : s.Core d) {outcome : CrawlOutcome}
    (hdone : s.phase = .done (.returned outcome)) (hgoing : outcome.aborted = false) :
    s.crawler.stats.pagesTotal = s.crawler.reports.length ∧
      site.Lists d config start s.crawler.robots (s.crawler.reportedKeys d) := by
  have hsearching : s.Searching d site config start := by
    unfold AtSite at h
    rw [hdone] at h
    exact h
  obtain ⟨final, scope, policy, -, hfinal, hscope, hpool⟩ := hsearching
  obtain rfl : s.crawler.robots = policy := hpool.explores.robots_eq
  obtain ⟨hqueue, hbusy⟩ := hpool.drained hcore (by rw [hdone]; simp)
  refine ⟨hpool.tally.total, final, scope, hfinal, hscope, hpool.reported_nodup.1, ?_, ?_⟩
  · intro k hk
    obtain ⟨url, hurl, rfl⟩ := List.mem_map.mp hk
    obtain ⟨key, hkeyed, hfound⟩ := hpool.reported_sound hurl
    exact ⟨key, hfound, hkeyed.2⟩
  · cases hstop : s.crawler.stopping with
    | false =>
      left
      intro key hkey
      exact (hpool.reportedKeys_exact hconsistent (List.mem_of_getLast? hfinal) hqueue hbusy hstop
        _).mpr ⟨key, hkey, rfl⟩
    | true =>
      right
      obtain haborted | ⟨max, hmax, hle⟩ := hpool.explores.stopped hstop
      · have hend := hpool.phase
        unfold PoolPhase at hend
        rw [hdone] at hend
        obtain rfl : outcome = ⟨_, _, _⟩ := RunResult.returned.inj hend.2
        rw [haborted] at hgoing
        cases hgoing
      · have hclaimed : s.crawler.claimed = s.crawler.reports.length := by
          rw [hpool.explores.claimed, hbusy]
          rfl
        rw [hpool.config_eq] at hmax
        rw [length_reportedKeys, ← hclaimed]
        exact ⟨max, hmax, hle⟩

section Run
variable {as : List CrawlerAct} (hd : d.NormalLinks)
  (hquiet : ∀ url result, Quiet (pageLinks d url result))
  (hsilent : ∀ pages page, d.reporter pages page = none) (hsite : ∀ url, Quiet (site url))
include hd hquiet hsilent hsite

theorem Pool.step_kept (hpolicy : policy.Decides d.unicode)
    (h : s.Pool d site config chain final scope policy) (hinv : s.Inv d) {act : CrawlerAct}
    (hact : site.Serves s act) (hs : s.step d act = some t) :
    PoolStep d site s t ∧ t.Pool d site config chain final scope policy ∧ t.Inv d := by
  have hstep := h.step_cases hd hquiet hsilent hsite hpolicy hinv.core hact hs
  exact ⟨hstep, h.of_step hd hstep, inv_step hd hinv hs⟩

/-- The pool goes on searching through a run, and the run is no longer than what is left to do. -/
theorem Pool.run (hpolicy : policy.Decides d.unicode) {keys : Finset Text}
    (hkeys : ∀ key, site.Covers d scope policy final key → key ∈ keys)
    (h : s.Pool d site config chain final scope policy) (hinv : s.Inv d)
    (hserves : Meets (step d) site.Serves s as) (hrun : Execution.run (step d) s as = some t) :
    (t.Pool d site config chain final scope policy ∧ t.Inv d) ∧
      as.length + t.work d keys ≤ s.work d keys := by
  refine Meets.length_le (P := fun s => s.Pool d site config chain final scope policy ∧ s.Inv d)
    (fun s => s.work d keys) ?_ hserves ⟨h, hinv⟩ hrun
  intro s act s' hP hact hs
  obtain ⟨hstep, hkept⟩ := hP.1.step_kept hd hquiet hsilent hsite hpolicy hP.2 hact hs
  exact ⟨hkept, hP.1.work_lt hd hkeys hstep⟩

end Run
end CrawlRun

section Crawl
variable {d : Deps} {lexbor : Lexbor} {site : Site} {config : CrawlConfig} {seed start final : Text}
  {scope : HostScope} {s : CrawlRun} {as : List CrawlerAct}
  (hextract : d.extract = extractLinks d.unicode lexbor)
  (hsilent : ∀ pages page, d.reporter pages page = none) (hsite : ∀ url, Quiet (site url))
  (hstart : normalize d.unicode seed = some start)
  (hfinal : (site.seedChain d config.maxSeedRedirects.toNat start).getLast? = some final)
  (hscope : HostScope.fromUrl d.unicode final = .ok scope)
include hextract hsilent hsite hstart hfinal hscope

/-- Past the seed, the pool of a run searches from the end of the seed chain. -/
theorem pool_of_run (hserves : Meets (CrawlRun.step d) site.Serves (CrawlRun.create config seed) as)
    (hrun : run (CrawlRun.step d) (CrawlRun.create config seed) as = some s)
    (hphase : s.phase = .joining ∨ (∃ cancelled, s.phase = .leaving cancelled) ∨
      ∃ outcome, s.phase = .done (.returned outcome)) :
    s.crawler.robots.Decides d.unicode ∧ s.Inv d ∧
      s.Pool d site config (site.seedChain d config.maxSeedRedirects.toNat start) final scope
        s.crawler.robots := by
  obtain ⟨hat, hinv⟩ := CrawlRun.atSite_run (normalLinks_of_lexbor hextract)
    (pageLinks_quiet hextract) hsilent hsite hstart hserves hrun
  have hsearching : s.Searching d site config start := by
    unfold CrawlRun.AtSite at hat
    rcases hphase with hphase | ⟨cancelled, hphase⟩ | ⟨outcome, hphase⟩ <;> rw [hphase] at hat <;>
      exact hat
  obtain ⟨final', scope', policy, hpolicy, hlast, hscope', hpool⟩ := hsearching
  obtain rfl : final' = final := Option.some.inj (hlast.symm.trans hfinal)
  obtain rfl : scope' = scope := Except.ok.inj (hscope'.symm.trans hscope)
  obtain rfl : s.crawler.robots = policy := hpool.explores.robots_eq
  exact ⟨hpolicy, hinv, hpool⟩

/-- Against a site with finitely many keys, a run that has come to its pool, under a delay that ends, with
a reporter that does not raise and no broken pipe from a fetch, comes to an end on every schedule: the
steps still possible are bounded, and some step is possible until the run is over. It leaves the pool
with nothing queued or in progress, and unless the fuse tripped it has then reported every key of the
crawl once. -/
theorem crawl_covers (hconsistent : site.Consistent d) (hcap : config.maxPages = none)
    (hserves : Meets (CrawlRun.step d) site.Serves (CrawlRun.create config seed) as)
    (hrun : run (CrawlRun.step d) (CrawlRun.create config seed) as = some s)
    (hphase : s.phase = .joining) (hdelay : s.crawler.robots.endless = false)
    (hfinite : {key | site.Covers d scope s.crawler.robots final key}.Finite) :
    ∃ bound, ∀ bs t, Meets (CrawlRun.step d) site.Serves s bs →
      run (CrawlRun.step d) s bs = some t →
        bs.length ≤ bound ∧
        ((∃ result, t.phase = .done result) ∨
          ∃ act t', site.Serves t act ∧ t.step d act = some t') ∧
        (t.phase ≠ .joining → t.crawler.frontier.queue = [] ∧ t.busy = []) ∧
        ∀ result, t.phase = .done result →
          result = .returned
            ⟨t.crawler.stats.pagesTotal, t.crawler.aborted, t.crawler.reason⟩ ∧
          (t.crawler.aborted = false → (t.crawler.reportedKeys d).Nodup ∧
            ∀ k, k ∈ t.crawler.reportedKeys d ↔
              ∃ key ∈ site.keys d config start scope s.crawler.robots final, k = .ok key) := by
  have hd := normalLinks_of_lexbor hextract
  have hquiet := pageLinks_quiet hextract
  obtain ⟨hpolicy, hinv, hpool⟩ := pool_of_run hextract hsilent hsite hstart hfinal hscope
    hserves hrun (.inl hphase)
  refine ⟨s.work d hfinite.toFinset, fun bs t hserves' hrun' => ?_⟩
  obtain ⟨⟨hpool', hinv'⟩, hlength⟩ := hpool.run hd hquiet hsilent hsite hpolicy
    (fun key hkey => hfinite.mem_toFinset.mpr hkey) hinv hserves' hrun'
  refine ⟨by omega, ?_, hpool'.drained hinv'.core, fun result hdone => ?_⟩
  · by_cases hover : ∃ result, t.phase = .done result
    · exact .inl hover
    · exact .inr (hpool'.progress hinv'.core hdelay fun result hdone => hover ⟨result, hdone⟩)
  · have hend := hpool'.phase
    unfold CrawlRun.PoolPhase at hend
    rw [hdone] at hend
    refine ⟨hend.2, fun hgoing => ⟨hpool'.reported_nodup.1, fun k => ?_⟩⟩
    obtain ⟨hqueue, hbusy⟩ := hpool'.drained hinv'.core (by rw [hdone]; simp)
    have hstopping : t.crawler.stopping = false := by
      cases hstop : t.crawler.stopping with
      | false => rfl
      | true =>
        rcases hpool'.explores.stopped hstop with haborted | ⟨max, hmax, -⟩
        · rw [hgoing] at haborted
          cases haborted
        · rw [hpool'.config_eq, hcap] at hmax
          cases hmax
    exact hpool'.reportedKeys_exact hconsistent (List.mem_of_getLast? hfinal) hqueue hbusy
      hstopping k

end Crawl

/-! ## Two pages that link to each other -/

/-- The page whose body is the URL. -/
def linkPage (url : Text) : Response :=
  .page 200 (url.map fun c => c.toNat.toUInt8) "text/html".toList none

def homeUrl : Text := "http://h/".toList

def nextUrl : Text := "http://h/b".toList

/-- The home page links to the next one; every other page links back. -/
def pairSite : Site := fun url =>
  if canonicalKey .ascii url = .ok homeUrl then .ok (linkPage nextUrl) else .ok (linkPage homeUrl)

theorem urljoin_homeUrl {base : Text} {b : SplitResult} (h : urlsplit .ascii base = .ok b) :
    urljoin .ascii base homeUrl = .ok homeUrl := by
  have hsplit : ∀ scheme, urlsplit .ascii homeUrl scheme =
      .ok ⟨"http".toList, "h".toList, "/".toList, [], []⟩ := fun _ => rfl
  exact urljoin_absolute hsplit (by decide) (by decide) (by decide) h

theorem urljoin_nextUrl {base : Text} {b : SplitResult} (h : urlsplit .ascii base = .ok b) :
    urljoin .ascii base nextUrl = .ok nextUrl := by
  have hsplit : ∀ scheme, urlsplit .ascii nextUrl scheme =
      .ok ⟨"http".toList, "h".toList, "/b".toList, [], []⟩ := fun _ => rfl
  exact urljoin_absolute hsplit (by decide) (by decide) (by decide) h

theorem links_linkPage {url link : Text} (hjoin : urljoin .ascii url link = .ok link)
    (hlink : link = homeUrl ∨ link = nextUrl) :
    foundLinks bodyIsLink url (.ok ((linkPage link).outcome url 1)) = [link] := by
  have hbytes : (link.map fun c => c.toNat.toUInt8).map (fun byte => Char.ofNat byte.toNat) =
      link := by
    rcases hlink with rfl | rfl <;> decide
  have hresolve : resolveHref .ascii link url = .ok (some link) := by
    have hstrip : strip link = link := by
      rcases hlink with rfl | rfl <;> decide
    have hnormal : normalize .ascii link = some link := by
      rcases hlink with rfl | rfl <;> decide
    rw [resolveHref, hstrip, hjoin, Except.map, hnormal]
  have hextract : extractLinks .ascii
      (fun body => { base := none, hrefs := [some (body.map fun byte => Char.ofNat byte.toNat)] })
      (link.map fun c => c.toNat.toUInt8) url = .ok [link] := by
    simp only [extractLinks, effectiveBase, hbytes, bind, Except.bind, List.filterMap_cons,
      List.filterMap_nil, id, List.mapM_cons, List.mapM_nil, hresolve, pure, Except.pure,
      Option.join_none]
    rfl
  have hpage : pageLinks bodyIsLink url ⟨url, 200, link.map fun c => c.toNat.toUInt8,
      "text/html".toList, none, 1⟩ = .ok [link] := by
    have hstatus : 200 ∉ redirectStatuses := by decide
    rw [pageLinks, if_neg hstatus]
    exact hextract
  simp only [linkPage, Response.outcome, foundLinks, hpage]
  rfl

theorem pairSite_links {url key : Text} (h : Keyed .ascii url key) :
    pairSite.links bodyIsLink url = if key = homeUrl then [nextUrl] else [homeUrl] := by
  obtain ⟨parts, hparts, -⟩ := map_eq_ok.mp h.2
  unfold Site.links Site.fetched pairSite
  rw [h.2]
  by_cases hkey : key = homeUrl
  · simp [hkey, Except.map, links_linkPage (urljoin_nextUrl hparts) (.inr rfl)]
  · simp [hkey, Except.map, links_linkPage (urljoin_homeUrl hparts) (.inl rfl)]

theorem pairSite_consistent : pairSite.Consistent bodyIsLink := by
  intro a b key ha hb
  rw [pairSite_links ha, pairSite_links hb]

theorem pairSite_finite (scope : HostScope) (policy : RobotsPolicy) :
    {key | pairSite.Covers bodyIsLink scope policy homeUrl key}.Finite := by
  have hhome : canonicalKey .ascii homeUrl = .ok homeUrl := by decide +kernel
  have hnext : canonicalKey .ascii nextUrl = .ok nextUrl := by decide +kernel
  refine (Set.toFinite {homeUrl, nextUrl}).subset ?_
  intro key hkey
  induction hkey with
  | root hroot =>
    left
    exact Except.ok.inj (hroot.2.symm.trans hhome)
  | next _ hu hlead hv _ =>
    have hlink := hlead.1
    rw [pairSite_links hu] at hlink
    split at hlink
    · obtain rfl := List.mem_singleton.mp hlink
      right
      exact Except.ok.inj (hv.2.symm.trans hnext)
    · obtain rfl := List.mem_singleton.mp hlink
      left
      exact Except.ok.inj (hv.2.symm.trans hhome)

/-- With two workers, the run from the home page comes to an end with both pages reported. -/
theorem crawl_covers_pair : ∃ s, run (CrawlRun.step bodyIsLink)
      (CrawlRun.create { concurrency := 2 } homeUrl)
      [.begin, .guarded none, .attempted (.fetched (linkPage nextUrl)), .robotsGuarded none,
        .robotsAnswered (.response 404 none (.ok []))] = some s ∧
    ∃ bound, ∀ bs t, Meets (CrawlRun.step bodyIsLink) pairSite.Serves s bs →
      run (CrawlRun.step bodyIsLink) s bs = some t →
        bs.length ≤ bound ∧
        ((∃ result, t.phase = .done result) ∨
          ∃ act t', pairSite.Serves t act ∧ t.step bodyIsLink act = some t') ∧
        (t.phase ≠ .joining → t.crawler.frontier.queue = [] ∧ t.busy = []) ∧
        ∀ result, t.phase = .done result →
          result = .returned
            ⟨t.crawler.stats.pagesTotal, t.crawler.aborted, t.crawler.reason⟩ ∧
          (t.crawler.aborted = false → (t.crawler.reportedKeys bodyIsLink).Nodup ∧
            ∀ k, k ∈ t.crawler.reportedKeys bodyIsLink ↔
              ∃ key ∈ pairSite.keys bodyIsLink { concurrency := 2 } homeUrl ⟨"h".toList, none⟩
                s.crawler.robots homeUrl, k = .ok key) := by
  have hserves : Meets (CrawlRun.step bodyIsLink) pairSite.Serves
      (CrawlRun.create { concurrency := 2 } homeUrl)
      [.begin, .guarded none, .attempted (.fetched (linkPage nextUrl)), .robotsGuarded none,
        .robotsAnswered (.response 404 none (.ok []))] := by
    decide +kernel
  have hrun : ((run (CrawlRun.step bodyIsLink) (CrawlRun.create { concurrency := 2 } homeUrl)
      [.begin, .guarded none, .attempted (.fetched (linkPage nextUrl)), .robotsGuarded none,
        .robotsAnswered (.response 404 none (.ok []))]).any fun s =>
      s.phase.isJoining && !s.crawler.robots.endless) = true := by
    decide +kernel
  obtain ⟨s, hs, hrest⟩ := (Option.any_eq_true _ _).mp hrun
  obtain ⟨hjoining, hdelay⟩ := Bool.and_eq_true_iff.mp hrest
  have hphase : s.phase = .joining := RunPhase.eq_joining hjoining
  have hextract : bodyIsLink.extract = extractLinks bodyIsLink.unicode fun body =>
      { base := none, hrefs := [some (body.map fun byte => Char.ofNat byte.toNat)] } := rfl
  refine ⟨s, hs, crawl_covers hextract (fun _ _ => rfl) ?_ (by decide +kernel)
    (by decide +kernel) (by decide +kernel) pairSite_consistent rfl hserves hs hphase
    (by simpa using hdelay) (pairSite_finite _ _)⟩
  intro url
  unfold pairSite
  split <;> exact quiet_ok _

/-- A robots.txt that asks everybody for a delay. -/
def delayFile (delay : String) : List UInt8 :=
  ("User-agent: *\nCrawl-delay: " ++ delay).toUTF8.data.toList

/-- The same two pages, and a robots.txt whose delay never ends: the worker that has the second page
sleeps for ever, with the run not over and no step possible that the site could answer. -/
theorem endlessDelay_stalls : ∃ s, run (CrawlRun.step bodyIsLink)
      (CrawlRun.create { concurrency := 1 } homeUrl)
      [.begin, .guarded none, .attempted (.fetched (linkPage nextUrl)), .robotsGuarded none,
        .robotsAnswered (.response 200 none (.ok (delayFile "inf"))), .take 0, .locked 0] = some s ∧
    Meets (CrawlRun.step bodyIsLink) pairSite.Serves
      (CrawlRun.create { concurrency := 1 } homeUrl)
      [.begin, .guarded none, .attempted (.fetched (linkPage nextUrl)), .robotsGuarded none,
        .robotsAnswered (.response 200 none (.ok (delayFile "inf"))), .take 0, .locked 0] ∧
    pairSite.Consistent bodyIsLink ∧
    {key | pairSite.Covers bodyIsLink ⟨"h".toList, none⟩ s.crawler.robots homeUrl key}.Finite ∧
    s.phase = .joining ∧ s.crawler.aborted = false ∧
    ∀ act, pairSite.Serves s act → s.step bodyIsLink act = none := by
  have hserves : Meets (CrawlRun.step bodyIsLink) pairSite.Serves
      (CrawlRun.create { concurrency := 1 } homeUrl)
      [.begin, .guarded none, .attempted (.fetched (linkPage nextUrl)), .robotsGuarded none,
        .robotsAnswered (.response 200 none (.ok (delayFile "inf"))), .take 0, .locked 0] := by
    decide +kernel
  have hrun : ((run (CrawlRun.step bodyIsLink) (CrawlRun.create { concurrency := 1 } homeUrl)
      [.begin, .guarded none, .attempted (.fetched (linkPage nextUrl)), .robotsGuarded none,
        .robotsAnswered (.response 200 none (.ok (delayFile "inf"))), .take 0, .locked 0]).any fun s =>
      s.phase.isJoining && decide (s.crawler.robots.endless = true ∧ s.crawler.aborted = false ∧
        s.workers = [.sleeping nextUrl] ∧ s.errors.length = 0 ∧
        s.crawler.frontier.unfinished = 1)) = true := by
    decide +kernel
  obtain ⟨s, hs, hrest⟩ := (Option.any_eq_true _ _).mp hrun
  obtain ⟨hjoining, hfacts⟩ := Bool.and_eq_true_iff.mp hrest
  obtain ⟨hdelay, hgoing, hworkers, herrors, hunfinished⟩ := of_decide_eq_true hfacts
  have hphase : s.phase = .joining := RunPhase.eq_joining hjoining
  refine ⟨s, hs, hserves, pairSite_consistent, pairSite_finite _ _, hphase, hgoing,
    fun act hact => ?_⟩
  refine CrawlRun.step_asleep hdelay hphase (List.length_eq_zero_iff.mp herrors) (by omega) ?_
    (by rw [hworkers]; rfl) ?_
  · intro phase hmem
    rw [hworkers] at hmem
    exact ⟨nextUrl, .inr (List.mem_singleton.mp hmem)⟩
  · rintro rfl
    exact hact

end UrlCrawler
