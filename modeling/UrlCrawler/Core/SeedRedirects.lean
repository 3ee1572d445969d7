import UrlCrawler.Core.PageCap
import UrlCrawler.Core.CrawlerSteps

/-! # The redirects of the seed

A chain of redirects from the seed to a page. Whether the seed chain is a loop is asked of the
keys its URLs are deduplicated by, so a chain is followed to its end if and only if no two of its
URLs share a key.
-/
set_option autoImplicit false

namespace UrlCrawler
open Execution Crawler Effects

namespace Site
variable (site : Site) (d : Deps)

/-- Each URL answers with a redirect to the next, and the last one with a page. -/
inductive Redirects : List Text → Prop
  | page {final : Text} {status : ℕ} {body : List UInt8} {contentType : Text} {location : Option Text}
      (hpage : site final = .ok (.page status body contentType location))
      (hstatus : status ∉ redirectStatuses) : Redirects [final]
  | hop {url next : Text} {rest : List Text} (htarget : site.target d url = some next)
      (hrest : Redirects (next :: rest)) : Redirects (url :: next :: rest)

/-- The site answers, nobody cancels the run, and no guard refuses a seed URL. -/
def Unrefused (s : CrawlRun) (act : CrawlerAct) : Prop :=
  site.Serves s act ∧ match act with
    | .guarded (some _) | .guardRaised _ => False
    | _ => True

variable {site d}

instance (s : CrawlRun) : DecidablePred (site.Unrefused s) := fun act =>
  @instDecidableAnd _ _ inferInstance (match act with
    | .guarded (some _) | .guardRaised _ => isFalse id
    | .guarded none | .begin | .attempted _ | .robotsGuarded _ | .robotsGuardRaised _
    | .robotsAnswered _ | .take _ | .locked _ | .slept _ | .workerAttempted _ _ | .joined | .failed
    | .cancel | .workerCancelled _ | .left => isTrue trivial)

/-- The answer of a URL that redirects. -/
theorem page_of_target {url next : Text} (h : site.target d url = some next) (attempt : ℕ) :
    ∃ response result, site url = .ok response ∧ response.outcome url attempt = .ok result ∧
      redirectTarget d url result = .ok (some next) := by
  cases hsite : site url with
  | error e =>
    simp [Site.target, fetched, hsite, Except.map] at h
  | ok response =>
    cases response with
    | error kind status message =>
      simp [Site.target, fetched, hsite, Except.map, Response.outcome] at h
    | page status body contentType location =>
      refine ⟨_, _, rfl, rfl, ?_⟩
      have hfetched : site.fetched url attempt =
          .ok (.ok ⟨url, status, body, contentType, location, attempt⟩) := by
        rw [fetched, hsite]
        rfl
      rw [target_of_fetched hfetched] at h
      cases htarget : redirectTarget d url ⟨url, status, body, contentType, location, attempt⟩ with
      | error e =>
        rw [htarget] at h
        cases h
      | ok target =>
        rw [htarget] at h
        exact congrArg Except.ok h

theorem Redirects.suffix {before : List Text} {url : Text} {after : List Text}
    (h : site.Redirects d (before ++ url :: after)) : site.Redirects d (url :: after) := by
  induction before with
  | nil => exact h
  | cons first before ih =>
    cases before with
    | nil =>
      cases h with
      | hop _ hrest => exact hrest
    | cons second before =>
      cases h with
      | hop _ hrest => exact ih hrest

end Site

/-- A page as a hop: its URL and its links. -/
def PageResult.hop (page : PageResult) : Text × List Text := (page.url, page.links)

/-- The hops along a chain. -/
def hopsOf : List Text → List (Text × List Text)
  | url :: next :: rest => (url, [next]) :: hopsOf (next :: rest)
  | _ => []

theorem hopsOf_concat (before : List Text) (url next : Text) :
    hopsOf (before ++ [url, next]) = hopsOf (before ++ [url]) ++ [(url, [next])] := by
  induction before with
  | nil => rfl
  | cons first before ih =>
    cases before with
    | nil => rfl
    | cons second before => exact congrArg ((first, [second]) :: ·) ih

namespace CrawlRun
variable {d : Deps} {site : Site} {config : CrawlConfig} {seed : Text} {chain : List Text}
  {s s' : CrawlRun}

/-- The chain has been fetched to its end, every hop is reported with its target, and the scope is
that of the page it leads to. -/
structure Arrived (d : Deps) (chain : List Text) (s : CrawlRun) : Prop where
  fetched : seedUrls s.log = chain
  reported : hopsOf chain <+: s.crawler.reports.map PageResult.hop
  scope : ∃ final scope, chain.getLast? = some final ∧
    HostScope.fromUrl d.unicode final = .ok scope ∧ s.crawler.scope = some scope

/-- A crawl from `seed` follows the chain to its end, however the run goes, and is never refused. -/
def FollowsSeed (d : Deps) (site : Site) (config : CrawlConfig) (seed : Text) (chain : List Text) :
    Prop :=
  (∀ as s, Meets (step d) site.Unrefused (create config seed) as →
    Execution.run (step d) (create config seed) as = some s →
      ∀ message, s.phase ≠ .done (.seedError message)) ∧
  Inevitable (step d) site.Unrefused (Arrived d chain) (create config seed)

/-- The chain has come to `url`, which is marked and not reported yet. The URLs in `fetched` are those
fetched since the last hop. -/
structure AtHop (d : Deps) (config : CrawlConfig) (chain : List Text) (s : CrawlRun)
    (fetched before : List Text) (url : Text) (after : List Text) (hops : ℕ) : Prop where
  config_eq : s.crawler.config = config
  start : chain.head? = some s.start
  chain_eq : chain = before ++ url :: after
  hops_eq : hops + before.length = config.maxSeedRedirects.toNat
  seen : ∀ key ∈ s.crawler.frontier.seen, ∃ marked ∈ before ++ [url],
    canonicalKey d.unicode marked = .ok key
  reported : s.crawler.reports.map PageResult.hop = hopsOf (before ++ [url])
  fetched_eq : seedUrls s.log = before ++ fetched

/-- What holds of a run along the chain, by the place where it waits. -/
def Seeks (d : Deps) (config : CrawlConfig) (seed : Text) (chain : List Text) (s : CrawlRun) : Prop :=
  match s.phase with
  | .created => s = create config seed
  | .guarding url hops => ∃ before after, s.AtHop d config chain [] before url after hops
  | .fetching url hops _ => ∃ before after, s.AtHop d config chain [url] before url after hops
  | .robotsGuarding .. | .robotsFetching .. | .done (.seedError _) => False
  | .joining | .leaving _ | .done _ => True

theorem AtHop.startFetch {before after : List Text} {url : Text} {hops : ℕ}
    (h : s.AtHop d config chain [] before url after hops) :
    (s.startFetch url hops).AtHop d config chain [url] before url after hops :=
  { h with
    fetched_eq := by
      have hlog := h.fetched_eq
      rw [List.append_nil] at hlog
      show seedUrls (s.log ++ [.fetch url false, .request url]) = before ++ [url]
      rw [seedUrls, List.filterMap_append, ← hlog]
      rfl }

theorem seeks_fetchSeed {before after : List Text} {url : Text} {hops : ℕ}
    (h : s.AtHop d config chain [] before url after hops) :
    (s.fetchSeed d url hops).Seeks d config seed chain := by
  unfold fetchSeed
  split
  · exact ⟨before, after, { h with }⟩
  · exact ⟨before, after, h.startFetch⟩

/-- How far a run along the chain is from its end. -/
def ahead (d : Deps) (config : CrawlConfig) (s : CrawlRun) : ℕ ×ₗ ℕ :=
  match s.phase with
  | .created => toLex (config.maxSeedRedirects.toNat + 1, 0)
  | .guarding _ hops => toLex (hops, d.maxAttempts + 1)
  | .fetching _ hops attempt => toLex (hops, d.maxAttempts - attempt)
  | _ => toLex (0, 0)

/-- The run is still on the chain, and nearer to its end than `bound`. -/
def Nearer (d : Deps) (config : CrawlConfig) (s : CrawlRun) (bound : ℕ ×ₗ ℕ) : Prop :=
  s.phase.isSeeding = true ∧ s.ahead d config < bound

theorem nearer_fetchSeed (url : Text) (hops n : ℕ) :
    (s.fetchSeed d url hops).Nearer d config (toLex (hops + 1, n)) := by
  unfold fetchSeed
  split <;> exact ⟨rfl, Prod.Lex.toLex_lt_toLex.mpr (.inl (Nat.lt_succ_self hops))⟩

/-- The keys of the chain exist, and no two of its URLs share one. -/
structure Unrepeated (u : Unicode) (chain : List Text) : Prop where
  keyed : ∀ url ∈ chain, ∃ key, canonicalKey u url = .ok key
  distinct : (chain.map (canonicalKey u)).Nodup

theorem Unrepeated.ne {u : Unicode} {before after : List Text} {url : Text}
    (h : Unrepeated u (before ++ url :: after)) {other : Text} (hother : other ∈ before) :
    canonicalKey u other ≠ canonicalKey u url := by
  have hdistinct := h.distinct
  rw [List.map_append, List.map_cons, List.nodup_append] at hdistinct
  exact hdistinct.2.2 _ (List.mem_map_of_mem hother) _ (List.mem_cons_self ..)

/-- A normalized URL with a key has a scope. -/
theorem scope_of_key {u : Unicode} {url key : Text} (hnormal : Normalized u url)
    (hkey : canonicalKey u url = .ok key) : ∃ scope, HostScope.fromUrl u url = .ok scope := by
  obtain ⟨parts, hparts, -⟩ := map_eq_ok.mp hkey
  obtain ⟨text, hnormal⟩ := hnormal
  obtain ⟨scope, hscope, -⟩ := fromUrl_of_urlsplit hnormal hparts
  exact ⟨scope, hscope⟩

theorem markSeen_of_key {u : Unicode} {f : Frontier} {url key : Text}
    (hkey : canonicalKey u url = .ok key) :
    ∃ frontier, f.markSeen u url = .ok (decide (key ∉ f.seen), frontier) ∧
      frontier.seen = insert key f.seen := by
  unfold Frontier.markSeen
  rw [hkey]
  by_cases hseen : key ∈ f.seen
  · exact ⟨f, by simp [Except.map, hseen], (Finset.insert_eq_self.mpr hseen).symm⟩
  · exact ⟨{ f with seen := insert key f.seen }, by simp [Except.map, hseen], rfl⟩

section Silent
variable (hsilent : ∀ pages page, d.reporter pages page = none)
include hsilent

/-- Following a redirect to a URL that has a key. -/
theorem followRedirect_of_key {url target key : Text} (result : FetchResult) (c : Crawler)
    (hkey : canonicalKey d.unicode target = .ok key) :
    Ends (followRedirect d url result target) c
      (fun new c' => new = decide (key ∉ c.frontier.seen) ∧
        c'.frontier.seen = insert key c.frontier.seen ∧ c'.config = c.config ∧
        c'.reports.map PageResult.hop = c.reports.map PageResult.hop ++ [(url, [target])])
      fun _ _ => False := by
  obtain ⟨frontier, hmark, hseen⟩ := markSeen_of_key (f := c.frontier) hkey
  simp only [followRedirect, countRetries, countOk, countRedirect, ends_bind, ends_modify,
    ends_report, ends_markSeen, hsilent]
  refine ⟨fun _ => ⟨fun new frontier' h => ?_, fun e h => ?_⟩, fun _ h => by cases h⟩
  · obtain ⟨rfl, rfl⟩ := Prod.mk.inj (Except.ok.inj (h.symm.trans hmark))
    exact ⟨rfl, hseen, trivial, by rw [List.map_append]; rfl⟩
  · rw [hmark] at h
    cases h

omit hsilent in
/-- The chain has landed: whatever handling the page does, it has been followed. -/
theorem arrived_landed {before : List Text} {url : Text} {hops : ℕ} (result : FetchResult)
    (hrobots : config.respectRobots = false)
    (h : s.AtHop d config chain [url] before url [] hops)
    (hnormal : ∀ next ∈ chain, Normalized d.unicode next) (hkeys : Unrepeated d.unicode chain) :
    (s.landed d url result).Arrived d chain ∧
      (s.landed d url result).Seeks d config seed chain := by
  have hurl : url ∈ chain := by
    rw [h.chain_eq]
    exact List.mem_append_right _ (List.mem_cons_self ..)
  have hstart : s.start ∈ chain := List.mem_of_mem_head? h.start
  have hlast : chain.getLast? = some url := by
    rw [h.chain_eq]
    exact List.getLast?_concat
  obtain ⟨key, hkey⟩ := hkeys.keyed url hurl
  obtain ⟨key₀, hkey₀⟩ := hkeys.keyed s.start hstart
  obtain ⟨scope, hscope⟩ := scope_of_key (hnormal url hurl) hkey
  obtain ⟨scope₀, hscope₀⟩ := scope_of_key (hnormal s.start hstart) hkey₀
  have hfetched : seedUrls s.log = chain := by
    rw [h.fetched_eq, h.chain_eq]
  have hreports : hopsOf chain = s.crawler.reports.map PageResult.hop := by
    rw [h.reported, h.chain_eq]
  simp only [landed, hscope, hscope₀, loadRobots, h.config_eq, hrobots, Bool.false_eq_true, if_false,
    loaded, RobotsPolicy.allowAll]
  have hready : (Event.ready url (some scope) ⟨none, fun _ => .ok true⟩).seedFetched? = none := rfl
  have hlog : seedUrls (s.log ++ [.ready url (some scope) ⟨none, fun _ => .ok true⟩]) = chain := by
    rw [seedUrls, List.filterMap_append, List.filterMap_cons, hready, List.filterMap_nil,
      List.append_nil]
    exact hfetched
  have harrived : ∀ b c : Crawler, Follows d (foundLinks d url (.ok (.ok result))) b c →
      b.reports = s.crawler.reports → b.scope = some scope →
        hopsOf chain <+: c.reports.map PageResult.hop ∧ c.scope = some scope := by
    intro b c hfollows hsame hanchored
    refine ⟨?_, hfollows.scope.trans hanchored⟩
    rw [hreports, ← hsame]
    exact hfollows.reports.map _
  refine exec_of_ends (Q := fun t => t.Arrived d chain ∧ t.Seeks d config seed chain)
    ((handle_follows url (.ok result) _).mono ?_ ?_)
  · intro _ c hfollows
    obtain ⟨hpre, hanchor⟩ := harrived _ c hfollows rfl rfl
    exact ⟨⟨hlog, hpre, url, scope, hlast, hscope, hanchor⟩, trivial⟩
  · intro _ c hfollows
    obtain ⟨hpre, hanchor⟩ := harrived _ c hfollows rfl rfl
    exact ⟨⟨hlog, hpre, url, scope, hlast, hscope, hanchor⟩, trivial⟩

/-- A hop is followed: its target has not been marked yet. -/
theorem seeks_hop {before after : List Text} {url next : Text} {hops : ℕ} (result : FetchResult)
    (h : s.AtHop d config chain [url] before url (next :: after) (hops + 1))
    (hkeys : Unrepeated d.unicode chain) (n : ℕ) {s' : CrawlRun}
    (hs : s' = s.exec (followRedirect d url result next) fun new s =>
      if new then s.fetchSeed d next hops
      else s.seedError ("seed redirect cycle at " ++ String.ofList next)) :
    s'.Seeks d config seed chain ∧ s'.Nearer d config (toLex (hops + 1, n)) := by
  have hchain : chain = (before ++ [url]) ++ next :: after := by
    rw [h.chain_eq, List.append_assoc]
    rfl
  have hmem : next ∈ chain := by
    rw [hchain]
    exact List.mem_append_right _ (List.mem_cons_self ..)
  obtain ⟨key, hkey⟩ := hkeys.keyed next hmem
  have hnew : key ∉ s.crawler.frontier.seen := by
    intro hseen
    obtain ⟨marked, hmarked, hsame⟩ := h.seen key hseen
    exact (hchain ▸ hkeys).ne hmarked (hsame.trans hkey.symm)
  subst hs
  refine exec_of_ends (Q := fun t => t.Seeks d config seed chain ∧
      t.Nearer d config (toLex (hops + 1, n)))
    ((followRedirect_of_key hsilent result s.crawler hkey).mono ?_ fun e c h => h.elim)
  · rintro new c ⟨rfl, hseen, hconfig, hreports⟩
    rw [if_pos (decide_eq_true hnew)]
    have hhop : ({ s with crawler := c } : CrawlRun).AtHop d config chain [] (before ++ [url]) next after
        hops :=
      { config_eq := hconfig.trans h.config_eq
        start := h.start
        chain_eq := hchain
        hops_eq := by
          have hhops := h.hops_eq
          rw [List.length_append, List.length_singleton]
          omega
        seen := by
          intro key' hkey'
          rw [show c.frontier.seen = insert key s.crawler.frontier.seen from hseen,
            Finset.mem_insert] at hkey'
          rcases hkey' with rfl | hold
          · exact ⟨next, List.mem_append_right _ (List.mem_singleton_self _), hkey⟩
          · obtain ⟨marked, hmarked, hsame⟩ := h.seen key' hold
            exact ⟨marked, List.mem_append_left _ hmarked, hsame⟩
        reported := by
          show c.reports.map PageResult.hop = _
          rw [hreports, h.reported, List.append_assoc, List.singleton_append, hopsOf_concat]
        fetched_eq := h.fetched_eq.trans (List.append_nil _).symm }
    exact ⟨seeks_fetchSeed hhop, nearer_fetchSeed ..⟩

section Chain
variable (hrobots : config.respectRobots = false) (hchain : site.Redirects d chain)
  (hlength : chain.length ≤ config.maxSeedRedirects.toNat + 1)
  (hnormal : ∀ next ∈ chain, Normalized d.unicode next) (hkeys : Unrepeated d.unicode chain)
include hrobots hchain hlength hnormal hkeys

theorem seeks_seedFetched {before after : List Text} {url : Text} {hops : ℕ}
    (h : s.AtHop d config chain [url] before url after hops) {response : Response}
    (hresponse : site url = .ok response) (attempt n : ℕ) :
    (s.seedFetched d url hops (response.outcome url attempt)).Seeks d config seed chain ∧
      ((s.seedFetched d url hops (response.outcome url attempt)).Arrived d chain ∨
        (s.seedFetched d url hops (response.outcome url attempt)).Nearer d config
          (toLex (hops, n))) := by
  have hredirects := (h.chain_eq ▸ hchain).suffix
  cases hredirects with
  | page hpage hstatus =>
    obtain rfl := Except.ok.inj (hpage.symm.trans hresponse)
    have hnone : ∀ result : FetchResult, result.status ∉ redirectStatuses →
        redirectTarget d url result = .ok none := by
      intro result hresult
      rw [redirectTarget, if_neg hresult]
    simp only [Response.outcome, seedFetched]
    rw [hnone _ hstatus]
    obtain ⟨harrived, hseeks⟩ := arrived_landed _ hrobots h hnormal hkeys
    exact ⟨hseeks, .inl harrived⟩
  | @hop _ next rest htarget hrest =>
    obtain ⟨response', result, hpage, houtcome, hnext⟩ := Site.page_of_target htarget attempt
    obtain rfl := Except.ok.inj (hpage.symm.trans hresponse)
    rw [houtcome]
    have hroom : ∃ left, hops = left + 1 := by
      have hhops := h.hops_eq
      rw [h.chain_eq, List.length_append, List.length_cons, List.length_cons] at hlength
      exact ⟨hops - 1, by omega⟩
    obtain ⟨left, rfl⟩ := hroom
    obtain ⟨hseeks, hless⟩ := seeks_hop hsilent result h hkeys n rfl
    simp only [seedFetched, hnext]
    exact ⟨hseeks, .inr hless⟩

omit hsilent hrobots in
theorem seeks_begin (hhead : chain.head? = normalize d.unicode seed)
    (hne : s = create config seed) :
    (s.begin d).Seeks d config seed chain ∧
      (s.begin d).Nearer d config (toLex (config.maxSeedRedirects.toNat + 1, 0)) := by
  subst hne
  cases hchain' : chain with
  | nil =>
    subst hchain'
    cases hchain
  | cons start after =>
    rw [hchain', List.head?_cons] at hhead
    obtain ⟨key, hkey⟩ := hkeys.keyed start (by rw [hchain']; exact List.mem_cons_self ..)
    obtain ⟨frontier, hmark, hseen⟩ := markSeen_of_key (f := {}) hkey
    unfold begin
    rw [show normalize d.unicode (create config seed).seed = some start from hhead.symm]
    dsimp only
    refine exec_of_ends (Q := fun t => t.Seeks d config seed (start :: after) ∧
      t.Nearer d config (toLex (config.maxSeedRedirects.toNat + 1, 0))) ?_
    rw [ends_markSeen]
    refine ⟨fun new frontier' h => ?_, fun e h => ?_⟩
    · obtain ⟨rfl, rfl⟩ := Prod.mk.inj (Except.ok.inj (h.symm.trans hmark))
      have hhop : ({ create config seed with
          start, crawler := { (create config seed).crawler with frontier := frontier' } } :
          CrawlRun).AtHop d config (start :: after) [] [] start after
            config.maxSeedRedirects.toNat :=
        { config_eq := rfl
          start := rfl
          chain_eq := rfl
          hops_eq := rfl
          seen := by
            intro key' hkey'
            rw [show frontier'.seen = insert key ∅ from hseen, Finset.mem_insert] at hkey'
            rcases hkey' with rfl | hold
            · exact ⟨start, List.mem_singleton_self _, hkey⟩
            · exact absurd hold (Finset.notMem_empty _)
          reported := rfl
          fetched_eq := rfl }
      exact ⟨seeks_fetchSeed hhop, nearer_fetchSeed ..⟩
    · rw [show (create config seed).crawler.frontier = {} from rfl, hmark] at h
      cases h

omit hrobots hchain hlength hnormal hkeys hsilent in
theorem seeks_past (hphase : s.phase.isSeeding = false) :
    s.Seeks d config seed chain ↔ ∀ message, s.phase ≠ .done (.seedError message) := by
  unfold Seeks
  cases hp : s.phase with
  | created | guarding _ _ | fetching _ _ _ | robotsGuarding _ _ _ _ | robotsFetching _ _ _ _ =>
    rw [hp] at hphase
    cases hphase
  | joining | leaving _ => simp
  | done result => cases result <;> simp

omit hrobots hchain hlength hnormal hkeys hsilent in
/-- Past the seed there is no `SeedError` any more. -/
theorem Seeks.step_past (h : s.Seeks d config seed chain) (hphase : s.phase.isSeeding = false)
    {act : CrawlerAct} (hs : s.step d act = some s') : s'.Seeks d config seed chain := by
  rw [seeks_past (step_past_seed hphase hs)]
  rw [seeks_past hphase] at h
  intro message hdone
  rcases step_phase hphase hs with hsame | ⟨cancelled, hleaving⟩ | hover | ⟨cancelled, rfl⟩
  · exact h message (hsame.symm.trans hdone)
  · rw [hleaving] at hdone
    cases hdone
  · rw [hover] at hdone
    cases hdone
  · simp only [CrawlRun.leave, CrawlRun.finish, RunPhase.done.injEq] at hdone
    split at hdone
    · cases hdone
    · split at hdone <;> cases hdone

/-- Every step before the pool is a step along the chain. -/
theorem Seeks.step_seed (hhead : chain.head? = normalize d.unicode seed)
    (h : s.Seeks d config seed chain) (hphase : s.phase.isSeeding = true) {act : CrawlerAct}
    (hact : site.Unrefused s act) (hs : s.step d act = some s') :
    s'.Seeks d config seed chain ∧ (s'.Arrived d chain ∨ s'.Nearer d config (s.ahead d config)) := by
  cases act with
  | begin =>
    simp only [CrawlRun.step] at hs
    split at hs <;> cases hs
    rename_i hcreated
    have hcreate : s = create config seed := by
      unfold Seeks at h
      rwa [hcreated] at h
    have hahead : s.ahead d config = toLex (config.maxSeedRedirects.toNat + 1, 0) := by
      simp [ahead, hcreated]
    rw [hahead]
    exact (seeks_begin hchain hlength hnormal hkeys hhead hcreate).imp_right .inr
  | guarded reason =>
    simp only [CrawlRun.step, guarded] at hs
    split at hs
    · rename_i url hops hguarding
      cases reason with
      | some reason => exact hact.2.elim
      | none =>
        cases hs
        unfold Seeks at h
        rw [hguarding] at h
        obtain ⟨before, after, hhop⟩ := h
        have hpassed : (s.note [.passed url]).AtHop d config chain [] before url after hops :=
          { hhop with
            fetched_eq := by
              rw [← hhop.fetched_eq]
              show seedUrls (s.log ++ [.passed url]) = seedUrls s.log
              rw [seedUrls, List.filterMap_append]
              exact List.append_nil _ }
        refine ⟨⟨before, after, hpassed.startFetch⟩, .inr ?_⟩
        have hahead : s.ahead d config = toLex (hops, d.maxAttempts + 1) := by
          simp [ahead, hguarding]
        rw [hahead]
        exact ⟨rfl, Prod.Lex.toLex_lt_toLex.mpr
          (.inr ⟨rfl, by show d.maxAttempts - 1 < _; omega⟩)⟩
    · cases hs
  | guardRaised e => exact hact.2.elim
  | attempted answer =>
    simp only [CrawlRun.step, attempted] at hs
    split at hs
    · rename_i url hops attempt hfetching
      unfold Seeks at h
      rw [hfetching] at h
      obtain ⟨before, after, hhop⟩ := h
      have hgives : site.Gives url answer := by
        simpa [Site.Unrefused, Site.Serves, hfetching] using hact.1
      have hahead : s.ahead d config = toLex (hops, d.maxAttempts - attempt) := by
        simp [ahead, hfetching]
      rw [hahead]
      cases answer with
      | retry =>
        dsimp only at hs
        split at hs <;> cases hs
        rename_i hmore
        refine ⟨⟨before, after, { hhop with fetched_eq := ?_ }⟩, .inr ?_⟩
        · rw [← hhop.fetched_eq]
          show seedUrls (s.log ++ [.request url]) = seedUrls s.log
          rw [seedUrls, List.filterMap_append]
          exact List.append_nil _
        · exact ⟨rfl, Prod.Lex.toLex_lt_toLex.mpr
            (.inr ⟨rfl, by show d.maxAttempts - (attempt + 1) < _; omega⟩)⟩
      | fetched response =>
        cases hs
        exact seeks_seedFetched hsilent hrobots hchain hlength hnormal hkeys hhop hgives attempt _
      | raised e =>
        have hredirects := (hhop.chain_eq ▸ hchain).suffix
        have herror : site url = .error e := hgives
        cases hredirects with
        | page hpage hstatus =>
          rw [herror] at hpage
          cases hpage
        | hop htarget hrest =>
          obtain ⟨response, result, hpage, -⟩ := Site.page_of_target htarget attempt
          rw [herror] at hpage
          cases hpage
    · cases hs
  | robotsGuarded _ | robotsGuardRaised _ | robotsAnswered _ =>
    simp only [CrawlRun.step, robotsGuarded, robotsGuardRaised, robotsAnswered] at hs
    split at hs
    · rename_i hrobots
      unfold Seeks at h
      rw [hrobots] at h
      exact h.elim
    · cases hs
  | take _ | locked _ | slept _ | workerAttempted _ _ | joined | failed | left =>
    simp only [CrawlRun.step, take, locked, slept, workerAttempted, joined, failed,
      CrawlRun.left] at hs
    split at hs
    · simp_all [RunPhase.isSeeding]
    · cases hs
  | workerCancelled w =>
    have hnone : s.cancelling = false := by
      unfold cancelling
      split
      · rename_i hp
        rw [hp] at hphase
        cases hphase
      · rename_i hp
        rw [hp] at hphase
        cases hphase
      · rfl
    simp only [CrawlRun.step, workerCancelled, hnone] at hs
    split at hs <;> simp at hs
  | cancel => exact hact.1.elim

omit hkeys hlength hrobots hsilent hnormal in
/-- As long as the chain has not been followed to its end, the next step along it is possible. -/
theorem Seeks.can_step (h : s.Seeks d config seed chain) (hphase : s.phase.isSeeding = true) :
    ∃ act s', site.Unrefused s act ∧ s.step d act = some s' := by
  unfold Seeks at h
  cases hp : s.phase with
  | created =>
    exact ⟨.begin, s.begin d, ⟨trivial, trivial⟩, by simp [CrawlRun.step, hp]⟩
  | guarding url hops =>
    exact ⟨.guarded none, (s.note [.passed url]).startFetch url hops, ⟨trivial, trivial⟩, by
      simp [CrawlRun.step, guarded, hp]⟩
  | fetching url hops attempt =>
    rw [hp] at h
    obtain ⟨before, after, hhop⟩ := h
    have hredirects := (hhop.chain_eq ▸ hchain).suffix
    have hanswer : ∃ response, site url = .ok response := by
      cases hredirects with
      | page hpage hstatus => exact ⟨_, hpage⟩
      | hop htarget hrest =>
        obtain ⟨response, -, hpage, -⟩ := Site.page_of_target htarget attempt
        exact ⟨response, hpage⟩
    obtain ⟨response, hresponse⟩ := hanswer
    refine ⟨.attempted (.fetched response),
      s.seedFetched d url hops (response.outcome url attempt), ⟨?_, trivial⟩, ?_⟩
    · simpa [Site.Serves, hp, Site.Gives] using hresponse
    · simp [CrawlRun.step, attempted, hp]
  | robotsGuarding url result robotsUrl left | robotsFetching url result robotsUrl left =>
    rw [hp] at h
    exact h.elim
  | joining | leaving _ | done _ =>
    rw [hp] at hphase
    cases hphase

theorem followsSeed_of_unrepeated (hhead : chain.head? = normalize d.unicode seed) :
    FollowsSeed d site config seed chain := by
  have hcreate : (create config seed).Seeks d config seed chain := rfl
  constructor
  · intro as s hmeets hrun message hdone
    have hseeks := Meets.invariant (P := fun s => s.Seeks d config seed chain) ?_ hmeets hcreate hrun
    · rw [seeks_past (by rw [hdone]; rfl)] at hseeks
      exact hseeks message hdone
    · intro s act s' hs hact hstep
      cases hphase : s.phase.isSeeding with
      | true =>
        exact (hs.step_seed hsilent hrobots hchain hlength hnormal hkeys hhead hphase hact hstep).1
      | false => exact hs.step_past hphase hstep
  · refine Inevitable.of_measure (I := fun s => s.Seeks d config seed chain ∧
      s.phase.isSeeding = true) (ahead d config) ?_ ?_ ⟨hcreate, rfl⟩
    · exact fun s hs _ => hs.1.can_step hchain hs.2
    · intro s act s' hs _ hact hstep
      obtain ⟨hseeks, harrived | ⟨hphase, hless⟩⟩ :=
        hs.1.step_seed hsilent hrobots hchain hlength hnormal hkeys hhead hs.2 hact hstep
      · exact .inl harrived
      · exact .inr ⟨⟨hseeks, hphase⟩, hless⟩

end Chain

end Silent

theorem seedUrls_sublist (log : List Event) :
    (seedUrls log).Sublist (log.filterMap Event.fetched?) := by
  induction log with
  | nil => exact List.Sublist.refl _
  | cons e log ih =>
    unfold seedUrls at ih ⊢
    cases e with
    | passed url | request url | ready url scope policy => exact ih
    | fetch url pool =>
      cases pool with
      | false => exact ih.cons_cons url
      | true => exact ih.cons url

/-- What the seed chain has fetched was marked, one key at a time. -/
theorem unrepeated_of_arrived (hinv : s.Inv d) (h : s.Arrived d chain) :
    Unrepeated d.unicode chain := by
  have hsub : chain.Sublist (s.issued ++ s.crawler.frontier.queue) := by
    have hfetched := seedUrls_sublist s.log
    rw [h.fetched] at hfetched
    exact (hfetched.trans (List.sublist_append_right _ _)).trans (List.sublist_append_left _ _)
  constructor
  · intro url hurl
    obtain ⟨key, -, hkey⟩ := hinv.core.fresh.seen url (hsub.subset hurl)
    exact ⟨key, hkey⟩
  · rw [List.Nodup, List.pairwise_map]
    exact hinv.core.fresh.distinct.sublist hsub

end CrawlRun

theorem normalized_redirects {site : Site} {d : Deps} {chain : List Text}
    (hchain : site.Redirects d chain) {url : Text} (hhead : chain.head? = some url)
    (hurl : Normalized d.unicode url) : ∀ next ∈ chain, Normalized d.unicode next := by
  induction hchain generalizing url with
  | page hpage hstatus =>
    obtain rfl := Option.some.inj hhead
    intro next hnext
    obtain rfl := List.mem_singleton.mp hnext
    exact hurl
  | @hop first second rest htarget hrest ih =>
    obtain rfl := Option.some.inj hhead
    obtain ⟨response, result, -, -, hnext⟩ := Site.page_of_target htarget 1
    intro next hmem
    rcases List.mem_cons.mp hmem with rfl | hmem
    · exact hurl
    · exact ih rfl (CrawlRun.normalized_redirectTarget hnext) next hmem

/-- A chain of redirects that is no longer than `max_seed_redirects` allows is followed to its end, and
never refused, if and only if no two of its URLs have the same canonical key. -/
theorem followsSeed_iff {d : Deps} {lexbor : Lexbor} {site : Site} {config : CrawlConfig}
    {seed : Text} {chain : List Text} (hextract : d.extract = extractLinks d.unicode lexbor)
    (hsilent : ∀ pages page, d.reporter pages page = none)
    (hrobots : config.respectRobots = false) (hchain : site.Redirects d chain)
    (hhead : chain.head? = normalize d.unicode seed)
    (hlength : (chain.length : ℤ) ≤ config.maxSeedRedirects + 1) :
    CrawlRun.FollowsSeed d site config seed chain ↔ CrawlRun.Unrepeated d.unicode chain := by
  constructor
  · rintro ⟨-, hinevitable⟩
    obtain ⟨t, hreaches, harrived⟩ := hinevitable.reaches
    exact CrawlRun.unrepeated_of_arrived
      (CrawlRun.inv_reaches (normalLinks_of_lexbor hextract) hreaches) harrived
  · intro hkeys
    have hnormal : ∀ next ∈ chain, Normalized d.unicode next := by
      cases hstart : normalize d.unicode seed with
      | none =>
        rw [hstart] at hhead
        cases hchain <;> cases hhead
      | some start => exact normalized_redirects hchain (hhead.trans hstart) ⟨seed, hstart⟩
    exact CrawlRun.followsSeed_of_unrepeated hsilent hrobots hchain (by omega) hnormal hkeys hhead

/-- The redirect from the home page to the next one is followed. -/
theorem followsSeed_redirected :
    CrawlRun.FollowsSeed bodyIsLink redirectSite { respectRobots := false } homeUrl
      [homeUrl, nextUrl] := by
  have hextract : bodyIsLink.extract = extractLinks bodyIsLink.unicode fun body =>
      { base := none, hrefs := [some (body.map fun byte => Char.ofNat byte.toNat)] } := rfl
  have hchain : redirectSite.Redirects bodyIsLink [homeUrl, nextUrl] := by
    have htarget : redirectSite.target bodyIsLink homeUrl = some nextUrl := by decide +kernel
    have hpage : redirectSite nextUrl = .ok (linkPage homeUrl) := by decide +kernel
    exact .hop htarget (.page hpage (by decide))
  have hkeys : CrawlRun.Unrepeated bodyIsLink.unicode [homeUrl, nextUrl] := by
    have hhome : canonicalKey bodyIsLink.unicode homeUrl = .ok homeUrl := by decide +kernel
    have hnext : canonicalKey bodyIsLink.unicode nextUrl = .ok nextUrl := by decide +kernel
    constructor
    · intro url hurl
      rcases List.mem_pair.mp hurl with rfl | rfl
      · exact ⟨homeUrl, hhome⟩
      · exact ⟨nextUrl, hnext⟩
    · rw [List.map_cons, List.map_singleton, hhome, hnext]
      decide
  exact (followsSeed_iff hextract (fun _ _ => rfl) rfl hchain (by decide +kernel)
    (by decide)).mpr hkeys

def escapedUrl : Text := "http://h/%7Ea".toList

def tildeUrl : Text := "http://h/~a".toList

/-- A site that redirects the escaped spelling of a page to the plain one. -/
def respellingSite : Site := fun url =>
  if url = escapedUrl then .ok (.page 301 [] [] (some tildeUrl)) else .ok (linkPage homeUrl)

/-- The two spellings differ, the second answers with a page, and yet the redirect is a cycle. -/
theorem not_followsSeed_respelled :
    respellingSite.Redirects bodyIsLink [escapedUrl, tildeUrl] ∧ [escapedUrl, tildeUrl].Nodup ∧
    normalize bodyIsLink.unicode escapedUrl = some escapedUrl ∧
    normalize bodyIsLink.unicode tildeUrl = some tildeUrl ∧
    (∃ s, run (CrawlRun.step bodyIsLink) (CrawlRun.create { respectRobots := false } escapedUrl)
      [.begin, .guarded none, .attempted (.fetched (.page 301 [] [] (some tildeUrl)))] = some s ∧
      s.phase = .done (.seedError "seed redirect cycle at http://h/~a")) ∧
    ¬CrawlRun.FollowsSeed bodyIsLink respellingSite { respectRobots := false } escapedUrl
      [escapedUrl, tildeUrl] := by
  have htarget : respellingSite.target bodyIsLink escapedUrl = some tildeUrl := by decide +kernel
  have hpage : respellingSite tildeUrl = .ok (linkPage homeUrl) := by decide +kernel
  have hmeets : Meets (CrawlRun.step bodyIsLink) respellingSite.Unrefused
      (CrawlRun.create { respectRobots := false } escapedUrl)
      [.begin, .guarded none, .attempted (.fetched (.page 301 [] [] (some tildeUrl)))] := by
    decide +kernel
  have hrun : ((run (CrawlRun.step bodyIsLink)
      (CrawlRun.create { respectRobots := false } escapedUrl)
      [.begin, .guarded none, .attempted (.fetched (.page 301 [] [] (some tildeUrl)))]).any fun s =>
        decide (s.result = some (.seedError "seed redirect cycle at http://h/~a"))) = true := by
    decide +kernel
  obtain ⟨s, hs, hresult⟩ := (Option.any_eq_true _ _).mp hrun
  have hdone := CrawlRun.phase_of_result (of_decide_eq_true hresult)
  exact ⟨.hop htarget (.page hpage (by decide)), by decide, by decide +kernel, by decide +kernel,
    ⟨s, hs, hdone⟩, fun hfollows => hfollows.1 _ s hmeets hs _ hdone⟩

end UrlCrawler
