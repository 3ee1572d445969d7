import UrlCrawler.Core.PoolInvariant

/-! # What a run sends

The two promises a run keeps towards the servers, read off its log: no request leaves the hosts a
guard has let pass, and no page is fetched twice or outside scope and policy.
-/
set_option autoImplicit false

namespace UrlCrawler
open Execution
variable {d : Deps} {lexbor : Lexbor} {config : CrawlConfig} {seed : Text} {s : CrawlRun}

/-! ## Vetted hosts -/

/-- Where both the seed chain and the robots loader have the guard, every request is for a URL whose
host is that of a URL the guard let pass before. -/
theorem requests_vetted (hextract : d.extract = extractLinks d.unicode lexbor)
    (hseed : d.seedGuard = true) (hrobots : d.robotsGuard = true)
    (h : Reaches (CrawlRun.step d) (CrawlRun.create config seed) s) {url : Text}
    {pre post : List Event} (hlog : s.log = pre ++ .request url :: post) :
    ∃ vetted, .passed vetted ∈ pre ∧ hostOf d.unicode url = hostOf d.unicode vetted := by
  have hinv := CrawlRun.inv_reaches (normalLinks_of_lexbor hextract) h
  exact hinv.core.log pre _ post hlog hseed hrobots

/-- The float `0.25`. -/
def quarterSecond : WithTop ℚ := (1 / 4 : ℚ)

/-- A crawler whose pages are their only link: the body is the `href`. -/
def bodyIsLink : Deps where
  unicode := .ascii
  extract := extractLinks .ascii fun body =>
    { base := none, hrefs := [some (body.map fun byte => Char.ofNat byte.toNat)] }
  reporter := fun _ _ => none
  float := fun text =>
    if text = "inf".toList then some ⊤
    else if text = "0.25".toList then some quarterSecond
    else none
  maxAttempts := 2
  seedGuard := true
  robotsGuard := true

/-- The seed links to `/b`; its request and that of `/b` are retried, `robots.txt` is missing. -/
def retriedRun : List CrawlerAct :=
  [.begin, .guarded none, .attempted .retry,
    .attempted (.fetched (.page 200 [47, 98] "text/html".toList none)),
    .robotsGuarded none, .robotsAnswered (.response 404 none (.ok [])),
    .take 0, .workerAttempted 0 .retry]

theorem requests_vetted_retried :
    ∃ s, Reaches (CrawlRun.step bodyIsLink) (CrawlRun.create {} "http://h/".toList) s ∧
      ∃ pre, s.log = pre ++ [.request "http://h/b".toList] ∧ ∃ vetted, .passed vetted ∈ pre ∧
        hostOf .ascii "http://h/b".toList = hostOf .ascii vetted := by
  have hrun : ((run (CrawlRun.step bodyIsLink) (CrawlRun.create {} "http://h/".toList)
      retriedRun).any fun s => s.log.getLast?.any fun e =>
        match e with
        | .request url => url = "http://h/b".toList
        | _ => false) = true := by
    decide +kernel
  obtain ⟨s, hs, hlast⟩ := (Option.any_eq_true _ _).mp hrun
  obtain ⟨e, he, hrequest⟩ := (Option.any_eq_true _ _).mp hlast
  obtain ⟨pre, hlog⟩ := List.getLast?_eq_some_iff.mp he
  split at hrequest
  · obtain rfl := of_decide_eq_true hrequest
    have hreaches : Reaches (CrawlRun.step bodyIsLink) _ s := ⟨retriedRun, hs⟩
    exact ⟨s, hreaches, pre, hlog, requests_vetted rfl rfl rfl hreaches hlog⟩
  · cases hrequest

/-! ## Bounds of the pool -/

theorem seedUrls_append_of_ready {pre post : List Event} (h : Justified (Licensed d) (pre ++ post))
    {final : Text} {scope : Option HostScope} {policy : RobotsPolicy}
    (hready : .ready final scope policy ∈ pre) : seedUrls (pre ++ post) = seedUrls pre := by
  have hnil : post.filterMap Event.seedFetched? = [] := by
    refine List.filterMap_eq_nil_iff.mpr fun e he => ?_
    obtain ⟨before, after, rfl⟩ := List.append_of_mem he
    rw [← List.append_assoc] at h
    have hlicensed := h _ e after rfl
    match e with
    | .fetch url false => exact absurd (List.mem_append_left _ hready) (hlicensed final scope policy)
    | .fetch url true | .passed _ | .request _ | .ready .. => rfl
  rw [seedUrls, List.filterMap_append, hnil, List.append_nil]
  rfl

/-- The URLs fetched have pairwise different canonical keys. Every fetch of the pool comes after
the scope and the policy were fixed for the final seed URL, is in that scope and allowed by that
policy. -/
theorem fetches_bounded (hextract : d.extract = extractLinks d.unicode lexbor)
    (h : Reaches (CrawlRun.step d) (CrawlRun.create config seed) s) :
    (s.fetchedUrls.Pairwise fun a b => ∃ keyA keyB, canonicalKey d.unicode a = .ok keyA ∧
      canonicalKey d.unicode b = .ok keyB ∧ keyA ≠ keyB) ∧
    ∀ pre url post, s.log = pre ++ .fetch url true :: post → ∃ final scope,
      .ready final (some scope) s.crawler.robots ∈ pre ∧
      (seedUrls s.log).getLast? = some final ∧ s.crawler.scope = some scope ∧
      HostScope.fromUrl d.unicode final = .ok scope ∧
      HostScope.fromUrl d.unicode url = .ok scope ∧ s.crawler.robots.allows url = .ok true := by
  obtain ⟨hcore, -⟩ := CrawlRun.inv_reaches (normalLinks_of_lexbor hextract) h
  constructor
  · have hfetched : s.fetchedUrls.Sublist (s.issued ++ s.crawler.frontier.queue) :=
      (List.sublist_append_right _ _).trans (List.sublist_append_left _ _)
    refine (hcore.fresh.distinct.sublist hfetched).imp_of_mem fun ha hb hne => ?_
    obtain ⟨keyA, -, hkeyA⟩ := hcore.fresh.seen _ (hfetched.subset ha)
    obtain ⟨keyB, -, hkeyB⟩ := hcore.fresh.seen _ (hfetched.subset hb)
    exact ⟨keyA, keyB, hkeyA, hkeyB, fun heq => hne (by rw [hkeyA, hkeyB, heq])⟩
  · intro pre url post hlog
    obtain ⟨final, scope, policy, hready, hlast, hfinal, hurl, hallowed⟩ :=
      hcore.log pre _ post hlog
    obtain ⟨hscope, hpolicy⟩ := hcore.fixed final (some scope) policy
      (hlog ▸ List.mem_append_left _ hready)
    subst hpolicy
    refine ⟨final, scope, hready, ?_, hscope.symm, hfinal, hurl, hallowed⟩
    rw [hlog, seedUrls_append_of_ready (hlog ▸ hcore.log) hready]
    exact hlast

theorem fetches_bounded_retried :
    ∃ s, Reaches (CrawlRun.step bodyIsLink) (CrawlRun.create {} "http://h/".toList) s ∧
      s.fetchedUrls = ["http://h/".toList, "http://h/b".toList] ∧
      s.fetchedUrls.Pairwise fun a b => ∃ keyA keyB, canonicalKey .ascii a = .ok keyA ∧
        canonicalKey .ascii b = .ok keyB ∧ keyA ≠ keyB := by
  have hrun : ((run (CrawlRun.step bodyIsLink) (CrawlRun.create {} "http://h/".toList)
      retriedRun).any fun s =>
        decide (s.fetchedUrls = ["http://h/".toList, "http://h/b".toList])) = true := by
    decide +kernel
  obtain ⟨s, hs, hfetched⟩ := (Option.any_eq_true _ _).mp hrun
  have hreaches : Reaches (CrawlRun.step bodyIsLink) _ s := ⟨retriedRun, hs⟩
  exact ⟨s, hreaches, of_decide_eq_true hfetched, (fetches_bounded rfl hreaches).1⟩

end UrlCrawler
