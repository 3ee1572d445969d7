import UrlCrawler.Core.Site

/-! # The search the workers make

The frontier with the reported pages is a search of the site: what is reported is done, what is
queued or in progress is pending. The changes the workers make to the crawler keep it one.
-/
set_option autoImplicit false

namespace UrlCrawler
open Worklist

/-! ## Growing the frontier -/

section Grows
variable {u : Unicode} {P : Text → Prop} {f f' : Frontier} {next : Text → Text → Prop}
  {root : Text} {before : Set Text} {done rest : List Text}

theorem sound_grows (hg : Frontier.Grows u P f f')
    (hnormal : ∀ url, P url → Normalized u url)
    (hnext : ∀ url, P url → ∃ page key, Reach (Keyed u) next root key ∧ Keyed u page key ∧
      next page url)
    (h : Sound (Keyed u) next root before f.seen (rest ++ f.queue)) :
    Sound (Keyed u) next root before f'.seen (rest ++ f'.queue) := by
  induction hg with
  | refl => exact h
  | dropped g _ ih => exact ih
  | added g url key _ hurl hkey _ ih =>
    obtain ⟨page, key', hreach, hpage, hlead⟩ := hnext url hurl
    have hgrown := ih.discover hreach hpage hlead ⟨hnormal url hurl, hkey⟩
    rw [List.append_assoc] at hgrown
    exact hgrown

theorem search_grows (hg : Frontier.Grows u P f f')
    (hnormal : ∀ url, P url → Normalized u url)
    (h : Search (Keyed u) next f.seen done (rest ++ f.queue)) :
    Search (Keyed u) next f'.seen done (rest ++ f'.queue) := by
  induction hg with
  | refl => exact h
  | dropped g _ ih => exact ih
  | added g url key _ hurl hkey _ ih =>
    have hgrown := ih.discover (v := url) ⟨hnormal url hurl, hkey⟩
    rw [List.append_assoc] at hgrown
    exact hgrown

end Grows

namespace Crawler
variable {d : Deps} {site : Site} {scope : HostScope} {policy : RobotsPolicy} {final : Text}
  {before : Set Text} {c c' : Crawler} {busy busy' : List Text}

/-- The URLs of the reported pages. -/
def reported (c : Crawler) : List Text := c.reports.map PageResult.url

/-- The crawler has claimed as many pages as it may. -/
def Capped (c : Crawler) : Prop := ∃ max ∈ c.config.maxPages, max ≤ (c.claimed : ℤ)

theorem claim_of_stopping (h : c.stopping = true ∨ c.Capped) :
    c.claim = (.dropped, { c with stopping := true }) := by
  unfold claim
  by_cases hstop : c.stopping = true
  · rw [if_pos hstop, ← hstop]
  · rw [if_neg hstop]
    exact if_pos (h.resolve_left hstop)

theorem claim_of_room (hstop : ¬c.stopping = true) (hroom : ¬c.Capped) : c.claim =
    (if c.robots.delays then .waits else .fetches, { c with claimed := c.claimed + 1 }) := by
  unfold claim
  rw [if_neg hstop]
  exact if_neg hroom

/-- The crawler searches the site from `final` on, with `busy` in progress. Once it is stopping,
what is queued is dropped and the search is not completed. -/
structure Explores (d : Deps) (site : Site) (scope : HostScope) (policy : RobotsPolicy)
    (final : Text) (before : Set Text) (c : Crawler) (busy : List Text) : Prop where
  scope_eq : c.scope = some scope
  robots_eq : c.robots = policy
  fresh : c.frontier.Fresh d.unicode (c.reported ++ busy)
  normalized : ∀ url ∈ c.reported ++ busy ++ c.frontier.queue, Normalized d.unicode url
  sound : Sound (Keyed d.unicode) (site.Leads d scope policy) final before c.frontier.seen
    (busy ++ c.frontier.queue)
  search : c.stopping = false → Search (Keyed d.unicode) (site.Leads d scope policy)
    c.frontier.seen c.reported (busy ++ c.frontier.queue)
  stopped : c.stopping = true → c.aborted = true ∨ c.Capped
  claimed : c.claimed = c.reports.length + busy.length

theorem Explores.perm (h : Explores d site scope policy final before c busy)
    (hp : busy.Perm busy') : Explores d site scope policy final before c busy' where
  scope_eq := h.scope_eq
  robots_eq := h.robots_eq
  fresh := h.fresh.perm ((hp.append_left _).append_right _) (Finset.Subset.refl _)
  normalized := fun url hurl =>
    h.normalized url ((((hp.append_left _).append_right _).mem_iff).mpr hurl)
  sound := h.sound.sub (hp.symm.append_right _).subset
  search := fun ha => (h.search ha).sub (((hp.append_right _).append_left _).subset)
    (List.Subset.refl _)
  stopped := h.stopped
  claimed := hp.length_eq ▸ h.claimed

/-- A page is handled: its URL is no longer in progress, and its links are seen. -/
theorem Explores.handled (hd : d.NormalLinks) {url : Text} {attempts : ℕ}
    (h : Explores d site scope policy final before c (url :: busy))
    (hf : Follows d (site.links d url) c c')
    (hr : Reported d url (site.fetched url attempts) c c') :
    Explores d site scope policy final before c' busy := by
  obtain ⟨hreports, hseen⟩ := hr
  rw [Site.links_eq] at hseen
  have hreported : c'.reported = c.reported ++ [url] := by
    simp [reported, hreports]
  have hnormal : ∀ link, link ∈ site.links d url ∧ c.Admits d link → Normalized d.unicode link :=
    fun link hlink => CrawlRun.normalized_foundLinks hd link hlink.1
  have hadmits : ∀ link, c.Admits d link ↔ allows d scope policy link = .ok true := by
    intro link
    constructor
    · rintro ⟨scope', hscope', hallowed⟩
      obtain rfl := Option.some.inj (h.scope_eq.symm.trans hscope')
      exact h.robots_eq ▸ hallowed
    · exact fun hallowed => ⟨scope, h.scope_eq, h.robots_eq ▸ hallowed⟩
  have hmoved : ∀ more : List Text,
      (c.reported ++ url :: busy ++ more).Perm (c'.reported ++ busy ++ more) := by
    intro more
    rw [hreported, List.append_assoc c.reported [url] busy]
    rfl
  exact
    { scope_eq := hf.scope.trans h.scope_eq
      robots_eq := hf.robots.trans h.robots_eq
      fresh := (h.fresh.grows hf.frontier).perm (hmoved _) (Finset.Subset.refl _)
      normalized := fun next hnext => by
        rcases List.mem_append.mp hnext with hold | hqueued
        · refine h.normalized next (List.mem_append_left _ ?_)
          have hold' := (hmoved []).mem_iff.mpr (by simpa using hold)
          simpa using hold'
        · rcases hf.frontier.queue next hqueued with hold | hlink
          · exact h.normalized next (List.mem_append_right _ hold)
          · exact hnormal next hlink
      sound := by
        obtain ⟨key, hkey, hreach⟩ := h.sound.pending url (by simp)
        refine (sound_grows hf.frontier hnormal ?_ h.sound).sub fun next hnext => ?_
        · exact fun link hlink => ⟨url, key, hreach, hkey, hlink.1, (hadmits link).mp hlink.2⟩
        · exact List.mem_cons_of_mem _ hnext
      search := fun ha => by
        have hbefore : c.stopping = false := by
          cases hc : c.stopping with
          | false => rfl
          | true => exact absurd (hf.stopping hc) (by simp [ha])
        rw [hreported]
        refine (search_grows hf.frontier hnormal (h.search hbefore)).settle
          (fun next hnext => hnext) fun link hlink => ?_
        obtain ⟨key, hkey, hok⟩ := hseen link hlink.1 ((hadmits link).mpr hlink.2)
        exact ⟨key, hkey, CrawlRun.normalized_foundLinks hd link hlink.1, hok⟩
      stopped := fun hc => by
        rcases hf.tripped hc with hbefore | habort
        · rcases h.stopped hbefore with habort | ⟨max, hmax, hle⟩
          · exact .inl (hf.aborted habort)
          · exact .inr ⟨max, hf.config ▸ hmax, hf.claimed ▸ hle⟩
        · exact .inl habort
      claimed := by
        have hclaimed := h.claimed
        rw [List.length_cons] at hclaimed
        rw [hf.claimed, hreports, List.length_append, List.length_singleton]
        omega }

theorem Explores.taskDone (h : Explores d site scope policy final before c busy) :
    Explores d site scope policy final before { c with frontier := c.frontier.taskDone } busy :=
  { h with fresh := ⟨h.fresh.distinct, h.fresh.seen⟩ }

/-- A worker takes a URL off the queue and claims it. -/
theorem Explores.taken (h : Explores d site scope policy final before c busy) {url : Text}
    {frontier : Frontier} (hget : c.frontier.get = some (url, frontier)) :
    Explores d site scope policy final before { c with frontier, claimed := c.claimed + 1 }
      (url :: busy) := by
  obtain ⟨hqueue, -, hseen⟩ := Frontier.get_spec hget
  have hpending : (busy ++ c.frontier.queue).Perm (url :: busy ++ frontier.queue) := by
    rw [hqueue]
    exact List.perm_middle
  exact
    { scope_eq := h.scope_eq
      robots_eq := h.robots_eq
      fresh := (h.fresh.get hget).perm (List.perm_middle.symm.append_right _)
        (Finset.Subset.refl _)
      normalized := fun next hnext => by
        refine h.normalized next ?_
        rw [List.append_assoc] at hnext ⊢
        exact (hpending.append_left _).mem_iff.mpr hnext
      sound := by
        show Sound _ _ final before frontier.seen _
        rw [hseen]
        exact h.sound.sub hpending.symm.subset
      search := fun hc => by
        show Search _ _ frontier.seen c.reported _
        rw [hseen]
        exact (h.search hc).sub (hpending.append_left _).subset (List.Subset.refl _)
      stopped := fun hc => (h.stopped hc).imp_right fun ⟨max, hmax, hle⟩ =>
        ⟨max, hmax, hle.trans (Int.ofNat_le.mpr (Nat.le_succ _))⟩
      claimed := by
        have hclaimed := h.claimed
        show c.claimed + 1 = c.reports.length + (url :: busy).length
        rw [List.length_cons]
        omega }

/-- A crawler that is stopping, or stops now, drops the URL it has taken. -/
theorem Explores.dropped (h : Explores d site scope policy final before c busy) {url : Text}
    {frontier : Frontier} (hget : c.frontier.get = some (url, frontier))
    (hstop : c.stopping = true ∨ c.Capped) :
    Explores d site scope policy final before { c with frontier, stopping := true } busy := by
  obtain ⟨hqueue, -, hseen⟩ := Frontier.get_spec hget
  have hfresh := (h.fresh.get hget).sublist (List.sublist_cons_self url (c.reported ++ busy))
  have hsub : frontier.queue.Sublist c.frontier.queue := by
    rw [hqueue]
    exact List.sublist_cons_self ..
  exact
    { scope_eq := h.scope_eq
      robots_eq := h.robots_eq
      fresh := hfresh
      normalized := fun next hnext => h.normalized next
        ((hsub.append_left _).subset hnext)
      sound := by
        show Sound _ _ final before frontier.seen _
        rw [hseen]
        exact h.sound.sub (hsub.append_left _).subset
      search := fun hc => by cases hc
      stopped := fun _ => hstop.elim h.stopped .inr
      claimed := h.claimed }

end Crawler
end UrlCrawler
