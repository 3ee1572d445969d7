import UrlCrawler.Core.Handling

/-! # The counters and the report log

`CrawlStats` can be recomputed from the pages reported so far. Handling a page changes counters
before and after it reports, and may raise in between; whatever it ends in, counters and reports
have moved together.
-/
set_option autoImplicit false

namespace UrlCrawler
open Effects

namespace PageResult

def failedAs (kind : FetchErrorKind) (page : PageResult) : Bool := page.error.any (·.kind = kind)

def isRedirect (page : PageResult) : Bool :=
  page.error.isNone && page.status.any (· ∈ redirectStatuses)

/-- The links of the page were extracted from its body. -/
def isExtracted (page : PageResult) : Bool :=
  page.error.isNone && !page.status.any (· ∈ redirectStatuses)

end PageResult

/-- The counters are what one recomputes from `pages`. -/
structure CrawlStats.Tallies (stats : CrawlStats) (pages : List PageResult) : Prop where
  total : stats.pagesTotal = pages.length
  failed : ∀ kind, stats.pagesFailed kind = pages.countP (PageResult.failedAs kind)
  redirects : stats.redirects = pages.countP PageResult.isRedirect
  linksFound : stats.linksFound =
    ((pages.filter PageResult.isExtracted).map fun page => page.links.length).sum
  pagesWithoutLinks : stats.pagesWithoutLinks =
    pages.countP fun page => page.isExtracted && page.links.isEmpty

namespace CrawlStats.Tallies
variable {stats stats' : CrawlStats} {pages : List PageResult}

theorem init : ({} : CrawlStats).Tallies [] := ⟨rfl, fun _ => rfl, rfl, rfl, rfl⟩

/-- `retries` and `duplicates_dropped` are not recomputed from the pages. -/
theorem congr (h : stats.Tallies pages) (hok : stats'.pagesOk = stats.pagesOk)
    (hfailed : stats'.pagesFailed = stats.pagesFailed)
    (hredirects : stats'.redirects = stats.redirects)
    (hlinks : stats'.linksFound = stats.linksFound)
    (hwithout : stats'.pagesWithoutLinks = stats.pagesWithoutLinks) : stats'.Tallies pages where
  total := by
    rw [CrawlStats.pagesTotal, hok, hfailed]
    exact h.total
  failed := hfailed ▸ h.failed
  redirects := hredirects ▸ h.redirects
  linksFound := hlinks ▸ h.linksFound
  pagesWithoutLinks := hwithout ▸ h.pagesWithoutLinks

/-- A page that failed was counted under its kind. -/
theorem failed_page (h : stats.Tallies pages) (page : PageResult) {error : FetchError}
    (hpage : page.error = some error) :
    (stats.countFailed error.kind).Tallies (pages ++ [page]) where
  total := by
    rw [pagesTotal_countFailed, h.total, List.length_append, List.length_singleton]
  failed := fun kind => by
    rw [List.countP_append, ← h.failed kind]
    by_cases hk : kind = error.kind
    · subst hk
      simp [countFailed, PageResult.failedAs, hpage]
    · simp [countFailed, Counter.increment_of_ne _ hk, PageResult.failedAs, hpage, Ne.symm hk]
  redirects := by
    rw [List.countP_append, ← h.redirects]
    simp [countFailed, PageResult.isRedirect, hpage]
  linksFound := by
    rw [List.filter_append, List.map_append, List.sum_append, ← h.linksFound]
    simp [countFailed, PageResult.isExtracted, hpage]
  pagesWithoutLinks := by
    rw [List.countP_append, ← h.pagesWithoutLinks]
    simp [countFailed, PageResult.isExtracted, hpage]

/-- A redirect was counted as a page and as a redirect. -/
theorem redirect_page (h : stats.Tallies pages) (page : PageResult)
    (hpage : page.isRedirect = true) :
    { stats with pagesOk := stats.pagesOk + 1, redirects := stats.redirects + 1 }.Tallies
      (pages ++ [page]) := by
  obtain ⟨hnone, hstatus⟩ := Bool.and_eq_true_iff.mp hpage
  have herror : page.error = none := by simpa using hnone
  have hextracted : page.isExtracted = false := by
    rw [PageResult.isExtracted, hstatus, Bool.not_true, Bool.and_false]
  exact
    { total := by
        have htotal := h.total
        rw [List.length_append, List.length_singleton, ← htotal]
        simp only [CrawlStats.pagesTotal]
        omega
      failed := fun kind => by
        rw [List.countP_append, ← h.failed kind]
        simp [PageResult.failedAs, herror]
      redirects := by
        rw [List.countP_append, ← h.redirects]
        simp [hpage]
      linksFound := by
        rw [List.filter_append, List.map_append, List.sum_append, ← h.linksFound]
        simp [hextracted]
      pagesWithoutLinks := by
        rw [List.countP_append, ← h.pagesWithoutLinks]
        simp [hextracted] }

/-- A page with a body was counted with its links. -/
theorem extracted_page (h : stats.Tallies pages) (page : PageResult)
    (hpage : page.isExtracted = true) :
    { stats with
      pagesOk := stats.pagesOk + 1
      linksFound := stats.linksFound + page.links.length
      pagesWithoutLinks := stats.pagesWithoutLinks + if page.links = [] then 1 else 0 }.Tallies
        (pages ++ [page]) := by
  obtain ⟨hnone, hstatus⟩ := Bool.and_eq_true_iff.mp hpage
  have herror : page.error = none := by simpa using hnone
  have hredirect : page.isRedirect = false := by
    rw [Bool.not_eq_true'] at hstatus
    rw [PageResult.isRedirect, hstatus, Bool.and_false]
  exact
    { total := by
        have htotal := h.total
        rw [List.length_append, List.length_singleton, ← htotal]
        simp only [CrawlStats.pagesTotal]
        omega
      failed := fun kind => by
        rw [List.countP_append, ← h.failed kind]
        simp [PageResult.failedAs, herror]
      redirects := by
        rw [List.countP_append, ← h.redirects]
        simp [hredirect]
      linksFound := by
        rw [List.filter_append, List.map_append, List.sum_append, ← h.linksFound]
        simp [hpage]
      pagesWithoutLinks := by
        rw [List.countP_append, ← h.pagesWithoutLinks]
        simp [hpage, List.countP_cons] }

end CrawlStats.Tallies

namespace Crawler
variable {d : Deps}

/-- The counters of the crawler match its reports. -/
def Tallied (c : Crawler) : Prop := c.stats.Tallies c.reports

/-- `c'` has the reports of `c`, and its counters but for `retries` and `duplicates_dropped`. -/
structure SameTally (c c' : Crawler) : Prop where
  reports : c'.reports = c.reports
  pagesOk : c'.stats.pagesOk = c.stats.pagesOk
  pagesFailed : c'.stats.pagesFailed = c.stats.pagesFailed
  redirects : c'.stats.redirects = c.stats.redirects
  linksFound : c'.stats.linksFound = c.stats.linksFound
  pagesWithoutLinks : c'.stats.pagesWithoutLinks = c.stats.pagesWithoutLinks

theorem SameTally.refl (c : Crawler) : SameTally c c := ⟨rfl, rfl, rfl, rfl, rfl, rfl⟩

theorem SameTally.trans {a b c : Crawler} (h : SameTally a b) (h' : SameTally b c) :
    SameTally a c where
  reports := h'.reports.trans h.reports
  pagesOk := h'.pagesOk.trans h.pagesOk
  pagesFailed := h'.pagesFailed.trans h.pagesFailed
  redirects := h'.redirects.trans h.redirects
  linksFound := h'.linksFound.trans h.linksFound
  pagesWithoutLinks := h'.pagesWithoutLinks.trans h.pagesWithoutLinks

theorem Tallied.same {c c' : Crawler} (h : c.Tallied) (hs : SameTally c c') : c'.Tallied := by
  unfold Tallied
  rw [hs.reports]
  exact CrawlStats.Tallies.congr h hs.pagesOk hs.pagesFailed hs.redirects hs.linksFound
    hs.pagesWithoutLinks

theorem enqueueLinks_same (scope : HostScope) (links : List Text) :
    Within SameTally (enqueueLinks d scope links) := by
  induction links with
  | nil => exact fun c => SameTally.refl c
  | cons link links ih =>
    intro c
    rw [enqueueLinks]
    simp only [ends_bind, ends_get, ends_raiseError]
    refine ⟨fun allowed _ => ?_, fun _ _ => SameTally.refl c⟩
    cases allowed with
    | false => exact ih c
    | true =>
      simp only [if_true, ends_bind, ends_get, ends_raiseError, ends_modify]
      refine ⟨fun frontier _ => ?_, fun _ _ => SameTally.refl c⟩
      have hadded : SameTally c { c with frontier } := ⟨rfl, rfl, rfl, rfl, rfl, rfl⟩
      exact (ih { c with frontier }).mono (fun _ _ => hadded.trans) fun _ _ => hadded.trans

theorem enqueue_same (links : List Text) : Within SameTally (enqueue d links) := by
  refine within_get fun c => ?_
  split
  · exact SameTally.refl c
  · rename_i scope _
    simp only [ends_bind, ends_modify]
    refine (enqueueLinks_same scope links c).mono (fun _ c' h => ?_) fun _ _ h => h
    exact ⟨h.reports, h.pagesOk, h.pagesFailed, h.redirects, h.linksFound, h.pagesWithoutLinks⟩

theorem checkFuse_same (error : FetchError) : Within SameTally (checkFuse error) := by
  refine within_modify fun c => ?_
  split
  · exact SameTally.refl c
  · dsimp only
    split <;> exact ⟨rfl, rfl, rfl, rfl, rfl, rfl⟩

section Silent
variable (hsilent : ∀ pages page, d.reporter pages page = none)
include hsilent

/-- However handling a page ends, the counters match the reports. -/
theorem handle_tallied (url : Text) (outcome : FetchOutcome) {c : Crawler} (h : c.Tallied) :
    Ends (handle d url outcome) c (fun _ c' => c'.Tallied) fun _ c' => c'.Tallied := by
  cases outcome with
  | error error =>
    simp only [handle, countRetries, countFailed, ends_bind, ends_modify, ends_report, hsilent]
    refine ⟨fun _ => ?_, fun _ he => by cases he⟩
    have hfailed := h.failed_page
      { url, status := error.status, links := [], error := some error } rfl
    refine (checkFuse_same error _).mono (fun _ _ hs => Tallied.same ?_ hs)
      fun _ _ hs => Tallied.same ?_ hs
    all_goals exact hfailed.congr rfl rfl rfl rfl rfl
  | ok result =>
    simp only [handle, countRetries, ends_bind, ends_modify, ends_raiseError]
    refine ⟨fun found _ => ?_, fun _ _ => CrawlStats.Tallies.congr h rfl rfl rfl rfl rfl⟩
    split
    · rename_i hstatus
      simp only [countRedirect, countOk, ends_bind, ends_modify, ends_report, hsilent]
      refine ⟨fun _ => ?_, fun _ he => by cases he⟩
      have hpage := h.redirect_page
        { url, status := some result.status, links := found } (by simpa [PageResult.isRedirect])
      refine (enqueue_same found _).mono (fun _ _ hs => Tallied.same ?_ hs)
        fun _ _ hs => Tallied.same ?_ hs
      all_goals exact hpage.congr rfl rfl rfl rfl rfl
    · rename_i hstatus
      simp only [countLinks, countOk, ends_bind, ends_modify, ends_report, hsilent]
      refine ⟨fun _ => ?_, fun _ he => by cases he⟩
      have hpage := h.extracted_page
        { url, status := some result.status, links := found } (by simpa [PageResult.isExtracted])
      refine (enqueue_same found _).mono (fun _ _ hs => Tallied.same ?_ hs)
        fun _ _ hs => Tallied.same ?_ hs
      all_goals exact hpage.congr rfl rfl rfl rfl rfl

/-- However a worker's round ends, the counters match the reports. -/
theorem work_tallied (url : Text) (fetched : Except Exn FetchOutcome) {c : Crawler}
    (h : c.Tallied) :
    Ends (work d url fetched) c (fun _ c' => c'.Tallied) fun _ c' => c'.Tallied := by
  have hunexpected : ∀ (e : Exn) (c : Crawler), c.Tallied →
      Ends (if e.brokenPipe then throw e else handleUnexpected d url e) c
        (fun _ c' => c'.Tallied) fun _ c' => c'.Tallied := by
    intro e c h
    split
    · exact h
    · simp only [handleUnexpected, countFailed, ends_bind, ends_modify, ends_report, hsilent]
      refine ⟨fun _ => ?_, fun _ he => by cases he⟩
      let error : FetchError :=
        { url, kind := .internal, status := none, message := e.text, attempts := 0 }
      exact CrawlStats.Tallies.failed_page h
        { url, status := none, links := [], error := some error } rfl
  rw [work, ends_tryCatch]
  cases fetched with
  | error e => exact hunexpected e c h
  | ok outcome => exact (handle_tallied hsilent url outcome h).mono (fun _ _ h => h) hunexpected

/-- Following a seed redirect counts and reports one redirect. -/
theorem followRedirect_tallied (url target : Text) {result : FetchResult}
    (hstatus : result.status ∈ redirectStatuses) {c : Crawler} (h : c.Tallied) :
    Ends (followRedirect d url result target) c (fun _ c' => c'.Tallied) fun _ c' => c'.Tallied := by
  have hpage := h.redirect_page
    { url, status := some result.status, links := [target] } (by simpa [PageResult.isRedirect])
  simp only [followRedirect, countRetries, countOk, countRedirect, ends_bind, ends_modify,
    ends_report, ends_markSeen, hsilent]
  refine ⟨fun _ => ⟨fun new frontier _ => ?_, fun _ _ => ?_⟩, fun _ he => by cases he⟩
  all_goals exact hpage.congr rfl rfl rfl rfl rfl

end Silent

/-! ## Links offered to the frontier -/

/-- The links of a page that `_enqueue` adds. -/
def followedLinks (d : Deps) (scope : HostScope) (robots : RobotsPolicy) (page : PageResult) :
    List Text :=
  if page.error.isNone then
    page.links.filter fun link => allows d scope robots link = .ok true
  else []

/-- `c'` comes from `c` by adding `n` links to the frontier; each is queued or dropped. -/
structure Offered (n : ℕ) (c c' : Crawler) : Prop where
  frontier : c'.frontier.duplicatesDropped + c'.frontier.queue.length =
    c.frontier.duplicatesDropped + c.frontier.queue.length + n

theorem enqueueLinks_offered {scope : HostScope} (links : List Text) {c : Crawler}
    (hscope : c.scope = some scope) :
    Ends (enqueueLinks d scope links) c
      (fun _ c' => c'.reports = c.reports ∧ Offered
        (links.filter fun link => allows d scope c.robots link = .ok true).length c c')
      fun _ _ => True := by
  induction links generalizing c with
  | nil => exact ⟨rfl, ⟨rfl⟩⟩
  | cons link links ih =>
    rw [enqueueLinks]
    simp only [ends_bind, ends_get, ends_raiseError]
    refine ⟨fun allowed hallowed => ?_, fun _ _ => trivial⟩
    cases allowed with
    | false =>
      refine (ih hscope).mono ?_ fun _ _ h => h
      intro _ c' h
      simpa [hallowed] using h
    | true =>
      simp only [if_true, ends_bind, ends_get, ends_raiseError, ends_modify]
      refine ⟨fun frontier hadd => ?_, fun _ _ => trivial⟩
      have hone := Frontier.offered_of_add hadd
      refine Ends.mono (ih hscope) ?_ fun _ _ h => h
      rintro - c' ⟨hreports, hrest⟩
      refine ⟨hreports, ⟨?_⟩⟩
      have hsum := hrest.frontier
      simp only [hallowed, List.filter_cons, decide_true, if_true, List.length_cons]
      simp only at hsum
      omega

/-- `_enqueue` shows the drops of the frontier in the counters. -/
theorem enqueue_offered {scope : HostScope} (links : List Text) {c : Crawler}
    (hscope : c.scope = some scope) :
    Ends (enqueue d links) c
      (fun _ c' => c'.reports = c.reports ∧
        c'.stats.duplicatesDropped = c'.frontier.duplicatesDropped ∧ Offered
          (links.filter fun link => allows d scope c.robots link = .ok true).length c c')
      fun _ _ => True := by
  unfold enqueue
  rw [ends_bind, ends_get, hscope]
  simp only [ends_bind, ends_modify]
  refine (enqueueLinks_offered links hscope).mono ?_ fun _ _ h => h
  rintro - c' ⟨hreports, hoffered⟩
  exact ⟨hreports, trivial, ⟨hoffered.frontier⟩⟩

/-- A page is reported and its links are offered to the frontier. -/
structure Enqueued (d : Deps) (scope : HostScope) (c c' : Crawler) : Prop where
  shown : c'.stats.duplicatesDropped = c'.frontier.duplicatesDropped
  page : ∃ page, c'.reports = c.reports ++ [page] ∧
    Offered (followedLinks d scope c.robots page).length c c'

/-- Nothing was reported or queued. -/
structure SameQueue (c c' : Crawler) : Prop where
  reports : c'.reports = c.reports
  frontier : c'.frontier = c.frontier
  shown : c'.stats.duplicatesDropped = c.stats.duplicatesDropped

section Silent
variable (hsilent : ∀ pages page, d.reporter pages page = none)
include hsilent

/-- Where the reporter and the checks do not raise, a page is reported with its links offered, or
nothing of it is. -/
theorem handle_enqueued (url : Text) (outcome : FetchOutcome) {scope : HostScope} {c : Crawler}
    (hscope : c.scope = some scope)
    (hdecides : ∀ link ∈ foundLinks d url (.ok outcome), c.Decides d link)
    (hshown : c.stats.duplicatesDropped = c.frontier.duplicatesDropped) :
    Ends (handle d url outcome) c (fun _ c' => Enqueued d scope c c') fun _ c' => SameQueue c c' := by
  cases outcome with
  | error error =>
    simp only [handle, countRetries, countFailed, ends_bind, ends_modify, ends_report, checkFuse,
      hsilent]
    refine ⟨fun _ => ?_, fun _ he => by cases he⟩
    let page : PageResult := { url, status := error.status, links := [], error := some error }
    have hnone : Offered (followedLinks d scope c.robots page).length c c := ⟨rfl⟩
    split
    · exact ⟨hshown, page, rfl, ⟨hnone.frontier⟩⟩
    · split <;> exact ⟨hshown, page, rfl, ⟨hnone.frontier⟩⟩
  | ok result =>
    simp only [handle, countRetries, ends_bind, ends_modify, ends_raiseError]
    refine ⟨fun found hfound => ?_, fun _ _ => ⟨rfl, rfl, rfl⟩⟩
    let page : PageResult := { url, status := some result.status, links := found }
    have hlinks : followedLinks d scope c.robots page =
        found.filter fun link => allows d scope c.robots link = .ok true := rfl
    have hfoundLinks : foundLinks d url (.ok (.ok result)) = found := by
      simp [foundLinks, hfound, Except.toOption]
    rw [hfoundLinks] at hdecides
    split
    all_goals
      simp only [countRedirect, countLinks, countOk, ends_bind, ends_modify, ends_report, hsilent]
      refine ⟨fun _ => ?_, fun _ he => by cases he⟩
      refine Ends.mono (Ends.and (enqueue_offered found (by exact hscope))
        (enqueue_total found (by exact hscope) hdecides)) ?_ fun _ _ h => h.2.elim
      rintro - c' ⟨⟨hreports, hshown, hoffered⟩, -⟩
      exact ⟨hshown, page, hreports, ⟨hlinks ▸ hoffered.frontier⟩⟩

theorem work_enqueued (url : Text) (fetched : Except Exn FetchOutcome) {scope : HostScope}
    {c : Crawler} (hscope : c.scope = some scope)
    (hdecides : ∀ link ∈ foundLinks d url fetched, c.Decides d link)
    (hshown : c.stats.duplicatesDropped = c.frontier.duplicatesDropped) :
    Ends (work d url fetched) c (fun _ c' => Enqueued d scope c c') fun _ c' => SameQueue c c' := by
  have hunexpected : ∀ (e : Exn) (c' : Crawler), SameQueue c c' →
      Ends (if e.brokenPipe then throw e else handleUnexpected d url e) c'
        (fun _ c'' => Enqueued d scope c c'') fun _ c'' => SameQueue c c'' := by
    intro e c' hsame
    split
    · exact hsame
    · simp only [handleUnexpected, countFailed, ends_bind, ends_modify, ends_report, hsilent]
      refine ⟨fun _ => ⟨?_, internalError url e, ?_, ⟨?_⟩⟩, fun _ he => by cases he⟩
      · show c'.stats.duplicatesDropped = c'.frontier.duplicatesDropped
        rw [hsame.shown, hsame.frontier, hshown]
      · show c'.reports ++ [internalError url e] = _
        rw [hsame.reports]
      · show c'.frontier.duplicatesDropped + c'.frontier.queue.length = _ + 0
        rw [hsame.frontier, Nat.add_zero]
  rw [work, ends_tryCatch]
  cases fetched with
  | error e => exact hunexpected e c ⟨rfl, rfl, rfl⟩
  | ok outcome =>
    exact (handle_enqueued hsilent url outcome hscope hdecides hshown).mono (fun _ _ h => h)
      hunexpected

end Silent

/-- A seed redirect queues and drops nothing. -/
theorem followRedirect_queue (url target : Text) (result : FetchResult) (c : Crawler) :
    Ends (followRedirect d url result target) c
      (fun _ c' => c'.stats.duplicatesDropped = c.stats.duplicatesDropped ∧
        c'.frontier.queue = c.frontier.queue ∧
        c'.frontier.duplicatesDropped = c.frontier.duplicatesDropped)
      fun _ c' => c'.stats.duplicatesDropped = c.stats.duplicatesDropped ∧
        c'.frontier.queue = c.frontier.queue ∧
        c'.frontier.duplicatesDropped = c.frontier.duplicatesDropped := by
  simp only [followRedirect, countRetries, countOk, countRedirect, ends_bind, ends_modify,
    ends_report, ends_markSeen]
  refine ⟨fun _ => ⟨fun new frontier hm => ?_, fun _ _ => ⟨trivial, trivial, trivial⟩⟩,
    fun _ _ => ⟨trivial, trivial, trivial⟩⟩
  obtain ⟨hqueue, -, hdropped, -⟩ := Frontier.markSeen_spec hm
  exact ⟨trivial, hqueue, hdropped⟩

end Crawler
end UrlCrawler
