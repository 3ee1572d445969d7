import UrlCrawler.Core.Config
import UrlCrawler.Core.Parser
import UrlCrawler.Core.Frontier
import UrlCrawler.Core.Robots

/-! # The crawler between two awaits

`url_crawler/crawler.py`, the parts that run without an `await`: what `Crawler` does with a fetched
page, with a link and with a failure. They are programs over the crawler's fields that may
raise; what they wrote before raising stays written.
-/
set_option autoImplicit false

namespace UrlCrawler

/-- What a crawler is built with, and the code outside the repository that it calls. `reporter`
tells whether `page` raises, given the pages reported before; `float` reads a number, and has none
where Python's raises or gives `nan` or `-inf`, which `_delay` drops alike. -/
structure Deps where
  unicode : Unicode
  extract : List UInt8 → Text → Except Exn (List Text)
  reporter : List PageResult → PageResult → Option Exn
  float : Text → Option (WithTop ℚ)
  maxAttempts : ℕ
  seedGuard : Bool
  robotsGuard : Bool

def Deps.floats (d : Deps) : Floats (WithTop ℚ) := ⟨d.float, fun value => 0 < value⟩

/-- The policy of `RobotsTxt(body, user_agent)`. -/
def Deps.robotsTxt (d : Deps) (body userAgent : Text) : RobotsPolicy :=
  (RobotsTxt.new d.unicode d.floats body userAgent).policy d.unicode

/-- The fields of a `Crawler`, with the pages its reporter has been given. -/
structure Crawler where
  config : CrawlConfig
  stats : CrawlStats := {}
  frontier : Frontier := {}
  scope : Option HostScope := none
  robots : RobotsPolicy := .allowAll
  claimed : ℕ := 0
  consecutiveFailures : ℕ := 0
  stopping : Bool := false
  aborted : Bool := false
  reason : Option String := none
  reports : List PageResult := []

abbrev CrawlerM := EStateM Exn Crawler

namespace Crawler

def raiseError {α : Type} : Except Exn α → CrawlerM α
  | .ok a => pure a
  | .error e => throw e

/-- `self._reporter.page(page)`. -/
def report (d : Deps) (page : PageResult) : CrawlerM Unit := do
  match d.reporter (← get).reports page with
  | some e => throw e
  | none => modify fun c => { c with reports := c.reports ++ [page] }

def countRetries (attempts : ℕ) : CrawlerM Unit :=
  modify fun c => { c with stats := { c.stats with retries := c.stats.retries + (attempts - 1) } }

def countFailed (kind : FetchErrorKind) : CrawlerM Unit :=
  modify fun c => { c with stats := c.stats.countFailed kind }

def countRedirect : CrawlerM Unit :=
  modify fun c => { c with stats := { c.stats with redirects := c.stats.redirects + 1 } }

def countOk : CrawlerM Unit :=
  modify fun c => { c with stats := { c.stats with pagesOk := c.stats.pagesOk + 1 } }

def countLinks (links : List Text) : CrawlerM Unit :=
  modify fun c => { c with stats := { c.stats with
    linksFound := c.stats.linksFound + links.length
    pagesWithoutLinks := c.stats.pagesWithoutLinks + if links = [] then 1 else 0 } }

/-- `FUSE_ERROR_KINDS`, and the server errors. -/
def countsTowardFuse (error : FetchError) : Bool :=
  match error.kind with
  | .httpStatus => error.status.any (500 ≤ ·)
  | .timeout | .connection | .protocol => true
  | _ => false

/-- `_check_fuse`. -/
def checkFuse (error : FetchError) : CrawlerM Unit :=
  modify fun c =>
    if c.aborted || !countsTowardFuse error then c
    else
      let failures : ℕ := c.consecutiveFailures + 1
      if (failures : ℤ) < c.config.failureFuse then { c with consecutiveFailures := failures }
      else
        { c with
          consecutiveFailures := failures
          stopping := true
          aborted := true
          reason := some (toString failures ++ " consecutive failures") }

/-- `_redirect_target`. -/
def redirectTarget (d : Deps) (url : Text) (result : FetchResult) : Except Exn (Option Text) :=
  if result.status ∈ redirectStatuses then
    match result.location with
    | none | some [] => .ok none
    | some location => resolveHref d.unicode location url
  else .ok none

/-- The test `_enqueue` makes of a link. -/
def allows (d : Deps) (scope : HostScope) (robots : RobotsPolicy) (link : Text) :
    Except Exn Bool := do
  if ← scope.allows d.unicode link then robots.allows link else return false

/-- The loop of `_enqueue`. -/
def enqueueLinks (d : Deps) (scope : HostScope) : List Text → CrawlerM Unit
  | [] => pure ()
  | link :: links => do
    if ← raiseError (allows d scope (← get).robots link) then
      let frontier ← raiseError ((← get).frontier.add d.unicode link)
      modify fun c => { c with frontier }
    enqueueLinks d scope links

/-- `_enqueue`. -/
def enqueue (d : Deps) (links : List Text) : CrawlerM Unit := do
  match (← get).scope with
  | none => throw ⟨"AssertionError", "run() anchors the scope before any page is handled"⟩
  | some scope =>
    enqueueLinks d scope links
    modify fun c => { c with
      stats := { c.stats with duplicatesDropped := c.frontier.duplicatesDropped } }

/-- The links `_handle` reports for a page. -/
def pageLinks (d : Deps) (url : Text) (result : FetchResult) : Except Exn (List Text) :=
  if result.status ∈ redirectStatuses then (redirectTarget d url result).map Option.toList
  else d.extract result.body url

/-- `_handle`. -/
def handle (d : Deps) (url : Text) : FetchOutcome → CrawlerM Unit
  | .error error => do
    countRetries error.attempts
    countFailed error.kind
    report d { url, status := error.status, links := [], error := some error }
    checkFuse error
  | .ok result => do
    countRetries result.attempts
    modify fun c => { c with consecutiveFailures := 0 }
    let links ← raiseError (pageLinks d url result)
    if result.status ∈ redirectStatuses then countRedirect else countLinks links
    -- counted last, so a page whose extraction blows up counts as internal only
    countOk
    report d { url, status := some result.status, links }
    enqueue d links

/-- The `except Exception` of `_worker`. -/
def handleUnexpected (d : Deps) (url : Text) (e : Exn) : CrawlerM Unit := do
  countFailed .internal
  let error : FetchError := { url, kind := .internal, status := none, message := e.text,
                              attempts := 0 }
  report d { url, status := none, links := [], error := some error }

/-- What a worker does with a fetch that has ended: the rest of its `try` statement. -/
def work (d : Deps) (url : Text) (fetched : Except Exn FetchOutcome) : CrawlerM Unit :=
  tryCatch (do handle d url (← raiseError fetched)) fun e =>
    if e.brokenPipe then throw e else handleUnexpected d url e

/-- How `_process` goes on with a URL it has taken. -/
inductive Claim
  | dropped
  | waits
  | fetches
deriving DecidableEq, Repr

/-- `_process` up to its first `await`. -/
def claim (c : Crawler) : Claim × Crawler :=
  if c.stopping then (.dropped, c)
  else if ∃ max ∈ c.config.maxPages, max ≤ (c.claimed : ℤ) then
    (.dropped, { c with stopping := true })
  else
    (if c.robots.delays then .waits else .fetches, { c with claimed := c.claimed + 1 })

/-- `Frontier.mark_seen` on the crawler's frontier. -/
def markSeen (d : Deps) (url : Text) : CrawlerM Bool := do
  let (new, frontier) ← raiseError ((← get).frontier.markSeen d.unicode url)
  modify fun c => { c with frontier }
  return new

/-- One round of the loop of `_follow_seed_redirects`: report the hop and mark its target. -/
def followRedirect (d : Deps) (url : Text) (result : FetchResult) (target : Text) :
    CrawlerM Bool := do
  countRetries result.attempts
  countOk
  countRedirect
  report d { url, status := some result.status, links := [target] }
  markSeen d target

end Crawler

end UrlCrawler
