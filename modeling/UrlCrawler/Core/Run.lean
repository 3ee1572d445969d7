import UrlCrawler.Core.Crawler

/-! # A run of the crawler

`Crawler.run` with its workers as a machine. A step takes the coroutine of `run`, or one worker,
from one `await` to the next; what is awaited (the guards, the servers, the sleeps, the lock) answers
in the action. One action is one attempt of `Fetcher.fetch`: a retry is another request for
the same URL.

The `log` is what an observer sees of the run: which URLs a guard let pass, which requests were
sent, which fetches were begun by the seed chain or by the pool, and when the scope and the
robots policy were fixed. The code has no such record and nothing here looks at it.
-/
set_option autoImplicit false

namespace UrlCrawler

inductive Event
  | passed (url : Text)
  | request (url : Text)
  | fetch (url : Text) (pool : Bool)
  | ready (url : Text) (scope : Option HostScope) (policy : RobotsPolicy)

/-- What a server and the checks of `Fetcher` make of a URL. -/
inductive Response
  | page (status : ℕ) (body : List UInt8) (contentType : Text) (location : Option Text)
  | error (kind : FetchErrorKind) (status : Option ℕ) (message : String)
deriving DecidableEq

def Response.outcome (url : Text) (attempts : ℕ) : Response → FetchOutcome
  | .page status body contentType location =>
    .ok { url, status, body, contentType, location, attempts }
  | .error kind status message => .error { url, kind, status, message, attempts }

/-- What one attempt of `Fetcher.fetch` ends in. -/
inductive Answer
  | retry
  | fetched (response : Response)
  | raised (e : Exn)

/-- Where the coroutine of `run` waits. `hops` is the number of seed redirects it may still
follow, `left` the number of robots requests it may still make. -/
inductive RunPhase
  | created
  | guarding (url : Text) (hops : ℕ)
  | fetching (url : Text) (hops attempt : ℕ)
  | robotsGuarding (url : Text) (result : FetchResult) (robotsUrl : Text) (left : ℕ)
  | robotsFetching (url : Text) (result : FetchResult) (robotsUrl : Text) (left : ℕ)
  | joining
  | leaving (cancelled : Bool)
  | done (result : RunResult)

inductive WorkerPhase
  | ready
  | locking (url : Text)
  | sleeping (url : Text)
  | fetching (url : Text) (attempt : ℕ)
  | done
  | failed
deriving DecidableEq

namespace WorkerPhase

/-- The URL a worker is processing. -/
def url? : WorkerPhase → Option Text
  | locking url | sleeping url | fetching url _ => some url
  | ready | done | failed => none

def isSleeping : WorkerPhase → Bool
  | sleeping _ => true
  | _ => false

def isOver : WorkerPhase → Bool
  | done | failed => true
  | _ => false

end WorkerPhase

structure CrawlRun where
  seed : Text
  start : Text := []
  crawler : Crawler
  phase : RunPhase := .created
  workers : List WorkerPhase := []
  errors : List Exn := []
  log : List Event := []

inductive CrawlerAct
  | begin
  | guarded (reason : Option String)
  | guardRaised (e : Exn)
  | attempted (answer : Answer)
  | robotsGuarded (reason : Option String)
  | robotsGuardRaised (e : Exn)
  | robotsAnswered (answer : RobotsAnswer)
  | take (w : ℕ)
  | locked (w : ℕ)
  | slept (w : ℕ)
  | workerAttempted (w : ℕ) (answer : Answer)
  | joined
  | failed
  | cancel
  | workerCancelled (w : ℕ)
  | left

namespace CrawlRun

def note (s : CrawlRun) (events : List Event) : CrawlRun := { s with log := s.log ++ events }

def finish (s : CrawlRun) (result : RunResult) : CrawlRun := { s with phase := .done result }

/-- An exception leaves `run`. -/
def raise (s : CrawlRun) (e : Exn) : CrawlRun := s.finish (.raised e.format)

/-- `raise SeedError(message)`. -/
def seedError (s : CrawlRun) (message : String) : CrawlRun := s.finish (.seedError message)

/-- Run a part of `run` that has no `await` in it. -/
def exec {α : Type} (s : CrawlRun) (program : CrawlerM α) (next : α → CrawlRun → CrawlRun) :
    CrawlRun :=
  match program s.crawler with
  | .ok a crawler => next a { s with crawler }
  | .error e crawler => { s with crawler }.raise e

def setWorker (s : CrawlRun) (w : ℕ) (phase : WorkerPhase) : CrawlRun :=
  { s with workers := s.workers.set w phase }

/-! ## The seed -/

def startFetch (s : CrawlRun) (url : Text) (hops : ℕ) : CrawlRun :=
  { s with phase := .fetching url hops 1 }.note [.fetch url false, .request url]

/-- `_fetch_seed`. -/
def fetchSeed (d : Deps) (s : CrawlRun) (url : Text) (hops : ℕ) : CrawlRun :=
  if d.seedGuard then { s with phase := .guarding url hops } else s.startFetch url hops

def begin (d : Deps) (s : CrawlRun) : CrawlRun :=
  match normalize d.unicode s.seed with
  | none => s.seedError ("Invalid seed URL: " ++ String.ofList s.seed)
  | some start =>
    { s with start }.exec (Crawler.markSeen d start) fun _ s =>
      s.fetchSeed d start s.crawler.config.maxSeedRedirects.toNat

/-- The policy is there: `run` from the robots check of the seed to the start of the workers. -/
def loaded (d : Deps) (s : CrawlRun) (url : Text) (result : FetchResult) (policy : RobotsPolicy) :
    CrawlRun :=
  let s := { s with crawler := { s.crawler with robots := policy } }.note
    [.ready url s.crawler.scope policy]
  match policy.allows url with
  | .error e => s.raise e
  | .ok false => s.seedError "robots.txt disallows the seed URL; use --ignore-robots to override"
  | .ok true =>
    s.exec (Crawler.handle d url (.ok result)) fun _ s =>
      { s with
        crawler := { s.crawler with claimed := s.crawler.stats.pagesTotal }
        phase := .joining
        workers := List.replicate s.crawler.config.concurrency.toNat .ready }

def robotsRequest (s : CrawlRun) (url : Text) (result : FetchResult) (robotsUrl : Text)
    (left : ℕ) : CrawlRun :=
  { s with phase := .robotsFetching url result robotsUrl left }.note [.request robotsUrl]

/-- One round of the loop of `_fetch_robots`. -/
def robotsHop (d : Deps) (s : CrawlRun) (url : Text) (result : FetchResult) (robotsUrl : Text)
    (left : ℕ) : CrawlRun :=
  if d.robotsGuard then { s with phase := .robotsGuarding url result robotsUrl left }
  else s.robotsRequest url result robotsUrl left

/-- `load_robots` up to its first `await`, or the policy of a crawl that ignores robots.txt. -/
def loadRobots (d : Deps) (s : CrawlRun) (url : Text) (result : FetchResult) : CrawlRun :=
  if s.crawler.config.respectRobots then
    match robotsUrl d.unicode url with
    | .error e => s.raise e
    | .ok robotsUrl => s.robotsHop d url result robotsUrl maxRobotsRedirects
  else s.loaded d url result .allowAll

/-- The seed chain ends at `url` with a page: the scope is anchored there. -/
def landed (d : Deps) (s : CrawlRun) (url : Text) (result : FetchResult) : CrawlRun :=
  match HostScope.fromUrl d.unicode url with
  | .error e => s.raise e
  | .ok scope =>
    let s := { s with crawler := { s.crawler with scope := some scope } }
    match HostScope.fromUrl d.unicode s.start with
    | .error e => s.raise e
    | .ok _ => s.loadRobots d url result

/-- The loop of `_follow_seed_redirects` after the fetch of `url`. -/
def seedFetched (d : Deps) (s : CrawlRun) (url : Text) (hops : ℕ) : FetchOutcome → CrawlRun
  | .error error =>
    s.seedError ("Could not fetch seed " ++ String.ofList url ++ ": " ++ error.kind.value ++ " " ++
      error.message)
  | .ok result =>
    match Crawler.redirectTarget d url result with
    | .error e => s.raise e
    | .ok none => s.landed d url result
    | .ok (some target) =>
      match hops with
      | 0 => s.seedError "Seed redirected too many times"
      | hops + 1 =>
        s.exec (Crawler.followRedirect d url result target) fun new s =>
          if new then s.fetchSeed d target hops
          else s.seedError ("seed redirect cycle at " ++ String.ofList target)

/-! ## The pool -/

/-- A worker sends its first request for `url`. -/
def poolFetch (s : CrawlRun) (w : ℕ) (url : Text) : CrawlRun :=
  (s.setWorker w (.fetching url 1)).note [.fetch url true, .request url]

def taskDone (s : CrawlRun) : CrawlRun :=
  { s with crawler := { s.crawler with frontier := s.crawler.frontier.taskDone } }

/-- The fetch of a worker has ended: the rest of its round. -/
def worked (d : Deps) (s : CrawlRun) (w : ℕ) (url : Text) (fetched : Except Exn FetchOutcome) :
    CrawlRun :=
  match Crawler.work d url fetched s.crawler with
  | .ok _ crawler => ({ s with crawler }.setWorker w .ready).taskDone
  | .error e crawler =>
    ({ s with crawler, errors := s.errors ++ [e] }.setWorker w .failed).taskDone

/-- The exception the task group of the workers ends in, as it is printed. Broken pipes are split off
and raised as one. -/
def groupError (errors : List Exn) : String :=
  let group (message : String) (n : ℕ) : String :=
    "ExceptionGroup: " ++ message ++ " (" ++ toString n ++ " sub-exception" ++
      (if n = 1 then "" else "s") ++ ")"
  match errors.filter Exn.brokenPipe with
  | [] => group "unhandled errors in a TaskGroup" errors.length
  | first :: _ =>
    if errors.all Exn.brokenPipe then "BrokenPipeError: " ++ first.text else group "" 2

/-- The task group is left: what `run` ends in. -/
def leave (s : CrawlRun) (cancelled : Bool) : CrawlRun :=
  s.finish
    (if s.errors ≠ [] then .raised (groupError s.errors)
    else if cancelled then .cancelled
    else .returned ⟨s.crawler.stats.pagesTotal, s.crawler.aborted, s.crawler.reason⟩)

/-! ## The step -/

def guarded (s : CrawlRun) (reason : Option String) : Option CrawlRun :=
  match s.phase with
  | .guarding url hops =>
    match reason with
    | some reason => some (s.seedError ("seed rejected: " ++ reason))
    | none => some ((s.note [.passed url]).startFetch url hops)
  | _ => none

def guardRaised (s : CrawlRun) (e : Exn) : Option CrawlRun :=
  match s.phase with
  | .guarding .. => some (s.raise e)
  | _ => none

def attempted (d : Deps) (s : CrawlRun) (answer : Answer) : Option CrawlRun :=
  match s.phase with
  | .fetching url hops attempt =>
    match answer with
    | .retry =>
      if attempt < d.maxAttempts then
        some ({ s with phase := .fetching url hops (attempt + 1) }.note [.request url])
      else none
    | .fetched response => some (s.seedFetched d url hops (response.outcome url attempt))
    | .raised e => some (s.raise e)
  | _ => none

def robotsGuarded (d : Deps) (s : CrawlRun) (reason : Option String) : Option CrawlRun :=
  match s.phase with
  | .robotsGuarding url result robotsUrl left =>
    match reason with
    | some _ => some (s.loaded d url result .denyAll)
    | none => some ((s.note [.passed robotsUrl]).robotsRequest url result robotsUrl left)
  | _ => none

def robotsGuardRaised (s : CrawlRun) (e : Exn) : Option CrawlRun :=
  match s.phase with
  | .robotsGuarding .. => some (s.raise e)
  | _ => none

def robotsAnswered (d : Deps) (s : CrawlRun) (answer : RobotsAnswer) : Option CrawlRun :=
  match s.phase with
  | .robotsFetching url result robotsUrl left =>
    match robotsNext d.unicode d.robotsTxt s.crawler.config.userAgent.toList robotsUrl left
        answer with
    | .raised e => some (s.raise e)
    | .policy policy => some (s.loaded d url result policy)
    | .hop robotsUrl left => some (s.robotsHop d url result robotsUrl left)
  | _ => none

/-- A worker takes a URL off the queue. -/
def take (s : CrawlRun) (w : ℕ) : Option CrawlRun :=
  match s.phase, s.workers[w]?, s.crawler.frontier.get with
  | .joining, some .ready, some (url, frontier) =>
    match { s.crawler with frontier }.claim with
    | (.dropped, crawler) => some { s with crawler }.taskDone
    | (.waits, crawler) => some ({ s with crawler }.setWorker w (.locking url))
    | (.fetches, crawler) => some ({ s with crawler }.poolFetch w url)
  | _, _, _ => none

def locked (s : CrawlRun) (w : ℕ) : Option CrawlRun :=
  match s.phase, s.workers[w]? with
  | .joining, some (.locking url) =>
    if s.workers.any WorkerPhase.isSleeping then none else some (s.setWorker w (.sleeping url))
  | _, _ => none

/-- A worker has slept the delay. -/
def slept (s : CrawlRun) (w : ℕ) : Option CrawlRun :=
  match s.phase, s.workers[w]? with
  | .joining, some (.sleeping url) =>
    if s.crawler.robots.endless then none else some (s.poolFetch w url)
  | _, _ => none

def workerAttempted (d : Deps) (s : CrawlRun) (w : ℕ) (answer : Answer) : Option CrawlRun :=
  match s.phase, s.workers[w]? with
  | .joining, some (.fetching url attempt) =>
    match answer with
    | .retry =>
      if attempt < d.maxAttempts then
        some ((s.setWorker w (.fetching url (attempt + 1))).note [.request url])
      else none
    | .fetched response => some (s.worked d w url (.ok (response.outcome url attempt)))
    | .raised e => some (s.worked d w url (.error e))
  | _, _ => none

/-- `join` returns and the workers are cancelled. -/
def joined (s : CrawlRun) : Option CrawlRun :=
  match s.phase with
  | .joining =>
    if s.crawler.frontier.unfinished = 0 then some { s with phase := .leaving false } else none
  | _ => none

/-- A worker has failed: the task group cancels the others and the body that waits for `join`. -/
def failed (s : CrawlRun) : Option CrawlRun :=
  match s.phase with
  | .joining => if s.errors ≠ [] then some { s with phase := .leaving false } else none
  | _ => none

/-- `run` is cancelled from outside. -/
def cancel (s : CrawlRun) : Option CrawlRun :=
  match s.phase with
  | .done _ => none
  | .joining | .leaving _ => some { s with phase := .leaving true }
  | _ => some (s.finish .cancelled)

/-- The task group cancels its workers. -/
def cancelling (s : CrawlRun) : Bool :=
  match s.phase with
  | .leaving _ => true
  | .joining => s.errors ≠ []
  | _ => false

/-- A worker that has been cancelled ends; a URL it was processing counts as done. -/
def workerCancelled (s : CrawlRun) (w : ℕ) : Option CrawlRun :=
  match s.workers[w]? with
  | some phase =>
    if !s.cancelling || phase.isOver then none
    else if phase.url?.isSome then some (s.setWorker w .done).taskDone
    else some (s.setWorker w .done)
  | none => none

def left (s : CrawlRun) : Option CrawlRun :=
  match s.phase with
  | .leaving cancelled =>
    if s.workers.all WorkerPhase.isOver then some (s.leave cancelled) else none
  | _ => none

def step (d : Deps) (s : CrawlRun) : CrawlerAct → Option CrawlRun
  | .begin =>
    match s.phase with
    | .created => some (s.begin d)
    | _ => none
  | .guarded reason => s.guarded reason
  | .guardRaised e => s.guardRaised e
  | .attempted answer => s.attempted d answer
  | .robotsGuarded reason => s.robotsGuarded d reason
  | .robotsGuardRaised e => s.robotsGuardRaised e
  | .robotsAnswered answer => s.robotsAnswered d answer
  | .take w => s.take w
  | .locked w => s.locked w
  | .slept w => s.slept w
  | .workerAttempted w answer => s.workerAttempted d w answer
  | .joined => s.joined
  | .failed => s.failed
  | .cancel => s.cancel
  | .workerCancelled w => s.workerCancelled w
  | .left => s.left

theorem slept_some {s s' : CrawlRun} {w : ℕ} : s.slept w = some s' ↔ ∃ url, s.phase = .joining ∧
    s.workers[w]? = some (.sleeping url) ∧ s.crawler.robots.endless = false ∧
    s' = s.poolFetch w url := by
  unfold slept
  split
  · rename_i url hphase hw
    cases hdelay : s.crawler.robots.endless <;> simp [hphase, hw, eq_comm]
  · rename_i hother
    refine ⟨nofun, fun h => ?_⟩
    obtain ⟨url, hphase, hw, -⟩ := h
    exact (hother url hphase hw).elim

end CrawlRun

/-- How the run has ended. -/
def CrawlRun.result (s : CrawlRun) : Option RunResult :=
  match s.phase with
  | .done result => some result
  | _ => none

theorem CrawlRun.phase_of_result {s : CrawlRun} {result : RunResult} (h : s.result = some result) :
    s.phase = .done result := by
  unfold CrawlRun.result at h
  split at h
  · rename_i other hphase
    rw [hphase, Option.some.inj h]
  · cases h

def RunPhase.isJoining : RunPhase → Bool
  | joining => true
  | _ => false

theorem RunPhase.eq_joining {phase : RunPhase} (h : phase.isJoining = true) : phase = .joining := by
  cases phase with
  | joining => rfl
  | created | guarding _ _ | fetching _ _ _ | robotsGuarding _ _ _ _ | robotsFetching _ _ _ _
  | leaving _ | done _ => cases h

/-- `Crawler(…).run(seed)` before it has started. -/
def CrawlRun.create (config : CrawlConfig) (seed : Text) : CrawlRun :=
  { seed, crawler := { config } }

end UrlCrawler
