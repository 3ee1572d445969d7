import UrlCrawler.Core.RobotsLoading
import UrlCrawler.Core.Pool

/-! # The loader in a run

`CrawlRun` leaves open what the guard and the servers say of robots.txt. When they are those of a
`RobotsSite`, a run makes the requests of `load_robots` and goes on with its policy, or ends in its
exception. The policy is read from the body by `RobotsTxt`.
-/
set_option autoImplicit false

namespace UrlCrawler
open Execution

/-- What a crawl is given. -/
def LoadedPolicy.policy (u : Unicode) : LoadedPolicy (WithTop ℚ) → RobotsPolicy
  | .allowAll => .allowAll
  | .denyAll => .denyAll
  | .robotsTxt robots => robots.policy u

section Acts
variable {σ : Type} (u : Unicode) (z : Zlib σ) (site : RobotsSite)

/-- What a run is told from request `n` on, with `left` requests to make: the verdict of the guard, if there
is one, and the answer, until there is no redirect to follow. -/
def robotsActs (n : ℕ) (url : Text) : ℕ → List CrawlerAct
  | 0 => []
  | left + 1 =>
    let verdict := if site.guard.isSome then [.robotsGuarded (site.blocked n url)] else []
    if site.blocked n url ≠ none then verdict
    else
      verdict ++ .robotsAnswered ((site.client n url).answer u z) ::
        match robotsRound u z url (site.client n url) with
        | .done _ => []
        | .hop next => robotsActs (n + 1) next left

/-- What a run is told while it loads the robots.txt of a site. -/
def loadActs (siteUrl : Text) : List CrawlerAct :=
  match robotsUrl u siteUrl with
  | .error _ => []
  | .ok url => robotsActs u z site 0 url (maxRobotsRedirects + 1)

/-- What the requests of a load leave in the log. -/
def robotsEvents (guarded : Bool) (requests : List Text) : List Event :=
  requests.flatMap fun url => if guarded then [.passed url, .request url] else [.request url]

end Acts

namespace CrawlRun
variable {d : Deps} {s : CrawlRun} {url robotsUrl : Text} {result : FetchResult} {left : ℕ}

/-- How a run goes on after a load with these requests. -/
def robotsLoaded (d : Deps) (s : CrawlRun) (url : Text) (result : FetchResult)
    (load : List Text × Except Exn (LoadedPolicy (WithTop ℚ))) : CrawlRun :=
  let s := s.note (robotsEvents d.robotsGuard load.1)
  match load.2 with
  | .error e => s.raise e
  | .ok loaded => s.loaded d url result (loaded.policy d.unicode)

/-- A run forgets where it was waiting when the policy is there. -/
theorem loaded_phase (s : CrawlRun) (phase : RunPhase) (policy : RobotsPolicy) :
    { s with phase }.loaded d url result policy = s.loaded d url result policy := by
  unfold loaded
  dsimp only [note]
  split
  · rfl
  · rfl
  · unfold exec
    dsimp only
    split <;> rfl

/-- A load that needs no further request. -/
theorem robotsLoaded_nil (s : CrawlRun) (loaded : Except Exn (LoadedPolicy (WithTop ℚ))) :
    s.robotsLoaded d url result ([], loaded) = match loaded with
      | .error e => s.raise e
      | .ok loaded => s.loaded d url result (loaded.policy d.unicode) := by
  have hnote : s.note (robotsEvents d.robotsGuard []) = s := by simp [note, robotsEvents]
  unfold robotsLoaded
  rw [hnote]

/-- The events of one request come before those of the others. -/
theorem robotsLoaded_cons (s : CrawlRun) (requests : List Text)
    (loaded : Except Exn (LoadedPolicy (WithTop ℚ))) :
    (s.note (robotsEvents d.robotsGuard [robotsUrl])).robotsLoaded d url result (requests, loaded) =
      s.robotsLoaded d url result (robotsUrl :: requests, loaded) := by
  have hlog : (s.note (robotsEvents d.robotsGuard [robotsUrl])).note
      (robotsEvents d.robotsGuard requests) =
        s.note (robotsEvents d.robotsGuard (robotsUrl :: requests)) := by
    simp [note, robotsEvents]
  unfold robotsLoaded
  rw [hlog]

/-- How a run goes on after an answer. -/
def robotsStep (d : Deps) (s : CrawlRun) (url : Text) (result : FetchResult) : RobotsNext → CrawlRun
  | .raised e => s.raise e
  | .policy policy => s.loaded d url result policy
  | .hop robotsUrl left => s.robotsHop d url result robotsUrl left

section Load
variable {σ : Type} {z : Zlib σ} {site : RobotsSite}

/-- The guard, if there is one, lets a URL pass, and the run requests it. -/
theorem run_passed (hguard : d.robotsGuard = site.guard.isSome) (s : CrawlRun) :
    run (step d) (s.robotsHop d url result robotsUrl left)
        (if site.guard.isSome then [.robotsGuarded none] else []) =
      some { s.note (robotsEvents d.robotsGuard [robotsUrl]) with
        phase := .robotsFetching url result robotsUrl left } := by
  unfold robotsHop
  rw [hguard]
  cases site.guard with
  | none => rfl
  | some guard =>
    have hpassed : ({ s with phase := .robotsGuarding url result robotsUrl left } : CrawlRun).step d
        (.robotsGuarded none) = some { s.note [.passed robotsUrl, .request robotsUrl] with
          phase := .robotsFetching url result robotsUrl left } := by
      simp [step, robotsGuarded, robotsRequest, note]
    exact run_cons (step d) hpassed

/-- The step on the answer to a request is the round of `_fetch_robots`. -/
theorem step_robotsAnswered (hphase : s.phase = .robotsFetching url result robotsUrl left)
    (reply : ClientReply) :
    s.step d (.robotsAnswered (reply.answer d.unicode z)) =
      some (s.robotsStep d url result ((robotsRound d.unicode z robotsUrl reply).next d.robotsTxt
        s.crawler.config.userAgent.toList left)) := by
  simp only [step, robotsAnswered, hphase, robotsNext_answer]
  cases (robotsRound d.unicode z robotsUrl reply).next d.robotsTxt
    s.crawler.config.userAgent.toList left <;> rfl

/-- What a run makes of the result of a request is what `load_robots` makes of it. -/
theorem robotsStep_done (s : CrawlRun) (phase : RunPhase)
    (ended : Except RobotsFailure (Option Text)) :
    { s with phase }.robotsStep d url result ((RobotsRound.done ended).next d.robotsTxt
        s.crawler.config.userAgent.toList left) =
      s.robotsLoaded d url result
        ([], policyOf d.unicode d.floats s.crawler.config.userAgent.toList ended) := by
  rw [robotsLoaded_nil]
  match ended with
  | .ok (some text) => exact loaded_phase s phase (d.robotsTxt text _)
  | .ok none => exact loaded_phase s phase .allowAll
  | .error (.unreachable text) => exact loaded_phase s phase .denyAll
  | .error (.raised e) => rfl

/-- A redirect too many ends a load as an unreachable file does. -/
theorem robotsStep_hop (s : CrawlRun) (phase : RunPhase) (next agent : Text) :
    { s with phase }.robotsStep d url result ((RobotsRound.hop next).next d.robotsTxt agent 0) =
      s.robotsLoaded d url result ([], .ok .denyAll) := by
  rw [robotsLoaded_nil]
  exact loaded_phase s phase .denyAll

/-- The verdict of the guard stops a load. -/
theorem run_blocked (hguard : d.robotsGuard = site.guard.isSome) (s : CrawlRun) {n : ℕ}
    {reason : String} (hstop : site.blocked n robotsUrl = some reason) :
    run (step d) (s.robotsHop d url result robotsUrl left)
        (if site.guard.isSome then [.robotsGuarded (some reason)] else []) =
      some (s.robotsLoaded d url result ([], .ok .denyAll)) := by
  unfold RobotsSite.blocked at hstop
  unfold robotsHop
  rw [hguard]
  cases hsome : site.guard with
  | none =>
    rw [hsome] at hstop
    cases hstop
  | some guard =>
    have hblocked : ({ s with phase := .robotsGuarding url result robotsUrl left } : CrawlRun).step d
        (.robotsGuarded (some reason)) = some (s.robotsLoaded d url result ([], .ok .denyAll)) := by
      rw [robotsLoaded_nil]
      exact congrArg some (loaded_phase s _ .denyAll)
    exact run_cons (step d) hblocked

/-- A run makes a request that the guard lets pass, and its answer is the round of `_fetch_robots`. -/
theorem run_request (hguard : d.robotsGuard = site.guard.isSome) (s : CrawlRun) (reply : ClientReply)
    (later : List CrawlerAct) :
    run (step d) (s.robotsHop d url result robotsUrl left)
        ((if site.guard.isSome then [.robotsGuarded none] else []) ++
          .robotsAnswered (reply.answer d.unicode z) :: later) =
      run (step d)
        ({ s.note (robotsEvents d.robotsGuard [robotsUrl]) with
            phase := .robotsFetching url result robotsUrl left }.robotsStep d url result
          ((robotsRound d.unicode z robotsUrl reply).next d.robotsTxt
            s.crawler.config.userAgent.toList left)) later := by
  rw [run_append, run_passed hguard s, Option.bind_some]
  exact run_cons (step d) (step_robotsAnswered (by rfl) reply)

/-- Where the loop of `_fetch_robots` stands at request `n`, the run goes on as the loop does. -/
theorem run_robotsHop (hguard : d.robotsGuard = site.guard.isSome) (s : CrawlRun) (n : ℕ)
    (robotsUrl : Text) (left : ℕ) :
    run (step d) (s.robotsHop d url result robotsUrl left)
        (robotsActs d.unicode z site n robotsUrl (left + 1)) =
      some (s.robotsLoaded d url result
        ((fetchRobots d.unicode z site n robotsUrl (left + 1)).1,
          policyOf d.unicode d.floats s.crawler.config.userAgent.toList
            (fetchRobots d.unicode z site n robotsUrl (left + 1)).2)) := by
  rw [fetchRobots, robotsActs]
  cases hstop : site.blocked n robotsUrl with
  | some reason =>
    rw [if_pos (Option.some_ne_none reason)]
    exact run_blocked hguard s hstop
  | none =>
    rw [if_neg (not_not.mpr rfl), run_request hguard s]
    cases robotsRound d.unicode z robotsUrl (site.client n robotsUrl) with
    | done ended =>
      exact congrArg some ((robotsStep_done _ _ ended).trans (robotsLoaded_cons s [] _))
    | hop next =>
      cases left with
      | zero =>
        -- no request is left for the hop
        exact congrArg some ((robotsStep_hop _ _ next _).trans (robotsLoaded_cons s [] _))
      | succ left =>
        have hnext : { s.note (robotsEvents d.robotsGuard [robotsUrl]) with
              phase := .robotsFetching url result robotsUrl (left + 1) }.robotsHop d url result next
              left =
            (s.note (robotsEvents d.robotsGuard [robotsUrl])).robotsHop d url result next left := by
          unfold robotsHop
          split <;> rfl
        show run (step d) (CrawlRun.robotsHop d _ url result next left) _ = _
        rw [hnext, run_robotsHop hguard _ (n + 1) next left]
        exact congrArg some (robotsLoaded_cons s _ _)

/-- A run that respects robots.txt makes the requests of `load_robots` for the page its seed has led to,
and goes on with the policy that comes of it. -/
theorem run_loadRobots (hrespects : s.crawler.config.respectRobots = true)
    (hguard : d.robotsGuard = site.guard.isSome) :
    run (step d) (s.loadRobots d url result) (loadActs d.unicode z site url) =
      some (s.robotsLoaded d url result
        (UrlCrawler.loadRobots d.unicode z d.floats site url
          s.crawler.config.userAgent.toList)) := by
  unfold CrawlRun.loadRobots loadActs UrlCrawler.loadRobots
  rw [if_pos hrespects]
  cases UrlCrawler.robotsUrl d.unicode url with
  | error e => exact congrArg some (robotsLoaded_nil s (.error e)).symm
  | ok start => exact run_robotsHop hguard s 0 start maxRobotsRedirects

/-- A run whose requests for robots.txt come to nothing that can be read, and to no status that says there
is none, ends there: the file may forbid what it would crawl. -/
theorem run_unreachable {start : Text} (hrespects : s.crawler.config.respectRobots = true)
    (hguard : d.robotsGuard = site.guard.isSome) (hstart : UrlCrawler.robotsUrl d.unicode url = .ok start)
    (hanswers : ∀ n next, Requested d.unicode site start n next →
      ¬Raises d.unicode z next (site.client n next) ∧ ¬Absent (site.client n next) ∧
        ∀ text, ¬Reads d.unicode z (site.client n next) text) :
    ∃ t, run (step d) (s.loadRobots d url result) (loadActs d.unicode z site url) = some t ∧
      t.phase = .done (.seedError
        "robots.txt disallows the seed URL; use --ignore-robots to override") ∧
      t.crawler.reports = s.crawler.reports := by
  refine ⟨_, run_loadRobots hrespects hguard, ?_⟩
  have hends : EndsIn d.unicode z site start 0 _ :=
    fetchRobots_endsIn (Nat.zero_add (maxRobotsRedirects + 1)) rfl
  have hlength : (fetchRobots d.unicode z site 0 start (maxRobotsRedirects + 1)).1.length ≤ _ :=
    fetchRobots_length 0 start (maxRobotsRedirects + 1)
  have hcloses : FailsClosed d.unicode z d.floats site start s.crawler.config.userAgent.toList _ :=
    failsClosed_of_endsIn hlength hends fun n next hrequested => (hanswers n next hrequested).1
  have hdenied := hcloses.denyAll fun n next hrequested =>
    ⟨(hanswers n next hrequested).2.2, (hanswers n next hrequested).2.1⟩
  unfold UrlCrawler.loadRobots robotsLoaded
  rw [hstart]
  dsimp only at hdenied ⊢
  rw [hdenied]
  exact ⟨rfl, rfl⟩

end Load

end CrawlRun
end UrlCrawler
