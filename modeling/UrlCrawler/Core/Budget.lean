import UrlCrawler.Core.PoolProgress
import UrlCrawler.Core.CrawlerSteps
import UrlCrawler.Core.Outbound

/-! # What a crawl may cost

Every request of a crawl, and every step besides, is paid for out of what was due when it was created:
so much for each redirect of the seed, for robots.txt and for each page that the cap allows. The account
serves two purposes. Without a toll on steps it bounds the requests of a crawl (`requests_capped`), with
one it brings the crawl to its end.
-/
set_option autoImplicit false

namespace UrlCrawler
open Execution Crawler Effects

def Event.isRequest : Event → Bool
  | request _ => true
  | passed _ | fetch _ _ | ready _ _ _ => false

/-- How many requests have been sent. -/
def CrawlRun.requests (s : CrawlRun) : ℕ := s.log.countP Event.isRequest

/-! ## The tariff -/

/-- `attempts` requests at most for a URL and `toll` for each step besides, in a crawl of at most
`hops` seed redirects and `pages` pages. -/
structure Tariff where
  hops : ℕ
  attempts : ℕ
  pages : ℕ
  workers : ℕ
  toll : ℕ

namespace Tariff
variable (t : Tariff)

/-- `n` attempts at a URL. -/
def tries (n : ℕ) : ℕ := n * (1 + t.toll)

/-- A page of which no worker knows yet. -/
def page : ℕ := t.tries t.attempts + 3 * t.toll

def worker : WorkerPhase → ℕ
  | .locking _ => t.tries t.attempts + 3 * t.toll
  | .sleeping _ => t.tries t.attempts + 2 * t.toll
  | .fetching _ attempt => t.tries (t.attempts - attempt) + 2 * t.toll
  | .ready => t.toll
  | .done | .failed => 0

def crew (workers : List WorkerPhase) : ℕ := (workers.map t.worker).sum

/-- What is left of a pool besides its pages. -/
def rest : RunPhase → ℕ
  | .joining => 3 * t.toll
  | .leaving false => 2 * t.toll
  | .leaving true => t.toll
  | _ => 0

def pool : ℕ := t.pages * t.page + t.workers * t.toll + t.rest .joining

/-- Robots.txt with at most `left` requests, and the pool. -/
def robots (left : ℕ) : ℕ := left * (1 + 2 * t.toll) + t.pool

/-- At most `hops` seed URLs, and what comes after them. -/
def seed (hops : ℕ) : ℕ := hops * (t.tries t.attempts + t.toll) + t.robots (maxRobotsRedirects + 1)

theorem tries_pred {n attempt : ℕ} (h : attempt < n) :
    t.tries (n - attempt) = t.tries (n - (attempt + 1)) + (1 + t.toll) := by
  have hone : n - attempt = n - (attempt + 1) + 1 := by omega
  rw [hone, tries, Nat.succ_mul]
  rfl

theorem robots_succ (left : ℕ) : t.robots (left + 1) = t.robots left + (1 + 2 * t.toll) := by
  unfold robots
  rw [Nat.succ_mul]
  omega

theorem pool_le_robots (left : ℕ) : t.pool ≤ t.robots left := Nat.le_add_left _ _

theorem seed_succ (hops : ℕ) : t.seed (hops + 1) = t.seed hops + (t.tries t.attempts + t.toll) := by
  unfold seed
  rw [Nat.succ_mul]
  omega

theorem robots_le_seed (hops : ℕ) : t.robots (maxRobotsRedirects + 1) ≤ t.seed hops :=
  Nat.le_add_left _ _

theorem crew_set {workers : List WorkerPhase} {w : ℕ} {phase : WorkerPhase}
    (hw : workers[w]? = some phase) (phase' : WorkerPhase) : ∃ others,
      t.crew workers = t.worker phase + others ∧
      t.crew (workers.set w phase') = t.worker phase' + others := by
  obtain ⟨hlt, rfl⟩ := List.getElem?_eq_some_iff.mp hw
  refine ⟨t.crew (workers.eraseIdx w), ?_, ?_⟩
  · rw [crew, ← ((List.getElem_cons_eraseIdx_perm hlt).map t.worker).sum_eq]
    rfl
  · rw [crew, ((List.set_perm_cons_eraseIdx hlt phase').map t.worker).sum_eq]
    rfl

/-- The tariff is one of crawls with this configuration. -/
structure Covers (t : Tariff) (d : Deps) (config : CrawlConfig) : Prop where
  hops : config.maxSeedRedirects.toNat = t.hops
  attempts : d.maxAttempts ≤ t.attempts
  attempts_pos : 1 ≤ t.attempts
  pages : config.maxPages = some (t.pages : ℤ)
  workers : config.concurrency.toNat = t.workers

end Tariff

namespace CrawlRun
variable {d : Deps} {config : CrawlConfig} {t : Tariff} {s s' : CrawlRun}

/-- What a run may still cost. -/
def due (t : Tariff) (s : CrawlRun) : ℕ :=
  match s.phase with
  | .created => t.seed (t.hops + 1) + t.toll
  | .guarding _ hops => t.seed (hops + 1)
  | .fetching _ hops attempt => t.seed hops + t.tries (t.attempts - attempt) + t.toll
  | .robotsGuarding _ _ _ left => t.robots (left + 1)
  | .robotsFetching _ _ _ left => t.robots left + t.toll
  | .joining | .leaving _ =>
    (t.pages - s.crawler.claimed) * t.page + t.crew s.workers + t.rest s.phase
  | .done _ => 0

/-- What a run has cost in requests, and may still cost. -/
def total (t : Tariff) (s : CrawlRun) : ℕ := s.requests + s.due t

/-! ## Before the workers start -/

theorem total_startFetch (hpos : 1 ≤ t.attempts) (url : Text) (hops : ℕ) :
    (s.startFetch url hops).total t + t.toll = s.requests + t.seed (hops + 1) := by
  have hrequests : (s.startFetch url hops).requests = s.requests + 1 := by
    simp [requests, startFetch, note, Event.isRequest]
  have hdue : (s.startFetch url hops).due t = t.seed hops + t.tries (t.attempts - 1) + t.toll := rfl
  have hfirst : t.tries t.attempts = t.tries (t.attempts - 1) + (1 + t.toll) := t.tries_pred hpos
  rw [total, hrequests, hdue, t.seed_succ]
  omega

theorem total_fetchSeed (hpos : 1 ≤ t.attempts) (url : Text) (hops : ℕ) :
    (s.fetchSeed d url hops).total t ≤ s.requests + t.seed (hops + 1) := by
  unfold fetchSeed
  split
  · exact le_rfl
  · exact (Nat.le_add_right _ _).trans (Nat.le_of_eq (total_startFetch hpos url hops))

theorem total_robotsRequest (url : Text) (result : FetchResult) (robotsUrl : Text) (left : ℕ) :
    (s.robotsRequest url result robotsUrl left).total t + t.toll =
      s.requests + t.robots (left + 1) := by
  have hrequests : (s.robotsRequest url result robotsUrl left).requests = s.requests + 1 := by
    simp [requests, robotsRequest, note, Event.isRequest]
  have hdue : (s.robotsRequest url result robotsUrl left).due t = t.robots left + t.toll := rfl
  rw [total, hrequests, hdue, t.robots_succ]
  omega

theorem total_robotsHop (url : Text) (result : FetchResult) (robotsUrl : Text) (left : ℕ) :
    (s.robotsHop d url result robotsUrl left).total t ≤ s.requests + t.robots (left + 1) := by
  unfold robotsHop
  split
  · exact le_rfl
  · exact (Nat.le_add_right _ _).trans
      (Nat.le_of_eq (total_robotsRequest url result robotsUrl left))

/-- What raises or ends the run costs nothing more. -/
theorem total_finish (result : RunResult) : (s.finish result).total t = s.requests := rfl

theorem total_loaded (hcovers : t.Covers d config) (hconfig : s.crawler.config = config) (url : Text)
    (result : FetchResult) (policy : RobotsPolicy) :
    (s.loaded d url result policy).total t ≤ s.requests + t.pool := by
  have hrequests : ({ s with crawler := { s.crawler with robots := policy } }.note
      [.ready url s.crawler.scope policy]).requests = s.requests := by
    simp [requests, note, Event.isRequest]
  have hover : s.requests ≤ s.requests + t.pool := Nat.le_add_right _ _
  unfold loaded
  dsimp only
  split
  · exact (Nat.le_of_eq hrequests).trans hover
  · exact (Nat.le_of_eq hrequests).trans hover
  · refine exec_of_ends (Q := fun s' => s'.total t ≤ s.requests + t.pool)
      ((handle_follows url (.ok result) _).mono ?_ ?_)
    · intro _ c hfollows
      have hsame : c.config = config := hfollows.config.trans hconfig
      have hcrew : t.crew (List.replicate c.config.concurrency.toNat .ready) =
          t.workers * t.toll := by
        rw [Tariff.crew, List.map_replicate, List.sum_replicate, hsame, hcovers.workers]
        rfl
      have hpages : (t.pages - c.stats.pagesTotal) * t.page ≤ t.pages * t.page :=
        Nat.mul_le_mul_right _ (Nat.sub_le _ _)
      show _ + ((t.pages - c.stats.pagesTotal) * t.page +
        t.crew (List.replicate c.config.concurrency.toNat .ready) + t.rest .joining) ≤ _
      rw [hcrew]
      refine (Nat.add_le_add_right (Nat.le_of_eq hrequests) _).trans ?_
      unfold Tariff.pool
      omega
    · exact fun _ _ _ => (Nat.le_of_eq hrequests).trans hover

theorem total_landed (hcovers : t.Covers d config) (hconfig : s.crawler.config = config) (url : Text)
    (result : FetchResult) (hops : ℕ) :
    (s.landed d url result).total t ≤ s.requests + t.seed hops := by
  have hrobots := t.robots_le_seed hops
  have hpool := t.pool_le_robots (maxRobotsRedirects + 1)
  have hover : s.requests ≤ s.requests + t.seed hops := Nat.le_add_right _ _
  unfold landed
  split
  · exact hover
  dsimp only
  split
  · exact hover
  unfold loadRobots
  split
  · split
    · exact hover
    · refine (total_robotsHop _ _ _ _).trans ?_
      show s.requests + _ ≤ _
      omega
  · refine (total_loaded hcovers ?_ _ _ _).trans ?_
    · exact hconfig
    · show s.requests + _ ≤ _
      omega

theorem total_seedFetched (hcovers : t.Covers d config) (hconfig : s.crawler.config = config)
    (url : Text) (hops : ℕ) (outcome : FetchOutcome) :
    (s.seedFetched d url hops outcome).total t ≤ s.requests + t.seed hops := by
  have hover : s.requests ≤ s.requests + t.seed hops := Nat.le_add_right _ _
  unfold seedFetched
  cases outcome with
  | error error => exact hover
  | ok result =>
    dsimp only
    split
    · exact hover
    · exact total_landed hcovers hconfig url result hops
    · rename_i target htarget
      cases hops with
      | zero => exact hover
      | succ hops =>
        refine exec_of_ends (Q := fun s' => s'.total t ≤ s.requests + t.seed (hops + 1))
          ((ends_followRedirect url target result _).mono ?_ ?_)
        · intro new c _
          cases new with
          | false => exact hover
          | true => exact total_fetchSeed hcovers.attempts_pos target hops
        · exact fun _ _ _ => hover

theorem total_begin (hcovers : t.Covers d config) (hconfig : s.crawler.config = config) :
    (s.begin d).total t ≤ s.requests + t.seed (t.hops + 1) := by
  have hover : s.requests ≤ s.requests + t.seed (t.hops + 1) := Nat.le_add_right _ _
  unfold begin
  split
  · exact hover
  · rename_i start hstart
    refine exec_of_ends (Q := fun s' => s'.total t ≤ s.requests + t.seed (t.hops + 1)) ?_
    rw [ends_markSeen]
    refine ⟨fun new frontier _ => ?_, fun e _ => hover⟩
    rw [← hcovers.hops, ← hconfig]
    exact total_fetchSeed hcovers.attempts_pos start _

theorem left_of_robotsNext {agent url url' : Text} {left left' : ℕ} {answer : RobotsAnswer}
    (h : robotsNext d.unicode d.robotsTxt agent url left answer = .hop url' left') :
    left' + 1 = left := by
  unfold robotsNext at h
  repeat' split at h
  all_goals cases h
  rfl

/-- A step of the seed part is paid for, and so is a toll on it. -/
theorem total_seeding (hcovers : t.Covers d config) (hconfig : s.crawler.config = config)
    (hworkers : s.workers = []) (hphase : s.phase.isSeeding = true) {act : CrawlerAct}
    (hs : s.step d act = some s') : s'.total t + t.toll ≤ s.total t := by
  have hover : ∀ result, (s.finish result).total t + t.toll ≤ s.total t := by
    intro result
    rw [total_finish, total]
    unfold due
    cases hp : s.phase with
    | created | fetching _ _ _ | robotsFetching _ _ _ _ =>
      dsimp only
      omega
    | guarding _ hops =>
      have hround := t.seed_succ hops
      dsimp only
      omega
    | robotsGuarding _ _ _ left =>
      have hround := t.robots_succ left
      dsimp only
      omega
    | joining | leaving _ | done _ =>
      rw [hp] at hphase
      cases hphase
  cases act with
  | begin =>
    simp only [CrawlRun.step] at hs
    split at hs <;> cases hs
    rename_i hp
    have hbegin := total_begin (t := t) hcovers hconfig
    simp only [total, due, hp] at hbegin ⊢
    omega
  | guarded reason =>
    simp only [CrawlRun.step, guarded] at hs
    split at hs
    · rename_i url hops hp
      split at hs <;> cases hs
      · exact hover _
      · have hstart := total_startFetch (s := s.note [.passed url]) hcovers.attempts_pos url hops
        have hrequests : (s.note [.passed url]).requests = s.requests := by
          simp [requests, note, Event.isRequest]
        rw [hrequests] at hstart
        rw [hstart, total, due, hp]
    · cases hs
  | guardRaised e | robotsGuardRaised e =>
    simp only [CrawlRun.step, guardRaised, robotsGuardRaised] at hs
    split at hs <;> cases hs
    exact hover _
  | attempted answer =>
    simp only [CrawlRun.step, attempted] at hs
    split at hs
    · rename_i url hops attempt hp
      cases answer with
      | retry =>
        dsimp only at hs
        split at hs <;> cases hs
        rename_i hless
        have hrequests : ({ s with phase := .fetching url hops (attempt + 1) }.note
            [.request url]).requests = s.requests + 1 := by
          simp [requests, note, Event.isRequest]
        have htries := t.tries_pred (hless.trans_le hcovers.attempts)
        simp only [total, hrequests]
        simp only [due, note, hp]
        omega
      | fetched response =>
        cases hs
        have hfetched := total_seedFetched (t := t) hcovers hconfig url hops
          (response.outcome url attempt)
        simp only [total, due, hp] at hfetched ⊢
        omega
      | raised e =>
        cases hs
        exact hover _
    · cases hs
  | robotsGuarded reason =>
    simp only [CrawlRun.step, robotsGuarded] at hs
    split at hs
    · rename_i url result robotsUrl left hp
      have hround := t.robots_succ left
      split at hs <;> cases hs
      · have hpool := t.pool_le_robots left
        have hloaded := total_loaded (t := t) hcovers hconfig url result .denyAll
        simp only [total, due, hp] at hloaded ⊢
        omega
      · have hrequest := total_robotsRequest (t := t) (s := s.note [.passed robotsUrl]) url result
          robotsUrl left
        have hrequests : (s.note [.passed robotsUrl]).requests = s.requests := by
          simp [requests, note, Event.isRequest]
        rw [hrequests] at hrequest
        rw [hrequest, total, due, hp]
    · cases hs
  | robotsAnswered answer =>
    simp only [CrawlRun.step, robotsAnswered] at hs
    split at hs
    · rename_i url result robotsUrl left hp
      split at hs <;> cases hs
      · exact hover _
      · rename_i policy hnext
        have hpool := t.pool_le_robots left
        have hloaded := total_loaded (t := t) hcovers hconfig url result policy
        simp only [total, due, hp] at hloaded ⊢
        omega
      · rename_i robotsUrl' left' hnext
        have hleft : left' + 1 = left := left_of_robotsNext hnext
        have hhop := total_robotsHop (d := d) (t := t) (s := s) url result robotsUrl' left'
        rw [hleft] at hhop
        simp only [total, due, hp] at hhop ⊢
        omega
    · cases hs
  | take w | locked w | slept w | workerAttempted w answer | joined | failed | left =>
    -- these wait for the pool
    simp only [CrawlRun.step, take, locked, slept, workerAttempted, joined, failed,
      CrawlRun.left] at hs
    split at hs
    · rename_i hpool _
      simp_all [RunPhase.isSeeding]
    · cases hs
  | cancel =>
    simp only [CrawlRun.step, cancel] at hs
    split at hs
    · cases hs
    · rename_i hpool
      simp [hpool, RunPhase.isSeeding] at hphase
    · rename_i hpool
      simp [hpool, RunPhase.isSeeding] at hphase
    · cases hs
      exact hover _
  | workerCancelled w =>
    simp [CrawlRun.step, workerCancelled, hworkers] at hs

/-! ## The pool -/

/-- The workers are there. -/
def InPool (s : CrawlRun) : Prop := s.phase = .joining ∨ ∃ cancelled, s.phase = .leaving cancelled

theorem due_inPool (h : s.InPool) :
    s.due t = (t.pages - s.crawler.claimed) * t.page + t.crew s.workers + t.rest s.phase := by
  unfold due
  obtain hp | ⟨cancelled, hp⟩ := h <;> rw [hp]

variable (t s') in
/-- A worker goes on, and claims no page. -/
theorem total_moved (h : s.InPool) {w : ℕ} {phase phase' : WorkerPhase}
    (hw : s.workers[w]? = some phase) (hworkers : s'.workers = s.workers.set w phase')
    (hphase : s'.phase = s.phase) (hclaimed : s'.crawler.claimed = s.crawler.claimed) :
    s'.total t + s.requests + t.worker phase = s.total t + s'.requests + t.worker phase' := by
  have h' : s'.InPool := by
    unfold InPool
    rw [hphase]
    exact h
  obtain ⟨others, hold, hnew⟩ := t.crew_set hw phase'
  rw [total, total, due_inPool h, due_inPool h', hworkers, hphase, hclaimed, hold, hnew]
  omega

/-- A worker claims the page it takes. -/
theorem total_claimed (h : s.InPool) {w : ℕ} (phase' : WorkerPhase)
    (hw : s.workers[w]? = some .ready) (hless : s.crawler.claimed < t.pages)
    (hworkers : s'.workers = s.workers.set w phase') (hphase : s'.phase = s.phase)
    (hclaimed : s'.crawler.claimed = s.crawler.claimed + 1)
    (hcost : s'.requests + t.worker phase' ≤ s.requests + t.page) :
    s'.total t + t.toll ≤ s.total t := by
  have h' : s'.InPool := by
    unfold InPool
    rw [hphase]
    exact h
  have hpage : (t.pages - s.crawler.claimed) * t.page =
      (t.pages - (s.crawler.claimed + 1)) * t.page + t.page := by
    have hone : t.pages - s.crawler.claimed = t.pages - (s.crawler.claimed + 1) + 1 := by omega
    rw [hone, Nat.succ_mul]
  obtain ⟨others, hold, hnew⟩ := t.crew_set hw phase'
  have hready : t.worker .ready = t.toll := rfl
  rw [total, total, due_inPool h, due_inPool h', hworkers, hphase, hclaimed, hold, hnew, hpage, hready]
  omega

/-- A worker is through with its fetch. -/
theorem total_worked (hp : s.phase = .joining) {w attempt : ℕ} {url : Text}
    (hw : s.workers[w]? = some (.fetching url attempt)) (fetched : Except Exn FetchOutcome) :
    (s.worked d w url fetched).total t + t.toll ≤ s.total t := by
  have hfollows := work_follows (d := d) url fetched s.crawler
  unfold worked
  split
  · rename_i crawler hwork
    have hsame := (hfollows.of_ok hwork).claimed
    have hmoved := total_moved t ({ s with crawler }.setWorker w .ready).taskDone (.inl hp) hw rfl
      rfl hsame
    have hrequests : (({ s with crawler }.setWorker w .ready).taskDone).requests = s.requests := rfl
    simp only [hrequests, Tariff.worker] at hmoved
    omega
  · rename_i e crawler hwork
    have hsame := (hfollows.of_error hwork).claimed
    have hmoved := total_moved t
      ({ s with crawler, errors := s.errors ++ [e] }.setWorker w .failed).taskDone (.inl hp) hw rfl
      rfl hsame
    have hrequests : (({ s with crawler, errors := s.errors ++ [e] }.setWorker w
        .failed).taskDone).requests = s.requests := rfl
    simp only [hrequests, Tariff.worker] at hmoved
    omega

theorem inPool_of_cancelling (h : s.cancelling = true) : s.InPool := by
  unfold cancelling at h
  split at h
  · rename_i cancelled hp
    exact .inr ⟨cancelled, hp⟩
  · rename_i hp
    exact .inl hp
  · cases h

/-- A step of the pool is paid for and a toll on it, or a URL is dropped from the queue, or the run is
cancelled once more. -/
theorem total_pool (hcovers : t.Covers d config) (hconfig : s.crawler.config = config)
    (hphase : s.phase.isSeeding = false) {act : CrawlerAct} (hs : s.step d act = some s') :
    s'.total t + t.toll ≤ s.total t ∨
      s'.total t = s.total t ∧
        s'.crawler.frontier.queue.length < s.crawler.frontier.queue.length ∨
      s' = s ∧ act = .cancel ∧ s.phase = .leaving true := by
  cases act with
  | take w =>
    simp only [step, take] at hs
    split at hs
    · rename_i url frontier hp hw hget
      obtain ⟨hqueue, -, -⟩ := Frontier.get_spec hget
      by_cases hdrop : s.crawler.stopping = true ∨ s.crawler.Capped
      · have hclaim : { s.crawler with frontier }.claim =
            (.dropped, { s.crawler with frontier, stopping := true }) := claim_of_stopping hdrop
        rw [hclaim] at hs
        obtain rfl := Option.some.inj hs
        refine .inr (.inl ⟨rfl, ?_⟩)
        show frontier.queue.length < _
        rw [hqueue, List.length_cons]
        omega
      · obtain ⟨hstop, hroom⟩ := not_or.mp hdrop
        have hclaim : { s.crawler with frontier }.claim =
            (if s.crawler.robots.delays then .waits else .fetches,
              { s.crawler with frontier, claimed := s.crawler.claimed + 1 }) :=
          claim_of_room hstop hroom
        rw [hclaim] at hs
        have hless : s.crawler.claimed < t.pages := by
          by_contra hfull
          refine hroom ⟨t.pages, ?_, by omega⟩
          rw [hconfig, hcovers.pages]
          rfl
        left
        cases hdelays : s.crawler.robots.delays with
        | true =>
          simp only [hdelays, if_true] at hs
          obtain rfl := Option.some.inj hs
          exact total_claimed (.inl hp) (.locking url) hw hless rfl rfl rfl le_rfl
        | false =>
          simp only [hdelays, Bool.false_eq_true, if_false] at hs
          obtain rfl := Option.some.inj hs
          refine total_claimed (.inl hp) (.fetching url 1) hw hless rfl rfl rfl ?_
          have htries := t.tries_pred (Nat.lt_of_succ_le hcovers.attempts_pos)
          simp only [Nat.sub_zero, Nat.zero_add] at htries
          simp only [requests, poolFetch, setWorker, note, Event.isRequest, List.countP_append,
            List.countP_cons, List.countP_nil, Tariff.worker, Tariff.page, htries]
          simp only [Bool.false_eq_true, if_true, if_false]
          omega
    · cases hs
  | locked w =>
    simp only [step, locked] at hs
    split at hs
    · rename_i url hp hw
      split at hs <;> cases hs
      have hmoved := total_moved t (s.setWorker w (.sleeping url)) (.inl hp) hw rfl rfl rfl
      have hsame : (s.setWorker w (.sleeping url)).requests = s.requests := rfl
      simp only [hsame, Tariff.worker] at hmoved
      left
      omega
    · cases hs
  | slept w =>
    obtain ⟨url, hp, hw, -, rfl⟩ := slept_some.mp hs
    have hmoved := total_moved t (s.poolFetch w url) (.inl hp) hw rfl rfl rfl
    have hmore : (s.poolFetch w url).requests = s.requests + 1 := by
      simp [requests, poolFetch, setWorker, note, Event.isRequest]
    have htries := t.tries_pred (Nat.lt_of_succ_le hcovers.attempts_pos)
    simp only [hmore, Tariff.worker] at hmoved
    left
    simp only [Nat.sub_zero, Nat.zero_add] at htries
    omega
  | workerAttempted w answer =>
    simp only [step, workerAttempted] at hs
    split at hs
    · rename_i url attempt hp hw
      cases answer with
      | retry =>
        dsimp only at hs
        split at hs <;> cases hs
        rename_i hless
        have hmoved := total_moved t
          ((s.setWorker w (.fetching url (attempt + 1))).note [.request url]) (.inl hp) hw rfl rfl rfl
        have hmore : ((s.setWorker w (.fetching url (attempt + 1))).note [.request url]).requests =
            s.requests + 1 := by
          simp [requests, setWorker, note, Event.isRequest]
        have htries := t.tries_pred (hless.trans_le hcovers.attempts)
        simp only [hmore, Tariff.worker] at hmoved
        left
        omega
      | fetched response =>
        cases hs
        exact .inl (total_worked hp hw _)
      | raised e =>
        cases hs
        exact .inl (total_worked hp hw _)
    · cases hs
  | joined | failed =>
    simp only [step, joined, failed] at hs
    split at hs
    · rename_i hp
      split at hs <;> cases hs
      left
      show s.requests + ({ s with phase := .leaving false } : CrawlRun).due t + t.toll ≤
        s.requests + s.due t
      rw [due_inPool (.inl hp), due_inPool (.inr ⟨false, rfl⟩), hp]
      simp only [Tariff.rest]
      omega
    · cases hs
  | cancel =>
    simp only [step, cancel] at hs
    split at hs
    · cases hs
    · rename_i hp
      obtain rfl := Option.some.inj hs
      left
      show s.requests + ({ s with phase := .leaving true } : CrawlRun).due t + t.toll ≤
        s.requests + s.due t
      rw [due_inPool (.inl hp), due_inPool (.inr ⟨true, rfl⟩), hp]
      simp only [Tariff.rest]
      omega
    · rename_i cancelled hp
      obtain rfl := Option.some.inj hs
      cases cancelled with
      | true => exact .inr (.inr ⟨by rw [← hp], rfl, hp⟩)
      | false =>
        left
        show s.requests + ({ s with phase := .leaving true } : CrawlRun).due t + t.toll ≤
          s.requests + s.due t
        rw [due_inPool (.inr ⟨false, hp⟩), due_inPool (.inr ⟨true, rfl⟩), hp]
        simp only [Tariff.rest]
        omega
    · rename_i hnot hjoining hleaving
      cases hp : s.phase with
      | joining => exact absurd hp hjoining
      | leaving cancelled => exact absurd hp (hleaving cancelled)
      | done result => exact absurd hp (hnot result)
      | created | guarding _ _ | fetching _ _ _ | robotsGuarding _ _ _ _
      | robotsFetching _ _ _ _ =>
        rw [hp] at hphase
        cases hphase
  | workerCancelled w =>
    simp only [step, workerCancelled] at hs
    split at hs
    · rename_i phase hw
      split at hs
      · cases hs
      · rename_i hlive
        simp only [Bool.or_eq_true, Bool.not_eq_true', not_or, Bool.not_eq_false,
          Bool.not_eq_true] at hlive
        have hin := inPool_of_cancelling hlive.1
        have hcost : t.toll ≤ t.worker phase := by
          cases phase with
          | done | failed => cases hlive.2
          | ready | locking _ | sleeping _ | fetching _ _ =>
            simp only [Tariff.worker]
            omega
        left
        split at hs <;> obtain rfl := Option.some.inj hs
        · have hmoved := total_moved t (s.setWorker w .done).taskDone hin hw rfl rfl rfl
          have hsame : ((s.setWorker w .done).taskDone).requests = s.requests := rfl
          simp only [hsame, Tariff.worker] at hmoved hcost
          omega
        · have hmoved := total_moved t (s.setWorker w .done) hin hw rfl rfl rfl
          have hsame : (s.setWorker w .done).requests = s.requests := rfl
          simp only [hsame, Tariff.worker] at hmoved hcost
          omega
    · cases hs
  | left =>
    simp only [step, CrawlRun.left] at hs
    split at hs
    · rename_i cancelled hp
      split at hs <;> cases hs
      left
      show s.requests + 0 + t.toll ≤ s.requests + s.due t
      rw [due_inPool (.inr ⟨cancelled, hp⟩), hp]
      cases cancelled with
      | true | false =>
        simp only [Tariff.rest]
        omega
    · cases hs
  | begin | guarded _ | guardRaised _ | attempted _ | robotsGuarded _ | robotsGuardRaised _
  | robotsAnswered _ =>
    simp only [step, guarded, guardRaised, attempted, robotsGuarded, robotsGuardRaised,
      robotsAnswered] at hs
    split at hs
    · rename_i hseed
      simp [hseed, RunPhase.isSeeding] at hphase
    · cases hs

/-! ## A run -/

/-- The configuration stays, and as long as nobody has failed every worker is at work. -/
structure Staffed (config : CrawlConfig) (s : CrawlRun) : Prop where
  config_eq : s.crawler.config = config
  seeding : s.phase.isSeeding = true → s.Seeds fun c => c.config = config
  joining : s.phase = .joining → s.errors = [] →
    0 < s.workers.length ∧ ∀ phase ∈ s.workers, phase.isOver = false

theorem staffed_create (config : CrawlConfig) (seed : Text) :
    (create config seed).Staffed config where
  config_eq := rfl
  seeding _ := ⟨rfl, rfl, rfl⟩
  joining := by intro h; cases h

theorem config_seed : SeedInvariant d fun c => c.config = config where
  frontier := fun _ _ h => h
  scope := fun _ _ h => h
  robots := fun _ _ _ h => h
  claimed := fun _ _ h => h
  followed := fun c url result target h =>
    (ends_followRedirect url target result c).mono
      (fun _ _ ⟨_, _, _, hfollows, _⟩ => hfollows.config.trans h) fun _ _ hfollows =>
        hfollows.config.trans h
  handled := fun c url result h => (handle_follows url (.ok result) c).mono
    (fun _ _ hfollows => hfollows.config.trans h) fun _ _ hfollows => hfollows.config.trans h

theorem config_poolMove {act : CrawlerAct} {c : Crawler} (h : PoolMove d s act c) :
    c.config = s.crawler.config := by
  cases h with
  | rest hact frontier => rfl
  | claim w before after =>
    obtain ⟨-, -, -, hconfig, -⟩ := claim_frame { s.crawler with frontier := before }
    exact hconfig
  | @work w attempt url answer c hjoining hw fetched hanswer hends after =>
    have hfollows : Follows d (foundLinks d url fetched) s.crawler c :=
      hends (work_follows url fetched s.crawler)
    exact hfollows.config

/-- A pool that goes on without a failure went on without one, and its workers with it. -/
theorem step_crew (hphase : s.phase.isSeeding = false) {act : CrawlerAct}
    (hs : s.step d act = some s') (hjoining : s'.phase = .joining) (herrors : s'.errors = []) :
    s.phase = .joining ∧ s.errors = [] ∧
      (s'.workers = s.workers ∨
        ∃ w phase', phase'.isOver = false ∧ s'.workers = s.workers.set w phase') := by
  cases act with
  | take w =>
    simp only [CrawlRun.step, take] at hs
    split at hs
    · split at hs <;> obtain rfl := Option.some.inj hs
      · exact ⟨hjoining, herrors, .inl rfl⟩
      · exact ⟨hjoining, herrors, .inr ⟨w, _, rfl, rfl⟩⟩
      · exact ⟨hjoining, herrors, .inr ⟨w, _, rfl, rfl⟩⟩
    · cases hs
  | locked w =>
    simp only [CrawlRun.step, locked] at hs
    split at hs
    · split at hs <;> cases hs
      exact ⟨hjoining, herrors, .inr ⟨w, _, rfl, rfl⟩⟩
    · cases hs
  | slept w =>
    obtain ⟨url, -, -, -, rfl⟩ := slept_some.mp hs
    exact ⟨hjoining, herrors, .inr ⟨w, _, rfl, rfl⟩⟩
  | workerAttempted w answer =>
    have hworked : ∀ url fetched, s' = s.worked d w url fetched →
        s.phase = .joining ∧ s.errors = [] ∧ (s'.workers = s.workers ∨
          ∃ w phase', phase'.isOver = false ∧ s'.workers = s.workers.set w phase') := by
      rintro url fetched rfl
      unfold worked at hjoining herrors ⊢
      split
      · rename_i crawler hwork
        rw [hwork] at hjoining herrors
        exact ⟨hjoining, herrors, .inr ⟨w, _, rfl, rfl⟩⟩
      · -- a worker that fails leaves an error behind
        rename_i e crawler hwork
        rw [hwork] at herrors
        exact absurd (List.append_eq_nil_iff.mp herrors).2 (List.cons_ne_nil _ _)
    simp only [CrawlRun.step, workerAttempted] at hs
    split at hs
    · cases answer with
      | retry =>
        dsimp only at hs
        split at hs <;> cases hs
        exact ⟨hjoining, herrors, .inr ⟨w, _, rfl, rfl⟩⟩
      | fetched response => exact hworked _ _ (Option.some.inj hs).symm
      | raised e => exact hworked _ _ (Option.some.inj hs).symm
    · cases hs
  | joined | failed =>
    simp only [CrawlRun.step, joined, failed] at hs
    split at hs
    · split at hs <;> cases hs
      cases hjoining
    · cases hs
  | cancel =>
    simp only [CrawlRun.step, cancel] at hs
    split at hs <;> cases hs <;> cases hjoining
  | workerCancelled w =>
    simp only [CrawlRun.step, workerCancelled] at hs
    split at hs
    · split at hs
      · cases hs
      · rename_i hlive
        simp only [Bool.or_eq_true, Bool.not_eq_true', not_or, Bool.not_eq_false,
          Bool.not_eq_true] at hlive
        have hsame : s'.phase = s.phase ∧ s'.errors = s.errors := by
          split at hs <;> obtain rfl := Option.some.inj hs <;> exact ⟨rfl, rfl⟩
        rw [hsame.1] at hjoining
        rw [hsame.2] at herrors
        have hcancelling := hlive.1
        simp [cancelling, hjoining, herrors] at hcancelling
    · cases hs
  | left =>
    simp only [CrawlRun.step, CrawlRun.left] at hs
    split at hs
    · split at hs <;> cases hs
      cases hjoining
    · cases hs
  | begin | guarded _ | guardRaised _ | attempted _ | robotsGuarded _ | robotsGuardRaised _
  | robotsAnswered _ =>
    simp only [CrawlRun.step, guarded, guardRaised, attempted, robotsGuarded, robotsGuardRaised,
      robotsAnswered] at hs
    split at hs
    · rename_i hseed
      simp [hseed, RunPhase.isSeeding] at hphase
    · cases hs

theorem Staffed.step (h : s.Staffed config) {act : CrawlerAct} (hs : s.step d act = some s') :
    s'.Staffed config := by
  cases hphase : s.phase.isSeeding with
  | true =>
    have hseeds := (h.seeding hphase).step config_seed hphase hs
    refine ⟨hseeds.crawler, fun _ => hseeds, fun hjoining _ => ?_⟩
    have hbegin := hseeds.beginning
    unfold Beginning at hbegin
    rw [hjoining] at hbegin
    have hpos := s'.crawler.config.concurrency_pos
    rw [hbegin, List.length_replicate]
    refine ⟨by omega, fun phase hmem => ?_⟩
    rw [List.eq_of_mem_replicate hmem]
    rfl
  | false =>
    have hpast := step_past_seed hphase hs
    refine ⟨(config_poolMove (step_poolMove hphase hs)).trans h.config_eq, fun hseeding => ?_, ?_⟩
    · rw [hpast] at hseeding
      cases hseeding
    · intro hjoining herrors
      obtain ⟨hjoining₀, herrors₀, hcrew⟩ := step_crew hphase hs hjoining herrors
      obtain ⟨hpos, hlive⟩ := h.joining hjoining₀ herrors₀
      obtain hsame | ⟨w, phase', hphase', hset⟩ := hcrew
      · rw [hsame]
        exact ⟨hpos, hlive⟩
      · rw [hset, List.length_set]
        refine ⟨hpos, fun phase hmem => ?_⟩
        obtain hold | rfl := List.mem_or_eq_of_mem_set hmem
        · exact hlive phase hold
        · exact hphase'

/-- No step costs more than was due for it. -/
theorem total_step (hcovers : t.Covers d config) (h : s.Staffed config) {act : CrawlerAct}
    (hs : s.step d act = some s') :
    s'.total t + t.toll ≤ s.total t ∨
      s'.total t = s.total t ∧
        s'.crawler.frontier.queue.length < s.crawler.frontier.queue.length ∨
      s' = s ∧ act = .cancel ∧ s.phase = .leaving true := by
  cases hphase : s.phase.isSeeding with
  | true =>
    exact .inl (total_seeding hcovers h.config_eq ((h.seeding hphase).workers hphase) hphase hs)
  | false => exact total_pool hcovers h.config_eq hphase hs

end CrawlRun

/-- A crawl with a cap sends so many requests at most, whatever the servers answer: for each seed URL,
for robots.txt and for each page that the cap allows. -/
theorem requests_capped {d : Deps} {config : CrawlConfig} {seed : Text} {s : CrawlRun} {max : ℤ}
    (hcap : config.maxPages = some max) (hattempts : 1 ≤ d.maxAttempts)
    (h : Reaches (CrawlRun.step d) (CrawlRun.create config seed) s) :
    s.requests ≤ (config.maxSeedRedirects.toNat + 1 + max.toNat) * d.maxAttempts +
      (maxRobotsRedirects + 1) := by
  let t : Tariff :=
    { hops := config.maxSeedRedirects.toNat, attempts := d.maxAttempts, pages := max.toNat,
      workers := config.concurrency.toNat, toll := 0 }
  have hpos := config.maxPages_pos max hcap
  have hcovers : t.Covers d config :=
    { hops := rfl, attempts := le_rfl, attempts_pos := hattempts, workers := rfl
      pages := by rw [hcap, Int.toNat_of_nonneg (by omega)] }
  have hinv : s.Staffed config ∧ s.total t ≤ (CrawlRun.create config seed).total t := by
    refine h.invariant (P := fun s => s.Staffed config ∧
      s.total t ≤ (CrawlRun.create config seed).total t)
      ⟨CrawlRun.staffed_create config seed, le_rfl⟩ ?_
    intro s act s' hi hs
    refine ⟨hi.1.step hs, le_trans ?_ hi.2⟩
    obtain hpaid | ⟨hsame, -⟩ | ⟨rfl, -⟩ := CrawlRun.total_step hcovers hi.1 hs
    · exact (Nat.le_add_right _ _).trans hpaid
    · exact hsame.le
    · exact le_rfl
  have htotal : (CrawlRun.create config seed).total t =
      (config.maxSeedRedirects.toNat + 1) * d.maxAttempts + (maxRobotsRedirects + 1) +
        max.toNat * d.maxAttempts := by
    have hdue : (CrawlRun.create config seed).total t =
        0 + (t.seed (config.maxSeedRedirects.toNat + 1) + 0) := rfl
    rw [hdue]
    simp [Tariff.seed, Tariff.robots, Tariff.pool, Tariff.page, Tariff.tries, Tariff.rest, t]
    omega
  rw [Nat.add_mul _ max.toNat]
  have hsent : s.requests ≤ s.total t := Nat.le_add_right _ _
  omega

/-- Two requests for each of two pages and one for robots.txt. -/
theorem requests_capped_retried : ∃ s,
    run (CrawlRun.step bodyIsLink) (CrawlRun.create
      (CrawlConfig.capped { concurrency := 1 } 2 (by decide)) "http://h/".toList) retriedRun =
        some s ∧ s.requests = 5 ∧ s.requests ≤ (5 + 1 + 2) * 2 + (5 + 1) := by
  have hrun : ((run (CrawlRun.step bodyIsLink) (CrawlRun.create
      (CrawlConfig.capped { concurrency := 1 } 2 (by decide)) "http://h/".toList)
      retriedRun).any fun s => decide (s.requests = 5)) = true := by
    decide +kernel
  obtain ⟨s, hs, hfive⟩ := (Option.any_eq_true _ _).mp hrun
  have hcap : (CrawlConfig.capped { concurrency := 1 } 2 (by decide)).maxPages = some 2 := rfl
  exact ⟨s, hs, of_decide_eq_true hfive, requests_capped hcap (by decide) ⟨retriedRun, hs⟩⟩

end UrlCrawler
