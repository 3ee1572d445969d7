import UrlCrawler.Core.Run
import UrlCrawler.Core.Handling
import UrlCrawler.Library.Execution

/-! # The invariant of a run

What holds of every state of every run, however the guards, the servers and the scheduler answer.
The frontier hands out no key twice; whatever waits to be fetched by the pool has passed the scope
and robots checks; and every request and every fetch of the pool in the log is licensed by what
stands before it.
-/
set_option autoImplicit false

namespace UrlCrawler
open Execution

/-- A URL that `normalize` has returned. -/
def Normalized (u : Unicode) (url : Text) : Prop := ∃ text, normalize u text = some url

/-- The links a page is given are normalized URLs, as those of `extract_links` are. -/
def Deps.NormalLinks (d : Deps) : Prop :=
  ∀ body url links, d.extract body url = .ok links → ∀ link ∈ links, Normalized d.unicode link

theorem normalLinks_of_lexbor {d : Deps} {lexbor : Lexbor}
    (h : d.extract = extractLinks d.unicode lexbor) : d.NormalLinks := by
  intro body url links hlinks link hlink
  rw [h] at hlinks
  exact normalize_of_extractLinks hlinks hlink

namespace Event

def fetched? : Event → Option Text
  | fetch url _ => some url
  | _ => none

def seedFetched? : Event → Option Text
  | fetch url false => some url
  | _ => none

end Event

/-- The URLs the seed chain fetched, according to a log. -/
def seedUrls (log : List Event) : List Text := log.filterMap Event.seedFetched?

def RunPhase.waiting : RunPhase → List Text
  | guarding url _ => [url]
  | _ => []

/-- The URL a worker has taken but not fetched yet. -/
def WorkerPhase.waiting? : WorkerPhase → Option Text
  | locking url | sleeping url => some url
  | _ => none

/-- What licenses an event after the events `pre`. The seed chain fetches before scope and policy
are fixed. A fetch of the pool needs the scope and the policy of the final seed URL to be fixed and
to allow it. A request needs, where guards are in place, a URL of the same host that a guard let
pass. -/
def Licensed (d : Deps) (pre : List Event) : Event → Prop
  | .fetch _ false => ∀ final scope policy, .ready final scope policy ∉ pre
  | .fetch url true => ∃ final scope policy, .ready final (some scope) policy ∈ pre ∧
      (seedUrls pre).getLast? = some final ∧ HostScope.fromUrl d.unicode final = .ok scope ∧
      HostScope.fromUrl d.unicode url = .ok scope ∧ policy.allows url = .ok true
  | .request url => d.seedGuard = true → d.robotsGuard = true →
      ∃ vetted, .passed vetted ∈ pre ∧ hostOf d.unicode url = hostOf d.unicode vetted
  | _ => True

namespace CrawlRun
variable {d : Deps} {s s' : CrawlRun}

def fetchedUrls (s : CrawlRun) : List Text := s.log.filterMap Event.fetched?

/-- The URLs that have left the frontier: fetched, taken by a worker or before the seed guard. -/
def issued (s : CrawlRun) : List Text :=
  s.phase.waiting ++ s.workers.filterMap WorkerPhase.waiting? ++ s.fetchedUrls

/-- The URLs that workers are processing. -/
def busy (s : CrawlRun) : List Text := s.workers.filterMap WorkerPhase.url?

/-- `url` may be fetched by the pool. -/
def Admitted (d : Deps) (s : CrawlRun) (url : Text) : Prop :=
  Normalized d.unicode url ∧ s.crawler.Admits d url

/-- The part of the invariant that does not depend on where `run` waits. -/
structure Core (d : Deps) (s : CrawlRun) : Prop where
  fresh : s.crawler.frontier.Fresh d.unicode s.issued
  unfinished : s.crawler.frontier.unfinished = s.crawler.frontier.queue.length + s.busy.length
  queued : ∀ url ∈ s.crawler.frontier.queue, s.Admitted d url
  processed : ∀ url ∈ s.busy, s.Admitted d url
  fixed : ∀ url scope policy, .ready url scope policy ∈ s.log →
    scope = s.crawler.scope ∧ policy = s.crawler.robots
  log : Justified (Licensed d) s.log

/-- The pool does not exist yet. -/
structure Unstarted (s : CrawlRun) : Prop where
  queue : s.crawler.frontier.queue = []
  workers : s.workers = []
  ready : ∀ url scope policy, .ready url scope policy ∉ s.log

/-- `url` is the seed URL fetched last. -/
structure Fetched (d : Deps) (s : CrawlRun) (url : Text) : Prop where
  normalized : Normalized d.unicode url
  last : (seedUrls s.log).getLast? = some url
  passed : d.seedGuard = true → .passed url ∈ s.log

/-- The scope is that of `url`. -/
def Anchored (d : Deps) (s : CrawlRun) (url : Text) : Prop :=
  ∃ scope, s.crawler.scope = some scope ∧ HostScope.fromUrl d.unicode url = .ok scope ∧
    hostOf d.unicode url = some scope.host

/-- The pool runs: scope and policy are those of the final seed URL. -/
def Pooled (d : Deps) (s : CrawlRun) : Prop :=
  ∃ url, s.Fetched d url ∧ s.Anchored d url ∧
    .ready url s.crawler.scope s.crawler.robots ∈ s.log

/-- The part of the invariant that goes with the place where `run` waits. -/
def AtPhase (d : Deps) (s : CrawlRun) : RunPhase → Prop
  | .created => s.Unstarted ∧ s.crawler.frontier.seen = ∅
  | .guarding url _ => s.Unstarted ∧ Normalized d.unicode url
  | .fetching url _ _ => s.Unstarted ∧ s.Fetched d url
  | .robotsGuarding url .. => s.Unstarted ∧ s.Fetched d url ∧ s.Anchored d url
  | .robotsFetching url _ robotsUrl _ => s.Unstarted ∧ s.Fetched d url ∧ s.Anchored d url ∧
      (d.robotsGuard = true → .passed robotsUrl ∈ s.log)
  | .joining | .leaving _ => s.Pooled d
  | .done _ => True

structure Inv (d : Deps) (s : CrawlRun) : Prop where
  core : s.Core d
  phase : s.AtPhase d s.phase

theorem inv_create (config : CrawlConfig) (seed : Text) : (create config seed).Inv d where
  core :=
    { fresh := ⟨List.Pairwise.nil, by simp [create, issued, RunPhase.waiting, fetchedUrls]⟩
      unfinished := rfl
      queued := by intro url h; cases h
      processed := by intro url h; cases h
      fixed := by intro url scope policy h; cases h
      log := Justified.nil }
  phase := ⟨⟨rfl, rfl, by intro url scope policy h; cases h⟩, rfl⟩

/-! ## Admission -/

theorem Admitted.scope {url : Text} (h : s.Admitted d url) :
    ∃ scope, s.crawler.scope = some scope ∧ HostScope.fromUrl d.unicode url = .ok scope ∧
      hostOf d.unicode url = some scope.host ∧ s.crawler.robots.allows url = .ok true := by
  obtain ⟨⟨text, hnormal⟩, scope, hscope, hallows⟩ := h
  obtain ⟨inScope, hin, hrobots⟩ := bind_eq_ok.mp hallows
  cases inScope with
  | false => cases hrobots
  | true =>
    obtain ⟨hurl, hhost, -⟩ := HostScope.of_allows hnormal hin
    exact ⟨scope, hscope, hurl, hhost, hrobots⟩

theorem status_of_redirectTarget {url target : Text} {result : FetchResult}
    (h : Crawler.redirectTarget d url result = .ok (some target)) :
    result.status ∈ redirectStatuses := by
  by_contra hs
  rw [Crawler.redirectTarget, if_neg hs] at h
  cases h

theorem normalized_redirectTarget {url target : Text} {result : FetchResult}
    (h : Crawler.redirectTarget d url result = .ok (some target)) :
    Normalized d.unicode target := by
  unfold Crawler.redirectTarget at h
  by_cases hs : result.status ∈ redirectStatuses
  · rw [if_pos hs] at h
    generalize result.location = location at h
    rcases location with _ | _ | ⟨c, location⟩
    · cases h
    · cases h
    · exact normalize_of_resolveHref h
  · rw [if_neg hs] at h
    cases h

theorem normalized_foundLinks (hd : d.NormalLinks) {url : Text}
    {fetched : Except Exn FetchOutcome} :
    ∀ link ∈ Crawler.foundLinks d url fetched, Normalized d.unicode link := by
  intro link hlink
  unfold Crawler.foundLinks at hlink
  split at hlink
  · rename_i result
    cases hp : Crawler.pageLinks d url result with
    | error e => simp [hp, Except.toOption] at hlink
    | ok links =>
      have hlink : link ∈ links := by simpa [hp, Except.toOption] using hlink
      unfold Crawler.pageLinks at hp
      split at hp
      · obtain ⟨target, htarget, rfl⟩ := map_eq_ok.mp hp
        obtain rfl := Option.mem_toList.mp hlink
        exact normalized_redirectTarget htarget
      · exact hd _ _ _ hp link hlink
  · cases hlink

/-! ## The core under the changes a step makes -/

theorem Admitted.congr {url : Text} (h : s.Admitted d url)
    (hscope : s'.crawler.scope = s.crawler.scope)
    (hrobots : s'.crawler.robots = s.crawler.robots) : s'.Admitted d url := by
  obtain ⟨hnormal, scope, hs, hallows⟩ := h
  exact ⟨hnormal, scope, hscope.trans hs, hrobots ▸ hallows⟩

theorem Core.congr (h : s.Core d) (hfrontier : s'.crawler.frontier = s.crawler.frontier)
    (hscope : s'.crawler.scope = s.crawler.scope) (hrobots : s'.crawler.robots = s.crawler.robots)
    (hphase : s'.phase.waiting.Sublist s.phase.waiting) (hworkers : s'.workers = s.workers)
    (hlog : s'.log = s.log) : s'.Core d where
  fresh := by
    rw [hfrontier]
    refine h.fresh.sublist ?_
    unfold issued fetchedUrls
    rw [hworkers, hlog]
    exact (hphase.append_right _).append_right _
  unfinished := by
    unfold busy
    rw [hfrontier, hworkers]
    exact h.unfinished
  queued := by
    unfold Admitted Crawler.Admits
    rw [hfrontier, hscope, hrobots]
    exact h.queued
  processed := by
    unfold busy Admitted Crawler.Admits
    rw [hworkers, hscope, hrobots]
    exact h.processed
  fixed := by
    rw [hlog, hscope, hrobots]
    exact h.fixed
  log := hlog ▸ h.log

theorem Core.finish (h : s.Core d) (result : RunResult) : (s.finish result).Core d :=
  h.congr rfl rfl rfl (List.nil_sublist _) rfl rfl

theorem inv_finish (h : s.Core d) (result : RunResult) : (s.finish result).Inv d :=
  ⟨h.finish result, trivial⟩

/-- Handling pages keeps the core. -/
theorem Core.follows (h : s.Core d) {links : List Text} {c : Crawler}
    (hlinks : ∀ link ∈ links, Normalized d.unicode link)
    (hf : Crawler.Follows d links s.crawler c) : { s with crawler := c }.Core d where
  fresh := h.fresh.grows hf.frontier
  unfinished := by
    have hgrow := hf.frontier.unfinished
    have hcount := h.unfinished
    show c.frontier.unfinished = c.frontier.queue.length + s.busy.length
    omega
  queued := fun url hurl => by
    rcases hf.frontier.queue url hurl with hold | ⟨hlink, scope, hscope, hallows⟩
    · exact (h.queued url hold).congr hf.scope hf.robots
    · exact ⟨hlinks url hlink, scope, hf.scope.trans hscope, hf.robots ▸ hallows⟩
  processed := fun url hurl => (h.processed url hurl).congr hf.scope hf.robots
  fixed := fun url scope policy hready => by
    rw [hf.scope, hf.robots]
    exact h.fixed url scope policy hready
  log := h.log

/-- An event that is no fetch is logged. -/
theorem Core.note (h : s.Core d) {e : Event} (he : Licensed d s.log e) (hfetch : e.fetched? = none)
    (hready : ∀ url scope policy, e ≠ .ready url scope policy) : (s.note [e]).Core d where
  fresh := by
    have hissued : (s.note [e]).issued = s.issued := by
      simp [issued, CrawlRun.note, fetchedUrls, hfetch]
    rw [hissued]
    exact h.fresh
  unfinished := h.unfinished
  queued := h.queued
  processed := h.processed
  fixed := fun url scope policy hmem => by
    rcases List.mem_append.mp hmem with hmem | hmem
    · exact h.fixed url scope policy hmem
    · exact absurd (List.mem_singleton.mp hmem).symm (hready url scope policy)
  log := h.log.concat he

theorem Unstarted.issued (h : s.Unstarted) : s.issued = s.phase.waiting ++ s.fetchedUrls := by
  simp [CrawlRun.issued, h.workers]

theorem Unstarted.note (h : s.Unstarted) {e : Event}
    (hready : ∀ url scope policy, e ≠ .ready url scope policy) : (s.note [e]).Unstarted where
  queue := h.queue
  workers := h.workers
  ready := fun url scope policy hmem => by
    rcases List.mem_append.mp hmem with hmem | hmem
    · exact h.ready url scope policy hmem
    · exact hready url scope policy (List.mem_singleton.mp hmem).symm

theorem Fetched.note {url : Text} (h : s.Fetched d url) {e : Event}
    (hseed : e.seedFetched? = none) : (s.note [e]).Fetched d url where
  normalized := h.normalized
  last := by
    have hlast := h.last
    simpa [seedUrls, CrawlRun.note, hseed] using hlast
  passed := fun hg => List.mem_append_left _ (h.passed hg)

/-! ## The seed chain -/

/-- The first request for a seed URL: it was marked as seen, and vetted if there is a guard. -/
theorem inv_startFetch (h : s.Core d) (hun : s.Unstarted) {url : Text} (hops : ℕ)
    (hfresh : s.crawler.frontier.Fresh d.unicode (url :: s.fetchedUrls))
    (hnormal : Normalized d.unicode url) (hpassed : d.seedGuard = true → .passed url ∈ s.log) :
    (s.startFetch url hops).Inv d where
  core :=
    { fresh := by
        have hissued : (s.startFetch url hops).issued = s.fetchedUrls ++ [url] := by
          simp [CrawlRun.issued, startFetch, CrawlRun.note, fetchedUrls, Event.fetched?,
            RunPhase.waiting, hun.workers]
        rw [hissued]
        exact hfresh.perm ((List.perm_append_singleton url _).symm.append_right _)
          (Finset.Subset.refl _)
      unfinished := h.unfinished
      queued := h.queued
      processed := h.processed
      fixed := fun final scope policy hmem => by
        refine h.fixed final scope policy ?_
        simpa [startFetch, CrawlRun.note] using hmem
      log := by
        have hfetch : Justified (Licensed d) (s.log ++ [.fetch url false]) :=
          h.log.concat hun.ready
        have hlicensed : Licensed d (s.log ++ [.fetch url false]) (.request url) := fun hg _ =>
          ⟨url, List.mem_append_left _ (hpassed hg), rfl⟩
        simpa [startFetch, CrawlRun.note] using hfetch.concat hlicensed }
  phase :=
    ⟨⟨hun.queue, hun.workers, fun final scope policy hmem => by
        refine hun.ready final scope policy ?_
        simpa [startFetch, CrawlRun.note] using hmem⟩,
      { normalized := hnormal
        last := by
          show (seedUrls (s.log ++ [.fetch url false, .request url])).getLast? = some url
          rw [seedUrls, List.filterMap_append]
          exact List.getLast?_concat
        passed := fun hg => List.mem_append_left _ (hpassed hg) }⟩

theorem inv_fetchSeed (h : s.Core d) (hun : s.Unstarted) {url : Text} (hops : ℕ)
    (hfresh : s.crawler.frontier.Fresh d.unicode (url :: s.fetchedUrls))
    (hnormal : Normalized d.unicode url) : (s.fetchSeed d url hops).Inv d := by
  unfold fetchSeed
  split
  · refine ⟨{ h with fresh := ?_ }, ⟨hun.queue, hun.workers, hun.ready⟩, hnormal⟩
    simpa [CrawlRun.issued, RunPhase.waiting, hun.workers, fetchedUrls] using hfresh
  · rename_i hguard
    exact inv_startFetch h hun hops hfresh hnormal fun hg => absurd hg hguard

theorem exec_of_ends {α : Type} {program : CrawlerM α} {next : α → CrawlRun → CrawlRun}
    {Q : CrawlRun → Prop}
    (h : Effects.Ends program s.crawler (fun a crawler => Q (next a { s with crawler }))
      fun e crawler => Q ({ s with crawler }.raise e)) : Q (s.exec program next) := by
  unfold exec
  unfold Effects.Ends at h
  cases hp : program s.crawler with
  | ok a crawler =>
    rw [hp] at h
    exact h
  | error e crawler =>
    rw [hp] at h
    exact h

/-- Marking a seed URL keeps the core; a new one is one more. -/
theorem Core.markSeen (h : s.Core d) {url : Text} {new : Bool} {frontier : Frontier}
    (hm : s.crawler.frontier.markSeen d.unicode url = .ok (new, frontier)) :
    { s with crawler := { s.crawler with frontier } }.Core d ∧
      (new = true → frontier.Fresh d.unicode (url :: s.issued)) := by
  obtain ⟨hfresh, hnew⟩ := h.fresh.markSeen hm
  obtain ⟨hqueue, hunfinished, -⟩ := Frontier.markSeen_spec hm
  refine ⟨{ h with fresh := hfresh, unfinished := ?_, queued := ?_ }, hnew⟩
  · rw [hunfinished, hqueue]
    exact h.unfinished
  · rw [hqueue]
    exact h.queued

theorem inv_begin (h : s.Inv d) (hp : s.phase = .created) : (s.begin d).Inv d := by
  have hphase := h.phase
  rw [hp] at hphase
  obtain ⟨hun, hseen⟩ := hphase
  unfold begin
  split
  · exact inv_finish h.core _
  · rename_i start hstart
    have hcore₀ : { s with start }.Core d :=
      h.core.congr rfl rfl rfl (List.Sublist.refl _) rfl rfl
    have hun₀ : { s with start }.Unstarted := ⟨hun.queue, hun.workers, hun.ready⟩
    have hphase₀ : { s with start }.phase.waiting = [] := by simp [hp, RunPhase.waiting]
    have hseen₀ : { s with start }.crawler.frontier.seen = ∅ := hseen
    generalize ({ s with start } : CrawlRun) = s₀ at *
    refine exec_of_ends ?_
    rw [Crawler.ends_markSeen]
    refine ⟨fun new frontier hm => ?_, fun e _ => inv_finish hcore₀ _⟩
    obtain ⟨hcore, hfresh⟩ := hcore₀.markSeen hm
    obtain ⟨hqueue, -, -, key, -, -, hnew⟩ := Frontier.markSeen_spec hm
    refine inv_fetchSeed hcore ⟨hqueue.trans hun₀.queue, hun₀.workers, hun₀.ready⟩ _ ?_ ⟨_, hstart⟩
    have hfresh := hfresh (hnew.mpr (by simp [hseen₀]))
    rwa [hun₀.issued, hphase₀] at hfresh

/-! ## Loading the policy -/

theorem filterMap_replicate_none {α β : Type} {f : α → Option β} {a : α} (h : f a = none)
    (n : ℕ) : (List.replicate n a).filterMap f = [] := by
  rw [List.filterMap_eq_nil_iff]
  intro b hb
  rw [(List.mem_replicate.mp hb).2, h]

/-- The policy is there: the pool is started, or the run ends. -/
theorem inv_loaded (hd : d.NormalLinks) (h : s.Core d) (hun : s.Unstarted) {url : Text}
    (hf : s.Fetched d url) (ha : s.Anchored d url) (result : FetchResult) (policy : RobotsPolicy) :
    (s.loaded d url result policy).Inv d := by
  generalize hs : { s with crawler := { s.crawler with robots := policy } }.note
    [.ready url s.crawler.scope policy] = s₁
  have hqueue : s₁.crawler.frontier.queue = [] := by
    subst hs
    exact hun.queue
  have hbusy : s₁.busy = [] := by
    subst hs
    simp [CrawlRun.busy, CrawlRun.note, hun.workers]
  have hfetched : (Event.ready url s.crawler.scope policy).fetched? = none := rfl
  have hcore : s₁.Core d :=
    { fresh := by
        subst hs
        have hfresh := h.fresh
        simpa [CrawlRun.issued, CrawlRun.note, fetchedUrls, hfetched] using hfresh
      unfinished := by
        subst hs
        exact h.unfinished
      queued := by simp [hqueue]
      processed := by simp [hbusy]
      fixed := fun final scope policy' hmem => by
        subst hs
        rcases List.mem_append.mp hmem with hmem | hmem
        · exact absurd hmem (hun.ready final scope policy')
        · cases List.mem_singleton.mp hmem
          exact ⟨rfl, rfl⟩
      log := by
        subst hs
        exact h.log.concat trivial }
  have hf₁ : s₁.Fetched d url := by
    subst hs
    have hf₀ : { s with crawler := { s.crawler with robots := policy } }.Fetched d url :=
      ⟨hf.normalized, hf.last, hf.passed⟩
    exact hf₀.note rfl
  have ha₁ : s₁.Anchored d url := by
    subst hs
    exact ha
  have hready : .ready url s₁.crawler.scope s₁.crawler.robots ∈ s₁.log := by
    subst hs
    exact List.mem_append_right _ (List.mem_singleton_self _)
  have hworkers : s₁.workers = [] := by
    subst hs
    exact hun.workers
  simp only [loaded, hs]
  split
  · exact inv_finish hcore _
  · exact inv_finish hcore _
  · refine exec_of_ends ((Crawler.handle_follows url (.ok result) s₁.crawler).mono
      (fun _ c hfollows => ?_) fun e c hfollows => ?_)
    · obtain ⟨hfresh, hunfinished, hqueued, -, hfixed, hlog⟩ :=
        hcore.follows (normalized_foundLinks hd) hfollows
      obtain ⟨scope, hscope, hanchor⟩ := ha₁
      have hwaiting : (List.replicate c.config.concurrency.toNat WorkerPhase.ready).filterMap
          WorkerPhase.waiting? = [] := filterMap_replicate_none rfl _
      have hidle : (List.replicate c.config.concurrency.toNat WorkerPhase.ready).filterMap
          WorkerPhase.url? = [] := filterMap_replicate_none rfl _
      refine ⟨⟨?_, ?_, hqueued, ?_, hfixed, hlog⟩, url, ⟨hf₁.normalized, hf₁.last, hf₁.passed⟩,
        ⟨scope, hfollows.scope.trans hscope, hanchor⟩, ?_⟩
      · refine hfresh.sublist ?_
        simp [issued, RunPhase.waiting, hwaiting, fetchedUrls]
      · rw [hunfinished]
        simp [busy, hworkers, hidle]
      · simp [busy, hidle]
      · simp only [hfollows.scope, hfollows.robots]
        exact hready
    · exact inv_finish (hcore.follows (normalized_foundLinks hd) hfollows) _

theorem inv_robotsRequest (h : s.Core d) (hun : s.Unstarted) {url : Text} (hf : s.Fetched d url)
    (ha : s.Anchored d url) (result : FetchResult) {robotsUrl : Text} (left : ℕ)
    (hpassed : d.robotsGuard = true → .passed robotsUrl ∈ s.log) :
    (s.robotsRequest url result robotsUrl left).Inv d := by
  have hcore : { s with phase := .robotsFetching url result robotsUrl left }.Core d :=
    h.congr rfl rfl rfl (List.nil_sublist _) rfl rfl
  have hun₁ : { s with phase := .robotsFetching url result robotsUrl left }.Unstarted :=
    ⟨hun.queue, hun.workers, hun.ready⟩
  have hf₁ : { s with phase := .robotsFetching url result robotsUrl left }.Fetched d url :=
    ⟨hf.normalized, hf.last, hf.passed⟩
  have hlicensed : Licensed d s.log (.request robotsUrl) := fun _ hg => ⟨robotsUrl, hpassed hg, rfl⟩
  exact ⟨hcore.note hlicensed rfl (by simp), hun₁.note (by simp), hf₁.note rfl, ha,
    fun hg => List.mem_append_left _ (hpassed hg)⟩

theorem inv_robotsHop (h : s.Core d) (hun : s.Unstarted) {url : Text} (hf : s.Fetched d url)
    (ha : s.Anchored d url) (result : FetchResult) (robotsUrl : Text) (left : ℕ) :
    (s.robotsHop d url result robotsUrl left).Inv d := by
  unfold robotsHop
  split
  · exact ⟨h.congr rfl rfl rfl (List.nil_sublist _) rfl rfl,
      ⟨hun.queue, hun.workers, hun.ready⟩, ⟨hf.normalized, hf.last, hf.passed⟩, ha⟩
  · rename_i hguard
    exact inv_robotsRequest h hun hf ha result left fun hg => absurd hg hguard

theorem inv_loadRobots (hd : d.NormalLinks) (h : s.Core d) (hun : s.Unstarted) {url : Text}
    (hf : s.Fetched d url) (ha : s.Anchored d url) (result : FetchResult) :
    (s.loadRobots d url result).Inv d := by
  unfold loadRobots
  split
  · split
    · exact inv_finish h _
    · exact inv_robotsHop h hun hf ha result _ _
  · exact inv_loaded hd h hun hf ha result _

/-- The chain has landed: the scope is anchored before anything else. -/
theorem inv_landed (hd : d.NormalLinks) (h : s.Core d) (hun : s.Unstarted) {url : Text}
    (hf : s.Fetched d url) (result : FetchResult) : (s.landed d url result).Inv d := by
  unfold landed
  split
  · exact inv_finish h _
  · rename_i scope hscope
    have hcore : { s with crawler := { s.crawler with scope := some scope } }.Core d :=
      { h with
        queued := by simp [hun.queue]
        processed := by simp [busy, hun.workers]
        fixed := fun final scope' policy hmem => absurd hmem (hun.ready final scope' policy) }
    have hparts : ∃ parts, urlsplit d.unicode url = .ok parts := by
      obtain ⟨parts, hparts, -⟩ := bind_eq_ok.mp hscope
      exact ⟨parts, hparts⟩
    obtain ⟨parts, hparts⟩ := hparts
    obtain ⟨text, hnormal⟩ := hf.normalized
    obtain ⟨scope', hscope', hhost⟩ := fromUrl_of_urlsplit hnormal hparts
    obtain rfl := Except.ok.inj (hscope.symm.trans hscope')
    dsimp only
    split
    · exact inv_finish hcore _
    · exact inv_loadRobots hd hcore ⟨hun.queue, hun.workers, hun.ready⟩
        ⟨hf.normalized, hf.last, hf.passed⟩ ⟨scope, rfl, hscope, hhost⟩ result

theorem inv_seedFetched (hd : d.NormalLinks) (h : s.Core d) (hun : s.Unstarted)
    (hwaiting : s.phase.waiting = []) {url : Text} (hf : s.Fetched d url) (hops : ℕ)
    (outcome : FetchOutcome) : (s.seedFetched d url hops outcome).Inv d := by
  cases outcome with
  | error error => exact inv_finish h _
  | ok result =>
    unfold seedFetched
    dsimp only
    split
    · exact inv_finish h _
    · exact inv_landed hd h hun hf result
    · rename_i target htarget
      cases hops with
      | zero => exact inv_finish h _
      | succ hops =>
        refine exec_of_ends ((Crawler.ends_followRedirect url target result s.crawler).mono
          ?_ fun e c hfollows => inv_finish (h.follows (by simp) hfollows) _)
        rintro new c ⟨frontier, hm, hfrontier, hfollows, -⟩
        obtain ⟨hmarked, hfresh⟩ := h.markSeen hm
        have hcore : { s with crawler := c }.Core d := hmarked.follows (by simp) hfollows
        cases new with
        | false => exact inv_finish hcore _
        | true =>
          obtain ⟨hqueue, -⟩ := Frontier.markSeen_spec hm
          have hfresh := hfresh rfl
          rw [hun.issued, hwaiting, List.nil_append] at hfresh
          refine inv_fetchSeed hcore ⟨?_, hun.workers, hun.ready⟩ hops ?_
            (normalized_redirectTarget htarget)
          · rw [hfrontier, hqueue]
            exact hun.queue
          · rw [hfrontier]
            exact hfresh

end CrawlRun

end UrlCrawler
