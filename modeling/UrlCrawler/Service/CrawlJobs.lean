import UrlCrawler.Core.ReportLog
import UrlCrawler.Service.FinishedCrawls

/-! # Crawls as jobs

The task a worker runs is `Crawler.run` itself: `WorkerDeps.crawlTask` makes the machine of a run
the crawl task of a job. What holds of the service for every crawl task holds for it.
-/
set_option autoImplicit false

namespace UrlCrawler
open Execution

/-- What a worker builds its crawlers with: `extract_links` and a reporter whose `page` does not
raise, as that of a `DbReporter`. -/
structure WorkerDeps extends Deps where
  lexbor : Lexbor
  extract_eq : extract = extractLinks unicode lexbor
  silent : ∀ pages page, reporter pages page = none

namespace WorkerDeps
variable (d : WorkerDeps)

theorem normalLinks : d.NormalLinks := normalLinks_of_lexbor d.extract_eq

/-- A state that a run of the crawler can reach. -/
abbrev RunState : Type :=
  { s : CrawlRun // ∃ config seed, Reaches (CrawlRun.step d.toDeps) (CrawlRun.create config seed) s }

def advance (s : d.RunState) (act : CrawlerAct) : Option d.RunState :=
  match h : s.1.step d.toDeps act with
  | none => none
  | some s' => some ⟨s', by
      obtain ⟨config, seed, hreaches⟩ := s.2
      exact ⟨config, seed, hreaches.tail h⟩⟩

variable {d}

theorem advance_some {s s' : d.RunState} {act : CrawlerAct} (h : d.advance s act = some s') :
    s.1.step d.toDeps act = some s'.1 := by
  unfold advance at h
  split at h
  · cases h
  · rename_i hs
    cases h
    exact hs

variable (d)

/-- `crawler.run(seed)` as a crawl task. -/
def crawlTask : CrawlTask where
  State := d.RunState
  Act := CrawlerAct
  start config seed := ⟨CrawlRun.create config seed, config, seed, Reaches.refl _⟩
  step := d.advance
  cancels act :=
    match act with
    | .cancel => true
    | _ => false
  pages s := s.1.crawler.reports
  stats s := s.1.crawler.stats
  result s := s.1.result
  pages_start _ _ := rfl
  result_start _ _ := rfl
  pages_step {s} _ _ h := by
    obtain ⟨config, seed, hreaches⟩ := s.2
    exact CrawlRun.reports_step hreaches (advance_some h)
  ended := by
    intro s act s' h
    have hstep := advance_some h
    cases hphase : s.1.phase with
    | done result =>
      rw [CrawlRun.step_done hphase] at hstep
      cases hstep
    | created | guarding _ _ | fetching _ _ _ | robotsGuarding _ _ _ _ | robotsFetching _ _ _ _
    | joining | leaving _ => simp [CrawlRun.result, hphase]
  pagesTotal := by
    rintro ⟨s, config, seed, as, hrun⟩
    exact (CrawlRun.counts_of_run d.normalLinks d.silent hrun).1.tally.total

end WorkerDeps

/-- A crawl recorded as finished has all its pages. The crawler that the lease which recorded it ran
has returned normally and un-aborted, the page rows are exactly the N pages it reported, under `seq`
1 to N, and the stored stats count N pages. -/
theorem finishedCrawl_complete {d : WorkerDeps} {settings : Settings} {s : System d.crawlTask}
    (h : Reaches (System.step settings) {} s) {c : CrawlId} {r : Crawl}
    (hr : s.store.db.crawl.lookup c = some r) (hf : r.state = .finished) :
    ∃ n o stats, s.recorded c = some n ∧ (s.history c n).result = some (.returned o) ∧
      o.aborted = false ∧ r.stats = some stats ∧
      stats.pagesTotal = (s.history c n).reports.length ∧
      ∀ seq, s.store.db.page.lookup (c, seq) =
        if 0 < seq ∧ seq ≤ (s.history c n).reports.length then
          (rowsOf (s.history c n).reports)[seq - 1]?.map (pageOf c)
        else none :=
  finished_complete h hr hf

/-- Workers whose crawlers see pages that are their only link. -/
def linkWorkers : WorkerDeps where
  toDeps := bodyIsLink
  lexbor body := { base := none, hrefs := [some (body.map fun byte => Char.ofNat byte.toNat)] }
  extract_eq := rfl
  silent _ _ := rfl

/-- A crawl of one page, from its creation to the row that says it is finished. -/
def finishedOnce : List (SystemAct linkWorkers.crawlTask) :=
  [.create 1 homeUrl
      { concurrency := 1, timeout := 10, maxPages := none, maxBytes := 5000000,
        respectRobots := false } 0,
    .claim "host:1", .claimCommit "host:1" [] 1 1, .claimReturned "host:1",
    .job "host:1" (.reporter .start),
    .job "host:1" (.crawl CrawlerAct.begin fun _ => 2),
    .job "host:1" (.crawl (CrawlerAct.guarded none) fun _ => 2),
    .job "host:1" (.crawl (CrawlerAct.attempted (.fetched (linkPage homeUrl))) fun _ => 2),
    .job "host:1" (.crawl CrawlerAct.joined fun _ => 2),
    .job "host:1" (.crawl (CrawlerAct.workerCancelled 0) fun _ => 2),
    .job "host:1" (.crawl CrawlerAct.left fun _ => 2),
    .job "host:1" .crawlEnded, .job "host:1" .watcherCancelled, .job "host:1" .stopWatchCancelled,
    .job "host:1" .watchersDone, .job "host:1" (.reporter (.lock .close)),
    .commit "host:1" (.flush .close) 3, .job "host:1" (.reporter (.resume .close)),
    .job "host:1" .closeDone, .job "host:1" .flusherCancelled, .job "host:1" .flusherDone,
    .job "host:1" (.clientClosed 1), .commit "host:1" .record 4]

theorem finishedCrawl_complete_once :
    ∃ s r, run (System.step ⟨100, toString⟩) {} finishedOnce = some s ∧
      s.store.db.crawl.lookup 1 = some r ∧ r.state = .finished ∧
      ∃ n stats, s.recorded 1 = some n ∧ r.stats = some stats ∧
        stats.pagesTotal = (s.history 1 n).reports.length := by
  have hrun : (run (System.step ⟨100, toString⟩) {} finishedOnce).any (fun s =>
      (s.store.db.crawl.lookup 1).any fun r => decide (r.state = .finished)) = true := by
    decide +kernel
  obtain ⟨s, hs, hany⟩ := (Option.any_eq_true _ _).mp hrun
  obtain ⟨r, hr, hfinished⟩ := (Option.any_eq_true _ _).mp hany
  have hf : r.state = .finished := of_decide_eq_true hfinished
  obtain ⟨n, o, stats, hrecorded, -, -, hstats, htotal, -⟩ :=
    finishedCrawl_complete ⟨finishedOnce, hs⟩ hr hf
  exact ⟨s, r, hs, hr, hf, n, stats, hrecorded, hstats, htotal⟩

end UrlCrawler
