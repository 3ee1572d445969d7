import UrlCrawler.Core.Endings
import UrlCrawler.Service.CrawlJobs
import UrlCrawler.Service.PostedCrawls
import UrlCrawler.Service.SettledPages

/-! # From the site to the API

The crawler, the worker, the database and the API one behind the other. If the servers the workers
fetch from answer as a site does, the pages the API serves of a finished crawl are that site's:
whatever leases were lost before, whatever workers crashed and whoever was cancelled.
-/
set_option autoImplicit false

namespace UrlCrawler
open Execution

/-! ## One run -/

namespace CrawlRun
variable {d : WorkerDeps} {site : Site} {config : CrawlConfig} {seed : Text} {s s' : CrawlRun}

/-- A run that the site answers, until it is cancelled. -/
structure OfSite (d : Deps) (site : Site) (config : CrawlConfig) (seed : Text) (s : CrawlRun) :
    Prop where
  reaches : Reaches (CrawlRun.step d) (create config seed) s
  search : (∀ start, normalize d.unicode seed = some start →
    s.AtSite d site config seed start ∧ s.Inv d) ∨ ∃ s₀ : CrawlRun, s₀.Closing s

theorem ofSite_create (d : Deps) (site : Site) (config : CrawlConfig) (seed : Text) :
    (create config seed).OfSite d site config seed where
  reaches := Reaches.refl _
  search := .inl fun _ _ => ⟨rfl, inv_create config seed⟩

theorem OfSite.step (hsite : ∀ url, Quiet (site url)) (h : s.OfSite d.toDeps site config seed)
    {act : CrawlerAct} (hact : d.crawlTask.cancels act = true ∨ site.Serves s act)
    (hs : s.step d.toDeps act = some s') : s'.OfSite d.toDeps site config seed where
  reaches := h.reaches.tail hs
  search := by
    obtain hsearch | ⟨s₀, hclosing⟩ := h.search
    · obtain hcancel | hserves := hact
      · right
        have hcancelled : act = .cancel := by
          cases act with
          | cancel => rfl
          | _ => cases hcancel
        subst hcancelled
        exact ⟨s, (closing_of_cancel h.reaches hs).1⟩
      · left
        intro start hstart
        obtain ⟨hat, hinv⟩ := hsearch start hstart
        exact ⟨atSite_step d.normalLinks (pageLinks_quiet d.extract_eq) d.silent hsite
          hstart hat hinv.core hserves hs, inv_step d.normalLinks hinv hs⟩
    · exact .inr ⟨s₀, (hclosing.step hs).1⟩

/-- A run that has returned was not cancelled. -/
theorem OfSite.lists (h : s.OfSite d.toDeps site config seed) (hconsistent : site.Consistent d.toDeps)
    {outcome : CrawlOutcome} (hresult : s.result = some (.returned outcome))
    (hgoing : outcome.aborted = false) :
    ∃ start, normalize d.unicode seed = some start ∧
      site.Lists d.toDeps config start s.crawler.robots (s.crawler.reportedKeys d.toDeps) := by
  have hdone := phase_of_result hresult
  obtain ⟨start, hstart⟩ := start_of_returned h.reaches hdone
  refine ⟨start, hstart, ?_⟩
  obtain hsearch | ⟨s₀, hclosing⟩ := h.search
  · obtain ⟨hat, hinv⟩ := hsearch start hstart
    exact (hat.lists hconsistent hinv.core hdone hgoing).2
  · obtain hleaving | hended := hclosing.phase
    · rw [hdone] at hleaving
      cases hleaving
    · rw [hdone] at hended
      have hreturned := RunPhase.done.inj hended
      unfold cancelledResult at hreturned
      split at hreturned <;> cases hreturned

end CrawlRun

/-! ## The runs of a service -/

section
variable {d : WorkerDeps} {settings : Settings} {site : Site}

/-- The servers answer the crawls of the service as the site does. -/
def ServedBy (site : Site) (s : System d.crawlTask) : SystemAct d.crawlTask → Prop
  | .job worker (.crawl act _) =>
    match s.workers worker with
    | .running job => d.crawlTask.cancels act = true ∨ site.Serves job.task.1 act
    | _ => True
  | _ => True

namespace System

/-- The task is a run for the stored crawl `c`. -/
def RunsFor (settings : Settings) (site : Site) (s : System d.crawlTask) (c : CrawlId)
    (task : CrawlRun) : Prop :=
  ∃ row config, s.store.db.crawl.lookup c = some row ∧
    CrawlConfig.ofStored settings.repr row.config = .ok config ∧
    task.OfSite d.toDeps site config row.seed

theorem task_jobStep {T : CrawlTask} {job job' : Job T} {a : JobAct T}
    (h : JobStep job a (.running job')) :
    job'.task = job.task ∧ job'.crawl = job.crawl := by
  generalize hstate : (.running job' : WorkerState T) = state at h
  cases h with
  | record state error flushError phase elapsed =>
    exact absurd hstate.symm Job.record_ne_running
  | gone => cases hstate
  | reporter | watch | ended | drain | closeReturned | closeLost | closeFailed | flusherCancelled
  | flusherDone =>
    cases hstate
    exact ⟨rfl, rfl⟩

/-- The history of a lease grows with its running job only. -/
theorem history_step {T : CrawlTask} {s s' : System T} (hs : SystemStep settings s s') (c : CrawlId)
    (n : ℕ) : s'.history c n = s.history c n ∨
      ∃ worker job, s'.workers worker = .running job ∧ job.crawl = c ∧ job.lease = n := by
  cases hs with
  | reap id _ hreap =>
    obtain ⟨_, _, _, _, _, hhistory, -⟩ := commitReap_spec hreap
    exact .inl (by rw [hhistory])
  | commit worker slot now call hi _ hcommit =>
    obtain ⟨_, _, _, _, hhistory, -⟩ := commit_spec hi hcommit
    exact .inl (by rw [hhistory])
  | crawl worker job hw a clock task htask =>
    by_cases hlease : c = job.crawl ∧ n = job.lease
    · exact .inr ⟨worker, job.crawled task clock, Function.update_self .., hlease.1.symm,
        hlease.2.symm⟩
    · rw [setLog_history, if_neg hlease]
      exact .inl rfl
  | external | crash | claim | move | job => exact .inl rfl

/-- Every job runs its crawl, and so did every lease whose run has returned. -/
structure SiteInv (settings : Settings) (site : Site) (s : System d.crawlTask) : Prop where
  rows : RowsInv s
  claimed : ∀ worker crawl n, s.workers worker = .claimed (some crawl) n →
    ∃ row, s.store.db.crawl.lookup crawl.id = some row ∧ row.seed = crawl.seed ∧
      row.config = crawl.config
  jobs : ∀ worker job, s.workers worker = .running job →
    s.RunsFor settings site job.crawl job.task.1
  returned : ∀ c n outcome, (s.history c n).result = some (.returned outcome) →
    ∃ task : d.RunState, s.RunsFor settings site c task.1 ∧
      task.1.result = some (.returned outcome) ∧
      (s.history c n).reports.map Prod.fst = task.1.crawler.reports

theorem siteInv_init (settings : Settings) (site : Site) :
    SiteInv settings site ({} : System d.crawlTask) where
  rows := ⟨ownerInv_init, lifecycleInv_empty⟩
  claimed := by intro worker crawl n h; cases h
  jobs := by intro worker job h; cases h
  returned := by intro c n outcome h; cases h

theorem RunsFor.later {s s' : System d.crawlTask} (h : SiteInv settings site s)
    (hs : SystemStep settings s s') {c : CrawlId} {task : CrawlRun}
    (hruns : s.RunsFor settings site c task) : s'.RunsFor settings site c task := by
  obtain ⟨row, config, hrow, hconfig, htask⟩ := hruns
  obtain ⟨row', hrow', hmove⟩ := row_moves h.rows.owner.pages.fence hs hrow
  obtain ⟨hseed, hstored⟩ := rowMove_posted hmove
  refine ⟨row', config, hrow', ?_, ?_⟩
  · rw [hstored]
    exact hconfig
  · rw [hseed]
    exact htask

theorem runsFor_job (hsite : ∀ url, Quiet (site url)) {s s' : System d.crawlTask}
    {a : SystemAct d.crawlTask} (h : SiteInv settings site s) (hserved : ServedBy site s a)
    (hs : s.step settings a = some s') {worker : WorkerId} {job : Job d.crawlTask}
    (hw : s'.workers worker = .running job) : s'.RunsFor settings site job.crawl job.task.1 := by
  have hstep := step_cases hs
  have hturn := turn_step hs worker
  generalize s'.workers worker = state at hturn hw
  cases hturn with
  | kept => exact (h.jobs worker job hw).later h hstep
  | claimed crawl n hrow => cases hw
  | move state hmove =>
    subst hw
    generalize hstate : (.running job : WorkerState d.crawlTask) = state at hmove
    generalize hbefore : s.workers worker = before at hmove
    cases hmove with
    | claim | emptyQueue | giveUp => cases hstate
    | start crawl lease =>
      obtain ⟨row, hrow, hseed, hconfig⟩ := h.claimed worker crawl lease hbefore
      simp only [runJob] at hstate
      split at hstate
      · cases hstate
      · rename_i config hstored
        cases hstate
        apply RunsFor.later h hstep
        refine ⟨row, config, hrow, ?_, ?_⟩
        · rw [hconfig]
          exact hstored
        · rw [hseed]
          exact CrawlRun.ofSite_create d.toDeps site config crawl.seed
    | record r b state hrecord =>
      subst hstate
      obtain he | ⟨_, he, -⟩ := Recording.step_cases hrecord <;> cases he
  | answer slot now call reply issued hcall =>
    obtain ⟨before, _, _, hbefore, rfl, -⟩ := answer_running hw
    exact (h.jobs worker before hbefore).later h hstep
  | job before b state hbefore hjob hact =>
    subst hw
    have hruns := h.jobs worker before hbefore
    by_cases hcrawl : ∃ act clock, b = .crawl act clock
    · obtain ⟨act, clock, rfl⟩ := hcrawl
      obtain ⟨task, htask, he⟩ := Job.crawl_spec hjob
      cases he
      subst hact
      simp only [ServedBy, hbefore] at hserved
      apply RunsFor.later h hstep
      obtain ⟨row, config, hrow, hconfig, hof⟩ := hruns
      exact ⟨row, config, hrow, hconfig, hof.step hsite hserved (WorkerDeps.advance_some htask)⟩
    · have hquiet : ∀ act clock, b ≠ .crawl act clock := fun act clock he =>
        hcrawl ⟨act, clock, he⟩
      obtain ⟨htask, hsame⟩ := task_jobStep (Job.step_cases hquiet hjob)
      rw [htask, hsame]
      exact hruns.later h hstep

theorem siteInv_step (hsite : ∀ url, Quiet (site url)) {s s' : System d.crawlTask}
    {a : SystemAct d.crawlTask} (h : SiteInv settings site s) (hserved : ServedBy site s a)
    (hs : s.step settings a = some s') : SiteInv settings site s' where
  rows := rowsInv_step h.rows (step_cases hs)
  claimed := by
    intro worker crawl n hw
    obtain hkept | hrow := claimed_step hs hw
    · obtain ⟨row, hrow, hseed, hconfig⟩ := h.claimed worker crawl n hkept
      obtain ⟨row', hrow', hmove⟩ := row_moves h.rows.owner.pages.fence (step_cases hs) hrow
      obtain ⟨hseed', hconfig'⟩ := rowMove_posted hmove
      exact ⟨row', hrow', hseed'.trans hseed, hconfig'.trans hconfig⟩
    · exact ⟨crawl, hrow, rfl, rfl⟩
  jobs _ _ hw := runsFor_job hsite h hserved hs hw
  returned := by
    intro c n outcome hresult
    have hstep := step_cases hs
    obtain hkept | ⟨worker, job, hw, rfl, rfl⟩ := history_step hstep c n
    · rw [hkept] at hresult ⊢
      obtain ⟨task, hruns, hreturned, hreports⟩ := h.returned c n outcome hresult
      exact ⟨task, hruns.later h hstep, hreturned, hreports⟩
    · have hjob := (rowsInv_step h.rows hstep).owner.pages.jobs worker job hw
      exact ⟨job.task, runsFor_job hsite h hserved hs hw, hjob.result.symm.trans hresult,
        hjob.pages⟩

theorem siteInv_run (hsite : ∀ url, Quiet (site url)) {as : List (SystemAct d.crawlTask)}
    {s : System d.crawlTask} (hserved : Meets (step settings) (ServedBy site) {} as)
    (hrun : run (step settings) {} as = some s) : SiteInv settings site s :=
  hserved.invariant (fun _ _ _ hi hact hs => siteInv_step hsite hi hact hs)
    (siteInv_init settings site) hrun

end System

/-! ## What the API serves -/

/-- The keys of the pages a client has. -/
def Client.keys (u : Unicode) (client : Client) : List (Except Exn Text) :=
  client.received.map fun page => canonicalKey u page.url

theorem keys_storedPages (d : Deps) (c : CrawlId) {log : List Report} {crawler : Crawler}
    (h : log.map Prod.fst = crawler.reports) :
    (storedPages c log).map (fun page => canonicalKey d.unicode page.url) =
      crawler.reportedKeys d := by
  rw [Crawler.reportedKeys, Crawler.reported, ← h]
  apply List.ext_getElem?
  intro i
  simp only [storedPages, rowsOf, List.getElem?_map, List.getElem?_mapIdx, Option.map_map]
  rfl

/-- A crawl that is finished has crawled the site: a client that pages through it to the end has, each
once, the pages of the site that are found from the end of the seed chain and those of the chain, all
of them unless there is a cap and it was reached. -/
theorem served_lists (hsite : ∀ url, Quiet (site url)) (hconsistent : site.Consistent d.toDeps)
    {as : List (SystemAct d.crawlTask)} {s : System d.crawlTask}
    (hserved : Meets (System.step settings) (ServedBy site) {} as)
    (hrun : run (System.step settings) {} as = some s) {c : CrawlId} {row : Crawl}
    (hrow : s.store.db.crawl.lookup c = some row) (hfinished : row.state = .finished) :
    ∃ config start stats task outcome,
      CrawlConfig.ofStored settings.repr row.config = .ok config ∧
      normalize d.unicode row.seed = some start ∧ row.stats = some stats ∧
      Reaches (CrawlRun.step d.toDeps) (CrawlRun.create config row.seed) task ∧
      task.result = some (.returned outcome) ∧
      ∀ s', Reaches (pageReaderStep settings c) { system := s } s' → s'.complete = true →
        site.Lists d.toDeps config start task.crawler.robots (s'.client.keys d.unicode) ∧
        (s'.client.keys d.unicode).length = stats.pagesTotal := by
  have hinv := System.siteInv_run hsite hserved hrun
  obtain ⟨-, stats, hstats, ⟨outcome, hresult, hgoing⟩, htotal, hstored⟩ :=
    (System.finishedInv_reaches ⟨as, hrun⟩).rows c row hrow hfinished
  obtain ⟨task, ⟨row', config, hrow', hconfig, hof⟩, hreturned, hreports⟩ :=
    hinv.returned c _ outcome hresult
  obtain rfl := Option.some.inj (hrow.symm.trans hrow')
  obtain ⟨start, hstart, hlists⟩ := hof.lists hconsistent hreturned hgoing
  refine ⟨config, start, stats, task.1, outcome, hconfig, hstart, hstats, hof.reaches, hreturned,
    fun s' hs' hcomplete => ?_⟩
  have hreader := pageReaderInv_reaches hinv.rows.owner hrow (by rw [hfinished]; rfl) (hstored rfl) hs'
  have hkeys : s'.client.keys d.unicode = task.1.crawler.reportedKeys d.toDeps := by
    rw [Client.keys, hreader.received hcomplete]
    exact keys_storedPages d.toDeps c hreports
  rw [hkeys]
  refine ⟨hlists, ?_⟩
  rw [htotal, Crawler.length_reportedKeys, ← hreports, List.length_map]

instance (site : Site) (s : System d.crawlTask) : DecidablePred (ServedBy site s)
  | .job worker (.crawl act _) =>
    show Decidable (match s.workers worker with
      | .running job => d.crawlTask.cancels act = true ∨ site.Serves job.task.1 act
      | _ => True) from
    match s.workers worker with
    | .running job =>
      have serves : DecidablePred (site.Serves job.task.1) := inferInstance
      have : Decidable (site.Serves job.task.1 act) := serves act
      instDecidableOr
    | .idle | .claiming | .claimed .. | .recording _ => isTrue trivial
  | .job _ (.reporter _) | .job _ (.beat _) | .job _ .beatReturned | .job _ (.beatRaised _)
  | .job _ .stop | .job _ .crawlEnded | .job _ .watcherCancelled | .job _ .stopWatchCancelled
  | .job _ .watchersDone | .job _ .closeDone | .job _ .flusherCancelled | .job _ .flusherDone
  | .job _ (.clientClosed _) | .job _ .clientCloseRaised => isTrue trivial
  | .create .. | .requestCancel .. | .beginReap .. | .statement _ | .commitReap _ | .rollbackReap _
  | .crash _ | .claim _ | .claimCommit .. | .claimReturned _ | .claimRaised _ | .commit ..
  | .record .. => isTrue trivial

end

/-- Every page links to the home page. -/
def homeSite : Site := fun _ => .ok (linkPage homeUrl)

theorem homeSite_links {url key : Text} (h : Keyed .ascii url key) :
    homeSite.links bodyIsLink url = [homeUrl] := by
  obtain ⟨parts, hparts, -⟩ := map_eq_ok.mp h.2
  exact links_linkPage (urljoin_homeUrl hparts) (.inl rfl)

theorem served_lists_finishedOnce :
    ∃ s row s' config start, ∃ task : CrawlRun, run (System.step ⟨100, toString⟩) {} finishedOnce = some s ∧
      s.store.db.crawl.lookup 1 = some row ∧ row.state = .finished ∧
      run (pageReaderStep ⟨100, toString⟩ 1) { system := s } [.poll 1, .poll 1] = some s' ∧
      s'.complete = true ∧ (s'.client.keys linkWorkers.unicode).length = 1 ∧
      CrawlConfig.ofStored toString row.config = .ok config ∧
      homeSite.Lists bodyIsLink config start task.crawler.robots
        (s'.client.keys linkWorkers.unicode) := by
  have hserved : Meets (System.step ⟨100, toString⟩) (ServedBy homeSite) {} finishedOnce := by
    decide +kernel
  have hrun : (run (System.step ⟨100, toString⟩) {} finishedOnce).any (fun s =>
      ((s.store.db.crawl.lookup 1).any fun row => decide (row.state = .finished)) &&
      (run (pageReaderStep ⟨100, toString⟩ 1) { system := s } [.poll 1, .poll 1]).any fun s' =>
        decide (s'.complete = true ∧ (s'.client.keys linkWorkers.unicode).length = 1)) = true := by
    decide +kernel
  obtain ⟨s, hs, hfacts⟩ := (Option.any_eq_true _ _).mp hrun
  obtain ⟨hrow, hread⟩ := (Bool.and_eq_true _ _).mp hfacts
  obtain ⟨row, hrow, hfinished⟩ := (Option.any_eq_true _ _).mp hrow
  obtain ⟨s', hs', hend⟩ := (Option.any_eq_true _ _).mp hread
  have hf : row.state = .finished := of_decide_eq_true hfinished
  obtain ⟨hcomplete, hlength⟩ := of_decide_eq_true hend
  have hconsistent : homeSite.Consistent linkWorkers.toDeps := by
    intro a b key ha hb
    exact (homeSite_links ha).trans (homeSite_links hb).symm
  obtain ⟨config, start, stats, task, outcome, hconfig, -, -, -, -, hserves⟩ :=
    served_lists (fun url => quiet_ok _) hconsistent hserved hs hrow hf
  exact ⟨s, row, s', config, start, task, hs, hrow, hf, hs', hcomplete, hlength, hconfig,
    (hserves s' ⟨_, hs'⟩ hcomplete).1⟩

end UrlCrawler
