import UrlCrawler.Core.Reporting
import UrlCrawler.Core.Coverage
import UrlCrawler.Core.ReportLog

/-! # The command line

`url_crawler/cli.py` with JSON lines as its output: a crawl, the summary after it, and the exit code.
What is on stdout is what a reader has got so far.
-/
set_option autoImplicit false

namespace UrlCrawler
open Execution Splitting

structure CliRun where
  run : CrawlRun
  stdout : Text := []
  summary : Option SummaryRecord := none
  exitCode : Option ℕ := none

/-- The exception is a `BrokenPipeError`. -/
def RunResult.brokenPipe : RunResult → Bool
  | .raised error => "BrokenPipeError: ".toList.isPrefixOf error.toList
  | _ => false

/-- What `main` returns after the crawl. Of the `SeedError`s only that of a seed that `normalize`
refuses has the exit code 2. -/
def exitCode (u : Unicode) (seed : Text) : RunResult → ℕ
  | .returned outcome => if outcome.aborted then 4 else 0
  | .seedError _ => if (normalize u seed).isNone then 2 else 3
  | .cancelled => 130
  | .raised error => if (RunResult.raised error).brokenPipe then 0 else 1

inductive CliAct
  | crawl (act : CrawlerAct)
  | finish (elapsed : ℚ) (closed : Bool)

namespace CliAct

def crawl? : CliAct → Option CrawlerAct
  | crawl act => some act
  | finish .. => none

end CliAct

namespace CliRun

/-- `main` up to the crawl: a seed that `prepare_seed` refuses is an error of the command line. -/
def start (u : Unicode) (config : CrawlConfig) (url : Text) : Except Exn CliRun :=
  (prepareSeed u url).map fun seed => { run := CrawlRun.create config seed }

/-- A page is printed when it is reported. -/
def crawled (s : CliRun) (run : CrawlRun) : CliRun :=
  { s with
    run
    stdout := s.stdout ++
      (run.crawler.reports.drop s.run.crawler.reports.length).flatMap JsonlReporter.page }

variable (d : Deps) (repr : ℚ → Json.Literal)

/-- The summary of the run. -/
def summarize (s : CliRun) (elapsed : ℚ) : SummaryRecord :=
  (UrlCrawler.summary s.run.crawler.stats elapsed).record repr

/-- The crawl is over: `_report_summary` and the exit code. Once a pipe has broken, stdout is
`/dev/null`; it may also turn out to be `closed` only now. -/
def finish (s : CliRun) (result : RunResult) (elapsed : ℚ) (closed : Bool) : CliRun :=
  let s := { s with exitCode := some (UrlCrawler.exitCode d.unicode s.run.seed result) }
  if result.brokenPipe || closed then s
  else
    { s with
      stdout := s.stdout ++ JsonlReporter.finish (s.summarize repr elapsed)
      summary := some (s.summarize repr elapsed) }

def step (s : CliRun) : CliAct → Option CliRun
  | .crawl act => if s.exitCode.isNone then (s.run.step d act).map s.crawled else none
  | .finish elapsed closed =>
    match s.exitCode, s.run.result with
    | none, some result => some (s.finish d repr result elapsed closed)
    | _, _ => none

/-- The records that have been printed. -/
def records (s : CliRun) : List JsonlRecord :=
  s.run.crawler.reports.map (fun page => JsonlRecord.page page.record) ++
    s.summary.toList.map JsonlRecord.summary

variable {d} {repr} {s s' : CliRun}

/-- What a step does: the crawl goes on, or it is over and the summary is printed. -/
theorem step_cases {act : CliAct} (h : s.step d repr act = some s') :
    (∃ a run, act = .crawl a ∧ s.exitCode = none ∧ s.run.step d a = some run ∧
      s' = s.crawled run) ∨
    ∃ elapsed closed result, act = .finish elapsed closed ∧ s.exitCode = none ∧
      s.run.result = some result ∧ s' = s.finish d repr result elapsed closed := by
  cases act with
  | crawl a =>
    simp only [step] at h
    split at h
    · rename_i hnone
      obtain ⟨run, hrun, rfl⟩ := Option.map_eq_some_iff.mp h
      exact .inl ⟨a, run, rfl, Option.isNone_iff_eq_none.mp hnone, hrun, rfl⟩
    · cases h
  | finish elapsed closed =>
    simp only [step] at h
    split at h
    · rename_i result hnone hresult
      exact .inr ⟨elapsed, closed, result, rfl, hnone, hresult, (Option.some.inj h).symm⟩
    · cases h

theorem contains_crawl :
    Contains (step d repr) (CrawlRun.step d) CliRun.run CliAct.crawl? := by
  intro s act s' h
  obtain ⟨a, run, rfl, -, hrun, rfl⟩ | ⟨elapsed, closed, result, rfl, -, -, rfl⟩ := step_cases h
  · exact hrun
  · show (s.finish d repr result elapsed closed).run = s.run
    unfold finish
    split <;> rfl

/-! ## What is on stdout -/

/-- What is on stdout is what was printed; the summary and the exit code are those of how the crawl
ended. -/
structure Printed (d : Deps) (repr : ℚ → Json.Literal) (s : CliRun) : Prop where
  stdout : s.stdout = s.records.flatMap fun record => JsonlReporter.line record.json
  summary : ∀ summary, s.summary = some summary → ∃ elapsed, summary = s.summarize repr elapsed
  exited : ∀ code, s.exitCode = some code → ∃ result, s.run.result = some result ∧
    code = UrlCrawler.exitCode d.unicode s.run.seed result ∧
    (s.summary.isSome = true → result.brokenPipe = false)
  running : s.exitCode = none → s.summary = none

theorem printed_start (config : CrawlConfig) (seed : Text) :
    Printed d repr { run := CrawlRun.create config seed } where
  stdout := rfl
  summary := fun _ h => by cases h
  exited := fun _ h => by cases h
  running := fun _ => rfl

theorem Printed.crawled (h : Printed d repr s) (hnone : s.exitCode = none) {run : CrawlRun}
    (hreports : s.run.crawler.reports <+: run.crawler.reports) : Printed d repr (s.crawled run) where
  stdout := by
    obtain ⟨more, hmore⟩ := hreports
    have hsummary := h.running hnone
    simp only [CliRun.crawled, records, h.stdout, List.drop_left, hsummary, ← hmore,
      Option.toList_none, List.map_nil, List.append_nil, List.map_append, List.flatMap_append,
      List.flatMap_map]
    rfl
  summary := fun summary hsome => by
    rw [CliRun.crawled, h.running hnone] at hsome
    cases hsome
  exited := fun code hsome => by
    rw [CliRun.crawled, hnone] at hsome
    cases hsome
  running := fun _ => h.running hnone

theorem Printed.finish (h : Printed d repr s) (hnone : s.exitCode = none) {result : RunResult}
    (hresult : s.run.result = some result) (elapsed : ℚ) (closed : Bool) :
    Printed d repr (s.finish d repr result elapsed closed) := by
  have hsummary := h.running hnone
  cases hlost : result.brokenPipe || closed with
  | true =>
    simp only [CliRun.finish, hlost, if_true]
    exact
      { stdout := h.stdout
        summary := h.summary
        exited := fun code hcode => by
          refine ⟨result, hresult, (Option.some.inj hcode).symm, fun hsome => ?_⟩
          rw [hsummary] at hsome
          cases hsome
        running := fun h => by cases h }
  | false =>
    simp only [CliRun.finish, hlost, Bool.false_eq_true, if_false]
    exact
      { stdout := by
          simp only [records, h.stdout, hsummary, Option.toList_none, Option.toList_some,
            List.map_nil, List.append_nil, List.map_cons, List.flatMap_append, List.flatMap_cons,
            List.flatMap_nil]
          rfl
        summary := fun summary hsome => ⟨elapsed, (Option.some.inj hsome).symm⟩
        exited := fun code hcode =>
          ⟨result, hresult, (Option.some.inj hcode).symm, fun _ => (Bool.or_eq_false_iff.mp hlost).1⟩
        running := fun h => by cases h }

theorem printed_reaches {config : CrawlConfig} {seed : Text}
    (h : Reaches (step d repr) { run := CrawlRun.create config seed } s) :
    Reaches (CrawlRun.step d) (CrawlRun.create config seed) s.run ∧ Printed d repr s := by
  refine h.invariant (P := fun s =>
    Reaches (CrawlRun.step d) (CrawlRun.create config seed) s.run ∧ Printed d repr s)
    ⟨Reaches.refl _, printed_start config seed⟩ fun s act s' hbefore hs => ?_
  obtain ⟨hreaches, hprinted⟩ := hbefore
  obtain ⟨a, run, rfl, hnone, hrun, rfl⟩ | ⟨elapsed, closed, result, rfl, hnone, hresult, rfl⟩ :=
    step_cases hs
  · exact ⟨hreaches.tail hrun,
      hprinted.crawled hnone (CrawlRun.reports_step hreaches hrun)⟩
  · have hsame : (s.finish d repr result elapsed closed).run = s.run := by
      unfold CliRun.finish
      split <;> rfl
    exact ⟨hsame.symm ▸ hreaches, hprinted.finish hnone hresult elapsed closed⟩

end CliRun

theorem CliRun.start_eq {u : Unicode} {config : CrawlConfig} {url : Text} {s : CliRun}
    (h : CliRun.start u config url = .ok s) :
    ∃ seed, prepareSeed u url = .ok seed ∧ s = { run := CrawlRun.create config seed } := by
  obtain ⟨seed, hseed, rfl⟩ := map_eq_ok.mp h
  exact ⟨seed, hseed, rfl⟩

/-- What is on stdout reads as what was printed: the pages in the order of their reports, and the
summary after them. Output that is cut off anywhere reads as the first of it. The summary says what one
counts in the page records. -/
theorem stdout_reads {d : Deps} {repr : ℚ → Json.Literal} {config : CrawlConfig} {url : Text}
    {s₀ s : CliRun} (hstart : CliRun.start d.unicode config url = .ok s₀)
    (h : Reaches (CliRun.step d repr) s₀ s) :
    JsonlRecord.readAll s.stdout = some s.records ∧
      (∀ output, output <+: s.stdout →
        ∃ records, JsonlRecord.readAll output = some records ∧ records <+: s.records) ∧
      (d.NormalLinks → (∀ pages page, d.reporter pages page = none) →
        ∀ summary, s.summary = some summary →
          summary.Recounts (s.run.crawler.reports.map PageResult.record)) := by
  obtain ⟨seed, -, rfl⟩ := CliRun.start_eq hstart
  obtain ⟨⟨as, hrun⟩, hprinted⟩ := CliRun.printed_reaches h
  refine ⟨?_, fun output houtput => ?_, fun hd hsilent summary hsummary => ?_⟩
  · rw [hprinted.stdout]
    exact JsonlRecord.readAll_printed s.records
  · rw [hprinted.stdout] at houtput
    exact JsonlRecord.readAll_of_start houtput
  · obtain ⟨elapsed, rfl⟩ := hprinted.summary summary hsummary
    exact recounts_of_tallies (CrawlRun.counts_of_run hd hsilent hrun).1.tally repr elapsed

/-- A crawl of two pages that link to each other. -/
def printedPair : List CliAct :=
  [.crawl .begin, .crawl (.guarded none), .crawl (.attempted (.fetched (linkPage nextUrl))),
    .crawl (.robotsGuarded none), .crawl (.robotsAnswered (.response 404 none (.ok []))),
    .crawl (.take 0), .crawl (.workerAttempted 0 (.fetched (linkPage homeUrl))), .crawl .joined,
    .crawl (.workerCancelled 0), .crawl (.workerCancelled 1), .crawl .left, .finish 0 false]

/-- The float zero. -/
def printsZero : ℚ → Json.Literal := fun _ => ⟨"0.0".toList, rfl⟩

theorem stdout_reads_pair : ∃ s₀ s,
    CliRun.start .ascii { concurrency := 2 } homeUrl = .ok s₀ ∧
    run (CliRun.step bodyIsLink printsZero) s₀ printedPair = some s ∧
    JsonlRecord.readAll s.stdout = some s.records ∧ s.records.length = 3 := by
  have hrun : (run (CliRun.step bodyIsLink printsZero)
      { run := CrawlRun.create { concurrency := 2 } homeUrl } printedPair).any (fun s =>
        decide (s.records.length = 3)) = true := by
    decide +kernel
  obtain ⟨s, hs, hlength⟩ := (Option.any_eq_true _ _).mp hrun
  have hstart : CliRun.start .ascii { concurrency := 2 } homeUrl =
      .ok { run := CrawlRun.create { concurrency := 2 } homeUrl } := rfl
  exact ⟨_, s, hstart, hs, (stdout_reads hstart ⟨printedPair, hs⟩).1, of_decide_eq_true hlength⟩

/-- The keys of the pages an output lists. -/
def JsonlRecord.keys (u : Unicode) (records : List JsonlRecord) : List (Except Exn Text) :=
  records.filterMap fun record =>
    match record with
    | .page listed => some (canonicalKey u listed.url)
    | .summary _ => none

theorem CliRun.keys_records (d : Deps) (s : CliRun) :
    JsonlRecord.keys d.unicode s.records = s.run.crawler.reportedKeys d := by
  have hsummary : JsonlRecord.keys d.unicode (s.summary.toList.map JsonlRecord.summary) = [] := by
    cases s.summary <;> rfl
  have hpages : ∀ pages : List PageResult,
      JsonlRecord.keys d.unicode (pages.map fun page => JsonlRecord.page page.record) =
        (pages.map PageResult.url).map (canonicalKey d.unicode) := by
    intro pages
    induction pages with
    | nil => rfl
    | cons page pages ih => exact congrArg (canonicalKey d.unicode page.url :: ·) ih
  rw [CliRun.records, JsonlRecord.keys, List.filterMap_append]
  refine (congrArg₂ (· ++ ·) (hpages _) hsummary).trans ?_
  rw [List.append_nil]
  rfl

/-- The servers answer a step of the crawl as the site does. -/
def Site.Answers (site : Site) (s : CliRun) : CliAct → Prop
  | .crawl act => site.Serves s.run act
  | .finish .. => True

instance (site : Site) (s : CliRun) (act : CliAct) : Decidable (site.Answers s act) :=
  match act with
  | .crawl act => inferInstanceAs (Decidable (site.Serves s.run act))
  | .finish .. => inferInstanceAs (Decidable True)

theorem returned_of_exitOk {u : Unicode} {seed : Text} {result : RunResult}
    (h : exitCode u seed result = 0) (hpipe : result.brokenPipe = false) :
    ∃ outcome, result = .returned outcome ∧ outcome.aborted = false := by
  cases result with
  | returned outcome =>
    refine ⟨outcome, rfl, ?_⟩
    cases haborted : outcome.aborted with
    | false => rfl
    | true =>
      rw [exitCode, haborted] at h
      cases h
  | seedError message =>
    rw [exitCode] at h
    split at h <;> cases h
  | raised error =>
    rw [exitCode, hpipe] at h
    cases h
  | cancelled => cases h

/-- The exit code 0 under a summary means that the crawl is complete: the output lists, each once, the
pages of the site that are found from the end of the seed chain and those of the chain, all of them
unless there is a cap and it was reached. -/
theorem exitOk_complete {d : Deps} {lexbor : Lexbor} {site : Site} {repr : ℚ → Json.Literal}
    {config : CrawlConfig} {url : Text} {s₀ s : CliRun} {as : List CliAct}
    (hextract : d.extract = extractLinks d.unicode lexbor)
    (hsilent : ∀ pages page, d.reporter pages page = none) (hsite : ∀ url, Quiet (site url))
    (hconsistent : site.Consistent d) (hbegin : CliRun.start d.unicode config url = .ok s₀)
    (hserves : Meets (CliRun.step d repr) site.Answers s₀ as)
    (hrun : run (CliRun.step d repr) s₀ as = some s)
    (hexit : s.exitCode = some 0) {summary : SummaryRecord} (hsummary : s.summary = some summary) :
    ∃ seed start final scope records, prepareSeed d.unicode url = .ok seed ∧
      normalize d.unicode seed = some start ∧
      (site.seedChain d config.maxSeedRedirects.toNat start).getLast? = some final ∧
      HostScope.fromUrl d.unicode final = .ok scope ∧
      JsonlRecord.readAll s.stdout = some records ∧ records.getLast? = some (.summary summary) ∧
      (JsonlRecord.keys d.unicode records).length = summary.pagesTotal ∧
      (JsonlRecord.keys d.unicode records).Nodup ∧
      (∀ k ∈ JsonlRecord.keys d.unicode records,
        ∃ key ∈ site.keys d config start scope s.run.crawler.robots final, k = .ok key) ∧
      ((∀ key ∈ site.keys d config start scope s.run.crawler.robots final,
          .ok key ∈ JsonlRecord.keys d.unicode records) ∨
        ∃ max ∈ config.maxPages, max ≤ (summary.pagesTotal : ℤ)) := by
  obtain ⟨seed, hseed, rfl⟩ := CliRun.start_eq hbegin
  obtain ⟨hreaches, hprinted⟩ := CliRun.printed_reaches ⟨as, hrun⟩
  have hcrawl := run_inner CliRun.contains_crawl hrun
  have hcrawlServes := meets_inner (D := site.Serves) CliRun.contains_crawl
    (fun s act b hb h => by
      cases act with
      | crawl act => exact Option.some.inj hb ▸ h
      | finish elapsed closed => cases hb) hserves hrun
  -- the exit code 0 of a crawl whose pipe did not break is that of a crawl that returned
  obtain ⟨result, hresult, hcode, hpipe⟩ := hprinted.exited 0 hexit
  have hdone := CrawlRun.phase_of_result hresult
  obtain ⟨outcome, rfl, hgoing⟩ := returned_of_exitOk hcode.symm (hpipe (hsummary ▸ rfl))
  obtain ⟨start, hstart⟩ := CrawlRun.start_of_returned hreaches hdone
  obtain ⟨hat, hinv⟩ := CrawlRun.atSite_run (normalLinks_of_lexbor hextract)
    (pageLinks_quiet hextract) hsilent hsite hstart hcrawlServes hcrawl
  obtain ⟨htally, final, scope, hfinal, hscope, hnodup, hsound, hlisted⟩ :=
    hat.lists hconsistent hinv.core hdone hgoing
  obtain ⟨elapsed, hsummarize⟩ := hprinted.summary summary hsummary
  have htotal : summary.pagesTotal = (s.run.crawler.reportedKeys d).length := by
    rw [hsummarize, Crawler.length_reportedKeys]
    exact htally
  have hread : JsonlRecord.readAll s.stdout = some s.records := by
    rw [hprinted.stdout]
    exact JsonlRecord.readAll_printed s.records
  refine ⟨seed, start, final, scope, s.records, hseed, hstart, hfinal, hscope, hread, ?_, ?_⟩
  · simp [CliRun.records, hsummary]
  · rw [CliRun.keys_records, htotal]
    exact ⟨rfl, hnodup, hsound, hlisted⟩

theorem exitOk_complete_pair : ∃ s₀ s summary,
    CliRun.start .ascii { concurrency := 2 } homeUrl = .ok s₀ ∧
    run (CliRun.step bodyIsLink printsZero) s₀ printedPair = some s ∧
    s.summary = some summary ∧ ∃ seed start final scope records,
      prepareSeed .ascii homeUrl = .ok seed ∧ normalize .ascii seed = some start ∧
      (pairSite.seedChain bodyIsLink 5 start).getLast? = some final ∧
      HostScope.fromUrl .ascii final = .ok scope ∧
      JsonlRecord.readAll s.stdout = some records ∧ records.getLast? = some (.summary summary) ∧
      (JsonlRecord.keys .ascii records).length = summary.pagesTotal ∧
      (JsonlRecord.keys .ascii records).Nodup ∧
      (∀ k ∈ JsonlRecord.keys .ascii records,
        ∃ key ∈ pairSite.keys bodyIsLink { concurrency := 2 } start scope s.run.crawler.robots final,
          k = .ok key) ∧
      ((∀ key ∈ pairSite.keys bodyIsLink { concurrency := 2 } start scope s.run.crawler.robots final,
          .ok key ∈ JsonlRecord.keys .ascii records) ∨
        ∃ max ∈ (none : Option ℤ), max ≤ (summary.pagesTotal : ℤ)) := by
  have hserves : Meets (CliRun.step bodyIsLink printsZero) pairSite.Answers
      { run := CrawlRun.create { concurrency := 2 } homeUrl } printedPair := by
    decide +kernel
  have hrun : (run (CliRun.step bodyIsLink printsZero)
      { run := CrawlRun.create { concurrency := 2 } homeUrl } printedPair).any (fun s =>
        decide (s.exitCode = some 0) && s.summary.isSome) = true := by
    decide +kernel
  obtain ⟨s, hs, hexit⟩ := (Option.any_eq_true _ _).mp hrun
  obtain ⟨hcode, hsome⟩ := Bool.and_eq_true_iff.mp hexit
  obtain ⟨summary, hsummary⟩ := Option.isSome_iff_exists.mp hsome
  have hstart : CliRun.start .ascii { concurrency := 2 } homeUrl =
      .ok { run := CrawlRun.create { concurrency := 2 } homeUrl } := rfl
  have hextract : bodyIsLink.extract = extractLinks bodyIsLink.unicode fun body =>
      { base := none, hrefs := [some (body.map fun byte => Char.ofNat byte.toNat)] } := rfl
  have hquiet : ∀ url, Quiet (pairSite url) := by
    intro url
    unfold pairSite
    split <;> exact quiet_ok _
  have hconsistent : pairSite.Consistent bodyIsLink := by
    intro a b key ha hb
    rw [pairSite_links ha, pairSite_links hb]
  exact ⟨_, s, summary, hstart, hs, hsummary, exitOk_complete hextract (fun _ _ => rfl) hquiet
    hconsistent hstart hserves hs (of_decide_eq_true hcode) hsummary⟩

end UrlCrawler
