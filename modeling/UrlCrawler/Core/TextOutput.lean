import UrlCrawler.Core.CrawlerSteps
import UrlCrawler.Core.Outbound
import UrlCrawler.Core.NormalForm
import UrlCrawler.Library.Splitting

/-! # The text output

`TextReporter`, what `url-crawler` prints by default: a block for each page, of its URL and its
links. The URLs come from the servers. All of them have been through `normalize`, so none brings a
control character to the reader's terminal or a line of its own into the output.
-/
set_option autoImplicit false

namespace UrlCrawler
open Execution Splitting

namespace TextReporter

/-- What `page` adds to the URL of a page in its first line. -/
def note (result : PageResult) : Text :=
  match result.error with
  | some error =>
    let statusPart : Text :=
      match error.status with
      | some status => ' ' :: showNat status
      | none => []
    "  [error: ".toList ++ error.kind.value.toList ++ statusPart ++ "]".toList
  | none =>
    match result.status with
    | some status =>
      if 300 ≤ status ∧ status < 400 then "  [redirect ".toList ++ showNat status ++ "]".toList
      else []
    | none => []

def header (result : PageResult) : Text := result.url ++ note result

def linkLine (link : Text) : Text := ' ' :: ' ' :: link

def lines (result : PageResult) : List Text := header result :: result.links.map linkLine

/-- What `page` writes. -/
def page (result : PageResult) : Text := (lines result ++ [[]]).flatMap (· ++ ['\n'])

/-! ## Reading it back -/

/-- The first line of a page, and its links. -/
structure Block where
  header : Text
  links : List Text
deriving DecidableEq

def block (result : PageResult) : Block := ⟨header result, result.links⟩

def readLines : List Text → Block
  | [] => ⟨[], []⟩
  | header :: links => ⟨header, links.map (List.drop 2)⟩

/-- The pages whose blocks have been ended by an empty line. -/
def readAll (output : Text) : List Block := (ended [] (ended '\n' output)).map readLines

theorem readLines_lines (result : PageResult) : readLines (lines result) = block result := by
  have hlinks : (result.links.map linkLine).map (List.drop 2) = result.links := by
    rw [List.map_map]
    exact List.map_id _
  rw [lines, readLines, hlinks]
  rfl

theorem map_readLines (pages : List PageResult) :
    (pages.map lines).map readLines = pages.map block := by
  rw [List.map_map]
  exact List.map_congr_left fun result _ => readLines_lines result

/-! ## Pages that can be shown -/

/-- There is no control character in the text. -/
def Plain (text : Text) : Prop := ∀ c ∈ text, isControl c = false

instance (text : Text) : Decidable (Plain text) :=
  List.decidableBAll _ text

theorem Plain.append {a b : Text} (ha : Plain a) (hb : Plain b) : Plain (a ++ b) := by
  intro c hc
  obtain hc | hc := List.mem_append.mp hc
  · exact ha c hc
  · exact hb c hc

theorem plain_showNat (n : ℕ) : Plain (showNat n) := by
  intro c hc
  obtain ⟨hlow, hhigh⟩ := (isDigit_iff c).mp (isDigit_of_mem_showNat hc)
  simp only [isControl, Bool.or_eq_false_iff, decide_eq_false_iff_not]
  omega

theorem plain_value (kind : FetchErrorKind) : Plain kind.value.toList := by
  cases kind <;> decide

theorem plain_note (result : PageResult) : Plain (note result) := by
  have hopen : Plain "  [error: ".toList := by decide
  have hredirect : Plain "  [redirect ".toList := by decide
  have hclose : Plain "]".toList := by decide
  have hnil : Plain [] := by decide
  unfold note
  split
  · rename_i error herror
    refine ((hopen.append (plain_value error.kind)).append ?_).append hclose
    split
    · have hblank : Plain [' '] := by decide
      exact hblank.append (plain_showNat _)
    · exact hnil
  · split
    · split
      · exact (hredirect.append (plain_showNat _)).append hclose
      · exact hnil
    · exact hnil

/-- The URL and the links of the page are normalized. -/
def Shown (u : Unicode) (result : PageResult) : Prop :=
  Normalized u result.url ∧ ∀ link ∈ result.links, Normalized u link

theorem plain_of_normalized {u : Unicode} {url : Text} (h : Normalized u url) :
    url ≠ [] ∧ Plain url := by
  obtain ⟨text, hnormal⟩ := h
  obtain ⟨scheme, host, port, rest, hform⟩ := normalForm_of_normalize hnormal
  refine ⟨?_, fun c hc => hform.url_char hc⟩
  rw [hform.url_eq, httpUrl]
  exact List.append_ne_nil_of_right_ne_nil _ (List.cons_ne_nil _ _)

theorem Shown.lines {u : Unicode} {result : PageResult} (h : Shown u result) :
    ∀ line ∈ lines result, line ≠ [] ∧ Plain line := by
  intro line hline
  obtain rfl | hlink := List.mem_cons.mp hline
  · obtain ⟨hne, hplain⟩ := plain_of_normalized h.1
    exact ⟨List.append_ne_nil_of_left_ne_nil hne _, hplain.append (plain_note result)⟩
  · obtain ⟨link, hmem, rfl⟩ := List.mem_map.mp hlink
    have hblanks : Plain [' ', ' '] := by decide
    exact ⟨List.cons_ne_nil _ _, hblanks.append (plain_of_normalized (h.2 link hmem)).2⟩

/-! ## The output of such pages -/

section
variable {u : Unicode} {pages : List PageResult} (h : ∀ result ∈ pages, Shown u result)
include h

theorem plain_output {c : Char} (hc : c ∈ pages.flatMap page) : c = '\n' ∨ isControl c = false := by
  obtain ⟨result, hresult, hc⟩ := List.mem_flatMap.mp hc
  obtain ⟨line, hline, hc⟩ := List.mem_flatMap.mp hc
  obtain hc | hc := List.mem_append.mp hc
  · right
    obtain hline | hempty := List.mem_append.mp hline
    · exact ((h result hresult).lines line hline).2 c hc
    · rw [List.mem_singleton.mp hempty] at hc
      exact absurd hc List.not_mem_nil
  · exact .inl (List.mem_singleton.mp hc)

theorem ended_output : ended '\n' (pages.flatMap page) =
    (pages.map lines).flatMap (· ++ [[]]) := by
  have hlines : ∀ line ∈ (pages.map lines).flatMap (· ++ [[]]), '\n' ∉ line := by
    intro line hline hmem
    obtain ⟨block, hblock, hline⟩ := List.mem_flatMap.mp hline
    obtain ⟨result, hresult, rfl⟩ := List.mem_map.mp hblock
    obtain hline | hempty := List.mem_append.mp hline
    · have hcontrol := ((h result hresult).lines line hline).2 _ hmem
      revert hcontrol
      decide
    · rw [List.mem_singleton.mp hempty] at hmem
      exact absurd hmem List.not_mem_nil
  have houtput : pages.flatMap page =
      ((pages.map lines).flatMap (· ++ [[]])).flatMap (· ++ ['\n']) := by
    rw [List.flatMap_assoc, List.flatMap_map]
    rfl
  rw [houtput]
  exact ended_pieces hlines

theorem ended_blocks : ended [] (ended '\n' (pages.flatMap page)) = pages.map lines := by
  rw [ended_output h]
  refine ended_pieces fun block hblock hempty => ?_
  obtain ⟨result, hresult, rfl⟩ := List.mem_map.mp hblock
  exact ((h result hresult).lines [] hempty).1 rfl

theorem readAll_output : readAll (pages.flatMap page) = pages.map block := by
  rw [readAll, ended_blocks h, map_readLines]

theorem readAll_of_start {output : Text} (hcut : output <+: pages.flatMap page) :
    readAll output <+: pages.map block := by
  have hblocks := ended_of_start [] (ended_of_start '\n' hcut)
  rw [ended_blocks h] at hblocks
  rw [← map_readLines pages]
  exact hblocks.map readLines

end
end TextReporter

/-! ## All that is reported can be shown -/

namespace Crawler
open Effects
variable {d : Deps}

def Shown (d : Deps) (c : Crawler) : Prop :=
  ∀ result ∈ c.reports, TextReporter.Shown d.unicode result

theorem Shown.report {c : Crawler} (h : c.Shown d) {page : PageResult}
    (hpage : TextReporter.Shown d.unicode page) :
    { c with reports := c.reports ++ [page] }.Shown d := by
  intro result hresult
  obtain hold | hnew := List.mem_append.mp hresult
  · exact h result hold
  · exact List.mem_singleton.mp hnew ▸ hpage

theorem enqueueLinks_reports (scope : HostScope) : ∀ (links : List Text) (c : Crawler),
    Ends (enqueueLinks d scope links) c (fun _ c' => c'.reports = c.reports)
      fun _ c' => c'.reports = c.reports
  | [], _ => rfl
  | link :: links, c => by
      rw [enqueueLinks]
      simp only [ends_bind, ends_get, ends_raiseError]
      refine ⟨fun allowed _ => ?_, fun _ _ => trivial⟩
      cases allowed with
      | false => exact enqueueLinks_reports scope links c
      | true =>
        simp only [if_true, ends_bind, ends_get, ends_raiseError, ends_modify]
        exact ⟨fun frontier _ => enqueueLinks_reports scope links { c with frontier },
          fun _ _ => trivial⟩

theorem enqueue_reports (links : List Text) (c : Crawler) :
    Ends (enqueue d links) c (fun _ c' => c'.reports = c.reports)
      fun _ c' => c'.reports = c.reports := by
  unfold enqueue
  rw [ends_bind, ends_get]
  split
  · exact rfl
  · rename_i scope hscope
    rw [ends_bind]
    exact (enqueueLinks_reports scope links c).mono (fun _ _ h => h) fun _ _ h => h

section
variable (hd : d.NormalLinks) {url : Text} (hurl : Normalized d.unicode url)
include hurl

theorem handleUnexpected_shown (e : Exn) {c : Crawler} (h : c.Shown d) :
    Ends (handleUnexpected d url e) c (fun _ c' => c'.Shown d) fun _ c' => c'.Shown d := by
  simp only [handleUnexpected, countFailed, ends_bind, ends_modify, ends_report]
  refine ⟨fun _ => Shown.report h ⟨hurl, ?_⟩, fun _ _ => h⟩
  exact fun _ hlink => absurd hlink List.not_mem_nil

theorem followRedirect_shown {target : Text} (htarget : Normalized d.unicode target)
    (result : FetchResult) {c : Crawler} (h : c.Shown d) :
    Ends (followRedirect d url result target) c (fun _ c' => c'.Shown d)
      fun _ c' => c'.Shown d := by
  have hpage : TextReporter.Shown d.unicode
      { url, status := some result.status, links := [target] } :=
    ⟨hurl, fun link hlink => List.mem_singleton.mp hlink ▸ htarget⟩
  simp only [followRedirect, countRetries, countOk, countRedirect, ends_bind, ends_modify,
    ends_report, ends_markSeen]
  exact ⟨fun _ => ⟨fun _ _ _ => Shown.report h hpage, fun _ _ => Shown.report h hpage⟩,
    fun _ _ => h⟩

include hd

theorem handle_shown (outcome : FetchOutcome) {c : Crawler} (h : c.Shown d) :
    Ends (handle d url outcome) c (fun _ c' => c'.Shown d) fun _ c' => c'.Shown d := by
  cases outcome with
  | error error =>
    simp only [handle, countRetries, countFailed, checkFuse, ends_bind, ends_modify, ends_report]
    have hpage : TextReporter.Shown d.unicode
        { url, status := error.status, links := [], error := some error } :=
      ⟨hurl, fun _ hlink => absurd hlink List.not_mem_nil⟩
    refine ⟨fun _ => ?_, fun _ _ => h⟩
    split
    · exact Shown.report h hpage
    · split <;> exact Shown.report h hpage
  | ok result =>
    simp only [handle, countRetries, ends_bind, ends_modify, ends_raiseError]
    refine ⟨fun found hfound => ?_, fun _ _ => h⟩
    have hpage : TextReporter.Shown d.unicode
        { url, status := some result.status, links := found } := by
      have hlinks : ∀ link ∈ foundLinks d url (.ok (.ok result)), Normalized d.unicode link :=
        CrawlRun.normalized_foundLinks hd
      refine ⟨hurl, fun link hlink => hlinks link ?_⟩
      simpa [foundLinks, hfound, Except.toOption] using hlink
    split
    all_goals
      simp only [countRedirect, countLinks, countOk, ends_bind, ends_modify, ends_report]
      refine ⟨fun _ => (enqueue_reports found _).mono ?_ ?_, fun _ _ => h⟩
    all_goals
      intro _ c' hreports
      rw [Shown, hreports]
      exact Shown.report h hpage

theorem work_shown (fetched : Except Exn FetchOutcome) {c : Crawler} (h : c.Shown d) :
    Ends (work d url fetched) c (fun _ c' => c'.Shown d) fun _ c' => c'.Shown d := by
  have hunexpected : ∀ (e : Exn) {c : Crawler}, c.Shown d →
      Ends (if e.brokenPipe then throw e else handleUnexpected d url e) c
        (fun _ c' => c'.Shown d) fun _ c' => c'.Shown d := by
    intro e c h
    split
    · exact h
    · exact handleUnexpected_shown hurl e h
  rw [work, ends_tryCatch, ends_bind, ends_raiseError]
  refine ⟨fun outcome _ => ?_, fun e _ => hunexpected e h⟩
  exact (handle_shown hd hurl outcome h).mono (fun _ _ h => h) fun e _ h => hunexpected e h

end
end Crawler

namespace CrawlRun
open Crawler Effects
variable {d : Deps} {config : CrawlConfig} {seed : Text} {s s' : CrawlRun}

section
variable (hd : d.NormalLinks) {url : Text} (hurl : Normalized d.unicode url)
include hd hurl

theorem shown_loaded (result : FetchResult) (policy : RobotsPolicy) (h : s.crawler.Shown d) :
    (s.loaded d url result policy).crawler.Shown d := by
  unfold loaded
  dsimp only
  split
  · exact h
  · exact h
  · refine exec_of_ends (Q := fun s => s.crawler.Shown d) ((handle_shown hd hurl _ ?_).mono ?_ ?_)
    · exact h
    · exact fun _ c hc => hc
    · exact fun _ c hc => hc

theorem shown_landed (result : FetchResult) (h : s.crawler.Shown d) :
    (s.landed d url result).crawler.Shown d := by
  unfold landed
  split
  · exact h
  · dsimp only
    split
    · exact h
    · unfold loadRobots
      split
      · split
        · exact h
        · unfold robotsHop
          split <;> exact h
      · exact shown_loaded hd hurl result .allowAll h

theorem shown_seedFetched (hops : ℕ) (outcome : FetchOutcome) (h : s.crawler.Shown d) :
    (s.seedFetched d url hops outcome).crawler.Shown d := by
  unfold seedFetched
  cases outcome with
  | error error => exact h
  | ok result =>
    dsimp only
    split
    · exact h
    · exact shown_landed hd hurl result h
    · rename_i target htarget
      cases hops with
      | zero => exact h
      | succ hops =>
        have hfollowed := followRedirect_shown hurl (normalized_redirectTarget htarget) result h
        refine exec_of_ends (Q := fun s => s.crawler.Shown d) (hfollowed.mono ?_ ?_)
        · intro new c hc
          cases new with
          | false => exact hc
          | true =>
            show ({ s with crawler := c }.fetchSeed d target hops).crawler.Shown d
            unfold fetchSeed
            split <;> exact hc
        · exact fun _ c hc => hc

end

theorem shown_begin (h : s.crawler.Shown d) : (s.begin d).crawler.Shown d := by
  unfold begin
  split
  · exact h
  · refine exec_of_ends (Q := fun s => s.crawler.Shown d) ?_
    rw [ends_markSeen]
    refine ⟨fun new frontier _ => ?_, fun _ _ => h⟩
    unfold fetchSeed
    split <;> exact h

theorem shown_step (hd : d.NormalLinks) (hinv : s.Inv d) (h : s.crawler.Shown d) {act : CrawlerAct}
    (hs : s.step d act = some s') : s'.crawler.Shown d := by
  cases hphase : s.phase.isSeeding with
  | false =>
    have hmove := step_poolMove hphase hs
    generalize s'.crawler = c at hmove ⊢
    cases hmove with
    | rest hact frontier => exact h
    | claim w before after =>
      obtain ⟨-, -, -, -, hreports⟩ := claim_frame { s.crawler with frontier := before }
      show ∀ result ∈ { s.crawler with frontier := before }.claim.2.reports, _
      rw [hreports]
      exact h
    | work hjoining hw fetched hanswer hends after =>
      rename_i w attempt url answer c
      have hbusy : url ∈ s.busy := List.mem_filterMap.mpr ⟨_, List.mem_of_getElem? hw, rfl⟩
      have hurl := (hinv.core.processed url hbusy).1
      exact hends (work_shown hd hurl fetched h)
  | true =>
    have hat := hinv.phase
    cases act with
    | begin =>
      simp only [step] at hs
      split at hs <;> cases hs
      exact shown_begin h
    | attempted answer =>
      simp only [step, attempted] at hs
      split at hs
      · rename_i url hops attempt hfetching
        rw [hfetching] at hat
        cases answer with
        | retry =>
          dsimp only at hs
          split at hs <;> cases hs
          exact h
        | fetched response =>
          cases hs
          exact shown_seedFetched hd hat.2.normalized _ _ h
        | raised e =>
          cases hs
          exact h
      · cases hs
    | robotsGuarded reason =>
      simp only [step, robotsGuarded] at hs
      split at hs
      · rename_i url result robotsUrl left hguarding
        rw [hguarding] at hat
        split at hs <;> cases hs
        · exact shown_loaded hd hat.2.1.normalized result _ h
        · exact h
      · cases hs
    | robotsAnswered answer =>
      simp only [step, robotsAnswered] at hs
      split at hs
      · rename_i url result robotsUrl left hfetching
        rw [hfetching] at hat
        split at hs <;> cases hs
        · exact h
        · exact shown_loaded hd hat.2.1.normalized result _ h
        · unfold robotsHop
          split <;> exact h
      · cases hs
    | guarded reason =>
      simp only [step, guarded] at hs
      split at hs
      · split at hs <;> cases hs <;> exact h
      · cases hs
    | guardRaised e | robotsGuardRaised e =>
      simp only [step, guardRaised, robotsGuardRaised] at hs
      split at hs <;> cases hs
      exact h
    | take w | locked w | slept w | workerAttempted w answer | joined | failed | left =>
      -- these wait for the pool
      simp only [step, take, locked, slept, workerAttempted, joined, failed, CrawlRun.left] at hs
      split at hs
      · rename_i hpool _
        simp_all [RunPhase.isSeeding]
      · cases hs
    | cancel =>
      simp only [step, cancel] at hs
      split at hs <;> cases hs <;> exact h
    | workerCancelled w =>
      simp only [step, workerCancelled] at hs
      split at hs
      · split at hs
        · cases hs
        · split at hs <;> cases hs <;> exact h
      · cases hs

theorem shown_reaches (hd : d.NormalLinks) (h : Reaches (step d) (create config seed) s) :
    s.crawler.Shown d := by
  have hboth : s.Inv d ∧ s.crawler.Shown d := by
    refine h.invariant (P := fun s => s.Inv d ∧ s.crawler.Shown d)
      ⟨inv_create config seed, fun _ hmem => absurd hmem List.not_mem_nil⟩ ?_
    intro s act s' hbefore hs
    obtain ⟨hinv, hshown⟩ := hbefore
    exact ⟨inv_step hd hinv hs, shown_step hd hinv hshown hs⟩
  exact hboth.2

/-- What the run has printed so far. -/
def text (s : CrawlRun) : Text := s.crawler.reports.flatMap TextReporter.page

end CrawlRun

/-- Whatever the servers send, the text output has no control character but the ends of its lines,
and reads back as the pages that were reported, each with its links; output that is cut off anywhere
reads as the first of them. -/
theorem text_reads {d : Deps} {lexbor : Lexbor} {config : CrawlConfig} {seed : Text} {s : CrawlRun}
    (hextract : d.extract = extractLinks d.unicode lexbor)
    (h : Reaches (CrawlRun.step d) (CrawlRun.create config seed) s) :
    (∀ c ∈ s.text, c = '\n' ∨ isControl c = false) ∧
      TextReporter.readAll s.text = s.crawler.reports.map TextReporter.block ∧
      (∀ output, output <+: s.text →
        TextReporter.readAll output <+: s.crawler.reports.map TextReporter.block) ∧
      ∀ page ∈ s.crawler.reports, Normalized d.unicode page.url ∧
        ∀ link ∈ page.links, Normalized d.unicode link := by
  have hshown := CrawlRun.shown_reaches (normalLinks_of_lexbor hextract) h
  refine ⟨fun c hc => TextReporter.plain_output hshown hc, TextReporter.readAll_output hshown,
    fun output houtput => TextReporter.readAll_of_start hshown houtput, hshown⟩

theorem text_reads_retried : ∃ s,
    run (CrawlRun.step bodyIsLink) (CrawlRun.create {} "http://h/".toList) retriedRun = some s ∧
    s.text = "http://h/\n  http://h/b\n\n".toList ∧
    TextReporter.readAll s.text = s.crawler.reports.map TextReporter.block := by
  have hrun : (run (CrawlRun.step bodyIsLink) (CrawlRun.create {} "http://h/".toList)
      retriedRun).any (fun s => decide (s.text = "http://h/\n  http://h/b\n\n".toList)) = true := by
    decide +kernel
  obtain ⟨s, hs, htext⟩ := (Option.any_eq_true _ _).mp hrun
  have hextract : bodyIsLink.extract = extractLinks bodyIsLink.unicode fun body =>
      { base := none, hrefs := [some (body.map fun byte => Char.ofNat byte.toNat)] } := rfl
  exact ⟨s, hs, of_decide_eq_true htext, (text_reads hextract ⟨retriedRun, hs⟩).2.1⟩

end UrlCrawler
