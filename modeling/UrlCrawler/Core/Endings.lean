import UrlCrawler.Core.Budget

/-! # How a crawl comes to its end

A crawl with a cap ends however large the site is: what it may still cost falls with each step, or the
queue does (`capped_ends`). One that is cancelled sends nothing more and ends in as many steps as it
has workers, and one (`cancelled_ends`).
-/
set_option autoImplicit false

namespace UrlCrawler
open Execution Crawler

/-! ## Every crawl with a cap ends -/

/-- A run that is on its way out after a cancel is not cancelled once more. -/
def CancelsOnce (s : CrawlRun) (act : CrawlerAct) : Prop :=
  act = .cancel → ∀ cancelled, s.phase = .leaving cancelled → cancelled = false

/-- The crawl does not get a policy whose delay never ends. -/
def DelayEnds (d : Deps) (s : CrawlRun) (act : CrawlerAct) : Prop :=
  ∀ s', s.step d act = some s' → s'.crawler.robots.endless = false

namespace CrawlRun
variable {d : Deps} {config : CrawlConfig} {s : CrawlRun}

theorem begin_robots (d : Deps) (s : CrawlRun) : (s.begin d).crawler.robots = s.crawler.robots := by
  unfold CrawlRun.begin
  split
  · rfl
  · refine exec_of_ends (Q := fun s' => s'.crawler.robots = s.crawler.robots) ?_
    rw [ends_markSeen]
    refine ⟨fun new frontier _ => ?_, fun e _ => rfl⟩
    unfold fetchSeed
    split <;> rfl

/-- A step that loads no policy is possible before the workers start. -/
theorem seeding_progress (d : Deps) (hphase : s.phase.isSeeding = true) :
    ∃ act s', act ≠ .cancel ∧ s.step d act = some s' ∧ s'.crawler.robots = s.crawler.robots := by
  cases hp : s.phase with
  | created =>
    exact ⟨.begin, s.begin d, by simp, by simp [CrawlRun.step, hp], begin_robots d s⟩
  | guarding url hops =>
    exact ⟨.guardRaised (.valueError []), s.raise (.valueError []), by simp, by
      simp [CrawlRun.step, guardRaised, hp], rfl⟩
  | fetching url hops attempt =>
    exact ⟨.attempted (.raised (.valueError [])), s.raise (.valueError []), by simp, by
      simp [CrawlRun.step, attempted, hp], rfl⟩
  | robotsGuarding url result robotsUrl left =>
    exact ⟨.robotsGuardRaised (.valueError []), s.raise (.valueError []), by simp, by
      simp [CrawlRun.step, robotsGuardRaised, hp], rfl⟩
  | robotsFetching url result robotsUrl left =>
    exact ⟨.robotsAnswered (.raised (.valueError [])), s.raise (.valueError []), by simp, by
      simp [CrawlRun.step, robotsAnswered, robotsNext, hp], rfl⟩
  | joining | leaving _ | done _ =>
    rw [hp] at hphase
    cases hphase

/-- A step is possible while the task group is left. -/
theorem leaving_progress (d : Deps) {cancelled : Bool} (hp : s.phase = .leaving cancelled) :
    ∃ act s', act ≠ .cancel ∧ s.step d act = some s' := by
  by_cases hover : s.workers.all WorkerPhase.isOver = true
  · exact ⟨.left, s.leave cancelled, by simp, by simp [CrawlRun.step, CrawlRun.left, hp, hover]⟩
  · have hsome : ∃ phase ∈ s.workers, phase.isOver = false := by
      simpa [List.all_eq_true] using hover
    obtain ⟨phase, hmem, hlive⟩ := hsome
    obtain ⟨w, hw⟩ := List.mem_iff_getElem?.mp hmem
    refine ⟨.workerCancelled w, ?_⟩
    simp only [CrawlRun.step, workerCancelled, hw, cancelling, hp, hlive]
    cases phase.url?.isSome <;> exact ⟨_, by simp, rfl⟩

/-- As long as the run is not over, some step other than a cancel is possible, and it keeps the policy. -/
theorem Staffed.progress (h : s.Staffed config) (hcore : s.Core d)
    (hdelay : s.crawler.robots.endless = false) (hrunning : ¬∃ result, s.phase = .done result) :
    ∃ act s', act ≠ .cancel ∧ s.step d act = some s' ∧ s'.crawler.robots = s.crawler.robots := by
  have hkept : s.phase.isSeeding = false → (∃ act s', act ≠ .cancel ∧ s.step d act = some s') →
      ∃ act s', act ≠ .cancel ∧ s.step d act = some s' ∧ s'.crawler.robots = s.crawler.robots := by
    rintro hphase ⟨act, s', hact, hs⟩
    exact ⟨act, s', hact, hs, poolMove_robots (step_poolMove hphase hs)⟩
  cases hp : s.phase with
  | joining =>
    refine hkept (by rw [hp]; rfl) ?_
    by_cases herrors : s.errors = []
    · obtain ⟨hpos, hlive⟩ := h.joining hp herrors
      have hpool : s.PoolPhase := by
        unfold PoolPhase
        rw [hp]
        exact hlive
      let site : Site := fun _ => .error (.valueError [])
      have hprogress : ∃ act s', site.Serves s act ∧ s.step d act = some s' :=
        poolPhase_progress hdelay hpool hpos hcore fun result hdone => hrunning ⟨result, hdone⟩
      obtain ⟨act, s', hserves, hs⟩ := hprogress
      refine ⟨act, s', ?_, hs⟩
      rintro rfl
      exact hserves
    · exact ⟨.failed, { s with phase := .leaving false }, by simp, by
        simp [CrawlRun.step, failed, hp, herrors]⟩
  | leaving cancelled => exact hkept (by rw [hp]; rfl) (leaving_progress d hp)
  | done result => exact absurd ⟨result, hp⟩ hrunning
  | created | guarding _ _ | fetching _ _ _ | robotsGuarding _ _ _ _ | robotsFetching _ _ _ _ =>
    exact seeding_progress d (by rw [hp]; rfl)

end CrawlRun

/-- A crawl with a cap comes to its end, however large the site is, whatever guards and servers answer
and whatever raises, in every order of steps, unless robots.txt asks for a delay that never ends. -/
theorem capped_ends {d : Deps} {lexbor : Lexbor} {config : CrawlConfig} {seed : Text} {max : ℤ}
    (hextract : d.extract = extractLinks d.unicode lexbor) (hcap : config.maxPages = some max) :
    Inevitable (CrawlRun.step d) (fun s act => CancelsOnce s act ∧ DelayEnds d s act)
      (fun s => ∃ result, s.phase = .done result) (CrawlRun.create config seed) := by
  have hd := normalLinks_of_lexbor hextract
  let t : Tariff :=
    { hops := config.maxSeedRedirects.toNat, attempts := d.maxAttempts + 1, pages := max.toNat,
      workers := config.concurrency.toNat, toll := 1 }
  have hpos := config.maxPages_pos max hcap
  have hcovers : t.Covers d config :=
    { hops := rfl, attempts := Nat.le_succ _, attempts_pos := Nat.le_add_left _ _, workers := rfl
      pages := by rw [hcap, Int.toNat_of_nonneg (by omega)] }
  refine Inevitable.of_measure
    (I := fun s => s.Staffed config ∧ s.Inv d ∧ s.crawler.robots.endless = false)
    (fun s => toLex (s.total t, s.crawler.frontier.queue.length)) ?_ ?_
    ⟨CrawlRun.staffed_create config seed, CrawlRun.inv_create config seed, rfl⟩
  · rintro s ⟨hstaffed, hinv, hdelay⟩ hrunning
    obtain ⟨act, s', hact, hs, hrobots⟩ := hstaffed.progress hinv.core hdelay hrunning
    refine ⟨act, s', ⟨fun hcancel => absurd hcancel hact, fun s'' hs'' => ?_⟩, hs⟩
    obtain rfl := Option.some.inj (hs.symm.trans hs'')
    rw [hrobots]
    exact hdelay
  · rintro s act s' ⟨hstaffed, hinv, -⟩ - ⟨honce, hends⟩ hs
    refine .inr ⟨⟨hstaffed.step hs, CrawlRun.inv_step hd hinv hs, hends s' hs⟩, ?_⟩
    rw [Prod.Lex.toLex_lt_toLex]
    obtain hpaid | ⟨hsame, hless⟩ | ⟨-, hcancel, hp⟩ := CrawlRun.total_step hcovers hstaffed hs
    · exact .inl (Nat.lt_of_succ_le hpaid)
    · exact .inr ⟨hsame, hless⟩
    · exact absurd (honce hcancel true hp) (by simp)

theorem capped_ends_pair :
    Inevitable (CrawlRun.step bodyIsLink)
      (fun s act => CancelsOnce s act ∧ DelayEnds bodyIsLink s act)
      (fun s => ∃ result, s.phase = .done result)
      (CrawlRun.create (CrawlConfig.capped { concurrency := 1 } 2 (by decide))
        "http://h/".toList) :=
  capped_ends rfl rfl

/-! ## A cancelled crawl -/

namespace CrawlRun
variable {d : Deps} {s s' : CrawlRun}

/-- How a run with these errors ends once it is cancelled. -/
def cancelledResult (errors : List Exn) : RunResult :=
  if errors = [] then .cancelled else .raised (groupError errors)

/-- What `s₀` had done stays as it is, and the run is on its way out. -/
structure Closing (s₀ s : CrawlRun) : Prop where
  log : s.log = s₀.log
  reports : s.crawler.reports = s₀.crawler.reports
  stats : s.crawler.stats = s₀.crawler.stats
  errors : s.errors = s₀.errors
  phase : s.phase = .leaving true ∨ s.phase = .done (cancelledResult s₀.errors)

/-- How many steps are left. -/
def closingSteps (s : CrawlRun) : ℕ :=
  s.workers.countP (fun phase => !phase.isOver) + match s.phase with
    | .done _ => 0
    | _ => 1

theorem closing_cancel (hseeding : s.phase.isSeeding = true → s.errors = [])
    (hs : s.step d .cancel = some s') : s.Closing s' ∧ s'.closingSteps ≤ s.workers.length + 1 := by
  have hcount : s.workers.countP (fun phase => !phase.isOver) ≤ s.workers.length :=
    List.countP_le_length
  simp only [CrawlRun.step, cancel] at hs
  split at hs
  · cases hs
  · obtain rfl := Option.some.inj hs
    exact ⟨⟨rfl, rfl, rfl, rfl, .inl rfl⟩, Nat.add_le_add_right hcount 1⟩
  · obtain rfl := Option.some.inj hs
    exact ⟨⟨rfl, rfl, rfl, rfl, .inl rfl⟩, Nat.add_le_add_right hcount 1⟩
  · rename_i hnot hjoining hleaving
    obtain rfl := Option.some.inj hs
    have hnone : s.errors = [] := by
      apply hseeding
      cases hp : s.phase with
      | joining => exact absurd hp hjoining
      | leaving cancelled => exact absurd hp (hleaving cancelled)
      | done result => exact absurd hp (hnot result)
      | created | guarding _ _ | fetching _ _ _ | robotsGuarding _ _ _ _
      | robotsFetching _ _ _ _ => rfl
    refine ⟨⟨rfl, rfl, rfl, rfl, .inr ?_⟩, hcount.trans (Nat.le_succ _)⟩
    rw [cancelledResult, if_pos hnone]
    rfl

theorem Closing.step {s₀ : CrawlRun} (h : s₀.Closing s) {act : CrawlerAct}
    (hs : s.step d act = some s') :
    s₀.Closing s' ∧ (act ≠ .cancel → s'.closingSteps < s.closingSteps) := by
  obtain hp | hp := h.phase
  · cases act with
    | cancel =>
      simp only [CrawlRun.step, cancel, hp] at hs
      obtain rfl := Option.some.inj hs
      exact ⟨⟨h.log, h.reports, h.stats, h.errors, .inl rfl⟩, fun hnot => absurd rfl hnot⟩
    | workerCancelled w =>
      simp only [CrawlRun.step, workerCancelled] at hs
      split at hs
      · rename_i phase hw
        split at hs
        · cases hs
        · rename_i hlive
          simp only [Bool.or_eq_true, Bool.not_eq_true', not_or, Bool.not_eq_false,
            Bool.not_eq_true] at hlive
          have hless : (s.workers.set w .done).countP (fun phase => !phase.isOver) <
              s.workers.countP fun phase => !phase.isOver := by
            obtain ⟨hlt, hw⟩ := List.getElem?_eq_some_iff.mp hw
            have hcounted : (!s.workers[w].isOver) = true := by
              rw [hw, hlive.2]
              rfl
            have hpos : 0 < s.workers.countP fun phase => !phase.isOver :=
              List.countP_pos_iff.mpr ⟨_, List.getElem_mem hlt, hcounted⟩
            have hset := List.countP_set (p := fun phase => !phase.isOver) (a := .done) hlt
            rw [if_pos hcounted, if_neg (by simp [WorkerPhase.isOver])] at hset
            omega
          have hsteps : s'.closingSteps < s.closingSteps := by
            split at hs <;> obtain rfl := Option.some.inj hs
            · exact Nat.add_lt_add_right hless _
            · exact Nat.add_lt_add_right hless _
          refine ⟨?_, fun _ => hsteps⟩
          split at hs <;> obtain rfl := Option.some.inj hs
          · exact ⟨h.log, h.reports, h.stats, h.errors, .inl hp⟩
          · exact ⟨h.log, h.reports, h.stats, h.errors, .inl hp⟩
      · cases hs
    | left =>
      simp only [CrawlRun.step, CrawlRun.left, hp] at hs
      split at hs <;> cases hs
      refine ⟨⟨h.log, h.reports, h.stats, h.errors, .inr ?_⟩, fun _ => ?_⟩
      · rw [cancelledResult, ← h.errors]
        unfold leave
        split <;> simp_all [finish]
      · unfold closingSteps
        rw [hp]
        exact Nat.lt_succ_self _
    | begin | guarded _ | guardRaised _ | attempted _ | robotsGuarded _ | robotsGuardRaised _
    | robotsAnswered _ | take _ | locked _ | slept _ | workerAttempted _ _ | joined | failed =>
      simp [CrawlRun.step, guarded, guardRaised, attempted, robotsGuarded, robotsGuardRaised,
        robotsAnswered, take, locked, slept, workerAttempted, joined, failed, hp] at hs
  · rw [step_done hp] at hs
    cases hs

/-- A crawl that is cancelled is on its way out, with a step for each worker and one more. -/
theorem closing_of_cancel {config : CrawlConfig} {seed : Text}
    (h : Reaches (CrawlRun.step d) (create config seed) s) (hs : s.step d .cancel = some s') :
    s.Closing s' ∧ s'.closingSteps ≤ s.workers.length + 1 := by
  have hstaffed : s.Staffed config :=
    h.invariant (staffed_create config seed) fun _ _ _ hi hs => hi.step hs
  exact closing_cancel (fun hp => (hstaffed.seeding hp).errors) hs

theorem closing_reaches {s₀ : CrawlRun} (h : Reaches (CrawlRun.step d) s s') (hs : s₀.Closing s) :
    s₀.Closing s' :=
  h.invariant hs fun _ _ _ hi hstep => (hi.step hstep).1

end CrawlRun

/-- A crawl that is cancelled sends no request any more, reports no page and counts nothing. It can
always go on until it ends, after one step for each worker and one more at most, and ends as cancelled
unless a worker had failed. -/
theorem cancelled_ends {d : Deps} {config : CrawlConfig} {seed : Text} {s s₁ : CrawlRun}
    (h : Reaches (CrawlRun.step d) (CrawlRun.create config seed) s)
    (hcancel : s.step d .cancel = some s₁) :
    (∀ s', Reaches (CrawlRun.step d) s₁ s' → s'.log = s.log ∧
      s'.crawler.reports = s.crawler.reports ∧ s'.crawler.stats = s.crawler.stats ∧
      ∀ result, s'.phase = .done result →
        result = if s.errors = [] then .cancelled else .raised (CrawlRun.groupError s.errors)) ∧
    ∀ as s', Meets (CrawlRun.step d) (fun _ act => act ≠ .cancel) s₁ as →
      run (CrawlRun.step d) s₁ as = some s' → as.length ≤ s.workers.length + 1 ∧
        ((∃ result, s'.phase = .done result) ∨
          ∃ act s'', act ≠ .cancel ∧ s'.step d act = some s'') := by
  obtain ⟨hclosing, hsteps⟩ := CrawlRun.closing_of_cancel h hcancel
  refine ⟨fun s' hs' => ?_, fun as s' honce hrun => ?_⟩
  · have hend := CrawlRun.closing_reaches hs' hclosing
    refine ⟨hend.log, hend.reports, hend.stats, fun result hdone => ?_⟩
    obtain hp | hp := hend.phase
    · rw [hp] at hdone
      cases hdone
    · exact RunPhase.done.inj (hdone.symm.trans hp)
  · obtain ⟨hend, hlength⟩ := honce.length_le CrawlRun.closingSteps
      (fun _ _ _ hi hact hs => ⟨(hi.step hs).1, (hi.step hs).2 hact⟩) hclosing hrun
    refine ⟨by omega, ?_⟩
    obtain hp | hp := hend.phase
    · exact .inr (CrawlRun.leaving_progress d hp)
    · exact .inl ⟨_, hp⟩

/-- Cancelled while its worker waits for the second page, the run ends two steps later. -/
theorem cancelled_ends_retried : ∃ s s₁ s',
    run (CrawlRun.step bodyIsLink) (CrawlRun.create { concurrency := 1 } "http://h/".toList)
      retriedRun = some s ∧ s.step bodyIsLink .cancel = some s₁ ∧
    run (CrawlRun.step bodyIsLink) s₁ [.workerCancelled 0, .left] = some s' ∧
    s'.phase = .done .cancelled ∧ s'.log = s.log ∧
    [CrawlerAct.workerCancelled 0, .left].length ≤ s.workers.length + 1 := by
  have hrun : ((run (CrawlRun.step bodyIsLink)
      (CrawlRun.create { concurrency := 1 } "http://h/".toList) retriedRun).any fun s =>
      (s.step bodyIsLink .cancel).any fun s₁ =>
        (run (CrawlRun.step bodyIsLink) s₁ [.workerCancelled 0, .left]).any fun s' =>
          decide (s'.result = some .cancelled)) = true := by
    decide +kernel
  obtain ⟨s, hs, hrest⟩ := (Option.any_eq_true _ _).mp hrun
  obtain ⟨s₁, hs₁, hrest⟩ := (Option.any_eq_true _ _).mp hrest
  obtain ⟨s', hs', hdone⟩ := (Option.any_eq_true _ _).mp hrest
  have hphase : s'.phase = .done .cancelled := CrawlRun.phase_of_result (of_decide_eq_true hdone)
  obtain ⟨hquiet, hsoon⟩ := cancelled_ends ⟨retriedRun, hs⟩ hs₁
  have honce : Meets (CrawlRun.step bodyIsLink) (fun _ act => act ≠ .cancel) s₁
      [.workerCancelled 0, .left] := by
    refine ⟨?_, fun t ht => ⟨?_, fun t' ht' => trivial⟩⟩
    · intro h
      cases h
    · intro h
      cases h
  exact ⟨s, s₁, s', hs, hs₁, hs', hphase, (hquiet s' ⟨_, hs'⟩).1, (hsoon _ s' honce hs').1⟩

end UrlCrawler
