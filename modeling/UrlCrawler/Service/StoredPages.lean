import UrlCrawler.Service.Fence

/-! # The stored pages

At any time the page rows of a crawl are the first `k` pages reported under its last lease, for some
`k` (`storedPages_prefix`): a claim wipes the rows, an insert is let through only for the job of the
last lease, and that job sends its rows in order, from the first one it has not been told is
written, so that rows sent twice meet their own copies.

`Job.Inv` is what a job keeps about itself; it also follows the verdict through the drain.
-/
set_option autoImplicit false

namespace UrlCrawler
open Execution

/-! ## Rows numbered from one -/

def pageOf (c : CrawlId) (row : PageRow) : Page := { row with crawlId := c }

/-- The table holds the first `k` rows of the log for crawl `c`, and nothing else. -/
def HoldsPrefix (db : Db) (c : CrawlId) (log : List Report) (k : ℕ) : Prop :=
  k ≤ log.length ∧ ∀ seq, db.page.lookup (c, seq) =
    if 0 < seq ∧ seq ≤ k then (rowsOf log)[seq - 1]?.map (pageOf c) else none

theorem find_numbered : ∀ (l : List PageRow) (a : ℕ),
    (∀ (i : ℕ) row, l[i]? = some row → row.seq = a + i + 1) → ∀ seq,
      l.find? (fun row => row.seq = seq) = if a < seq then l[seq - a - 1]? else none
  | [], a, _, seq => by simp
  | row :: l, a, h, seq => by
      have hrow : row.seq = a + 1 := h 0 row rfl
      have ih := find_numbered l (a + 1) (fun i row' hi => by
        have := h (i + 1) row' hi
        omega) seq
      by_cases hs : seq = a + 1
      · subst hs
        simp [hrow]
      · rw [List.find?_cons_of_neg (by simpa [hrow] using Ne.symm hs), ih]
        by_cases hlt : a + 1 < seq
        · obtain ⟨d, rfl⟩ := Nat.exists_eq_add_of_lt hlt
          have hidx : a + 1 + d + 1 - a - 1 = d + 1 := by omega
          have hidx' : a + 1 + d + 1 - (a + 1) - 1 = d := by omega
          rw [if_pos hlt, if_pos (by omega), hidx, hidx', List.getElem?_cons_succ]
        · have hle : ¬a < seq := by omega
          rw [if_neg hlt, if_neg hle]

theorem getElem_rowsOf {log : List Report} {i : ℕ} {row : PageRow}
    (h : (rowsOf log)[i]? = some row) : row.seq = i + 1 := by
  simp only [rowsOf, List.getElem?_mapIdx, Option.map_eq_some_iff] at h
  obtain ⟨report, -, rfl⟩ := h
  rfl

/-- Looking a number up in a stretch of the log's rows. -/
theorem find_rowsOf (log : List Report) (a m seq : ℕ) :
    (((rowsOf log).drop a).take m).find? (fun row => row.seq = seq) =
      if a < seq ∧ seq ≤ a + m then (rowsOf log)[seq - 1]? else none := by
  rw [find_numbered _ a]
  · by_cases ha : a < seq
    · have hidx : a + (seq - a - 1) = seq - 1 := by omega
      by_cases hm : seq ≤ a + m
      · rw [if_pos ha, if_pos ⟨ha, hm⟩, List.getElem?_take_of_lt (by omega), List.getElem?_drop,
          hidx]
      · rw [if_pos ha, if_neg fun h => hm h.2, List.getElem?_eq_none]
        rw [List.length_take]
        omega
    · rw [if_neg ha, if_neg fun h => ha h.1]
  · intro i row hi
    rw [List.getElem?_take] at hi
    split at hi
    · rw [List.getElem?_drop] at hi
      exact getElem_rowsOf hi
    · cases hi

theorem find_pageOf (c : CrawlId) (rows : List PageRow) (seq : ℕ) :
    (rows.map (pageOf c)).find? (fun p => p.key = (c, seq)) =
      (rows.find? fun row => row.seq = seq).map (pageOf c) := by
  rw [List.find?_map]
  congr 2
  funext row
  exact decide_eq_decide.mpr (by simp [Page.key, pageOf])

theorem HoldsPrefix.append {db : Db} {c : CrawlId} {log : List Report} {k : ℕ}
    (h : HoldsPrefix db c log k) (more : List Report) : HoldsPrefix db c (log ++ more) k := by
  refine ⟨h.1.trans (by simp), fun seq => ?_⟩
  rw [h.2 seq]
  split
  · rename_i hs
    have hlt : seq - 1 < log.length := by
      have := h.1
      omega
    simp only [rowsOf, List.getElem?_mapIdx, List.getElem?_append_left hlt]
  · rfl

/-- Rows that start within the prefix extend it; those already there are ignored. -/
theorem HoldsPrefix.insert {db : Db} {c : CrawlId} {log : List Report} {k a m : ℕ}
    (h : HoldsPrefix db c log k) (ha : a ≤ k) (hm : a + m ≤ log.length) :
    HoldsPrefix
      { db with
        page := db.page.insertAllIgnore ((((rowsOf log).drop a).take m).map (pageOf c)) }
      c log (max k (a + m)) := by
  refine ⟨max_le h.1 hm, fun seq => ?_⟩
  rw [KeyedTable.lookup_insertAllIgnore, h.2 seq, find_pageOf, find_rowsOf]
  by_cases hk : 0 < seq ∧ seq ≤ k
  · have hlt : seq - 1 < (rowsOf log).length := by
      rw [DbReporter.length_rowsOf]
      have := h.1
      omega
    have hmax : 0 < seq ∧ seq ≤ max k (a + m) := ⟨hk.1, hk.2.trans (le_max_left _ _)⟩
    rw [if_pos hk, if_pos hmax, List.getElem?_eq_getElem hlt]
    rfl
  · rw [if_neg hk, Option.orElse_none]
    by_cases hin : a < seq ∧ seq ≤ a + m
    · have hmax : 0 < seq ∧ seq ≤ max k (a + m) := ⟨by omega, hin.2.trans (le_max_right _ _)⟩
      rw [if_pos hin, if_pos hmax]
    · have hmax : ¬(0 < seq ∧ seq ≤ max k (a + m)) := by
        rw [le_max_iff]
        omega
      rw [if_neg hin, if_neg hmax, Option.map_none]

theorem exec_insertPages_eq (db : Db) (id : CrawlId) (worker : WorkerId) (rows : List PageRow) :
    (Call.insertPages id worker rows).exec db =
      if rows.isEmpty then (db, .inserted)
      else if db.owned id worker then
        ({ db with page := db.page.insertAllIgnore (rows.map (pageOf id)) }, .inserted)
      else (db, .leaseLost) := by
  simp only [Call.exec, Db.insertPages]
  cases rows.isEmpty with
  | true => rfl
  | false => cases db.owned id worker <;> rfl

/-- Rows of the log sent again, or sent next, leave a longer stretch of the log in the table. -/
theorem HoldsPrefix.exec_insertPages {db : Db} {c : CrawlId} {log : List Report} {k a : ℕ}
    (h : HoldsPrefix db c log k) (ha : a ≤ k) {rows : List PageRow}
    (hrows : rows <+: (rowsOf log).drop a) (worker : WorkerId) :
    ∃ k', k ≤ k' ∧ HoldsPrefix ((Call.insertPages c worker rows).exec db).1 c log k' ∧
      (((Call.insertPages c worker rows).exec db).2 = .inserted → a + rows.length ≤ k') := by
  rw [exec_insertPages_eq]
  cases hempty : rows.isEmpty with
  | true =>
    obtain rfl := List.isEmpty_iff.mp hempty
    exact ⟨k, le_rfl, h, fun _ => ha⟩
  | false =>
    cases db.owned c worker with
    | false => exact ⟨k, le_rfl, h, fun hr => absurd hr (by simp)⟩
    | true =>
      have hlen : a + rows.length ≤ log.length := by
        have hle := hrows.length_le
        rw [List.length_drop, DbReporter.length_rowsOf] at hle
        have := h.1
        omega
      have hinsert := h.insert ha hlen
      rw [← List.prefix_iff_eq_take.mp hrows] at hinsert
      exact ⟨max k (a + rows.length), le_max_left _ _, hinsert, fun _ => le_max_right _ _⟩

/-! ## What a job keeps -/

/-- The verdict `run_job` has reached, once the crawl task is over. -/
def JobPhase.verdict : JobPhase → Option Verdict
  | .awaiting => none
  | .stopping verdict | .draining verdict | .joining verdict _ | .closing verdict _ => some verdict

/-- How the drain went, once it is over. -/
def JobPhase.flushError : JobPhase → Option (Option String)
  | .joining _ flushError | .closing _ flushError => some flushError
  | _ => none

/-- Whether the watchers may still run. -/
def JobPhase.watched : JobPhase → Bool
  | .awaiting | .stopping _ => true
  | _ => false

section
variable {T : CrawlTask}

/-- A job against the log of its lease. The buffer lacks unwritten rows only after a discard, when
the lease is known to be lost; a verdict `finished` stands for a run that returned un-aborted; and
after a drain without an error nothing is left to write, unless the lease is lost. -/
structure Job.Inv (log : LeaseLog) (job : Job T) : Prop where
  pages : log.reports.map Prod.fst = T.pages job.task
  result : log.result = T.result job.task
  reporter : job.reporter.Inv log.reports
  buffered : job.reporter.Buffered log.reports ∨
    job.reporter.buffer = [] ∧ job.interrupt = some .leaseLost ∧ job.phase.watched = false
  ended : job.phase ≠ .awaiting → T.result job.task ≠ none
  closer : job.phase.watched = true → job.reporter.closer = .idle
  watchers : job.phase.watched = false → job.heartbeat = .done ∧ job.watchingStop = false
  verdict : ∀ error, job.phase.verdict = some (some (.finished, error)) →
    ∃ outcome, T.result job.task = some (.returned outcome) ∧ outcome.aborted = false
  drained : job.phase.flushError = some none →
    job.interrupt = some .leaseLost ∨ job.reporter.buffer = []

theorem jobInv_start (config : CrawlConfig) (seed : Text) (c : CrawlId) (n : ℕ) (batchSize : ℤ) :
    Job.Inv {} { crawl := c, lease := n, task := T.start config seed, reporter := { batchSize } } where
  pages := (T.pages_start config seed).symm
  result := (T.result_start config seed).symm
  reporter := DbReporter.inv_init batchSize
  buffered := .inl (DbReporter.buffered_init batchSize)
  ended h := absurd rfl h
  closer _ := rfl
  watchers h := by cases h
  verdict error h := by cases h
  drained h := by cases h

theorem Job.Inv.buffered_or_empty {log : LeaseLog} {job : Job T} (h : job.Inv log) :
    job.reporter.Buffered log.reports ∨ job.reporter.buffer = [] :=
  h.buffered.imp_right And.left

/-- While the watchers may run, every unwritten row is in the buffer. -/
theorem Job.Inv.buffered_of_watched {log : LeaseLog} {job : Job T} (h : job.Inv log)
    (hw : job.phase.watched = true) : job.reporter.Buffered log.reports :=
  h.buffered.resolve_right fun hd => by simp [hw] at hd

theorem outcome_finished {result : RunResult} {interrupt : Option Interrupt} {error : Option String}
    (h : outcome result interrupt = some (.finished, error)) :
    ∃ o, result = .returned o ∧ o.aborted = false := by
  cases result with
  | returned o =>
    simp only [outcome] at h
    split at h
    · cases h
    · rename_i ha
      exact ⟨o, rfl, by simpa using ha⟩
  | seedError | raised => cases h
  | cancelled => cases interrupt <;> cases h

/-- A reporter step inside a job. -/
theorem Job.Inv.reporter_step {log : LeaseLog} {job : Job T} (h : job.Inv log) {a : ReporterAct}
    {reporter : DbReporter} (hs : job.reporter.step a = some reporter) :
    Job.Inv log { job with reporter } where
  pages := h.pages
  result := h.result
  reporter := DbReporter.step_inv h.reporter h.buffered_or_empty hs
  buffered := h.buffered.imp (fun hb => DbReporter.step_buffered hb hs)
    fun hd => ⟨DbReporter.step_empty hd.1 hs, hd.2⟩
  ended := h.ended
  closer hw := DbReporter.step_idle (h.closer hw) hs
  watchers := h.watchers
  verdict := h.verdict
  drained hf := (h.drained hf).imp_right fun hb => DbReporter.step_empty hb hs

/-- The answer to an insert. -/
theorem Job.Inv.answer {log : LeaseLog} {job : Job T} (h : job.Inv log) (task : FlushTask)
    (reply : Reply) : Job.Inv log { job with reporter := job.reporter.answer task reply } := by
  obtain ⟨hbuffer, hwritten⟩ := DbReporter.answer_buffer job.reporter task reply
  exact
    { pages := h.pages
      result := h.result
      reporter := h.reporter.answer task reply
      buffered := by
        show DbReporter.Buffered log.reports (job.reporter.answer task reply) ∨ _
        rw [DbReporter.Buffered, hbuffer, hwritten]
        exact h.buffered
      ended := h.ended
      closer := fun hw => DbReporter.answer_closer_idle (h.closer hw) task reply
      watchers := h.watchers
      verdict := h.verdict
      drained := fun hf => (h.drained hf).imp_right fun hb => hbuffer.trans hb }

/-- A step of the crawl task: what it reports goes to the log and to the reporter alike. -/
theorem Job.Inv.crawled {log : LeaseLog} {job : Job T} (h : job.Inv log) {a : T.Act}
    {task : T.State} (hs : T.step job.task a = some task) (clock : ℕ → Instant) :
    (job.crawled task clock).Inv
        { reports := log.reports ++ job.newReports task clock, result := T.result task } ∧
      (job.crawled task clock).reporter.stored = job.reporter.stored := by
  have hphase : job.phase = .awaiting := by
    by_contra hne
    exact h.ended hne (T.ended hs)
  have hwatched : job.phase.watched = true := by rw [hphase]; rfl
  obtain ⟨hinv, hcloser, hstored, hbuf⟩ :=
    DbReporter.pages_inv (job.newReports task clock) h.reporter (h.closer hwatched)
  have hnew : (job.newReports task clock).map Prod.fst =
      (T.pages task).drop (T.pages job.task).length := by
    simp only [Job.newReports]
    refine List.ext_getElem (by simp) fun i h₁ h₂ => ?_
    simp
  refine ⟨⟨?_, rfl, hinv, .inl (hbuf (h.buffered_of_watched hwatched)),
    fun hne => absurd hphase hne, fun _ => hcloser, fun hw => ?_, fun error hv => ?_,
    fun hf => ?_⟩, hstored⟩
  · obtain ⟨more, hmore⟩ := T.pages_step hs
    rw [List.map_append, hnew, h.pages]
    show T.pages job.task ++ (T.pages task).drop (T.pages job.task).length = T.pages task
    rw [← hmore, List.drop_left]
  · have hw' : job.phase.watched = false := hw
    simp [hwatched] at hw'
  · have hv' : job.phase.verdict = some (some (.finished, error)) := hv
    simp [hphase, JobPhase.verdict] at hv'
  · have hf' : job.phase.flushError = some none := hf
    simp [hphase, JobPhase.flushError] at hf'

theorem stored_discard (r : DbReporter) : r.discard.stored = r.stored := rfl

theorem stored_close (r : DbReporter) : r.close.stored ≤ r.stored :=
  DbReporter.stored_le_of_flush rfl fun task f hf => by
    cases task with
    | run => exact .inr hf
    | close => exact .inl (Option.some.inj hf).symm

theorem stored_cancelRun (r : DbReporter) : r.cancelRun.stored ≤ r.stored :=
  DbReporter.stored_le_of_flush rfl fun task f hf => by
    cases task with
    | run => cases hf
    | close => exact .inr hf

/-- The drain begins: a lost lease drops the buffer, and `close` is called. -/
theorem Job.Inv.drain {log : LeaseLog} {job : Job T} (h : job.Inv log) {verdict : Verdict}
    (hphase : job.phase = .stopping verdict) (hheartbeat : job.heartbeat = .done)
    (hstop : job.watchingStop = false) :
    Job.Inv log { job with
      phase := .draining verdict
      reporter := (if job.interrupt = some .leaseLost then job.reporter.discard
        else job.reporter).close } := by
  have hwatched : job.phase.watched = true := by rw [hphase]; rfl
  have hcloser := h.closer hwatched
  refine
    { pages := h.pages
      result := h.result
      reporter := ?_
      buffered := ?_
      ended := fun _ => h.ended (by simp [hphase])
      closer := by intro hw; cases hw
      watchers := fun _ => ⟨hheartbeat, hstop⟩
      verdict := fun error hv => h.verdict error (by rw [hphase]; exact hv)
      drained := by intro hf; cases hf }
  · show DbReporter.Inv log.reports (DbReporter.close _)
    split
    · exact (h.reporter.discard hcloser).close
    · exact h.reporter.close
  · show DbReporter.Buffered log.reports (DbReporter.close _) ∨ _
    split
    · rename_i hlost
      exact .inr ⟨rfl, hlost, rfl⟩
    · exact .inl (h.buffered_of_watched hwatched)

/-- The coroutine moves on after the drain has begun. -/
theorem Job.Inv.advance {log : LeaseLog} {job : Job T} (h : job.Inv log) {phase : JobPhase}
    {interrupt : Option Interrupt} (hold : job.phase.watched = false)
    (hnew : phase.watched = false) (hverdict : phase.verdict = job.phase.verdict)
    (hinterrupt : interrupt = job.interrupt ∨ interrupt = some .leaseLost)
    (hdrained : phase.flushError = some none →
      interrupt = some .leaseLost ∨ job.reporter.buffer = []) :
    Job.Inv log { job with phase, interrupt } where
  pages := h.pages
  result := h.result
  reporter := h.reporter
  buffered := h.buffered.imp_right fun hd => ⟨hd.1, hinterrupt.elim (fun he => he ▸ hd.2.1) id, hnew⟩
  ended _ := h.ended fun hp => by simp [hp, JobPhase.watched] at hold
  closer hw := by
    have hw' : phase.watched = true := hw
    simp [hnew] at hw'
  watchers _ := h.watchers hold
  verdict error hv := h.verdict error (hverdict ▸ hv)
  drained := hdrained

/-- A job keeps its invariant, and claims no more rows stored than before. -/
theorem jobInv_step {log : LeaseLog} {job job' : Job T} (h : job.Inv log) {a : JobAct T}
    (hs : JobStep job a (.running job')) : job'.Inv log ∧
      job'.reporter.stored ≤ job.reporter.stored ∧ job'.crawl = job.crawl ∧
      job'.lease = job.lease := by
  generalize hstate : WorkerState.running job' = state at hs
  cases hs with
  | reporter a reporter hr =>
    cases hstate
    exact ⟨h.reporter_step hr, DbReporter.step_stored h.reporter.toNumbered hr, rfl, rfl⟩
  | watch a interrupt cancelling heartbeat watchingStop hmove =>
    cases hstate
    have hwatched : job.phase.watched = true := by
      by_contra hne
      obtain ⟨hdone, hstop⟩ := h.watchers (by simpa using hne)
      rcases hmove.live with hb | hw | ⟨verdict, hp⟩
      · exact hb hdone
      · simp [hstop] at hw
      · simp [hp, JobPhase.watched] at hne
    refine ⟨⟨h.pages, h.result, h.reporter, .inl (h.buffered_of_watched hwatched), h.ended, h.closer,
      fun hw => ?_, h.verdict, fun hf => ?_⟩, le_rfl, rfl, rfl⟩
    · have hw' : job.phase.watched = false := hw
      simp [hwatched] at hw'
    · have hf' : job.phase.flushError = some none := hf
      cases hp : job.phase <;> simp [hp, JobPhase.watched, JobPhase.flushError] at hwatched hf'
  | ended result hphase hresult =>
    cases hstate
    have hwatched : job.phase.watched = true := by rw [hphase]; rfl
    refine ⟨⟨h.pages, h.result, h.reporter, .inl (h.buffered_of_watched hwatched),
      fun _ => by simp [hresult], fun _ => h.closer hwatched, (by intro hw; cases hw),
      fun error hv => ?_, (by intro hf; cases hf)⟩, le_rfl, rfl, rfl⟩
    obtain ⟨o, rfl, ho⟩ := outcome_finished (Option.some.inj hv)
    exact ⟨o, hresult, ho⟩
  | drain verdict hphase hheartbeat hstop =>
    cases hstate
    refine ⟨h.drain hphase hheartbeat hstop, ?_, rfl, rfl⟩
    show (DbReporter.close _).stored ≤ _
    refine (stored_close _).trans ?_
    split
    · exact (stored_discard job.reporter).le
    · exact le_rfl
  | closeReturned verdict hphase hclose =>
    cases hstate
    exact ⟨h.advance (by rw [hphase]; rfl) rfl (by rw [hphase]; rfl) (.inl rfl)
      fun _ => .inr (h.reporter.closed hclose), le_rfl, rfl, rfl⟩
  | closeLost verdict hphase hclose =>
    cases hstate
    exact ⟨h.advance (by rw [hphase]; rfl) rfl (by rw [hphase]; rfl) (.inr rfl)
      fun _ => .inl rfl, le_rfl, rfl, rfl⟩
  | closeFailed verdict error hphase hclose =>
    cases hstate
    exact ⟨h.advance (by rw [hphase]; rfl) rfl (by rw [hphase]; rfl) (.inl rfl)
      (by intro hf; cases hf), le_rfl, rfl, rfl⟩
  | flusherCancelled verdict flushError hphase =>
    cases hstate
    exact ⟨⟨h.pages, h.result, h.reporter.cancelRun, h.buffered, h.ended, h.closer, h.watchers,
      h.verdict, h.drained⟩, stored_cancelRun _, rfl, rfl⟩
  | flusherDone verdict flushError hphase hdone =>
    cases hstate
    exact ⟨h.advance (by rw [hphase]; rfl) rfl (by rw [hphase]; rfl) (.inl rfl)
      fun hf => h.drained (by rw [hphase]; exact hf), le_rfl, rfl, rfl⟩
  | gone => cases hstate
  | record state error flushError hphase elapsed =>
    exact absurd hstate.symm Job.record_ne_running

/-- The answer to a heartbeat, for which the watcher is waiting. -/
theorem Job.Inv.beaten {log : LeaseLog} {job : Job T} (h : job.Inv log) {stats : Summary}
    (hb : job.heartbeat = .beating stats .issued) (reply : Reply) :
    Job.Inv log { job with heartbeat := .beating stats (.answered reply) } :=
  { pages := h.pages
    result := h.result
    reporter := h.reporter
    buffered := h.buffered
    ended := h.ended
    closer := h.closer
    watchers := fun hw => by simp [(h.watchers hw).1] at hb
    verdict := h.verdict
    drained := h.drained }

/-! ## The system -/

namespace System

/-- The logs of leases not yet started are empty, every job agrees with the log of its lease, and
the table holds a prefix of the log of each crawl's last lease, no shorter than what that lease's
job believes. -/
structure PagesInv (s : System T) : Prop where
  fence : FenceInv s
  fresh : ∀ c n, s.leases c < n → s.history c n = {}
  claimed : ∀ worker row n, s.workers worker = .claimed (some row) n → s.history row.id n = {}
  jobs : ∀ worker job, s.workers worker = .running job →
    job.Inv (s.history job.crawl job.lease)
  stored : ∀ c, ∃ k, HoldsPrefix s.store.db c (s.history c (s.leases c)).reports k ∧
    ∀ worker job, s.workers worker = .running job → job.crawl = c → job.lease = s.leases c →
      job.reporter.stored ≤ k

theorem pagesInv_init : PagesInv ({} : System T) where
  fence := fenceInv_init
  fresh _ _ _ := rfl
  claimed := by intro worker row n h; cases h
  jobs := by intro worker job h; cases h
  stored c := by
    refine ⟨0, ⟨le_rfl, fun seq => ?_⟩, by intro worker job h; cases h⟩
    rw [if_neg (by omega)]
    rfl

/-- What a step leaves in a worker's state: what was there, or a job that is sound and claims no
more than was claimed before, or nothing to be said. -/
def Sound (s : System T) (worker : WorkerId) (state : WorkerState T) : Prop :=
  state = s.workers worker ∨
    (∀ row n, state ≠ .claimed (some row) n) ∧
    ∀ job', state = .running job' → job'.Inv (s.history job'.crawl job'.lease) ∧
      (job'.reporter.stored = 0 ∨ ∃ job, s.workers worker = .running job ∧
        job'.reporter.stored ≤ job.reporter.stored ∧ job'.crawl = job.crawl ∧
        job'.lease = job.lease)

/-- A step that leaves the pages, the leases and the logs as they are. -/
theorem PagesInv.mono {s s' : System T} (h : PagesInv s) (hfence : FenceInv s')
    (hpage : s'.store.db.page = s.store.db.page) (hleases : s'.leases = s.leases)
    (hhistory : s'.history = s.history)
    (hworkers : ∀ worker, s.Sound worker (s'.workers worker)) : PagesInv s' where
  fence := hfence
  fresh c n hn := by
    rw [hhistory]
    exact h.fresh c n (hleases ▸ hn)
  claimed worker row n hw := by
    rw [hhistory]
    rcases hworkers worker with he | ⟨hno, -⟩
    · exact h.claimed worker row n (he ▸ hw)
    · exact absurd hw (hno row n)
  jobs worker job hw := by
    rw [hhistory]
    rcases hworkers worker with he | ⟨-, hjob⟩
    · exact h.jobs worker job (he ▸ hw)
    · exact (hjob job hw).1
  stored c := by
    obtain ⟨k, hk, hjobs⟩ := h.stored c
    refine ⟨k, ⟨?_, fun seq => ?_⟩, fun worker job' hw hc hl => ?_⟩
    · rw [hhistory, hleases]
      exact hk.1
    · rw [hpage, hhistory, hleases]
      exact hk.2 seq
    · rw [hleases] at hl
      rcases hworkers worker with he | ⟨-, hjob⟩
      · exact hjobs worker job' (he ▸ hw) hc hl
      · rcases (hjob job' hw).2 with hzero | ⟨job, hw₀, hle, hcrawl, hlease⟩
        · rw [hzero]
          exact Nat.zero_le k
        · exact hle.trans (hjobs worker job hw₀ (hcrawl ▸ hc) (hlease ▸ hl))

theorem sound_setWorker {s : System T} {worker : WorkerId} {state : WorkerState T}
    (h : s.Sound worker state) (other : WorkerId) :
    s.Sound other ((s.setWorker worker state).workers other) := by
  simp only [setWorker, Function.update_apply]
  split
  · rename_i he
    exact he ▸ h
  · exact .inl rfl

theorem sound_of_settled {s : System T} {worker : WorkerId} {state : WorkerState T}
    (hclaimed : ∀ row n, state ≠ .claimed (some row) n) (hrunning : ∀ job, state ≠ .running job) :
    s.Sound worker state :=
  .inr ⟨hclaimed, fun job hj => absurd hj (hrunning job)⟩

theorem sound_move {settings : Settings} {s : System T} (h : PagesInv s) {worker : WorkerId}
    {state : WorkerState T} (hm : Move settings (s.workers worker) state) :
    s.Sound worker state := by
  generalize hw : s.workers worker = old at hm
  cases hm with
  | claim | emptyQueue | giveUp => exact sound_of_settled (by simp) (by simp)
  | start row n =>
    unfold runJob
    split
    · exact sound_of_settled (by simp) (by simp)
    · rename_i config hconfig
      refine .inr ⟨by simp, fun job hj => ?_⟩
      cases hj
      refine ⟨?_, .inl rfl⟩
      rw [h.claimed worker row n hw]
      exact jobInv_start config row.seed row.id n settings.pageBatchSize
  | record r a state hstep =>
    obtain rfl | ⟨phase, rfl, -⟩ := Recording.step_cases hstep
    · exact sound_of_settled (by simp) (by simp)
    · exact sound_of_settled (by simp) (by simp)

theorem sound_job {s : System T} (h : PagesInv s) {worker : WorkerId} {job : Job T}
    (hw : s.workers worker = .running job) {a : JobAct T} {state : WorkerState T} (hs : JobStep job a state) :
    s.Sound worker state := by
  cases state with
  | running job' =>
    obtain ⟨hinv, hle, hcrawl, hlease⟩ := jobInv_step (h.jobs worker job hw) hs
    refine .inr ⟨by simp, fun job'' hj => ?_⟩
    cases hj
    rw [hcrawl, hlease]
    exact ⟨hinv, .inr ⟨job, hw, hle, rfl, rfl⟩⟩
  | claimed row n =>
    exfalso
    generalize hstate : WorkerState.claimed row n = state at hs
    cases hs with
    | record =>
      exact absurd hstate.symm Job.record_ne_claimed
    | _ => cases hstate
  | idle | claiming | recording => exact sound_of_settled (by simp) (by simp)

/-- The insert of a flush takes effect. -/
theorem pagesInv_insert {s s' : System T} (h : PagesInv s) (hfence : FenceInv s')
    {worker : WorkerId} {job : Job T} (hw : s.workers worker = .running job) {task : FlushTask}
    {rows : List PageRow} (hrows : job.reporter.issued task = some rows) {reply : Reply}
    (hcall : s.store.call (.insertPages job.crawl worker rows) = some (s'.store, reply))
    (hworkers : s'.workers = Function.update s.workers worker
      (.running { job with reporter := job.reporter.answer task reply }))
    (hleases : s'.leases = s.leases) (hhistory : s'.history = s.history) : PagesInv s' := by
  have hjob := h.jobs worker job hw
  obtain ⟨hadmits, hdb, -, hreply⟩ := call_spec hcall
  obtain ⟨hflush, hanswer⟩ := DbReporter.answer_of_issued hrows reply
  have hlease : (s.workers worker).lease = some (job.crawl, job.lease) := by rw [hw]; rfl
  have hissued : ∀ now, (s.workers worker).issued worker now (.flush task) =
      some (.insertPages job.crawl worker rows) := by
    intro now
    simp [hw, WorkerState.issued, hrows]
  have hstate : ∀ other job', s'.workers other = .running job' →
      other = worker ∧ job' = { job with reporter := job.reporter.answer task reply } ∨
        other ≠ worker ∧ s.workers other = .running job' := by
    intro other job' hw'
    rw [hworkers, Function.update_apply] at hw'
    split at hw'
    · rename_i he
      cases hw'
      exact .inl ⟨he, rfl⟩
    · rename_i hne
      exact .inr ⟨hne, hw'⟩
  refine ⟨hfence, fun c n hn => ?_, fun other row n hw' => ?_, fun other job' hw' => ?_, fun c => ?_⟩
  · rw [hhistory]
    exact h.fresh c n (hleases ▸ hn)
  · rw [hhistory]
    rw [hworkers, Function.update_apply] at hw'
    split at hw'
    · cases hw'
    · exact h.claimed other row n hw'
  · rw [hhistory]
    rcases hstate other job' hw' with ⟨-, rfl⟩ | ⟨-, hw₀⟩
    · exact hjob.answer task reply
    · exact h.jobs other job' hw₀
  · obtain ⟨k, hk, hjobs⟩ := h.stored c
    rw [hhistory, hleases]
    by_cases hmine : c = job.crawl ∧ job.lease = s.leases c
    · obtain ⟨rfl, hcur⟩ := hmine
      have hle := hjobs worker job hw rfl hcur
      -- the rows go in after the first `pagesWritten` of the log, all of which are there
      have hpw : job.reporter.pagesWritten ≤ k := by
        simp only [DbReporter.stored] at hle
        omega
      have hother : ∀ other job', s'.workers other = .running job' → job'.crawl = job.crawl →
          job'.lease = s.leases job.crawl →
          job' = { job with reporter := job.reporter.answer task reply } := by
        intro other job' hw' hc hl
        rcases hstate other job' hw' with ⟨-, he⟩ | ⟨hne, hw₀⟩
        · exact he
        · refine absurd (h.fence.unique other worker _ ?_ hlease) hne
          rw [hw₀, WorkerState.lease, hc, hl, ← hcur]
      have hrows' := hjob.reporter.rows task rows .issued hflush
      rw [hcur] at hrows'
      obtain ⟨k', hkk', hk', hinserted⟩ := hk.exec_insertPages hpw hrows' worker
      refine ⟨k', hdb ▸ hk', fun other job' hw' hc hl => ?_⟩
      rw [hother other job' hw' hc hl]
      rcases DbReporter.answer_stored hjob.reporter.toNumbered hrows reply with hno | ⟨hyes, heq⟩
      · exact (hno.trans hle).trans hkk'
      · exact heq.trans_le (hinserted (hreply.symm.trans hyes))
    · have hsame : ∀ seq, s'.store.db.page.lookup (c, seq) = s.store.db.page.lookup (c, seq) := by
        intro seq
        rw [hdb]
        by_cases hc : c = job.crawl
        · rw [exec_of_not_takesEffect (c := job.crawl) rfl]
          by_contra heff
          have hcurrent := h.fence.current (hissued 0) hlease (by simpa using heff)
          exact hmine ⟨hc, hc ▸ hcurrent.2.1⟩
        · exact (exec_frame rfl hc).2 seq
      refine ⟨k, ⟨hk.1, fun seq => (hsame seq).trans (hk.2 seq)⟩, fun other job' hw' hc hl => ?_⟩
      rcases hstate other job' hw' with ⟨-, rfl⟩ | ⟨-, hw₀⟩
      · exact absurd ⟨hc.symm, hl⟩ hmine
      · exact hjobs other job' hw₀ hc hl

theorem pagesInv_step {settings : Settings} {s s' : System T} (h : PagesInv s)
    (hs : SystemStep settings s s') : PagesInv s' := by
  have hfence := fenceInv_step h.fence hs
  cases hs with
  | external a store ha hstore =>
    exact h.mono hfence (external_page ha hstore) rfl rfl fun _ => .inl rfl
  | reap id _ hreap =>
    obtain ⟨tx, htx, hstore, hworkers, hleases, hhistory, -⟩ := commitReap_spec hreap
    obtain ⟨_, _, hpage, -⟩ := UrlCrawler.commitReap_spec hstore
    exact h.mono hfence hpage hleases hhistory fun _ => .inl (by rw [hworkers])
  | crash worker => exact h.mono hfence rfl rfl rfl fun _ => .inl rfl
  | claim worker skip want now hw store row hcall =>
    obtain ⟨-, -, -, -, -, hpages⟩ := call_claim_spec hcall
    have hstate : ∀ other state, (s.setWorker worker (.claimed (some row)
        (s.leases row.id + 1))).workers other = state → other ≠ worker → s.workers other = state := by
      intro other state hw' hne
      exact (Function.update_of_ne hne _ _).symm.trans hw'
    have hrunning : ∀ other job, (s.setWorker worker (.claimed (some row)
        (s.leases row.id + 1))).workers other = .running job → s.workers other = .running job := by
      intro other job hw'
      refine hstate other _ hw' ?_
      rintro rfl
      simp [setWorker] at hw'
    refine ⟨hfence, fun c n hn => ?_, fun other row' n hw' => ?_,
      fun other job hw' => h.jobs other job (hrunning other job hw'), fun c => ?_⟩
    · refine h.fresh c n (lt_of_le_of_lt ?_ hn)
      by_cases hc : c = row.id
      · subst hc
        simp
      · simp [hc]
    · by_cases he : other = worker
      · subst he
        simp only [setWorker, Function.update_self, WorkerState.claimed.injEq,
          Option.some.injEq] at hw'
        obtain ⟨rfl, rfl⟩ := hw'
        exact h.fresh row.id _ (Nat.lt_succ_self _)
      · exact h.claimed other row' n (hstate other _ hw' he)
    · by_cases hc : c = row.id
      · -- the new lease has reported nothing, and its pages are wiped
        subst hc
        refine ⟨0, ⟨Nat.zero_le _, fun seq => ?_⟩, fun other job hw' hcrawl hl => ?_⟩
        · rw [if_neg (by omega), hpages, if_pos rfl]
        · have hbound := h.fence.bound other job.crawl job.lease
            (by rw [hrunning other job hw']; rfl)
          rw [hcrawl] at hbound
          simp only [Function.update_self] at hl
          omega
      · obtain ⟨k, hk, hjobs⟩ := h.stored c
        simp only [Function.update_of_ne hc]
        refine ⟨k, ⟨hk.1, fun seq => ?_⟩, fun other job hw' => hjobs other job (hrunning other job hw')⟩
        rw [hpages, if_neg hc]
        exact hk.2 seq
  | commit worker slot now call hi _ hcommit =>
    obtain ⟨reply, hcall, hworkers, hleases, hhistory, -⟩ := commit_spec hi hcommit
    obtain ⟨-, hdb, -, -⟩ := call_spec hcall
    cases slot with
    | heartbeat =>
      cases hw : s.workers worker with
      | running job =>
        simp only [hw, WorkerState.issued] at hi
        split at hi
        · rename_i stats hb
          obtain rfl := Option.some.inj hi
          refine h.mono hfence (by rw [hdb]; rfl) hleases hhistory fun other => ?_
          rw [hworkers, hw]
          refine sound_setWorker (.inr ⟨?_, fun job' hj => ?_⟩) other
          · simp [WorkerState.answer, hb]
          · simp only [WorkerState.answer, hb, WorkerState.running.injEq] at hj
            subst hj
            exact ⟨(h.jobs worker job hw).beaten hb reply, .inr ⟨job, hw, le_rfl, rfl, rfl⟩⟩
        · cases hi
      | idle | claiming | claimed | recording => simp [hw, WorkerState.issued] at hi
    | flush task =>
      cases hw : s.workers worker with
      | running job =>
        rw [hw] at hi hworkers
        obtain ⟨rows, hrows, rfl⟩ := Option.map_eq_some_iff.mp hi
        exact pagesInv_insert h hfence hw hrows hcall hworkers hleases hhistory
      | idle | claiming | claimed | recording => simp [hw, WorkerState.issued] at hi
    | record =>
      cases hw : s.workers worker with
      | recording r =>
        have hpage : (call.exec s.store.db).1.page = s.store.db.page := by
          simp only [hw, WorkerState.issued] at hi
          refine page_exec ?_ ?_
          · rintro skip want worker' now' rfl
            split at hi <;> cases hi
          · rintro id worker' rows rfl
            split at hi <;> cases hi
        refine h.mono hfence (by rw [hdb, hpage]) hleases hhistory fun other => ?_
        rw [hworkers, hw]
        refine sound_setWorker (sound_of_settled ?_ ?_) other
        · simp only [WorkerState.answer]
          split <;> simp
        · simp only [WorkerState.answer]
          split <;> simp
      | idle | claiming | claimed | running => simp [hw, WorkerState.issued] at hi
  | move worker state hmove =>
    exact h.mono hfence rfl rfl rfl (sound_setWorker (sound_move h hmove))
  | crawl worker job hw a clock task htask =>
    have hlease : (s.workers worker).lease = some (job.crawl, job.lease) := by rw [hw]; rfl
    obtain ⟨hinv, hstored⟩ := (h.jobs worker job hw).crawled htask clock
    have hother : ∀ other c n, other ≠ worker → (s.workers other).lease = some (c, n) →
        ¬(c = job.crawl ∧ n = job.lease) := by
      rintro other c n hne hl ⟨rfl, rfl⟩
      exact hne (h.fence.unique other worker _ hl hlease)
    have hstate : ∀ other, other ≠ worker →
        (s.setWorker worker (.running (job.crawled task clock))).workers other = s.workers other :=
      fun other hne => Function.update_of_ne hne _ _
    refine ⟨hfence, fun c n hn => ?_, fun other row n hw' => ?_, fun other job' hw' => ?_,
      fun c => ?_⟩
    · have hbound := h.fence.bound worker job.crawl job.lease hlease
      rw [setLog_history, if_neg]
      · exact h.fresh c n hn
      · rintro ⟨rfl, rfl⟩
        exact absurd hn (not_lt.mpr hbound)
    · have hne : other ≠ worker := by
        rintro rfl
        simp [setLog, setWorker] at hw'
      have hw₀ : s.workers other = .claimed (some row) n := (hstate other hne).symm.trans hw'
      rw [setLog_history, if_neg (hother other row.id n hne (by rw [hw₀]; rfl))]
      exact h.claimed other row n hw₀
    · by_cases he : other = worker
      · subst he
        simp only [setLog, setWorker, Function.update_self, WorkerState.running.injEq] at hw'
        subst hw'
        rw [setLog_history, if_pos ⟨rfl, rfl⟩]
        exact hinv
      · have hw₀ : s.workers other = .running job' := (hstate other he).symm.trans hw'
        rw [setLog_history, if_neg (hother other _ _ he (by rw [hw₀]; rfl))]
        exact h.jobs other job' hw₀
    · obtain ⟨k, hk, hjobs⟩ := h.stored c
      refine ⟨k, ?_, fun other job' hw' hc hl => ?_⟩
      · rw [setLog_history]
        split
        · rename_i hmine
          obtain ⟨rfl, hl⟩ := hmine
          have hk' : HoldsPrefix s.store.db job.crawl
              (s.history job.crawl job.lease).reports k := by
            rw [← hl]
            exact hk
          exact hk'.append _
        · exact hk
      · by_cases he : other = worker
        · subst he
          simp only [setLog, setWorker, Function.update_self, WorkerState.running.injEq] at hw'
          subst hw'
          rw [hstored]
          exact hjobs other job hw hc hl
        · exact hjobs other job' ((hstate other he).symm.trans hw') hc hl
  | job worker job hw b state hstep =>
    exact h.mono hfence rfl rfl rfl (sound_setWorker (sound_job h hw hstep))

theorem pagesInv_reaches {settings : Settings} {s : System T}
    (h : Reaches (step settings) {} s) : PagesInv s :=
  h.invariant pagesInv_init fun _ _ _ hi hs => pagesInv_step hi (step_cases hs)

end System

/-- The page rows of a crawl are the first `k` pages reported to the reporter of its last lease, in
order under `seq` 1 to `k`, and no others. -/
theorem storedPages_prefix {settings : Settings} {s : System T}
    (h : Reaches (System.step settings) {} s) (c : CrawlId) :
    ∃ k, k ≤ (s.history c (s.leases c)).reports.length ∧ ∀ seq,
      s.store.db.page.lookup (c, seq) =
        if 0 < seq ∧ seq ≤ k then
          (s.history c (s.leases c)).reports[seq - 1]?.map fun report =>
            pageOf c (pageRow seq report.1 report.2)
        else none := by
  obtain ⟨k, ⟨hle, hk⟩, -⟩ := (System.pagesInv_reaches h).stored c
  refine ⟨k, hle, fun seq => ?_⟩
  rw [hk seq]
  split
  · rename_i hs
    obtain ⟨i, rfl⟩ := Nat.exists_eq_succ_of_ne_zero hs.1.ne'
    simp only [rowsOf, List.getElem?_mapIdx, Option.map_map, Nat.succ_eq_add_one,
      Nat.add_sub_cancel]
    rfl
  · rfl

end

/-- A page of the example site. -/
def examplePage (path : String) : PageResult where
  url := "https://a.test/".toList ++ path.toList
  status := some 200
  links := []

/-- A batch commits but its insert raises; the next batch sends its row again with one more. -/
def lostAcknowledgement :
    List (SystemAct (CrawlTask.replay [examplePage "", examplePage "b"])) :=
  [.create 1 "https://a.test/".toList
      { concurrency := 10, timeout := 10, maxPages := none, maxBytes := 5000000,
        respectRobots := true } 0,
    .claim "host:1", .claimCommit "host:1" [] 1 1, .claimReturned "host:1",
    .job "host:1" (.crawl false fun _ => 2),
    .job "host:1" (.reporter .start), .job "host:1" (.reporter .wake),
    .job "host:1" (.reporter (.lock .run)), .commit "host:1" (.flush .run) 3,
    .job "host:1" (.reporter (.raise .run "connection reset")),
    .job "host:1" (.crawl false fun _ => 4),
    .job "host:1" (.reporter .wake), .job "host:1" (.reporter (.lock .run)),
    .commit "host:1" (.flush .run) 5, .job "host:1" (.reporter (.resume .run))]

theorem storedPages_prefix_lostAcknowledgement :
    ∃ s, run (System.step ⟨100, toString⟩) {} lostAcknowledgement = some s ∧
      (s.store.db.page.lookup (1, 2)).isSome ∧
      s.store.db.page.lookup (1, 2) = (s.history 1 (s.leases 1)).reports[1]?.map fun report =>
        pageOf 1 (pageRow 2 report.1 report.2) := by
  have hrun : (run (System.step ⟨100, toString⟩) {} lostAcknowledgement).any (fun s =>
      (s.store.db.page.lookup (1, 2)).isSome) = true := by
    decide +kernel
  obtain ⟨s, hs, hrow⟩ := (Option.any_eq_true _ _).mp hrun
  obtain ⟨k, -, hk⟩ := storedPages_prefix ⟨lostAcknowledgement, hs⟩ 1
  refine ⟨s, hs, hrow, ?_⟩
  rw [hk 2] at hrow ⊢
  split at hrow
  · rename_i hle
    rw [if_pos hle]
  · cases hrow

end UrlCrawler
