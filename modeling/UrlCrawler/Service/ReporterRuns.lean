import UrlCrawler.Service.StoredPages

/-! # The reporter under every interleaving

A reporter with nobody around it who keeps to an order: `page` may be called between any two steps
of its flushes, the flusher may be cancelled and `close` time out wherever they stand, and an insert
may take effect before its caller is told, after the caller has given it up, or never. What the
other sessions do to the lease is to rewrite the `crawl` table as they like.

`Reporting.Inv` holds in every state. `reportedPages_kept` reads the four facts about buffer,
batches, rows and a finished `close` off it.
-/
set_option autoImplicit false

namespace UrlCrawler
open Execution

/-- The inserts that `r` awaits and `r'` does not. -/
def DbReporter.givenUp (r r' : DbReporter) : List (List PageRow) :=
  [FlushTask.run, FlushTask.close].filterMap fun task =>
    if (r'.issued task).isSome then none else r.issued task

/-- `close` has yet to copy the buffer. -/
def DbReporter.beforeLastBatch (r : DbReporter) : Bool :=
  match r.closer with
  | .flushing (.inserting ..) | .returned => false
  | _ => true

instance (closer : Closer) : Decidable (closer = .returned) :=
  match closer with
  | .returned => isTrue rfl
  | .idle | .flushing _ | .leaseLost | .failed _ => isFalse nofun

/-- A reporter, the database it writes to, the pages reported to it so far and the inserts nobody
awaits any more. -/
structure Reporting where
  reporter : DbReporter
  db : Db
  log : List Report := []
  adrift : List (List PageRow) := []

inductive ReportingAct
  | page (report : Report)
  | close
  | cancelRun
  | task (a : ReporterAct)
  /-- The insert a flush awaits takes effect. -/
  | insert (task : FlushTask)
  /-- An insert given up takes effect. -/
  | insertAdrift (i : ℕ)
  /-- Other sessions write to the `crawl` table. -/
  | elsewhere (crawls : KeyedTable CrawlId Crawl Crawl.id)

namespace Reporting

def init (batchSize : ℤ) (db : Db) : Reporting := { reporter := { batchSize }, db }

/-- The reporter moves on; what it no longer awaits is adrift. -/
def moved (s : Reporting) (r : DbReporter) : Reporting :=
  { s with reporter := r, adrift := s.adrift ++ s.reporter.givenUp r }

def step (crawl : CrawlId) (worker : WorkerId) (s : Reporting) : ReportingAct → Option Reporting
  | .page report =>
    some { s with reporter := s.reporter.page report, log := s.log ++ [report] }
  | .close =>
    match s.reporter.closer with
    | .flushing _ => none
    | _ => some { s with reporter := s.reporter.close }
  | .cancelRun => some (s.moved s.reporter.cancelRun)
  | .task a => (s.reporter.step a).map s.moved
  | .insert task =>
    (s.reporter.issued task).map fun rows =>
      let (db, reply) := (Call.insertPages crawl worker rows).exec s.db
      { s with db, reporter := s.reporter.answer task reply }
  | .insertAdrift i =>
    s.adrift[i]?.map fun rows =>
      { s with
        db := ((Call.insertPages crawl worker rows).exec s.db).1
        adrift := s.adrift.eraseIdx i }
  | .elsewhere crawls => some { s with db := { s.db with crawl := crawls } }

/-- No page is reported once `close` has copied the buffer. -/
def Timely (s : Reporting) : ReportingAct → Prop
  | .page _ => s.reporter.beforeLastBatch = true
  | _ => True

instance (s : Reporting) : ∀ a, Decidable (s.Timely a)
  | .page _ => inferInstanceAs (Decidable (_ = true))
  | .close | .cancelRun | .task _ | .insert _ | .insertAdrift _ | .elsewhere _ => isTrue trivial

/-! ## What every state keeps -/

structure Inv (crawl : CrawlId) (s : Reporting) : Prop where
  numbered : s.reporter.Numbered s.log
  buffered : s.reporter.Buffered s.log
  adrift : ∀ rows ∈ s.adrift, ∃ a ≤ s.reporter.pagesWritten, rows <+: (rowsOf s.log).drop a
  committed : ∃ k, s.reporter.stored ≤ k ∧ HoldsPrefix s.db crawl s.log k

variable {crawl : CrawlId} {worker : WorkerId} {s s' : Reporting} {a : ReportingAct}

theorem inv_init {batchSize : ℤ} {db : Db} (hfresh : ∀ seq, db.page.lookup (crawl, seq) = none) :
    (init batchSize db).Inv crawl where
  numbered := (DbReporter.inv_init batchSize).toNumbered
  buffered := DbReporter.buffered_init batchSize
  adrift := by simp [init]
  committed := by
    refine ⟨0, le_rfl, le_rfl, fun seq => ?_⟩
    rw [if_neg (by omega)]
    exact hfresh seq

theorem pagesWritten_le_stored (r : DbReporter) : r.pagesWritten ≤ r.stored := by
  simp only [DbReporter.stored]
  omega

theorem mem_givenUp {r r' : DbReporter} {rows : List PageRow} (h : rows ∈ r.givenUp r') :
    ∃ task, r.issued task = some rows := by
  obtain ⟨task, -, ht⟩ := List.mem_filterMap.mp h
  split at ht
  · cases ht
  · exact ⟨task, ht⟩

theorem prefix_of_issued {r : DbReporter} {log : List Report} (h : r.Numbered log) {task : FlushTask}
    {rows : List PageRow} (hi : r.issued task = some rows) :
    rows <+: (rowsOf log).drop r.pagesWritten :=
  h.rows task rows .issued (DbReporter.answer_of_issued hi .inserted).1

theorem Inv.page (h : s.Inv crawl) (report : Report) :
    Inv crawl { s with reporter := s.reporter.page report, log := s.log ++ [report] } where
  numbered := h.numbered.page report
  buffered := DbReporter.Buffered.page h.numbered h.buffered report
  adrift := by
    intro rows hrows
    obtain ⟨a, ha, hpre⟩ := h.adrift rows hrows
    have hlog := DbReporter.prefix_rowsOf_append s.log [report]
    exact ⟨a, ha, hpre.trans (hlog.drop a)⟩
  committed := by
    obtain ⟨k, hle, hk⟩ := h.committed
    exact ⟨k, hle, hk.append [report]⟩

/-- The reporter moves on without writing a row it was not told of. -/
theorem Inv.moved (h : s.Inv crawl) {r : DbReporter} (hn : r.Numbered s.log)
    (hb : r.Buffered s.log) (hwritten : s.reporter.pagesWritten ≤ r.pagesWritten)
    (hstored : r.stored ≤ s.reporter.stored) : (s.moved r).Inv crawl where
  numbered := hn
  buffered := hb
  adrift := by
    intro rows hrows
    rcases List.mem_append.mp hrows with hold | hnew
    · obtain ⟨a, ha, hpre⟩ := h.adrift rows hold
      exact ⟨a, ha.trans hwritten, hpre⟩
    · obtain ⟨task, hi⟩ := mem_givenUp hnew
      exact ⟨s.reporter.pagesWritten, hwritten, prefix_of_issued h.numbered hi⟩
  committed := by
    obtain ⟨k, hle, hk⟩ := h.committed
    exact ⟨k, hstored.trans hle, hk⟩

theorem close_flush {r : DbReporter} {task : FlushTask} {f : Flush}
    (hf : r.close.flush task = some f) : f = .locking ∨ r.flush task = some f := by
  cases task with
  | run => exact .inr hf
  | close => exact .inl (Option.some.inj hf).symm

theorem Inv.close (h : s.Inv crawl) : Inv crawl { s with reporter := s.reporter.close } where
  numbered := h.numbered.of_flush rfl rfl fun _ _ => close_flush
  buffered := h.buffered
  adrift := h.adrift
  committed := by
    obtain ⟨k, hle, hk⟩ := h.committed
    have hstored : s.reporter.close.stored ≤ s.reporter.stored :=
      DbReporter.stored_le_of_flush rfl fun _ _ => close_flush
    exact ⟨k, hstored.trans hle, hk⟩

theorem Inv.insert (h : s.Inv crawl) {task : FlushTask} {rows : List PageRow}
    (hi : s.reporter.issued task = some rows) :
    Inv crawl { s with
      db := ((Call.insertPages crawl worker rows).exec s.db).1
      reporter := s.reporter.answer task ((Call.insertPages crawl worker rows).exec s.db).2 } := by
  obtain ⟨k, hle, hk⟩ := h.committed
  obtain ⟨k', hkk', hk', hinserted⟩ := hk.exec_insertPages
    ((pagesWritten_le_stored s.reporter).trans hle) (prefix_of_issued h.numbered hi) worker
  obtain ⟨hbuffer, hwritten⟩ := DbReporter.answer_buffer s.reporter task
    ((Call.insertPages crawl worker rows).exec s.db).2
  refine ⟨h.numbered.answer task _, ?_, ?_, k', ?_, hk'⟩
  · show DbReporter.buffer _ = List.drop (DbReporter.pagesWritten _) _
    rw [hbuffer, hwritten]
    exact h.buffered
  · intro rows' hrows'
    show ∃ a ≤ DbReporter.pagesWritten _, _
    rw [hwritten]
    exact h.adrift rows' hrows'
  · rcases DbReporter.answer_stored h.numbered hi
      ((Call.insertPages crawl worker rows).exec s.db).2 with hno | ⟨hyes, heq⟩
    · exact (hno.trans hle).trans hkk'
    · exact heq.trans_le (hinserted hyes)

theorem Inv.insertAdrift (h : s.Inv crawl) {i : ℕ} {rows : List PageRow}
    (hi : s.adrift[i]? = some rows) :
    Inv crawl { s with
      db := ((Call.insertPages crawl worker rows).exec s.db).1
      adrift := s.adrift.eraseIdx i } where
  numbered := h.numbered
  buffered := h.buffered
  adrift rows' hrows' := h.adrift rows' (List.mem_of_mem_eraseIdx hrows')
  committed := by
    obtain ⟨k, hle, hk⟩ := h.committed
    obtain ⟨a, ha, hpre⟩ := h.adrift rows (List.mem_of_getElem? hi)
    have hak : a ≤ k := (ha.trans (pagesWritten_le_stored s.reporter)).trans hle
    obtain ⟨k', hkk', hk', -⟩ := hk.exec_insertPages hak hpre worker
    exact ⟨k', hle.trans hkk', hk'⟩

theorem inv_step (h : s.Inv crawl) (hs : s.step crawl worker a = some s') : s'.Inv crawl := by
  cases a with
  | page report =>
    obtain rfl := Option.some.inj hs
    exact h.page report
  | close =>
    simp only [step] at hs
    split at hs
    · cases hs
    · obtain rfl := Option.some.inj hs
      exact h.close
  | cancelRun =>
    obtain rfl := Option.some.inj hs
    have hflush := fun task f (hf : s.reporter.cancelRun.flush task = some f) =>
      Or.inr (a := f = .locking) (DbReporter.flush_cancelRun hf)
    exact h.moved (h.numbered.of_flush rfl rfl hflush) h.buffered le_rfl
      (DbReporter.stored_le_of_flush rfl hflush)
  | task a =>
    obtain ⟨r, hr, rfl⟩ := Option.map_eq_some_iff.mp hs
    exact h.moved (DbReporter.step_numbered h.numbered h.buffered hr)
      (DbReporter.step_buffered h.buffered hr) (DbReporter.step_written hr)
      (DbReporter.step_stored h.numbered hr)
  | insert task =>
    obtain ⟨rows, hi, rfl⟩ := Option.map_eq_some_iff.mp hs
    exact h.insert hi
  | insertAdrift i =>
    obtain ⟨rows, hi, rfl⟩ := Option.map_eq_some_iff.mp hs
    exact h.insertAdrift hi
  | elsewhere crawls =>
    obtain rfl := Option.some.inj hs
    exact ⟨h.numbered, h.buffered, h.adrift, h.committed⟩

/-! ## Runs in which `close` has the last word -/

/-- What `close` keeps while no page is reported behind its back. -/
theorem timely_step (h : s.Inv crawl) (hr : s.reporter.Inv s.log) (ht : s.Timely a)
    (hs : s.step crawl worker a = some s') : s'.reporter.Inv s'.log := by
  cases a with
  | page report =>
    obtain rfl := Option.some.inj hs
    have hwaits : s.reporter.beforeLastBatch = true := ht
    refine hr.page (fun rows pending hf => ?_) (fun hret => ?_) report
    · simp only [DbReporter.flush] at hf
      split at hf
      · rename_i f hc
        obtain rfl := Option.some.inj hf
        simp [DbReporter.beforeLastBatch, hc] at hwaits
      · cases hf
    · simp [DbReporter.beforeLastBatch, hret] at hwaits
  | close =>
    simp only [step] at hs
    split at hs
    · cases hs
    · obtain rfl := Option.some.inj hs
      exact hr.close
  | cancelRun =>
    obtain rfl := Option.some.inj hs
    exact hr.cancelRun
  | task a =>
    obtain ⟨r, hstep, rfl⟩ := Option.map_eq_some_iff.mp hs
    exact DbReporter.step_inv hr (.inl h.buffered) hstep
  | insert task =>
    obtain ⟨rows, -, rfl⟩ := Option.map_eq_some_iff.mp hs
    exact hr.answer task _
  | insertAdrift i =>
    obtain ⟨rows, -, rfl⟩ := Option.map_eq_some_iff.mp hs
    exact hr
  | elsewhere crawls =>
    obtain rfl := Option.some.inj hs
    exact hr

/-- With the buffer empty, everything reported is written. -/
theorem Inv.all_written (h : s.Inv crawl) (hempty : s.reporter.buffer = []) :
    s.reporter.pagesWritten = s.log.length := by
  have hdrop : (rowsOf s.log).drop s.reporter.pagesWritten = [] := h.buffered.symm.trans hempty
  rw [List.drop_eq_nil_iff, DbReporter.length_rowsOf] at hdrop
  exact h.numbered.written.antisymm hdrop

end Reporting

section
variable {batchSize : ℤ} {crawl : CrawlId} {worker : WorkerId} {db : Db} {s : Reporting}
  {acts : List ReportingAct}

/-- However the steps fall: the buffer holds the rows after `pagesWritten`, an insert awaited is of
rows from there on, and the table holds the first `k` rows, no fewer than `pagesWritten`. A `close`
that returned has written every page, unless one was reported after it had copied the buffer. -/
theorem reportedPages_kept (hfresh : ∀ seq, db.page.lookup (crawl, seq) = none)
    (hrun : run (Reporting.step crawl worker) (Reporting.init batchSize db) acts = some s) :
    s.reporter.buffer = (rowsOf s.log).drop s.reporter.pagesWritten ∧
    (∀ task rows pending, s.reporter.flush task = some (.inserting rows pending) →
      rows <+: (rowsOf s.log).drop s.reporter.pagesWritten) ∧
    ∃ k, s.reporter.pagesWritten ≤ k ∧ HoldsPrefix s.db crawl s.log k ∧
      (Meets (Reporting.step crawl worker) Reporting.Timely (Reporting.init batchSize db) acts →
        s.reporter.closer = .returned →
          k = s.reporter.pagesWritten ∧ s.reporter.pagesWritten = s.log.length) := by
  have hinit : (Reporting.init batchSize db).Inv crawl := Reporting.inv_init hfresh
  have h : s.Inv crawl := run_invariant (fun _ _ _ => Reporting.inv_step) hinit hrun
  obtain ⟨k, hle, hk⟩ := h.committed
  have hwk := (Reporting.pagesWritten_le_stored s.reporter).trans hle
  refine ⟨h.buffered, h.numbered.rows, k, hwk, hk, fun hm hclosed => ?_⟩
  have hboth := hm.invariant (P := fun s => s.Inv crawl ∧ s.reporter.Inv s.log)
    (fun _ _ _ hP ht hs => ⟨Reporting.inv_step hP.1 hs, Reporting.timely_step hP.1 hP.2 ht hs⟩)
    ⟨hinit, DbReporter.inv_init batchSize⟩ hrun
  have hall := h.all_written (hboth.2.closed hclosed)
  have hkN := hk.1
  omega

end

/-- Crawl 1, claimed by `host:1` a moment ago. -/
def claimedDb : Db :=
  (((Call.create 1 "https://a.test/".toList
    { concurrency := 10, timeout := 10, maxPages := none, maxBytes := 5000000,
      respectRobots := true } 0).exec Db.empty).1.claim (fun _ => false) 1 "host:1" 1).1

/-- The flusher is cancelled with its insert on the way; `close` writes the batch again with one
page more, and then the first insert takes effect. -/
def cancelledFlush : List ReportingAct :=
  [.task .start, .page (examplePage "", 2), .task .wake, .task (.lock .run), .cancelRun,
    .page (examplePage "b", 3), .close, .task (.lock .close), .insert .close,
    .task (.resume .close), .insertAdrift 0]

theorem reportedPages_kept_cancelledFlush :
    ∃ s, run (Reporting.step 1 "host:1") (Reporting.init 100 claimedDb) cancelledFlush = some s ∧
      s.reporter.closer = .returned ∧ s.log.length = 2 ∧ HoldsPrefix s.db 1 s.log 2 := by
  have hrun : (run (Reporting.step 1 "host:1") (Reporting.init 100 claimedDb) cancelledFlush).any
      (fun s => decide (s.reporter.closer = .returned) && decide (s.log.length = 2)) = true := by
    decide +kernel
  obtain ⟨s, hs, hend⟩ := (Option.any_eq_true _ _).mp hrun
  obtain ⟨hclosed, hlen⟩ : s.reporter.closer = .returned ∧ s.log.length = 2 := by
    simpa using hend
  have hfresh : ∀ seq, claimedDb.page.lookup (1, seq) = none := fun seq => rfl
  have htimely : Meets (Reporting.step 1 "host:1") Reporting.Timely
      (Reporting.init 100 claimedDb) cancelledFlush := by
    decide +kernel
  obtain ⟨-, -, k, -, hk, hall⟩ := reportedPages_kept hfresh hs
  obtain ⟨hkw, hwN⟩ := hall htimely hclosed
  obtain rfl : k = 2 := by omega
  exact ⟨s, hs, hclosed, hlen, hk⟩

/-- A page is reported while `close` awaits its insert. -/
def lateReport : List ReportingAct :=
  [.page (examplePage "", 2), .close, .task (.lock .close), .page (examplePage "b", 3),
    .insert .close, .task (.resume .close)]

/-- `close` returns after the last page and leaves it in the buffer. -/
theorem lateReport_unwritten :
    ∃ s, run (Reporting.step 1 "host:1") (Reporting.init 100 claimedDb) lateReport = some s ∧
      s.reporter.closer = .returned ∧ s.reporter.pagesWritten = 1 ∧ s.log.length = 2 ∧
      s.db.page.lookup (1, 2) = none := by
  have hrun : (run (Reporting.step 1 "host:1") (Reporting.init 100 claimedDb) lateReport).any
      (fun s => decide (s.reporter.closer = .returned) && decide (s.reporter.pagesWritten = 1) &&
        decide (s.log.length = 2) && (s.db.page.lookup (1, 2)).isNone) = true := by
    decide +kernel
  obtain ⟨s, hs, hend⟩ := (Option.any_eq_true _ _).mp hrun
  exact ⟨s, hs, by simpa [and_assoc] using hend⟩

end UrlCrawler
