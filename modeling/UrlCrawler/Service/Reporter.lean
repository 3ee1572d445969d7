import Mathlib.Data.List.Infix
import UrlCrawler.Service.Calls

/-! # The database reporter

`url_crawler_service/reporter.py`. `page` numbers a page and buffers it; `run`, a background task,
and `close` flush the buffer, one at a time under the `_writing` lock. A flush keeps its rows
buffered until the insert has returned, so that a failed one is tried again.

Every `await` is a point where other tasks run, so a flush is a little machine: it waits for the
lock, issues its insert and is told how the insert went. A repository call takes effect, if at all,
between its issue and its return, and its caller may see an exception either way.

`DbReporter.Inv` compares the reporter with the `log` of the pages handed to it.
-/
set_option autoImplicit false

namespace UrlCrawler

/-- A repository call somebody awaits. -/
inductive Pending
  | issued
  | answered (reply : Reply)

/-- A page handed to the reporter and the clock reading `page` took. -/
abbrev Report := PageResult × Instant

/-- The rows `page` makes of the reports, numbered from 1. -/
def rowsOf (log : List Report) : List PageRow :=
  log.mapIdx fun i report => pageRow (i + 1) report.1 report.2

/-- Where a flush stands. -/
inductive Flush
  | locking
  | inserting (rows : List PageRow) (pending : Pending)

def Flush.holdsLock : Flush → Bool
  | .locking => false
  | .inserting .. => true

/-- The rows the flush has stored without having been told. -/
def Flush.stored : Flush → ℕ
  | .inserting rows (.answered .inserted) => rows.length
  | _ => 0

/-- How a flush ended. -/
inductive FlushEnd
  | returned
  | leaseLost
  | raised (error : String)
  | cancelled

/-- `run`, the background flusher. -/
inductive Flusher
  | created
  | waiting
  | flushing (flush : Flush)
  | done

/-- `close`, awaited once by the worker. -/
inductive Closer
  | idle
  | flushing (flush : Flush)
  | returned
  | leaseLost
  | failed (error : String)

structure DbReporter where
  batchSize : ℤ
  buffer : List PageRow := []
  seq : ℕ := 0
  pagesWritten : ℕ := 0
  full : Bool := false
  closing : Bool := false
  flusher : Flusher := .created
  closer : Closer := .idle

/-- Who flushes. -/
inductive FlushTask
  | run
  | close
deriving DecidableEq

namespace DbReporter

def page (r : DbReporter) (report : Report) : DbReporter :=
  let buffer := r.buffer ++ [pageRow (r.seq + 1) report.1 report.2]
  { r with
    seq := r.seq + 1
    buffer := buffer
    full := r.full || decide (r.batchSize ≤ buffer.length) }

/-- Drop the unwritten pages of a crawl another worker now owns. -/
def discard (r : DbReporter) : DbReporter := { r with buffer := [] }

/-- `close`, up to the lock. -/
def close (r : DbReporter) : DbReporter :=
  { r with closing := true, full := true, closer := .flushing .locking }

/-! ## The two tasks -/

def flush (r : DbReporter) : FlushTask → Option Flush
  | .run => match r.flusher with
    | .flushing f => some f
    | _ => none
  | .close => match r.closer with
    | .flushing f => some f
    | _ => none

def setFlush (r : DbReporter) (f : Flush) : FlushTask → DbReporter
  | .run => { r with flusher := .flushing f }
  | .close => { r with closer := .flushing f }

/-- `while not self._closing`. -/
def loop (r : DbReporter) : DbReporter :=
  { r with flusher := if r.closing then .done else .waiting }

/-- What the task makes of the end of its flush: `run` ends on a lost lease, lets a cancellation
through and goes round again on anything else; the caller of `close` bounds it by a timeout. -/
def endFlush (r : DbReporter) (e : FlushEnd) : FlushTask → DbReporter
  | .run => match e with
    | .returned | .raised _ => r.loop
    | .leaseLost | .cancelled => { r with flusher := .done }
  | .close => match e with
    | .returned => { r with closer := .returned }
    | .leaseLost => { r with closer := .leaseLost }
    | .raised error => { r with closer := .failed error }
    | .cancelled => { r with closer := .failed "TimeoutError: " }

/-- Whether the `_writing` lock is held. -/
def writing (r : DbReporter) : Bool :=
  (r.flush .run).any Flush.holdsLock || (r.flush .close).any Flush.holdsLock

/-- The flush task starts. -/
def start (r : DbReporter) : Option DbReporter :=
  match r.flusher with
  | .created => some r.loop
  | _ => none

/-- The buffer is full, or the timer has expired. -/
def wake (r : DbReporter) : Option DbReporter :=
  match r.flusher with
  | .waiting => some { r with full := false, flusher := .flushing .locking }
  | _ => none

/-- A flush gets the lock. With nothing to write it is over. -/
def lock (r : DbReporter) (task : FlushTask) : Option DbReporter :=
  match r.flush task with
  | some .locking =>
    if r.writing then none
    else if r.buffer.isEmpty then some (r.endFlush .returned task)
    else some (r.setFlush (.inserting r.buffer .issued) task)
  | _ => none

/-- The rows of an insert that has been issued and has not taken effect. -/
def issued (r : DbReporter) (task : FlushTask) : Option (List PageRow) :=
  match r.flush task with
  | some (.inserting rows .issued) => some rows
  | _ => none

/-- The insert takes effect with this reply. -/
def answer (r : DbReporter) (task : FlushTask) (reply : Reply) : DbReporter :=
  match r.flush task with
  | some (.inserting rows .issued) => r.setFlush (.inserting rows (.answered reply)) task
  | _ => r

/-- The rows of a committed insert leave the buffer. -/
def inserted (r : DbReporter) (rows : List PageRow) : DbReporter :=
  { r with
    buffer := r.buffer.drop rows.length
    pagesWritten := r.pagesWritten + rows.length }

/-- The insert returns to the flush. -/
def resume (r : DbReporter) (task : FlushTask) : Option DbReporter :=
  match r.flush task with
  | some (.inserting rows (.answered .inserted)) =>
    some ((r.inserted rows).endFlush .returned task)
  | some (.inserting _ (.answered .leaseLost)) => some (r.endFlush .leaseLost task)
  | _ => none

/-- The insert raises, whether or not it took effect. -/
def raise (r : DbReporter) (task : FlushTask) (error : String) : Option DbReporter :=
  match r.flush task with
  | some (.inserting ..) => some (r.endFlush (.raised error) task)
  | _ => none

/-- `flush_task.cancel()`, delivered. -/
def cancelRun (r : DbReporter) : DbReporter := { r with flusher := .done }

/-- The timeout around `close` expires. -/
def timeout (r : DbReporter) : Option DbReporter :=
  match r.closer with
  | .flushing _ => some (r.endFlush .cancelled .close)
  | _ => none

end DbReporter

/-- The steps of the two tasks, apart from the insert taking effect. -/
inductive ReporterAct
  | start
  | wake
  | lock (task : FlushTask)
  | resume (task : FlushTask)
  | raise (task : FlushTask) (error : String)
  | timeout

def DbReporter.step (r : DbReporter) : ReporterAct → Option DbReporter
  | .start => r.start
  | .wake => r.wake
  | .lock task => r.lock task
  | .resume task => r.resume task
  | .raise task error => r.raise task error
  | .timeout => r.timeout

namespace DbReporter
variable {r r' : DbReporter} {log : List Report}

@[simp] theorem flush_endFlush (r : DbReporter) (e : FlushEnd) (task task' : FlushTask) :
    (r.endFlush e task).flush task' = if task' = task then none else r.flush task' := by
  cases task <;> cases task' <;> cases e <;> simp [endFlush, flush, loop]
  all_goals cases r.closing <;> rfl

@[simp] theorem flush_setFlush (r : DbReporter) (f : Flush) (task task' : FlushTask) :
    (r.setFlush f task).flush task' = if task' = task then some f else r.flush task' := by
  cases task <;> cases task' <;> simp [setFlush, flush]

@[simp] theorem endFlush_seq (r : DbReporter) (e : FlushEnd) (task : FlushTask) :
    (r.endFlush e task).seq = r.seq := by
  cases task <;> cases e <;> rfl

@[simp] theorem endFlush_buffer (r : DbReporter) (e : FlushEnd) (task : FlushTask) :
    (r.endFlush e task).buffer = r.buffer := by
  cases task <;> cases e <;> rfl

@[simp] theorem endFlush_pagesWritten (r : DbReporter) (e : FlushEnd) (task : FlushTask) :
    (r.endFlush e task).pagesWritten = r.pagesWritten := by
  cases task <;> cases e <;> rfl

@[simp] theorem flush_inserted (r : DbReporter) (rows : List PageRow) (task : FlushTask) :
    (r.inserted rows).flush task = r.flush task := by
  cases task <;> rfl

@[simp] theorem inserted_pagesWritten (r : DbReporter) (rows : List PageRow) :
    (r.inserted rows).pagesWritten = r.pagesWritten + rows.length := rfl

@[simp] theorem setFlush_seq (r : DbReporter) (f : Flush) (task : FlushTask) :
    (r.setFlush f task).seq = r.seq := by
  cases task <;> rfl

@[simp] theorem setFlush_buffer (r : DbReporter) (f : Flush) (task : FlushTask) :
    (r.setFlush f task).buffer = r.buffer := by
  cases task <;> rfl

@[simp] theorem setFlush_pagesWritten (r : DbReporter) (f : Flush) (task : FlushTask) :
    (r.setFlush f task).pagesWritten = r.pagesWritten := by
  cases task <;> rfl

/-- Only a flush of `close` that returned makes `close` return. -/
theorem endFlush_returned {e : FlushEnd} {task : FlushTask}
    (h : (r.endFlush e task).closer = .returned) : r.closer = .returned ∨ e = .returned := by
  cases task <;> cases e <;> simp_all [endFlush, loop]

theorem setFlush_returned {f : Flush} {task : FlushTask}
    (h : (r.setFlush f task).closer = .returned) : r.closer = .returned := by
  cases task <;> simp_all [setFlush]

/-! ## What the reporter holds -/

/-- The reporter against the reports it was given: what it numbered, what it wrote, and that the
rows of an insert in flight are the ones that come next. -/
structure Numbered (log : List Report) (r : DbReporter) : Prop where
  seq : r.seq = log.length
  written : r.pagesWritten ≤ log.length
  lock : (r.flush .run).any Flush.holdsLock = true →
    (r.flush .close).any Flush.holdsLock = false
  rows : ∀ task rows pending, r.flush task = some (.inserting rows pending) →
    rows <+: (rowsOf log).drop r.pagesWritten

/-- And what `close` is for, as long as no page is reported behind its back. -/
structure Inv (log : List Report) (r : DbReporter) : Prop extends Numbered log r where
  closeRows : ∀ rows pending, r.flush .close = some (.inserting rows pending) → r.buffer = rows
  closed : r.closer = .returned → r.buffer = []

/-- The buffer holds every row not yet written. -/
def Buffered (log : List Report) (r : DbReporter) : Prop :=
  r.buffer = (rowsOf log).drop r.pagesWritten

/-- How many rows are in the table as far as the reporter's own inserts tell. -/
def stored (r : DbReporter) : ℕ :=
  r.pagesWritten + (r.flush .run).elim 0 Flush.stored + (r.flush .close).elim 0 Flush.stored

theorem length_rowsOf (log : List Report) : (rowsOf log).length = log.length := by
  simp [rowsOf]

theorem rowsOf_append (log : List Report) (report : Report) :
    rowsOf (log ++ [report]) =
      rowsOf log ++ [pageRow (log.length + 1) report.1 report.2] := by
  simp [rowsOf, List.mapIdx_append]

theorem prefix_rowsOf_append (log more : List Report) : rowsOf log <+: rowsOf (log ++ more) := by
  rw [rowsOf, rowsOf, List.mapIdx_append]
  exact List.prefix_append _ _

theorem inv_init (batchSize : ℤ) : Inv [] { batchSize } where
  seq := rfl
  written := le_rfl
  lock := by simp [flush]
  rows := by rintro (_ | _) <;> simp [flush]
  closeRows := by simp [flush]
  closed := by simp

theorem buffered_init (batchSize : ℤ) : Buffered [] { batchSize } := rfl

/-- The rows in flight and those written before are rows of the log. -/
theorem Numbered.inFlight_le (h : Numbered log r) {task : FlushTask} {rows : List PageRow}
    {pending : Pending} (hf : r.flush task = some (.inserting rows pending)) :
    r.pagesWritten + rows.length ≤ log.length := by
  have hlen := (h.rows task rows pending hf).length_le
  rw [List.length_drop, length_rowsOf] at hlen
  have := h.written
  omega

/-- Steps that only give flushes up, or bring them to the lock. -/
theorem Numbered.of_flush (h : Numbered log r) (hseq : r'.seq = r.seq)
    (hwritten : r'.pagesWritten = r.pagesWritten)
    (hflush : ∀ task f, r'.flush task = some f → f = .locking ∨ r.flush task = some f) :
    Numbered log r' where
  seq := hseq.trans h.seq
  written := hwritten ▸ h.written
  lock := by
    intro hrun
    obtain ⟨f, hf, hlock⟩ := (Option.any_eq_true _ _).mp hrun
    rcases hflush .run f hf with rfl | hf'
    · simp [Flush.holdsLock] at hlock
    · have hno := h.lock ((Option.any_eq_true _ _).mpr ⟨f, hf', hlock⟩)
      cases hc : r'.flush .close with
      | none => rfl
      | some g =>
        rcases hflush .close g hc with rfl | hg
        · rfl
        · simpa [hg] using hno
  rows := by
    intro task rows pending hf
    rcases hflush task _ hf with hl | hf'
    · cases hl
    · rw [hwritten]
      exact h.rows task rows pending hf'

theorem Inv.of_flush (h : Inv log r) (hseq : r'.seq = r.seq) (hbuffer : r'.buffer = r.buffer)
    (hwritten : r'.pagesWritten = r.pagesWritten)
    (hflush : ∀ task f, r'.flush task = some f → f = .locking ∨ r.flush task = some f)
    (hclosed : r'.closer = .returned → r.buffer = []) : Inv log r' where
  toNumbered := h.toNumbered.of_flush hseq hwritten hflush
  closeRows := by
    intro rows pending hf
    rcases hflush .close _ hf with hl | hf'
    · cases hl
    · exact hbuffer.trans (h.closeRows rows pending hf')
  closed hc := hbuffer.trans (hclosed hc)

theorem stored_le_of_flush (hwritten : r'.pagesWritten = r.pagesWritten)
    (hflush : ∀ task f, r'.flush task = some f → f = .locking ∨ r.flush task = some f) :
    r'.stored ≤ r.stored := by
  have hle : ∀ task, (r'.flush task).elim 0 Flush.stored ≤ (r.flush task).elim 0 Flush.stored := by
    intro task
    cases hf : r'.flush task with
    | none => simp
    | some f =>
      rcases hflush task f hf with rfl | hf'
      · simp [Flush.stored]
      · simp [hf']
  have hrun := hle .run
  have hclose := hle .close
  simp only [stored, hwritten]
  omega

theorem flush_sub_endFlush (r : DbReporter) (e : FlushEnd) (task : FlushTask) :
    ∀ task' f, (r.endFlush e task).flush task' = some f → f = .locking ∨ r.flush task' = some f := by
  intro task' f hf
  rw [flush_endFlush] at hf
  split at hf
  · cases hf
  · exact .inr hf

/-! ## Each step -/

theorem Numbered.page (h : Numbered log r) (report : Report) :
    Numbered (log ++ [report]) (r.page report) where
  seq := by simp [DbReporter.page, h.seq]
  written := by
    have hw := h.written
    rw [List.length_append]
    exact hw.trans (Nat.le_add_right _ _)
  lock := h.lock
  rows := by
    intro task rows pending hf
    exact (h.rows task rows pending hf).trans (List.IsPrefix.drop (prefix_rowsOf_append log [report]) _)

/-- A page may still come while `close` has not copied the buffer. -/
theorem Inv.page (h : Inv log r)
    (hfree : ∀ rows pending, r.flush .close ≠ some (.inserting rows pending))
    (hopen : r.closer ≠ .returned) (report : Report) : Inv (log ++ [report]) (r.page report) where
  toNumbered := h.toNumbered.page report
  closeRows rows pending hf := absurd hf (hfree rows pending)
  closed hc := absurd hc hopen

theorem Buffered.page (h : Numbered log r) (hb : Buffered log r) (report : Report) :
    Buffered (log ++ [report]) (r.page report) := by
  have hpw : r.pagesWritten ≤ (rowsOf log).length := by
    rw [length_rowsOf]
    exact h.written
  show r.buffer ++ [pageRow (r.seq + 1) report.1 report.2] =
    (rowsOf (log ++ [report])).drop r.pagesWritten
  rw [rowsOf_append, List.drop_append_of_le_length hpw, ← hb, h.seq]

/-- Pages handed over one after the other, before `close`. -/
theorem pages_inv : ∀ (reports : List Report) {log : List Report} {r : DbReporter}, Inv log r →
    r.closer = .idle → Inv (log ++ reports) (reports.foldl DbReporter.page r) ∧
      (reports.foldl DbReporter.page r).closer = .idle ∧
      (reports.foldl DbReporter.page r).stored = r.stored ∧
      (Buffered log r → Buffered (log ++ reports) (reports.foldl DbReporter.page r))
  | [], log, r, h, hc => by
      rw [List.append_nil]
      exact ⟨h, hc, rfl, id⟩
  | report :: reports, log, r, h, hc => by
      have hnone : r.flush .close = none := by simp [flush, hc]
      have hpage := h.page (by simp [hnone]) (by simp [hc]) report
      obtain ⟨hinv, hcloser, hstored, hbuf⟩ := pages_inv reports hpage hc
      rw [List.append_assoc, List.singleton_append] at hinv hbuf
      exact ⟨hinv, hcloser, hstored, fun hb => hbuf (Buffered.page h.toNumbered hb report)⟩

theorem Inv.discard (h : Inv log r) (hcloser : r.closer = .idle) : Inv log r.discard where
  seq := h.seq
  written := h.written
  lock := h.lock
  rows := h.rows
  closeRows := by
    intro rows pending hf
    have hidle : r.flush .close = none := by simp [flush, hcloser]
    exact absurd (hidle.symm.trans hf) (by simp)
  closed := by
    intro hc
    have hc' : r.closer = .returned := hc
    simp [hcloser] at hc'

theorem Inv.close (h : Inv log r) : Inv log r.close := by
  refine h.of_flush rfl rfl rfl (fun task f hf => ?_) (fun hc => ?_)
  · cases task with
    | run => exact .inr hf
    | close => exact .inl (Option.some.inj hf).symm
  · simp [DbReporter.close] at hc

/-- Cancelling the flusher gives its flush up. -/
theorem flush_cancelRun {task : FlushTask} {f : Flush} (hf : r.cancelRun.flush task = some f) :
    r.flush task = some f := by
  cases task with
  | run => cases hf
  | close => exact hf

theorem Inv.cancelRun (h : Inv log r) : Inv log r.cancelRun :=
  h.of_flush rfl rfl rfl (fun _ _ hf => .inr (flush_cancelRun hf)) h.closed

theorem answer_of_issued {task : FlushTask} {rows : List PageRow} (hi : r.issued task = some rows)
    (reply : Reply) :
    r.flush task = some (.inserting rows .issued) ∧
      r.answer task reply = r.setFlush (.inserting rows (.answered reply)) task := by
  unfold issued at hi
  split at hi
  · rename_i rows' hf
    obtain rfl := Option.some.inj hi
    exact ⟨hf, by simp [answer, hf]⟩
  · cases hi

theorem answer_of_not_issued {task : FlushTask} (hi : r.issued task = none) (reply : Reply) :
    r.answer task reply = r := by
  unfold answer
  split
  · rename_i rows hf
    simp [issued, hf] at hi
  · rfl

/-- An answer changes what a flush was told and nothing else about it. -/
theorem flush_answer {task task' : FlushTask} {reply : Reply} {f : Flush}
    (hf : (r.answer task reply).flush task' = some f) : ∃ g, r.flush task' = some g ∧
      g.holdsLock = f.holdsLock ∧ ∀ rows pending, f = .inserting rows pending →
        ∃ pending', g = .inserting rows pending' := by
  cases hi : r.issued task with
  | none =>
    rw [answer_of_not_issued hi] at hf
    exact ⟨f, hf, rfl, fun _ pending hp => ⟨pending, hp⟩⟩
  | some rows =>
    obtain ⟨hflush, ha⟩ := answer_of_issued hi reply
    rw [ha, flush_setFlush] at hf
    split at hf
    · rename_i he
      obtain rfl := Option.some.inj hf
      refine ⟨.inserting rows .issued, he ▸ hflush, rfl, fun rows' pending hp => ?_⟩
      cases hp
      exact ⟨.issued, rfl⟩
    · exact ⟨f, hf, rfl, fun _ pending hp => ⟨pending, hp⟩⟩

theorem answer_buffer (r : DbReporter) (task : FlushTask) (reply : Reply) :
    (r.answer task reply).buffer = r.buffer ∧
      (r.answer task reply).pagesWritten = r.pagesWritten := by
  unfold answer
  split <;> simp

theorem answer_seq (r : DbReporter) (task : FlushTask) (reply : Reply) :
    (r.answer task reply).seq = r.seq := by
  unfold answer
  split <;> simp

theorem answer_returned {task : FlushTask} {reply : Reply}
    (h : (r.answer task reply).closer = .returned) : r.closer = .returned := by
  unfold answer at h
  split at h
  · exact setFlush_returned h
  · exact h

theorem Numbered.answer (h : Numbered log r) (task : FlushTask) (reply : Reply) :
    Numbered log (r.answer task reply) where
  seq := (answer_seq r task reply).trans h.seq
  written := (answer_buffer r task reply).2 ▸ h.written
  lock := by
    intro hrun
    obtain ⟨f, hf, hlock⟩ := (Option.any_eq_true _ _).mp hrun
    obtain ⟨g, hg, hgl, -⟩ := flush_answer hf
    have hno := h.lock ((Option.any_eq_true _ _).mpr ⟨g, hg, hgl.trans hlock⟩)
    cases hc : (r.answer task reply).flush .close with
    | none => rfl
    | some f' =>
      obtain ⟨g', hg', hgl', -⟩ := flush_answer hc
      rw [hg', Option.any_some, hgl'] at hno
      exact hno
  rows := by
    intro task' rows pending hf
    obtain ⟨g, hg, -, hins⟩ := flush_answer hf
    obtain ⟨pending', rfl⟩ := hins rows pending rfl
    rw [(answer_buffer r task reply).2]
    exact h.rows task' rows pending' hg

theorem Inv.answer (h : Inv log r) (task : FlushTask) (reply : Reply) :
    Inv log (r.answer task reply) where
  toNumbered := h.toNumbered.answer task reply
  closeRows := by
    intro rows pending hf
    obtain ⟨g, hg, -, hins⟩ := flush_answer hf
    obtain ⟨pending', rfl⟩ := hins rows pending rfl
    rw [(answer_buffer r task reply).1]
    exact h.closeRows rows pending' hg
  closed hc := by
    rw [(answer_buffer r task reply).1]
    exact h.closed (answer_returned hc)

theorem Numbered.lock_insert (h : Numbered log r) (hb : Buffered log r) {task : FlushTask}
    (hfree : r.writing = false) :
    Numbered log (r.setFlush (.inserting r.buffer .issued) task) where
  seq := by simpa using h.seq
  written := by simpa using h.written
  lock := by
    intro hrun
    simp only [writing, Bool.or_eq_false_iff] at hfree
    cases task with
    | run => simpa [flush_setFlush] using hfree.2
    | close => simp [flush_setFlush, hfree.1] at hrun
  rows := by
    intro task' rows pending hf
    rw [flush_setFlush] at hf
    rw [setFlush_pagesWritten]
    split at hf
    · cases hf
      exact hb ▸ List.prefix_rfl
    · exact h.rows task' rows pending hf

theorem Inv.lock_insert (h : Inv log r) (hb : Buffered log r) {task : FlushTask}
    (hfree : r.writing = false) : Inv log (r.setFlush (.inserting r.buffer .issued) task) where
  toNumbered := h.toNumbered.lock_insert hb hfree
  closeRows := by
    intro rows pending hf
    rw [flush_setFlush] at hf
    rw [setFlush_buffer]
    split at hf
    · cases hf
      rfl
    · exact h.closeRows rows pending hf
  closed hc := by simpa using h.closed (setFlush_returned hc)

/-- With the lock held by one flush, the other task has no insert in flight. -/
theorem Numbered.other_free (h : Numbered log r) {task task' : FlushTask} (hne : task' ≠ task)
    {rows : List PageRow} {pending : Pending} (hf : r.flush task = some (.inserting rows pending))
    {f : Flush} (hf' : r.flush task' = some f) : f = .locking := by
  have hrun := h.lock
  cases f with
  | locking => rfl
  | inserting rows' pending' =>
    cases task <;> cases task' <;> simp_all [Flush.holdsLock]

theorem Numbered.other_stored (h : Numbered log r) {task : FlushTask} (task' : FlushTask)
    (hne : task' ≠ task) {rows : List PageRow} {pending : Pending}
    (hf : r.flush task = some (.inserting rows pending)) :
    (r.flush task').elim 0 Flush.stored = 0 := by
  cases hf' : r.flush task' with
  | none => rfl
  | some f =>
    obtain rfl := h.other_free hne hf hf'
    rfl

/-- With the insert of one flush returned, no insert is in flight. -/
theorem Numbered.flush_inserted (h : Numbered log r) {task : FlushTask} {rows : List PageRow}
    {pending : Pending} (hf : r.flush task = some (.inserting rows pending)) (task' : FlushTask)
    (f : Flush) (hf' : ((r.inserted rows).endFlush .returned task).flush task' = some f) :
    f = .locking := by
  rw [flush_endFlush, DbReporter.flush_inserted] at hf'
  split at hf'
  · cases hf'
  · rename_i hne
    exact h.other_free hne hf hf'

theorem Numbered.inserted (h : Numbered log r) {task : FlushTask} {rows : List PageRow}
    {pending : Pending} (hf : r.flush task = some (.inserting rows pending)) :
    Numbered log ((r.inserted rows).endFlush .returned task) where
  seq := by simpa [DbReporter.inserted] using h.seq
  written := by simpa [DbReporter.inserted] using h.inFlight_le hf
  lock := by
    intro hrun
    obtain ⟨f, hf₁, hlock⟩ := (Option.any_eq_true _ _).mp hrun
    obtain rfl := h.flush_inserted hf .run f hf₁
    simp [Flush.holdsLock] at hlock
  rows := by
    intro task' rows' pending' hf'
    cases h.flush_inserted hf task' _ hf'

theorem Inv.inserted (h : Inv log r) {task : FlushTask} {rows : List PageRow} {pending : Pending}
    (hf : r.flush task = some (.inserting rows pending)) :
    Inv log ((r.inserted rows).endFlush .returned task) where
  toNumbered := h.toNumbered.inserted hf
  closeRows := by
    intro rows' pending' hf'
    cases h.flush_inserted hf .close _ hf'
  closed hc := by
    rw [endFlush_buffer]
    cases task with
    | close =>
      show r.buffer.drop rows.length = []
      rw [h.closeRows rows pending hf]
      simp
    | run =>
      have hc' : r.closer = .returned := hc
      show r.buffer.drop rows.length = []
      simp [h.closed hc']

theorem Buffered.inserted (hb : Buffered log r) {rows : List PageRow} {e : FlushEnd}
    {task : FlushTask} : Buffered log ((r.inserted rows).endFlush e task) := by
  rw [Buffered, endFlush_buffer, endFlush_pagesWritten]
  show r.buffer.drop rows.length = (rowsOf log).drop (r.pagesWritten + rows.length)
  rw [hb, List.drop_drop]

/-- A step that stores nothing and issues nothing: flushes are only given up or brought to the
lock. -/
structure Quiet (r r' : DbReporter) : Prop where
  seq : r'.seq = r.seq
  buffer : r'.buffer = r.buffer
  pagesWritten : r'.pagesWritten = r.pagesWritten
  flush : ∀ task f, r'.flush task = some f → f = .locking ∨ r.flush task = some f
  returned : r'.closer = .returned → r.closer = .returned ∨ r.buffer = []
  idle : r.closer = .idle → r'.closer = .idle

theorem quiet_endFlush {e : FlushEnd} {task : FlushTask} {f : Flush} (hf : r.flush task = some f)
    (he : e = .returned → r.buffer = []) : Quiet r (r.endFlush e task) where
  seq := endFlush_seq r e task
  buffer := endFlush_buffer r e task
  pagesWritten := endFlush_pagesWritten r e task
  flush := flush_sub_endFlush r e task
  returned hc := (endFlush_returned hc).imp_right he
  idle hi := by
    cases task with
    | close => simp [DbReporter.flush, hi] at hf
    | run => cases e <;> exact hi

/-- Everything a step of the two tasks can do. -/
theorem step_cases {a : ReporterAct} (h : r.step a = some r') :
    Quiet r r' ∨
      (∃ task, r.flush task = some .locking ∧ r.writing = false ∧ r.buffer ≠ [] ∧
        r' = r.setFlush (.inserting r.buffer .issued) task) ∨
      ∃ task rows, r.flush task = some (.inserting rows (.answered .inserted)) ∧
        r' = (r.inserted rows).endFlush .returned task := by
  cases a with
  | start =>
    simp only [step, start] at h
    split at h
    · rename_i hf
      obtain rfl := Option.some.inj h
      refine .inl ⟨rfl, rfl, rfl, fun task f hf' => ?_, .inl, id⟩
      cases task with
      | close => exact .inr hf'
      | run => cases hcl : r.closing <;> simp [DbReporter.flush, loop, hcl] at hf'
    · cases h
  | wake =>
    simp only [step, wake] at h
    split at h
    · rename_i hf
      obtain rfl := Option.some.inj h
      refine .inl ⟨rfl, rfl, rfl, fun task f hf' => ?_, .inl, id⟩
      cases task with
      | close => exact .inr hf'
      | run => exact .inl (Option.some.inj hf').symm
    · cases h
  | lock task =>
    simp only [step, lock] at h
    split at h
    · rename_i hf
      split at h
      · cases h
      · rename_i hfree
        split at h
        · rename_i hempty
          obtain rfl := Option.some.inj h
          exact .inl (quiet_endFlush hf fun _ => List.isEmpty_iff.mp hempty)
        · rename_i hne
          obtain rfl := Option.some.inj h
          exact .inr (.inl ⟨task, hf, by simpa using hfree, by simpa using hne, rfl⟩)
    · cases h
  | resume task =>
    simp only [step, resume] at h
    split at h
    · rename_i rows hf
      obtain rfl := Option.some.inj h
      exact .inr (.inr ⟨task, rows, hf, rfl⟩)
    · rename_i rows hf
      obtain rfl := Option.some.inj h
      exact .inl (quiet_endFlush hf (by simp))
    · cases h
  | raise task error =>
    simp only [step, raise] at h
    split at h
    · rename_i rows pending hf
      obtain rfl := Option.some.inj h
      exact .inl (quiet_endFlush hf (by simp))
    · cases h
  | timeout =>
    simp only [step, timeout] at h
    split at h
    · rename_i f hf
      obtain rfl := Option.some.inj h
      exact .inl (quiet_endFlush (f := f) (by simp [DbReporter.flush, hf]) (by simp))
    · cases h

theorem step_numbered (h : Numbered log r) (hb : Buffered log r) {a : ReporterAct}
    (hs : r.step a = some r') : Numbered log r' := by
  obtain hq | ⟨task, -, hfree, -, rfl⟩ | ⟨task, rows, hf, rfl⟩ := step_cases hs
  · exact h.of_flush hq.seq hq.pagesWritten hq.flush
  · exact h.lock_insert hb hfree
  · exact h.inserted hf

theorem step_inv (h : Inv log r) (hb : Buffered log r ∨ r.buffer = []) {a : ReporterAct}
    (hs : r.step a = some r') : Inv log r' := by
  obtain hq | ⟨task, -, hfree, hne, rfl⟩ | ⟨task, rows, hf, rfl⟩ := step_cases hs
  · exact h.of_flush hq.seq hq.buffer hq.pagesWritten hq.flush
      fun hc => (hq.returned hc).elim h.closed id
  · exact h.lock_insert (hb.resolve_right hne) hfree
  · exact h.inserted hf

theorem step_buffered (hb : Buffered log r) {a : ReporterAct} (hs : r.step a = some r') :
    Buffered log r' := by
  obtain hq | ⟨task, -, -, -, rfl⟩ | ⟨task, rows, -, rfl⟩ := step_cases hs
  · rw [Buffered, hq.buffer, hq.pagesWritten]
    exact hb
  · simpa [Buffered] using hb
  · exact hb.inserted

theorem step_empty (hb : r.buffer = []) {a : ReporterAct} (hs : r.step a = some r') :
    r'.buffer = [] := by
  obtain hq | ⟨task, -, -, hne, -⟩ | ⟨task, rows, -, rfl⟩ := step_cases hs
  · exact hq.buffer.trans hb
  · exact absurd hb hne
  · rw [endFlush_buffer]
    show r.buffer.drop rows.length = []
    rw [hb, List.drop_nil]

theorem step_idle (hi : r.closer = .idle) {a : ReporterAct} (hs : r.step a = some r') :
    r'.closer = .idle := by
  have hclose : r.flush .close = none := by simp [flush, hi]
  obtain hq | ⟨task, hf, -, -, rfl⟩ | ⟨task, rows, hf, rfl⟩ := step_cases hs
  · exact hq.idle hi
  · cases task with
    | run => exact hi
    | close => simp [hclose] at hf
  · cases task with
    | run => exact hi
    | close => simp [hclose] at hf

theorem step_written {a : ReporterAct} (hs : r.step a = some r') :
    r.pagesWritten ≤ r'.pagesWritten := by
  obtain hq | ⟨task, -, -, -, rfl⟩ | ⟨task, rows, -, rfl⟩ := step_cases hs
  · exact hq.pagesWritten.ge
  · simp
  · simp

/-- No step of the tasks claims more rows stored than the inserts answered for. -/
theorem step_stored (h : Numbered log r) {a : ReporterAct} (hs : r.step a = some r') :
    r'.stored ≤ r.stored := by
  obtain hq | ⟨task, hf, -, -, rfl⟩ | ⟨task, rows, hf, rfl⟩ := step_cases hs
  · exact stored_le_of_flush hq.pagesWritten hq.flush
  · cases task <;> simp [stored, hf, Flush.stored]
  · cases task with
    | run =>
      have hclose := h.other_stored .close (by decide) hf
      simp [stored, hf, hclose, Flush.stored]
    | close =>
      have hrun := h.other_stored .run (by decide) hf
      simp [stored, hf, hrun, Flush.stored]

/-- An insert that takes effect stores its rows; another answer stores nothing. -/
theorem answer_stored (h : Numbered log r) {task : FlushTask} {rows : List PageRow}
    (hi : r.issued task = some rows) (reply : Reply) :
    (r.answer task reply).stored ≤ r.stored ∨
      reply = .inserted ∧ (r.answer task reply).stored = r.pagesWritten + rows.length := by
  obtain ⟨hf, ha⟩ := answer_of_issued hi reply
  rw [ha]
  cases task with
  | run =>
    have hclose := h.other_stored .close (by decide) hf
    cases reply with
    | inserted => exact .inr ⟨rfl, by simp [stored, hclose, Flush.stored]⟩
    | _ => exact .inl (by simp [stored, hf, Flush.stored])
  | close =>
    have hrun := h.other_stored .run (by decide) hf
    cases reply with
    | inserted => exact .inr ⟨rfl, by simp [stored, hrun, Flush.stored]⟩
    | _ => exact .inl (by simp [stored, hf, Flush.stored])

theorem answer_closer_idle (hi : r.closer = .idle) (task : FlushTask) (reply : Reply) :
    (r.answer task reply).closer = .idle := by
  unfold answer
  split
  · rename_i rows hf
    cases task with
    | run => exact hi
    | close => simp [flush, hi] at hf
  · exact hi

end DbReporter

end UrlCrawler
