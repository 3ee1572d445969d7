import UrlCrawler.Core.RetryLoop
import UrlCrawler.Core.Outbound
import UrlCrawler.Library.Execution

/-! # The fetcher in a run

`CrawlRun` leaves open what the attempts of a fetch end in. When they are those of the loop in
`Fetcher.fetch`, a worker makes one step for each attempt and goes on with what `fetch` ends in; so
does `run` with the fetch of a seed.
-/
set_option autoImplicit false

namespace UrlCrawler
open Execution

/-- What a run is told of an outcome: it knows the URL and has counted the attempts. -/
def FetchOutcome.response : FetchOutcome → Response
  | .ok result => .page result.status result.body result.contentType result.location
  | .error failure => .error failure.kind failure.status failure.message

def lastAnswer : Except Exn FetchOutcome → Answer
  | .error e => .raised e
  | .ok outcome => .fetched outcome.response

/-- What the attempts of a fetch end in: it sleeps after each but the last. -/
def fetchAnswers (fetch : List FetchEvent × Except Exn FetchOutcome) : List Answer :=
  (fetch.1.filterMap FetchEvent.sleep?).map (fun _ => .retry) ++ [lastAnswer fetch.2]

/-- How often a fetch sleeps. -/
def retriesOf (fetch : List FetchEvent × Except Exn FetchOutcome) : ℕ :=
  (fetch.1.filterMap FetchEvent.sleep?).length

section
variable {σ : Type} {fd : FetcherDeps σ} {f : Fetcher} {url : Text} {trials : ℕ → Trial} {n : ℕ}

theorem response_outcome {outcome : FetchOutcome} (hurl : outcome.url = url)
    (hattempts : outcome.attempts = n) : outcome.response.outcome url n = outcome := by
  subst hurl hattempts
  cases outcome <;> rfl

theorem fetchAnswers_retry {delay : ℚ}
    (h : f.attempt fd url n (trials n) = .ok (.retry delay)) :
    fetchAnswers (f.fetchFrom fd url trials n) =
      .retry :: fetchAnswers (f.fetchFrom fd url trials (n + 1)) := by
  rw [fetchFrom_retry h]
  rfl

theorem retriesOf_retry {delay : ℚ} (h : f.attempt fd url n (trials n) = .ok (.retry delay)) :
    retriesOf (f.fetchFrom fd url trials n) = retriesOf (f.fetchFrom fd url trials (n + 1)) + 1 := by
  rw [fetchFrom_retry h]
  rfl

namespace CrawlRun
variable {d : Deps} {s : CrawlRun} {w hops : ℕ}

/-- `s` after `m` retries of a fetch that worker `w` had brought to attempt `n`. -/
def workerRetried (s : CrawlRun) (w : ℕ) (url : Text) (n m : ℕ) : CrawlRun :=
  { s with
    workers := s.workers.set w (.fetching url (n + m))
    log := s.log ++ List.replicate m (.request url) }

/-- `s` after `m` retries of the seed fetch that `run` had brought to attempt `n`. -/
def seedRetried (s : CrawlRun) (url : Text) (hops n m : ℕ) : CrawlRun :=
  { s with
    phase := .fetching url hops (n + m)
    log := s.log ++ List.replicate m (.request url) }

theorem workerRetried_zero (hw : s.workers[w]? = some (.fetching url n)) :
    s.workerRetried w url n 0 = s := by
  have hsame : s.workers.set w (.fetching url n) = s.workers := by
    obtain ⟨hlt, hget⟩ := List.getElem?_eq_some_iff.mp hw
    rw [← hget, List.set_getElem_self]
  rw [workerRetried, Nat.add_zero, hsame, List.replicate_zero, List.append_nil]

theorem workerRetried_succ (s : CrawlRun) (w : ℕ) (url : Text) (n m : ℕ) :
    ((s.setWorker w (.fetching url (n + 1))).note [.request url]).workerRetried w url (n + 1) m =
      s.workerRetried w url n (m + 1) := by
  simp only [workerRetried, setWorker, note, List.set_set, List.append_assoc,
    List.singleton_append, ← List.replicate_succ]
  rw [Nat.add_assoc, Nat.add_comm 1 m]

theorem seedRetried_zero (hphase : s.phase = .fetching url hops n) :
    s.seedRetried url hops n 0 = s := by
  rw [seedRetried, Nat.add_zero, ← hphase, List.replicate_zero, List.append_nil]

theorem seedRetried_succ (s : CrawlRun) (url : Text) (hops n m : ℕ) :
    ({ s with phase := .fetching url hops (n + 1) }.note [.request url]).seedRetried url hops
      (n + 1) m = s.seedRetried url hops n (m + 1) := by
  simp only [seedRetried, note, List.append_assoc, List.singleton_append, ← List.replicate_succ]
  rw [Nat.add_assoc, Nat.add_comm 1 m]

/-- A worker that fetches a page makes the steps of the retry loop, and its last one is with what
`fetch` ends in. -/
theorem run_workerFetch {s : CrawlRun} {n : ℕ} (hmax : d.maxAttempts = f.maxAttempts)
    (hphase : s.phase = .joining) (hw : s.workers[w]? = some (.fetching url n)) :
    run (step d) s ((fetchAnswers (f.fetchFrom fd url trials n)).map (.workerAttempted w)) =
      some ((s.workerRetried w url n (retriesOf (f.fetchFrom fd url trials n))).worked d w url
        (f.fetchFrom fd url trials n).2) := by
  cases h : f.attempt fd url n (trials n) with
  | error e =>
    have hlast : s.step d (.workerAttempted w (.raised e)) =
        some (s.worked d w url (.error e)) := by
      simp [step, workerAttempted, hphase, hw]
    rw [fetchFrom_error h]
    show run (step d) s [.workerAttempted w (.raised e)] =
      some ((s.workerRetried w url n 0).worked d w url (.error e))
    rw [workerRetried_zero hw, run_cons (step d) hlast, run_nil]
  | ok attempted =>
    cases attempted with
    | done outcome =>
      obtain ⟨hurl, hattempts⟩ := names_of_done h
      have hlast : s.step d (.workerAttempted w (.fetched outcome.response)) =
          some (s.worked d w url (.ok outcome)) := by
        simp [step, workerAttempted, hphase, hw, response_outcome hurl hattempts]
      rw [fetchFrom_done h]
      show run (step d) s [.workerAttempted w (.fetched outcome.response)] =
        some ((s.workerRetried w url n 0).worked d w url (.ok outcome))
      rw [workerRetried_zero hw, run_cons (step d) hlast, run_nil]
    | retry delay =>
      have hlt := Fetcher.lt_of_retry h
      have hlen := (List.getElem?_eq_some_iff.mp hw).1
      have hnext : s.step d (.workerAttempted w .retry) =
          some ((s.setWorker w (.fetching url (n + 1))).note [.request url]) := by
        simp [step, workerAttempted, hphase, hw, hmax, hlt]
      have hw' : ((s.setWorker w (.fetching url (n + 1))).note [.request url]).workers[w]? =
          some (.fetching url (n + 1)) := by
        simp [setWorker, note, hlen]
      rw [fetchAnswers_retry h, retriesOf_retry h, List.map_cons, run_cons (step d) hnext,
        run_workerFetch hmax (by exact hphase) hw', workerRetried_succ, fetchFrom_retry h]
termination_by f.maxAttempts - n

/-- So does `run` with the fetch of a seed. An exception ends it. -/
theorem run_seedFetch {s : CrawlRun} {n : ℕ} (hmax : d.maxAttempts = f.maxAttempts)
    (hphase : s.phase = .fetching url hops n) :
    run (step d) s ((fetchAnswers (f.fetchFrom fd url trials n)).map .attempted) =
      some (match (f.fetchFrom fd url trials n).2 with
        | .ok outcome => (s.seedRetried url hops n
            (retriesOf (f.fetchFrom fd url trials n))).seedFetched d url hops outcome
        | .error e => (s.seedRetried url hops n
            (retriesOf (f.fetchFrom fd url trials n))).raise e) := by
  cases h : f.attempt fd url n (trials n) with
  | error e =>
    have hlast : s.step d (.attempted (.raised e)) = some (s.raise e) := by
      simp [step, attempted, hphase]
    rw [fetchFrom_error h]
    show run (step d) s [.attempted (.raised e)] = some ((s.seedRetried url hops n 0).raise e)
    rw [seedRetried_zero hphase, run_cons (step d) hlast, run_nil]
  | ok ended =>
    cases ended with
    | done outcome =>
      obtain ⟨hurl, hattempts⟩ := names_of_done h
      have hlast : s.step d (.attempted (.fetched outcome.response)) =
          some (s.seedFetched d url hops outcome) := by
        simp [step, attempted, hphase, response_outcome hurl hattempts]
      rw [fetchFrom_done h]
      show run (step d) s [.attempted (.fetched outcome.response)] =
        some ((s.seedRetried url hops n 0).seedFetched d url hops outcome)
      rw [seedRetried_zero hphase, run_cons (step d) hlast, run_nil]
    | retry delay =>
      have hlt := Fetcher.lt_of_retry h
      have hnext : s.step d (.attempted .retry) =
          some ({ s with phase := .fetching url hops (n + 1) }.note [.request url]) := by
        simp [step, attempted, hphase, hmax, hlt]
      rw [fetchAnswers_retry h, retriesOf_retry h, List.map_cons, run_cons (step d) hnext,
        run_seedFetch hmax rfl, seedRetried_succ, fetchFrom_retry h]
termination_by f.maxAttempts - n

end CrawlRun
end

/-- The first attempt runs out of its budget, and the second one is answered. -/
def secondTime (n : ℕ) : Trial := if n = 1 then timedOut else answered { status := 404 }

/-- The worker that has taken `/b` retries once, and goes on with the error. -/
theorem run_workerFetch_secondTime : ∃ s delay,
    run (CrawlRun.step bodyIsLink) (CrawlRun.create {} "http://h/".toList) (retriedRun.take 7) =
      some s ∧
    ({ maxBytes := 9, maxAttempts := 2 } : Fetcher).attempt plainDeps "http://h/b".toList 1
      (secondTime 1) = .ok (.retry delay) ∧
    run (CrawlRun.step bodyIsLink) s
        ((fetchAnswers (({ maxBytes := 9, maxAttempts := 2 } : Fetcher).fetchFrom plainDeps
          "http://h/b".toList secondTime 1)).map (.workerAttempted 0)) =
      some ((s.workerRetried 0 "http://h/b".toList 1
        (retriesOf (({ maxBytes := 9, maxAttempts := 2 } : Fetcher).fetchFrom plainDeps
          "http://h/b".toList secondTime 1))).worked bodyIsLink 0 "http://h/b".toList
          (({ maxBytes := 9, maxAttempts := 2 } : Fetcher).fetchFrom plainDeps
            "http://h/b".toList secondTime 1).2) := by
  have hrun : ((run (CrawlRun.step bodyIsLink) (CrawlRun.create {} "http://h/".toList)
      (retriedRun.take 7)).any fun s => s.phase.isJoining &&
        decide (s.workers[0]? = some (.fetching "http://h/b".toList 1))) = true := by
    decide +kernel
  obtain ⟨s, hs, hfacts⟩ := (Option.any_eq_true _ _).mp hrun
  obtain ⟨hjoining, hworker⟩ := (Bool.and_eq_true _ _).mp hfacts
  exact ⟨s, _, hs, rfl, CrawlRun.run_workerFetch rfl (RunPhase.eq_joining hjoining)
    (of_decide_eq_true hworker)⟩

end UrlCrawler
