import UrlCrawler.Core.Fetcher

/-! # The retry loop

Which attempts are made, how long the fetcher sleeps between them and which outcome it returns, for every
sequence of what the attempts meet; and which of them make `fetch` raise.
-/
set_option autoImplicit false

namespace UrlCrawler

/-- The number of attempts an outcome names. -/
def FetchOutcome.attempts : FetchOutcome → ℕ
  | .ok result => result.attempts
  | .error failure => failure.attempts

def FetchOutcome.url : FetchOutcome → Text
  | .ok result => result.url
  | .error failure => failure.url

section Policy
variable {σ : Type} (d : FetcherDeps σ) (f : Fetcher)

/-- The response goes through all gates to the one for its length. -/
def HttpResponse.isHtmlPage (u : Unicode) (r : HttpResponse) : Bool :=
  r.status ∉ redirectStatuses && r.status < 400 &&
    htmlContentTypes.contains (mimeType u r.contentType)

/-- The exception a request ends in. -/
def Exchange.raised : Exchange → Option Raised
  | .failed raised => some raised
  | .response r =>
    if r.isHtmlPage d.unicode then
      match declaresMoreThan d.headers.digits r f.maxBytes, r.read d f.maxBytes with
      | .ok false, .error raised => some raised
      | _, _ => none
    else none

namespace Trial

/-- Whether the outcome is one that another attempt may mend. -/
def retryable (t : Trial) : Bool :=
  match t.exchange.raised d f with
  | some (.request error) => isRetryableException (f.exception error)
  | some (.other _) => false
  | none =>
    match t.exchange with
    | .response r => isRetryableStatus r.status
    | .failed _ => false

/-- The `Retry-After` header of a response with status 429 or 503. -/
def retryAfter (t : Trial) : Option Text :=
  match t.exchange with
  | .response r => if r.status ∈ retryAfterStatuses then r.retryAfter else none
  | .failed _ => none

/-- The wait before the next attempt. -/
def wait (t : Trial) (n : ℕ) : Except Exn ℚ := do
  match ← parseRetryAfter d.headers t.retryAfter t.now with
  | some seconds => return seconds
  | none => backoffDelay n t.draw

/-- The length a page declares is made of digits, but `int` does not read it. -/
def BadLength (t : Trial) : Prop :=
  ∃ r, t.exchange = .response r ∧ r.isHtmlPage d.unicode = true ∧
    ∃ e, declaresMoreThan d.headers.digits r f.maxBytes = .error e

/-- The request ends in an exception that the fetcher does not handle. -/
def Unhandled (t : Trial) : Prop := ∃ e, t.exchange.raised d f = some (.other e)

/-- Attempt `n` raises: the length of a page is not read, the request ends in an exception that is not
handled, or on the way to another attempt a `Retry-After` overflows the date parser or, without one,
the power of two a float. -/
def Breaks (n : ℕ) (t : Trial) : Prop :=
  t.BadLength d f ∨ t.Unhandled d f ∨ n < f.maxAttempts ∧ t.retryable d f = true ∧
    ((∃ value, t.retryAfter = some value ∧ Overflows d.headers value) ∨
      1024 ≤ n ∧ Unread d.headers t.retryAfter)

variable {d f}

theorem wait_of_parse_error {t : Trial} {n : ℕ} {e : Exn}
    (h : parseRetryAfter d.headers t.retryAfter t.now = .error e) : t.wait d n = .error e := by
  rw [wait, h]
  rfl

theorem wait_of_parse_none {t : Trial} {n : ℕ}
    (h : parseRetryAfter d.headers t.retryAfter t.now = .ok none) :
    t.wait d n = backoffDelay n t.draw := by
  rw [wait, h]
  rfl

theorem wait_of_parse_some {t : Trial} {n : ℕ} {seconds : ℚ}
    (h : parseRetryAfter d.headers t.retryAfter t.now = .ok (some seconds)) :
    t.wait d n = .ok seconds := by
  rw [wait, h]
  rfl

theorem wait_error_iff {t : Trial} {n : ℕ} : (∃ e, t.wait d n = .error e) ↔
    (∃ value, t.retryAfter = some value ∧ Overflows d.headers value) ∨
      1024 ≤ n ∧ Unread d.headers t.retryAfter := by
  rcases parseRetryAfter_cases d.headers t.retryAfter t.now with
    ⟨value, e, hvalue, hover, hparse⟩ | ⟨hnot, hread⟩
  · exact ⟨fun _ => .inl ⟨value, hvalue, hover⟩, fun _ => ⟨e, wait_of_parse_error hparse⟩⟩
  · rw [or_iff_right fun ⟨value, hvalue, hover⟩ => hnot value hvalue hover]
    rcases hread with ⟨hunread, hparse⟩ | ⟨hread, seconds, hparse, -⟩
    · rw [wait_of_parse_none hparse, backoffDelay]
      constructor
      · rintro ⟨e, he⟩
        split at he
        · exact ⟨‹_›, hunread⟩
        · cases he
      · rintro ⟨hlarge, -⟩
        exact ⟨_, if_pos hlarge⟩
    · rw [wait_of_parse_some hparse]
      exact ⟨nofun, fun h => absurd h.2 hread⟩

/-- A wait is what the header says, or a draw below the cap of the backoff. -/
theorem wait_ok {t : Trial} {n : ℕ} {delay : ℚ} (h : t.wait d n = .ok delay) :
    Clamped delay ∧ ∀ seconds, parseRetryAfter d.headers t.retryAfter t.now = .ok (some seconds) →
      delay = seconds := by
  rcases parseRetryAfter_cases d.headers t.retryAfter t.now with
    ⟨value, e, -, -, hparse⟩ | ⟨-, ⟨-, hparse⟩ | ⟨-, seconds, hparse, hclamped⟩⟩
  · rw [wait_of_parse_error hparse] at h
    cases h
  · have hn : n < 1024 := by
      by_contra hlarge
      rw [wait_of_parse_none hparse, backoffDelay, if_pos (Nat.le_of_not_lt hlarge)] at h
      cases h
    obtain ⟨delay', hdelay', hnonneg, hle⟩ := backoffDelay_of_lt hn t.draw
    rw [wait_of_parse_none hparse, hdelay'] at h
    obtain rfl := Except.ok.inj h
    refine ⟨⟨hnonneg, hle.trans (by decide)⟩, fun seconds hs => ?_⟩
    rw [hparse] at hs
    cases hs
  · rw [wait_of_parse_some hparse] at h
    obtain rfl := Except.ok.inj h
    refine ⟨hclamped, fun other hs => ?_⟩
    rw [hparse] at hs
    exact Option.some.inj (Except.ok.inj hs)

end Trial

/-! ## One attempt -/

variable {d f}

theorem attemptFailed_retry {url : Text} {n : ℕ} {t : Trial} {error : RequestError}
    (hn : n < f.maxAttempts) (h : isRetryableException (f.exception error) = true) :
    f.attemptFailed d url n t error = (backoffDelay n t.draw).map .retry := by
  have hdelay : f.delay d none (some (f.exception error)) n none t =
      (backoffDelay n t.draw).map some := by
    rw [Fetcher.delay, retryDelay, if_neg (by omega), if_neg (by simp [h]), if_neg (by simp),
      if_neg (by simp)]
    rfl
  rw [Fetcher.attemptFailed, hdelay]
  cases backoffDelay n t.draw with
  | ok delay => rfl
  | error e => rfl

theorem attemptFailed_final {n : ℕ} {error : RequestError}
    (h : ¬ (n < f.maxAttempts ∧ isRetryableException (f.exception error) = true)) (url : Text)
    (t : Trial) :
    ∃ failure, failure.attempts = n ∧
      f.attemptFailed d url n t error = .ok (.done (.error failure)) := by
  have hdelay : f.delay d none (some (f.exception error)) n none t = .ok none := by
    rw [Fetcher.delay, retryDelay]
    by_cases hn : f.maxAttempts ≤ n
    · rw [if_pos hn]
    · have hfinal : isRetryableException (f.exception error) = false :=
        Bool.eq_false_iff.mpr fun hretry => h ⟨by omega, hretry⟩
      rw [if_neg hn, if_pos (by simp [hfinal])]
  refine ⟨
    { url
      kind := errorKind (f.exception error)
      status := none
      message := if (f.exception error).text = "" then (f.exception error).type
        else (f.exception error).text
      attempts := n }, rfl, ?_⟩
  rw [Fetcher.attemptFailed, hdelay]
  rfl

theorem not_isRetryableStatus_of_redirect {status : ℕ} (h : status ∈ redirectStatuses) :
    isRetryableStatus status = false := by
  simp only [redirectStatuses, List.mem_cons, List.not_mem_nil, or_false] at h
  rcases h with rfl | rfl | rfl | rfl | rfl <;> rfl

theorem le_of_isRetryableStatus {status : ℕ} (h : isRetryableStatus status = true) :
    400 ≤ status := by
  simp only [isRetryableStatus, retryableStatuses, List.mem_cons, List.not_mem_nil, or_false,
    decide_eq_true_eq] at h
  omega

section Response
variable {url : Text} {n : ℕ} {t : Trial} {r : HttpResponse}

theorem delay_status (hexchange : t.exchange = .response r) (hn : n < f.maxAttempts)
    (h : isRetryableStatus r.status = true) :
    f.delay d (some r.status) none n r.retryAfter t = (t.wait d n).map some := by
  have hstatus : ¬ (some r.status).any (fun status => !isRetryableStatus status) = true := by
    simp [h]
  rw [Fetcher.delay, retryDelay, if_neg (by omega), if_neg (by simp), if_neg hstatus]
  by_cases hafter : r.status ∈ retryAfterStatuses
  · have hheader : t.retryAfter = r.retryAfter := by
      rw [Trial.retryAfter, hexchange]
      exact if_pos hafter
    rw [if_pos (by simpa using hafter), Trial.wait, hheader]
    cases parseRetryAfter d.headers r.retryAfter t.now with
    | error e => rfl
    | ok found =>
      cases found with
      | some seconds => rfl
      | none =>
        show (backoffDelay n t.draw).bind _ = (backoffDelay n t.draw).map some
        cases backoffDelay n t.draw <;> rfl
  · have hheader : t.retryAfter = none := by
      rw [Trial.retryAfter, hexchange]
      exact if_neg hafter
    rw [if_neg (by simpa using hafter), Trial.wait_of_parse_none (by rw [hheader]; rfl)]
    cases backoffDelay n t.draw <;> rfl

/-- How the exchange of a page ends once its gates are passed. -/
theorem handle_htmlPage (h : r.isHtmlPage d.unicode = true) :
    f.handle d url r n t = match declaresMoreThan d.headers.digits r f.maxBytes with
      | .error e => .error (.other e)
      | .ok true => .ok (.done (f.tooLarge url r.status n))
      | .ok false =>
        match r.read d f.maxBytes with
        | .error raised => .error raised
        | .ok (_, true) => .ok (.done (f.tooLarge url r.status n))
        | .ok (body, false) =>
          .ok (.done (.ok
            { url
              status := r.status
              body
              contentType := mimeType d.unicode r.contentType
              location := none
              attempts := n })) := by
  simp only [HttpResponse.isHtmlPage, Bool.and_eq_true, decide_eq_true_eq] at h
  obtain ⟨⟨hredirect, hstatus⟩, hmime⟩ := h
  rw [Fetcher.handle, if_neg hredirect, if_neg (by omega), Fetcher.handlePage]
  exact if_neg (by rw [hmime, Bool.not_true]; exact Bool.false_ne_true)

theorem retryAfter_htmlPage (hexchange : t.exchange = .response r)
    (h : r.isHtmlPage d.unicode = true) : t.retryAfter = none := by
  simp only [HttpResponse.isHtmlPage, Bool.and_eq_true, decide_eq_true_eq] at h
  rw [Trial.retryAfter, hexchange]
  refine if_neg fun hmem => ?_
  simp only [retryAfterStatuses, List.mem_cons, List.not_mem_nil, or_false] at hmem
  omega

theorem raised_eq_some {x : Exchange} {raised : Raised} (h : x.raised d f = some raised) :
    x = .failed raised ∨ ∃ r, x = .response r ∧ r.isHtmlPage d.unicode = true ∧
      declaresMoreThan d.headers.digits r f.maxBytes = .ok false ∧
      r.read d f.maxBytes = .error raised := by
  cases x with
  | failed other => exact .inl (congrArg _ (Option.some.inj h))
  | response r =>
    rw [Exchange.raised] at h
    split at h
    · rename_i hpage
      split at h
      · rename_i hlength hread
        obtain rfl := Option.some.inj h
        exact .inr ⟨r, rfl, hpage, hlength, hread⟩
      · cases h
    · cases h

end Response

theorem attempt_retryable {n : ℕ} {t : Trial} (hn : n < f.maxAttempts)
    (h : t.retryable d f = true) (url : Text) :
    f.attempt d url n t = (t.wait d n).map .retry := by
  rw [Trial.retryable] at h
  split at h
  · rename_i error hfailure
    have hwait : t.retryAfter = none → f.attemptFailed d url n t error = (t.wait d n).map .retry := by
      intro hheader
      rw [attemptFailed_retry hn h, Trial.wait_of_parse_none (by rw [hheader]; rfl)]
    rcases raised_eq_some hfailure with hexchange | ⟨r, hexchange, hpage, hlength, hread⟩
    · rw [Fetcher.attempt, hexchange]
      refine hwait ?_
      rw [Trial.retryAfter, hexchange]
    · rw [Fetcher.attempt, hexchange]
      dsimp only
      rw [handle_htmlPage hpage, hlength, hread]
      exact hwait (retryAfter_htmlPage hexchange hpage)
  · cases h
  · split at h
    · rename_i r hexchange
      have hredirect : r.status ∉ redirectStatuses := by
        intro hmem
        rw [not_isRetryableStatus_of_redirect hmem] at h
        cases h
      rw [Fetcher.attempt, hexchange]
      dsimp only
      rw [Fetcher.handle, if_neg hredirect, if_pos (le_of_isRetryableStatus h),
        delay_status hexchange hn h]
      cases t.wait d n <;> rfl
    · cases h

/-- What is neither a page nor answered by another attempt is the outcome. -/
theorem handle_final {n : ℕ} {t : Trial} {r : HttpResponse} (hexchange : t.exchange = .response r)
    (hpage : ¬ r.isHtmlPage d.unicode = true)
    (hn : ¬ (n < f.maxAttempts ∧ t.retryable d f = true)) (url : Text) :
    ∃ outcome, f.handle d url r n t = .ok (.done outcome) := by
  have hretryable : t.retryable d f = isRetryableStatus r.status := by
    have hfailure : t.exchange.raised d f = none := by
      rw [hexchange]
      exact if_neg hpage
    rw [Trial.retryable, hfailure, hexchange]
  rw [hretryable] at hn
  rw [Fetcher.handle]
  by_cases hredirect : r.status ∈ redirectStatuses
  · rw [if_pos hredirect]
    exact ⟨_, rfl⟩
  by_cases hstatus : 400 ≤ r.status
  · have hdelay : f.delay d (some r.status) none n r.retryAfter t = .ok none := by
      rw [Fetcher.delay, retryDelay]
      by_cases hlast : f.maxAttempts ≤ n
      · rw [if_pos hlast]
      · have hfinal : isRetryableStatus r.status = false :=
          Bool.eq_false_iff.mpr fun hretry => hn ⟨by omega, hretry⟩
        rw [if_neg hlast, if_neg (by simp), if_pos (by simp [hfinal])]
    rw [if_neg hredirect, if_pos hstatus, hdelay]
    exact ⟨_, rfl⟩
  · have hmime : htmlContentTypes.contains (mimeType d.unicode r.contentType) = false := by
      refine Bool.eq_false_iff.mpr fun hmem => hpage ?_
      simp only [HttpResponse.isHtmlPage, Bool.and_eq_true, decide_eq_true_eq]
      exact ⟨⟨hredirect, by omega⟩, hmem⟩
    rw [if_neg hredirect, if_neg hstatus, Fetcher.handlePage]
    exact ⟨_, if_pos (by rw [hmime, Bool.not_false])⟩

theorem attempt_badLength {t : Trial} (h : t.BadLength d f) (url : Text) (n : ℕ) :
    ∃ e, f.attempt d url n t = .error e := by
  obtain ⟨r, hexchange, hpage, e, he⟩ := h
  refine ⟨e, ?_⟩
  rw [Fetcher.attempt, hexchange]
  dsimp only
  rw [handle_htmlPage hpage, he]

theorem attempt_unhandled {t : Trial} (h : t.Unhandled d f) (url : Text) (n : ℕ) :
    ∃ e, f.attempt d url n t = .error e := by
  obtain ⟨e, hraised⟩ := h
  refine ⟨e, ?_⟩
  rw [Fetcher.attempt]
  rcases raised_eq_some hraised with hexchange | ⟨r, hexchange, hpage, hlength, hread⟩
  · rw [hexchange]
  · rw [hexchange]
    dsimp only
    rw [handle_htmlPage hpage, hlength, hread]

theorem attempt_final {n : ℕ} {t : Trial} (hn : ¬ (n < f.maxAttempts ∧ t.retryable d f = true))
    (h : ¬ t.BadLength d f) (hhandled : ¬ t.Unhandled d f) (url : Text) :
    ∃ outcome, f.attempt d url n t = .ok (.done outcome) := by
  have hfailed : ∀ error, t.exchange.raised d f = some (.request error) →
      ∃ outcome, f.attemptFailed d url n t error = .ok (.done outcome) := by
    intro error hfailure
    rw [Trial.retryable, hfailure] at hn
    obtain ⟨failure, -, heq⟩ := attemptFailed_final (d := d) hn url t
    exact ⟨_, heq⟩
  cases hexchange : t.exchange with
  | failed raised =>
    cases raised with
    | request error =>
      obtain ⟨outcome, houtcome⟩ := hfailed error (by rw [hexchange]; rfl)
      exact ⟨outcome, by rw [Fetcher.attempt, hexchange]; exact houtcome⟩
    | other e => exact absurd ⟨e, by rw [hexchange]; rfl⟩ hhandled
  | response r =>
    rw [Fetcher.attempt, hexchange]
    dsimp only
    by_cases hpage : r.isHtmlPage d.unicode = true
    · rw [handle_htmlPage hpage]
      cases hlength : declaresMoreThan d.headers.digits r f.maxBytes with
      | error e => exact absurd ⟨r, hexchange, hpage, e, hlength⟩ h
      | ok more =>
        cases more with
        | true => exact ⟨_, rfl⟩
        | false =>
          cases hread : r.read d f.maxBytes with
          | error raised =>
            have hraised : t.exchange.raised d f = some raised := by
              rw [hexchange, Exchange.raised, if_pos hpage, hlength, hread]
            cases raised with
            | request error => exact hfailed error hraised
            | other e => exact absurd ⟨e, hraised⟩ hhandled
          | ok read =>
            obtain ⟨body, past⟩ := read
            cases past <;> exact ⟨_, rfl⟩
    · obtain ⟨outcome, houtcome⟩ := handle_final hexchange hpage hn url
      exact ⟨outcome, by rw [houtcome]⟩

theorem names_of_attemptFailed {url : Text} {n : ℕ} {t : Trial} {error : RequestError}
    {outcome : FetchOutcome} (h : f.attemptFailed d url n t error = .ok (.done outcome)) :
    outcome.url = url ∧ outcome.attempts = n := by
  obtain ⟨waited, -, hdone⟩ := map_eq_ok.mp h
  cases waited with
  | none =>
    cases hdone
    exact ⟨rfl, rfl⟩
  | some delay => cases hdone

theorem names_of_handle {url : Text} {n : ℕ} {t : Trial} {r : HttpResponse}
    {outcome : FetchOutcome} (h : f.handle d url r n t = .ok (.done outcome)) :
    outcome.url = url ∧ outcome.attempts = n := by
  rw [Fetcher.handle, Fetcher.handlePage] at h
  repeat' split at h
  all_goals cases h
  all_goals exact ⟨rfl, rfl⟩

/-- An outcome names its URL and the attempt it is of. -/
theorem names_of_done {url : Text} {n : ℕ} {t : Trial} {outcome : FetchOutcome}
    (h : f.attempt d url n t = .ok (.done outcome)) :
    outcome.url = url ∧ outcome.attempts = n := by
  rw [Fetcher.attempt] at h
  split at h
  · exact names_of_attemptFailed h
  · cases h
  split at h
  · rename_i hhandle
    rw [Except.ok.inj h] at hhandle
    exact names_of_handle hhandle
  · exact names_of_attemptFailed h
  · cases h

/-! ## The loop -/

theorem fetchFrom_error {url : Text} {trials : ℕ → Trial} {n : ℕ} {e : Exn}
    (h : f.attempt d url n (trials n) = .error e) :
    f.fetchFrom d url trials n = ([.request n], .error e) := by
  rw [Fetcher.fetchFrom]
  split <;> simp_all

theorem fetchFrom_done {url : Text} {trials : ℕ → Trial} {n : ℕ} {outcome : FetchOutcome}
    (h : f.attempt d url n (trials n) = .ok (.done outcome)) :
    f.fetchFrom d url trials n = ([.request n], .ok outcome) := by
  rw [Fetcher.fetchFrom]
  split <;> simp_all

theorem fetchFrom_retry {url : Text} {trials : ℕ → Trial} {n : ℕ} {delay : ℚ}
    (h : f.attempt d url n (trials n) = .ok (.retry delay)) :
    f.fetchFrom d url trials n =
      (.request n :: .sleep delay :: (f.fetchFrom d url trials (n + 1)).1,
        (f.fetchFrom d url trials (n + 1)).2) := by
  conv_lhs => rw [Fetcher.fetchFrom]
  split <;> simp_all

/-- What a fetch awaits that sleeps so often, its first attempt being attempt `n`. -/
def attemptLog (n : ℕ) : List ℚ → List FetchEvent
  | [] => [.request n]
  | delay :: delays => .request n :: .sleep delay :: attemptLog (n + 1) delays

def FetchEvent.request? : FetchEvent → Option ℕ
  | .request n => some n
  | .sleep _ => none

def FetchEvent.sleep? : FetchEvent → Option ℚ
  | .request _ => none
  | .sleep delay => some delay

theorem requests_attemptLog (delays : List ℚ) : ∀ n : ℕ,
    (attemptLog n delays).filterMap FetchEvent.request? = List.range' n (delays.length + 1) := by
  induction delays with
  | nil => exact fun n => rfl
  | cons delay delays ih =>
    intro n
    rw [List.length_cons, List.range'_succ, ← ih (n + 1)]
    rfl

theorem sleeps_attemptLog (delays : List ℚ) : ∀ n : ℕ,
    (attemptLog n delays).filterMap FetchEvent.sleep? = delays := by
  induction delays with
  | nil => exact fun n => rfl
  | cons delay delays ih =>
    intro n
    conv_rhs => rw [← ih (n + 1)]
    rfl

variable (d f)

/-- The attempt was made again after this delay. -/
structure RetriedAfter (t : Trial) (delay : ℚ) : Prop where
  retryable : t.retryable d f = true
  clamped : Clamped delay
  header : ∀ seconds, parseRetryAfter d.headers t.retryAfter t.now = .ok (some seconds) →
    delay = seconds

/-- The loop, from attempt `n` on, has slept for these delays and returned this outcome: that of its
last attempt. -/
structure LoopEnds (url : Text) (trials : ℕ → Trial) (n : ℕ) (delays : List ℚ)
    (outcome : FetchOutcome) : Prop where
  run : f.fetchFrom d url trials n = (attemptLog n delays, .ok outcome)
  bound : n + delays.length ≤ max n f.maxAttempts
  retried : ∀ i (h : i < delays.length), RetriedAfter d f (trials (n + i)) delays[i]
  last : (trials (n + delays.length)).retryable d f = false ∨ f.maxAttempts ≤ n + delays.length
  outcome_eq : f.attempt d url (n + delays.length) (trials (n + delays.length)) =
    .ok (.done outcome)

/-- Attempt `k` is made, as far as it depends on what the attempts from `n` on meet. -/
def Reached (trials : ℕ → Trial) (n k : ℕ) : Prop :=
  n ≤ k ∧ k ≤ max n f.maxAttempts ∧ ∀ j, n ≤ j → j < k → (trials j).retryable d f = true

variable {d f}

theorem LoopEnds.cons {url : Text} {trials : ℕ → Trial} {n : ℕ} {delay : ℚ} {delays : List ℚ}
    {outcome : FetchOutcome} (hretry : f.attempt d url n (trials n) = .ok (.retry delay))
    (hretried : RetriedAfter d f (trials n) delay)
    (h : LoopEnds d f url trials (n + 1) delays outcome) :
    LoopEnds d f url trials n (delay :: delays) outcome := by
  have hlast : n + (delay :: delays).length = n + 1 + delays.length := by
    rw [List.length_cons]
    omega
  constructor
  · rw [fetchFrom_retry hretry, h.run]
    rfl
  · have hbound := h.bound
    have hlt := Fetcher.lt_of_retry hretry
    omega
  · intro i hi
    cases i with
    | zero => exact hretried
    | succ i =>
      have hnext := h.retried i (by simpa using hi)
      rwa [Nat.add_assoc, Nat.add_comm 1 i] at hnext
  · rw [hlast]
    exact h.last
  · rw [hlast]
    exact h.outcome_eq

/-- Attempts that do not raise lead to an outcome. -/
theorem exists_loopEnds {trials : ℕ → Trial} {n : ℕ}
    (h : ∀ k, Reached d f trials n k → ¬ (trials k).Breaks d f k) (url : Text) :
    ∃ delays outcome, LoopEnds d f url trials n delays outcome := by
  induction hleft : f.maxAttempts - n generalizing n with
  | zero =>
    have hlast : ¬ (n < f.maxAttempts ∧ (trials n).retryable d f = true) := fun hlt => by omega
    have hsafe := h n ⟨le_rfl, le_max_left _ _, fun j hj hj' => by omega⟩
    obtain ⟨outcome, houtcome⟩ := attempt_final hlast (fun hbad => hsafe (.inl hbad))
      (fun hother => hsafe (.inr (.inl hother))) url
    exact ⟨[], outcome, fetchFrom_done houtcome, le_max_left _ _, nofun, .inr (by simp; omega),
      houtcome⟩
  | succ left ih =>
    have hsafe := h n ⟨le_rfl, le_max_left _ _, fun j hj hj' => by omega⟩
    by_cases hretryable : (trials n).retryable d f = true
    · have hlt : n < f.maxAttempts := by omega
      cases hwait : (trials n).wait d n with
      | error e =>
        have hbreaks := Trial.wait_error_iff.mp ⟨e, hwait⟩
        exact absurd (.inr (.inr ⟨hlt, hretryable, hbreaks⟩)) hsafe
      | ok delay =>
        have hretry : f.attempt d url n (trials n) = .ok (.retry delay) := by
          rw [attempt_retryable hlt hretryable, hwait]
          rfl
        obtain ⟨hclamped, hheader⟩ := Trial.wait_ok hwait
        have hrest : ∀ k, Reached d f trials (n + 1) k → ¬ (trials k).Breaks d f k := by
          rintro k ⟨hk, hmax, hbefore⟩
          refine h k ⟨by omega, by omega, fun j hj hlt => ?_⟩
          rcases Nat.eq_or_lt_of_le hj with rfl | hj
          · exact hretryable
          · exact hbefore j hj hlt
        obtain ⟨delays, outcome, hends⟩ := ih hrest (by omega)
        exact ⟨delay :: delays, outcome, hends.cons hretry ⟨hretryable, hclamped, hheader⟩⟩
    · obtain ⟨outcome, houtcome⟩ := attempt_final (fun hlt => hretryable hlt.2)
        (fun hbad => hsafe (.inl hbad)) (fun hother => hsafe (.inr (.inl hother))) url
      exact ⟨[], outcome, fetchFrom_done houtcome, le_max_left _ _, nofun,
        .inl (Bool.eq_false_iff.mpr hretryable), houtcome⟩

/-- An attempt that raises. -/
theorem attempt_breaks {n : ℕ} {t : Trial} (h : t.Breaks d f n) (url : Text) :
    ∃ e, f.attempt d url n t = .error e := by
  rcases h with hbad | hother | ⟨hlt, hretryable, hwait⟩
  · exact attempt_badLength hbad url n
  · exact attempt_unhandled hother url n
  · obtain ⟨e, he⟩ := Trial.wait_error_iff.mpr hwait
    exact ⟨e, by rw [attempt_retryable hlt hretryable, he]; rfl⟩

/-- An attempt that raises makes the loop raise. -/
theorem fetchFrom_raises {trials : ℕ → Trial} {n k : ℕ} (hk : Reached d f trials n k)
    (h : (trials k).Breaks d f k) (url : Text) :
    ∃ e, (f.fetchFrom d url trials n).2 = .error e := by
  obtain ⟨hle, hmax, hbefore⟩ := hk
  induction hleft : k - n generalizing n with
  | zero =>
    obtain rfl : n = k := by omega
    obtain ⟨e, he⟩ := attempt_breaks h url
    exact ⟨e, by rw [fetchFrom_error he]⟩
  | succ left ih =>
    have hretryable := hbefore n le_rfl (by omega)
    have hlt : n < f.maxAttempts := by omega
    cases hwait : (trials n).wait d n with
    | error e =>
      refine ⟨e, ?_⟩
      rw [fetchFrom_error (by rw [attempt_retryable hlt hretryable, hwait]; rfl)]
    | ok delay =>
      rw [fetchFrom_retry (by rw [attempt_retryable hlt hretryable, hwait]; rfl)]
      exact ih (by omega) (by omega) (fun j hj hj' => hbefore j (by omega) hj') (by omega)

/-- The fetch returns just when none of the attempts made raises. -/
theorem fetch_returns_iff (url : Text) (trials : ℕ → Trial) :
    (∃ outcome, (f.fetch d url trials).2 = .ok outcome) ↔
      ∀ k, Reached d f trials 1 k → ¬ (trials k).Breaks d f k := by
  constructor
  · rintro ⟨outcome, houtcome⟩ k hk hbreaks
    obtain ⟨e, he⟩ := fetchFrom_raises hk hbreaks url
    rw [Fetcher.fetch, he] at houtcome
    cases houtcome
  · intro h
    obtain ⟨delays, outcome, hends⟩ := exists_loopEnds h url
    exact ⟨outcome, by rw [Fetcher.fetch, hends.run]⟩

variable (d f)

/-- `fetch` has made `k` requests, with these sleeps between them, and returned what the last of them
came to. -/
structure Counted (url : Text) (trials : ℕ → Trial) (k : ℕ) (delays : List ℚ)
    (outcome : FetchOutcome) : Prop where
  run : f.fetch d url trials = (attemptLog 1 delays, .ok outcome)
  requests : (f.fetch d url trials).1.filterMap FetchEvent.request? = List.range' 1 k
  sleeps : (f.fetch d url trials).1.filterMap FetchEvent.sleep? = delays
  slept : delays.length = k - 1
  attempts : outcome.attempts = k
  retried : ∀ i (h : i < delays.length), RetriedAfter d f (trials (i + 1)) delays[i]
  last : (trials k).retryable d f = false ∨ k = f.maxAttempts
  outcome_eq : f.attempt d url k (trials k) = .ok (.done outcome)

variable {d f}

theorem LoopEnds.counted {url : Text} {trials : ℕ → Trial} {delays : List ℚ} {outcome : FetchOutcome}
    (hmax : 1 ≤ f.maxAttempts) (h : LoopEnds d f url trials 1 delays outcome) :
    Counted d f url trials (1 + delays.length) delays outcome where
  run := h.run
  requests := by
    rw [Fetcher.fetch, h.run, requests_attemptLog, Nat.add_comm]
  sleeps := by
    rw [Fetcher.fetch, h.run, sleeps_attemptLog]
  slept := by omega
  attempts := (names_of_done h.outcome_eq).2
  retried i hi := by
    rw [Nat.add_comm]
    exact h.retried i hi
  last := by
    have hbound := h.bound
    refine h.last.imp_right fun hlast => ?_
    omega
  outcome_eq := h.outcome_eq

/-- The loop is bounded and counted, as long as no attempt made raises. -/
theorem fetch_counted_iff (hmax : 1 ≤ f.maxAttempts) (url : Text) (trials : ℕ → Trial) :
    (∃ k delays outcome, 1 ≤ k ∧ k ≤ f.maxAttempts ∧ Counted d f url trials k delays outcome) ↔
      ∀ k, Reached d f trials 1 k → ¬ (trials k).Breaks d f k := by
  constructor
  · rintro ⟨k, delays, outcome, -, -, hcounted⟩
    exact (fetch_returns_iff url trials).mp ⟨outcome, by rw [hcounted.run]⟩
  · intro h
    obtain ⟨delays, outcome, hends⟩ := exists_loopEnds h url
    have hbound := hends.bound
    exact ⟨1 + delays.length, delays, outcome, by omega, by omega, hends.counted hmax⟩

end Policy

/-! ## A page, and servers that do not answer -/

/-- Tables without digits beyond ASCII, and a date parser that knows no date but one with a year too large
for a C int. -/
def plainHeaders : HeaderParser where
  digits := { decimal := fun _ => none, isDigit := fun _ => false }
  parsedate text :=
    .error (if text = "Mon, 01 Jan 99999999999 00:00:00 GMT".toList then .overflowError
      else .valueError)
  totalSeconds micros := micros / 1000000

def plainDeps : FetcherDeps (StoredStage × List UInt8) where
  unicode := .ascii
  zlib := storedZlib
  headers := plainHeaders

def halfDraw : Draw := ⟨1 / 2, by norm_num, by norm_num⟩

/-- An attempt that is answered in this way. -/
def answered (r : HttpResponse) : Trial where
  now := 0
  draw := halfDraw
  exchange := .response r

theorem fetch_counted_serverError :
    (∃ k delays outcome, 1 ≤ k ∧ k ≤ ({ maxBytes := 9 } : Fetcher).maxAttempts ∧
        Counted plainDeps { maxBytes := 9 } "http://h/".toList
          (fun _ => answered { status := 503, retryAfter := some "7".toList }) k delays outcome) ↔
      ∀ k, Reached plainDeps { maxBytes := 9 }
          (fun _ => answered { status := 503, retryAfter := some "7".toList }) 1 k →
        ¬ (answered { status := 503, retryAfter := some "7".toList }).Breaks plainDeps
          { maxBytes := 9 } k :=
  fetch_counted_iff (by decide) _ _

/-- An attempt whose budget runs out. -/
def timedOut : Trial where
  now := 0
  draw := halfDraw
  exchange := .failed (.request .outOfBudget)

/-- After 1024 timeouts the power of two is too large for a float. -/
theorem fetch_not_counted :
    ¬ ∃ k delays outcome, 1 ≤ k ∧ k ≤ ({ maxBytes := 9, maxAttempts := 1025 } : Fetcher).maxAttempts ∧
        Counted plainDeps { maxBytes := 9, maxAttempts := 1025 } "http://h/".toList
          (fun _ => timedOut) k delays outcome := by
  rintro ⟨k, delays, outcome, -, -, hcounted⟩
  have hreached : Reached plainDeps { maxBytes := 9, maxAttempts := 1025 } (fun _ => timedOut) 1 1024 :=
    ⟨by decide, by decide, fun _ _ _ => rfl⟩
  have hbreaks : timedOut.Breaks plainDeps { maxBytes := 9, maxAttempts := 1025 } 1024 :=
    .inr (.inr ⟨by decide, rfl, .inr ⟨le_rfl, nofun⟩⟩)
  exact (fetch_returns_iff _ _).mp ⟨outcome, by rw [hcounted.run]⟩ 1024 hreached hbreaks

/-! ## Headers -/

section Headers
variable {σ : Type} (d : FetcherDeps σ)

/-- A `Retry-After` is read, within its bounds, just when it does not overflow the date parser; and a
fetch returns just when none of the attempts made raises. -/
theorem retryAfter_iff (value : Text) (now : ℤ) (f : Fetcher) (url : Text) (trials : ℕ → Trial) :
    ((∃ r, parseRetryAfter d.headers (some value) now = .ok r ∧ ∀ seconds ∈ r, Clamped seconds) ↔
      ¬ Overflows d.headers value) ∧
    ((∃ outcome, (f.fetch d url trials).2 = .ok outcome) ↔
      ∀ k, Reached d f trials 1 k → ¬ (trials k).Breaks d f k) :=
  ⟨parseRetryAfter_iff value now, fetch_returns_iff url trials⟩

end Headers

/-- A date in a year too large for the date parser ends `fetch` with an exception. -/
theorem retryAfter_overflow :
    (¬ ∃ r, parseRetryAfter plainHeaders (some "Mon, 01 Jan 99999999999 00:00:00 GMT".toList) 0 =
        .ok r ∧ ∀ seconds ∈ r, Clamped seconds) ∧
      ¬ ∃ outcome, (({ maxBytes := 9 } : Fetcher).fetch plainDeps "http://h/".toList fun _ =>
        answered { status := 503, retryAfter := some "Mon, 01 Jan 99999999999 00:00:00 GMT".toList }).2 =
          .ok outcome := by
  have hoverflows : Overflows plainHeaders "Mon, 01 Jan 99999999999 00:00:00 GMT".toList := by
    refine ⟨by decide +kernel, by decide +kernel⟩
  refine ⟨fun h => (parseRetryAfter_iff _ 0).mp h hoverflows, fun h => ?_⟩
  refine (fetch_returns_iff _ _).mp h 1 ⟨le_rfl, le_max_left _ _, fun j hj hj' => by omega⟩ ?_
  exact .inr (.inr ⟨by decide, by decide +kernel, .inl ⟨_, by rfl, hoverflows⟩⟩)

end UrlCrawler
