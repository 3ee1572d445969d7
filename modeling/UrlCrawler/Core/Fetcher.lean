import UrlCrawler.Core.Retry
import UrlCrawler.Core.Inflating
import UrlCrawler.Core.Robots

/-! # The fetcher

`Fetcher` of `url_crawler/fetcher.py`: one URL with bounded retries. Each attempt has a clock, a draw of the
random generator and what the client makes of the request; the log of a fetch is what it awaits,
requests and sleeps.
-/
set_option autoImplicit false

namespace UrlCrawler

/-- `HTML_CONTENT_TYPES`. -/
def htmlContentTypes : List Text := ["text/html".toList, "application/xhtml+xml".toList]

/-- The kind `_ERROR_KINDS` gives an exception. -/
def errorKind (exc : HttpxError) : FetchErrorKind :=
  match exc.base with
  | .timeoutException => .timeout
  | .protocolError | .localProtocolError | .remoteProtocolError | .decodingError => .protocol
  | .networkError => .connection
  | .unsupportedProtocol | .invalidUrl => .invalidUrl

/-- What ends a request that does not succeed: its budget has run out, or one of
`_HANDLED_EXCEPTIONS`. -/
inductive RequestError
  | outOfBudget
  | httpx (exc : HttpxError)
deriving DecidableEq, Repr

/-- What leaves the client, the stream or `_handle`: an exception `_attempt` handles, or another one. -/
inductive Raised
  | request (error : RequestError)
  | other (e : Exn)

/-- A response with its stream: the chunks, and what is raised after them. -/
structure HttpResponse where
  status : ℕ
  contentType : Option Text := none
  location : Option Text := none
  retryAfter : Option Text := none
  contentLength : Text := []
  contentEncoding : Text := []
  chunks : List (List UInt8) := []
  broken : Option Raised := none

inductive Exchange
  | response (r : HttpResponse)
  | failed (raised : Raised)

/-- What one attempt meets. -/
structure Trial where
  now : ℤ
  draw : Draw
  exchange : Exchange

/-- What the fetcher asks of the interpreter and of the standard library. -/
structure FetcherDeps (σ : Type) where
  unicode : Unicode
  zlib : Zlib σ
  headers : HeaderParser

/-- `requestBudget` is the budget as it is printed. -/
structure Fetcher where
  maxBytes : ℕ
  maxAttempts : ℕ := 3
  requestBudget : String := "60.0"

/-- How an attempt ends without an exception. -/
inductive Attempted
  | done (outcome : FetchOutcome)
  | retry (delay : ℚ)
deriving DecidableEq

/-- What a fetch awaits. -/
inductive FetchEvent
  | request (attempt : ℕ)
  | sleep (delay : ℚ)
deriving DecidableEq, Repr

section Source
variable {σ : Type} (d : FetcherDeps σ) (f : Fetcher)

/-- `_mime_type`. -/
def mimeType (u : Unicode) (contentType : Option Text) : Text :=
  let mimeType := u.lower (strip (before ';' (contentType.getD "text/html".toList)))
  if mimeType = [] then "text/html".toList else mimeType

/-- `_declares_more_than`. -/
def declaresMoreThan (t : DigitTables) (r : HttpResponse) (maxBytes : ℕ) : Except Exn Bool :=
  if t.isDigits r.contentLength then
    match readInt t r.contentLength with
    | none => .error (.valueError "invalid literal for int() with base 10".toList)
    | some declared => .ok (maxBytes < declared)
  else .ok false

/-- `read_bounded` of a response: what does not decode is an error the fetcher handles. -/
def HttpResponse.read (r : HttpResponse) (maxBytes : ℕ) : Except Raised (List UInt8 × Bool) :=
  match readResponse d.zlib d.unicode r.contentEncoding maxBytes r.chunks with
  | .error e => .error (.request (.httpx ⟨.decodingError, e.type, e.text⟩))
  | .ok (body, true) => .ok (body, true)
  | .ok (body, false) =>
    match r.broken with
    | none => .ok (body, false)
    | some raised => .error raised

namespace Fetcher

/-- `_delay`. -/
def delay (status : Option ℕ) (exc : Option HttpxError) (attempt : ℕ) (retryAfter : Option Text)
    (t : Trial) : Except Exn (Option ℚ) :=
  retryDelay d.headers status exc attempt f.maxAttempts retryAfter t.now t.draw

/-- `_too_large`. -/
def tooLarge (url : Text) (status attempt : ℕ) : FetchOutcome :=
  .error
    { url
      kind := .tooLarge
      status := some status
      message := "body larger than " ++ toString f.maxBytes ++ " bytes"
      attempts := attempt }

/-- `_handle` of a response that is neither a redirect nor an error. -/
def handlePage (url : Text) (r : HttpResponse) (attempt : ℕ) : Except Raised Attempted :=
  let mime := mimeType d.unicode r.contentType
  if !htmlContentTypes.contains mime then
    .ok (.done (.error
      { url
        kind := .unsupportedContent
        status := some r.status
        message := String.ofList mime
        attempts := attempt }))
  else
    match declaresMoreThan d.headers.digits r f.maxBytes with
    | .error e => .error (.other e)
    | .ok true => .ok (.done (f.tooLarge url r.status attempt))
    | .ok false =>
      match r.read d f.maxBytes with
      | .error raised => .error raised
      | .ok (_, true) => .ok (.done (f.tooLarge url r.status attempt))
      | .ok (body, false) =>
        .ok (.done (.ok
          { url
            status := r.status
            body
            contentType := mime
            location := none
            attempts := attempt }))

/-- `_handle`. -/
def handle (url : Text) (r : HttpResponse) (attempt : ℕ) (t : Trial) : Except Raised Attempted :=
  if r.status ∈ redirectStatuses then
    .ok (.done (.ok
      { url
        status := r.status
        body := []
        contentType := mimeType d.unicode r.contentType
        location := r.location
        attempts := attempt }))
  else if 400 ≤ r.status then
    match f.delay d (some r.status) none attempt r.retryAfter t with
    | .error e => .error (.other e)
    | .ok none =>
      .ok (.done (.error
        { url
          kind := .httpStatus
          status := some r.status
          message := "HTTP " ++ toString r.status
          attempts := attempt }))
    | .ok (some delay) => .ok (.retry delay)
  else f.handlePage d url r attempt

/-- The exception `_attempt` goes on with. -/
def exception : RequestError → HttpxError
  | .outOfBudget =>
    { base := .timeoutException
      type := "TimeoutException"
      text := "request took longer than the " ++ f.requestBudget ++ "s budget" }
  | .httpx exc => exc

/-- The end of `_attempt` after an exception it handles. -/
def attemptFailed (url : Text) (attempt : ℕ) (t : Trial) (error : RequestError) :
    Except Exn Attempted :=
  let exc := f.exception error
  (f.delay d none (some exc) attempt none t).map fun
    | none =>
      .done (.error
        { url
          kind := errorKind exc
          status := none
          message := if exc.text = "" then exc.type else exc.text
          attempts := attempt })
    | some delay => .retry delay

/-- `_attempt`. -/
def attempt (url : Text) (attempt : ℕ) (t : Trial) : Except Exn Attempted :=
  match t.exchange with
  | .failed (.request error) => f.attemptFailed d url attempt t error
  | .failed (.other e) => .error e
  | .response r =>
    match f.handle d url r attempt t with
    | .ok attempted => .ok attempted
    | .error (.request error) => f.attemptFailed d url attempt t error
    | .error (.other e) => .error e

variable {d f}

theorem lt_of_delay {status : Option ℕ} {exc : Option HttpxError} {attempt : ℕ}
    {retryAfter : Option Text} {t : Trial} {delay : ℚ}
    (h : f.delay d status exc attempt retryAfter t = .ok (some delay)) : attempt < f.maxAttempts := by
  by_contra hle
  rw [Fetcher.delay, retryDelay, if_pos (Nat.le_of_not_lt hle)] at h
  cases h

theorem lt_of_attemptFailed {url : Text} {attempt : ℕ} {t : Trial} {error : RequestError} {delay : ℚ}
    (h : f.attemptFailed d url attempt t error = .ok (.retry delay)) : attempt < f.maxAttempts := by
  obtain ⟨waited, hwaited, hretry⟩ := map_eq_ok.mp h
  cases waited with
  | none => cases hretry
  | some delay' => exact lt_of_delay hwaited

theorem lt_of_handle {url : Text} {attempt : ℕ} {t : Trial} {r : HttpResponse} {delay : ℚ}
    (h : f.handle d url r attempt t = .ok (.retry delay)) : attempt < f.maxAttempts := by
  rw [handle] at h
  split at h
  · cases h
  split at h
  · split at h
    · cases h
    · cases h
    · rename_i hdelay
      exact lt_of_delay hdelay
  · rw [handlePage] at h
    repeat' split at h
    all_goals cases h

/-- Only an attempt that is not the last one is made again. -/
theorem lt_of_retry {url : Text} {attempt : ℕ} {t : Trial} {delay : ℚ}
    (h : f.attempt d url attempt t = .ok (.retry delay)) : attempt < f.maxAttempts := by
  rw [Fetcher.attempt] at h
  split at h
  · exact lt_of_attemptFailed h
  · cases h
  split at h
  · rename_i hhandle
    rw [Except.ok.inj h] at hhandle
    exact lt_of_handle hhandle
  · exact lt_of_attemptFailed h
  · cases h

variable (d f)

/-- The loop of `fetch` from attempt `n` on: what it awaits, and what it ends in. -/
def fetchFrom (url : Text) (trials : ℕ → Trial) (n : ℕ) : List FetchEvent × Except Exn FetchOutcome :=
  match h : f.attempt d url n (trials n) with
  | .error e => ([.request n], .error e)
  | .ok (.done outcome) => ([.request n], .ok outcome)
  | .ok (.retry delay) =>
    have := lt_of_retry h
    let (later, result) := fetchFrom url trials (n + 1)
    (.request n :: .sleep delay :: later, result)
termination_by f.maxAttempts - n

/-- `fetch`: what it awaits, and what it ends in, when attempt `n` meets `trials n`. -/
def fetch (url : Text) (trials : ℕ → Trial) : List FetchEvent × Except Exn FetchOutcome :=
  f.fetchFrom d url trials 1

end Fetcher

end Source

end UrlCrawler
