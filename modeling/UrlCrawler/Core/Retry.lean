import UrlCrawler.Core.Urllib
import Mathlib

/-! # The retry policy

`url_crawler/retry.py`: whether a failed attempt is made again, and after how long. The header parser of the
standard library and the division that turns microseconds into seconds are parameters.
-/
set_option autoImplicit false

namespace UrlCrawler

/-- `RETRYABLE_STATUSES`. -/
def retryableStatuses : List ℕ := [408, 425, 429, 500, 502, 503, 504]

/-- `_RETRY_AFTER_STATUSES`. -/
def retryAfterStatuses : List ℕ := [429, 503]

def maxBackoffSeconds : ℚ := 8

def maxRetryAfterSeconds : ℚ := 30

/-! ## What a request can raise -/

/-- The classes of httpx that the fetcher handles. Protocol errors are told apart by their subclass. -/
inductive HttpxClass
  | timeoutException
  | protocolError
  | localProtocolError
  | remoteProtocolError
  | decodingError
  | networkError
  | unsupportedProtocol
  | invalidUrl
deriving DecidableEq, Repr

/-- An exception of one of these classes, with the name of its own type and its text. -/
structure HttpxError where
  base : HttpxClass
  type : String
  text : String
deriving DecidableEq, Repr

def isRetryableStatus (status : ℕ) : Bool := status ∈ retryableStatuses

def isRetryableException (exc : HttpxError) : Bool :=
  match exc.base with
  | .timeoutException | .networkError | .remoteProtocolError => true
  | _ => false

/-! ## `int` -/

/-- The interpreter's tables of the digits beyond ASCII: the value of a decimal digit, and `isdigit`. -/
structure DigitTables where
  decimal : Char → Option ℕ
  isDigit : Char → Bool

namespace DigitTables

/-- The value of a character as a decimal digit. -/
def digitValue (t : DigitTables) (c : Char) : Option ℕ :=
  if isAscii c then if c.isDigit then some (c.toNat - '0'.toNat) else none else t.decimal c

/-- `text.isdigit()`. -/
def isDigits (t : DigitTables) (text : Text) : Bool :=
  text ≠ [] && text.all fun c => if isAscii c then c.isDigit else t.isDigit c

end DigitTables

/-- The white space `int` allows around a number. -/
def isIntSpace (c : Char) : Bool :=
  if isAscii c then c.toNat = 0x20 || (0x09 ≤ c.toNat && c.toNat ≤ 0x0D) else isSpace c

/-- The digits of a number: single underscores may stand between them, and there may be 4300. -/
def intDigits (t : DigitTables) (text : Text) : Option (List ℕ) :=
  let groups := text.splitOn '_'
  if groups.any (· = []) then none
  else
    (groups.flatten.mapM t.digitValue).filter fun digits => digits.length ≤ SplitResult.maxIntDigits

/-- `int(text)`, or `none` for its `ValueError`. -/
def readInt (t : DigitTables) (text : Text) : Option ℤ :=
  let text := (text.dropWhile isIntSpace).rdropWhile isIntSpace
  let number (digits : Text) : Option ℤ :=
    (intDigits t digits).map fun digits => (digits.foldl (fun n digit => 10 * n + digit) 0 : ℕ)
  match text with
  | '-' :: digits => (number digits).map (- ·)
  | '+' :: digits => number digits
  | digits => number digits

/-! ## `Retry-After` -/

/-- A `datetime` in microseconds: its wall clock, and its offset from UTC unless it is naive. -/
structure DateTime where
  wall : ℤ
  offset : Option ℤ
deriving DecidableEq, Repr

/-- The instant, a naive time taken for UTC. -/
def DateTime.instant (when : DateTime) : ℤ := when.wall - when.offset.getD 0

/-- What `parsedate_to_datetime` raises. -/
inductive DateError
  | valueError
  | typeError
  | overflowError
deriving DecidableEq, Repr

/-- What reads a `Retry-After`: the digits of `int`, `parsedate_to_datetime`, and `total_seconds` of so
many microseconds. -/
structure HeaderParser where
  digits : DigitTables
  parsedate : Text → Except DateError DateTime
  totalSeconds : ℤ → ℚ

def overflowError (text : String) : Exn := ⟨"OverflowError", text⟩

section Source
variable (p : HeaderParser)

/-- `_delta_seconds`. -/
def deltaSeconds (value : Text) : Option ℚ :=
  (readInt p.digits value).map fun n => min ((max n 0 : ℤ) : ℚ) maxRetryAfterSeconds

/-- `_seconds_until_http_date`: only a `TypeError` and a `ValueError` are caught. -/
def secondsUntilHttpDate (value : Text) (now : ℤ) : Except Exn (Option ℚ) :=
  match p.parsedate value with
  | .error .typeError | .error .valueError => .ok none
  | .error .overflowError => .error (overflowError "Python int too large to convert to C int")
  | .ok when => .ok (some (p.totalSeconds (when.instant - now)))

/-- `parse_retry_after`; `now` is the current time in microseconds. -/
def parseRetryAfter (value : Option Text) (now : ℤ) : Except Exn (Option ℚ) :=
  match value with
  | none => .ok none
  | some value =>
    let seconds : Except Exn (Option ℚ) := match deltaSeconds p value with
      | some seconds => .ok (some seconds)
      | none => secondsUntilHttpDate p value now
    seconds.map (Option.map fun seconds => min (max seconds 0) maxRetryAfterSeconds)

/-- What `random()` gives. -/
structure Draw where
  value : ℚ
  nonneg : 0 ≤ value
  lt_one : value < 1

/-- `backoff_delay`: `2**attempt` is turned into a float before it is capped. -/
def backoffDelay (attempt : ℕ) (draw : Draw) : Except Exn ℚ :=
  if 1024 ≤ attempt then .error (overflowError "int too large to convert to float")
  else .ok (draw.value * min maxBackoffSeconds (2 ^ attempt / 2))

/-- `retry_delay`: the seconds to wait before the next attempt, or `none` to give up. -/
def retryDelay (status : Option ℕ) (exc : Option HttpxError) (attempt maxAttempts : ℕ)
    (retryAfter : Option Text) (now : ℤ) (draw : Draw) : Except Exn (Option ℚ) :=
  if maxAttempts ≤ attempt then .ok none
  else if exc.any fun exc => !isRetryableException exc then .ok none
  else if status.any fun status => !isRetryableStatus status then .ok none
  else if status.any (· ∈ retryAfterStatuses) then do
    match ← parseRetryAfter p retryAfter now with
    | some delay => return some delay
    | none => return some (← backoffDelay attempt draw)
  else do
    return some (← backoffDelay attempt draw)

end Source

/-! ## What the policy waits -/

section Delays
variable {p : HeaderParser}

/-- The value is no integer and, to the date parser, a date with a field that is too large. -/
def Overflows (p : HeaderParser) (value : Text) : Prop :=
  readInt p.digits value = none ∧ p.parsedate value = .error .overflowError

/-- The seconds lie between 0 and 30. -/
def Clamped (seconds : ℚ) : Prop := 0 ≤ seconds ∧ seconds ≤ maxRetryAfterSeconds

theorem clamped_clamp (seconds : ℚ) : Clamped (min (max seconds 0) maxRetryAfterSeconds) := by
  have hcap : (0 : ℚ) ≤ maxRetryAfterSeconds := by decide
  exact ⟨le_min (le_max_right _ _) hcap, min_le_right _ _⟩

theorem parseRetryAfter_overflows {value : Text} (h : Overflows p value) (now : ℤ) :
    ∃ e, parseRetryAfter p (some value) now = .error e := by
  have hdelta : deltaSeconds p value = none := by rw [deltaSeconds, h.1, Option.map_none]
  refine ⟨overflowError "Python int too large to convert to C int", ?_⟩
  rw [parseRetryAfter, hdelta]
  dsimp only
  rw [secondsUntilHttpDate, h.2]
  rfl

/-- No header, or one that is neither an integer nor a date. -/
def Unread (p : HeaderParser) (header : Option Text) : Prop :=
  ∀ value, header = some value → readInt p.digits value = none ∧ ∃ e, p.parsedate value = .error e

theorem parseRetryAfter_unread {header : Option Text} (h : Unread p header)
    (hnot : ∀ value, header = some value → ¬ Overflows p value) (now : ℤ) :
    parseRetryAfter p header now = .ok none := by
  cases header with
  | none => rfl
  | some value =>
    obtain ⟨hint, e, hdate⟩ := h value rfl
    have hdelta : deltaSeconds p value = none := by rw [deltaSeconds, hint, Option.map_none]
    rw [parseRetryAfter, hdelta]
    dsimp only
    rw [secondsUntilHttpDate, hdate]
    cases e with
    | valueError => rfl
    | typeError => rfl
    | overflowError => exact absurd ⟨hint, hdate⟩ (hnot value rfl)

theorem parseRetryAfter_read {header : Option Text} (h : ¬ Unread p header) (now : ℤ) :
    ∃ seconds, parseRetryAfter p header now = .ok (some seconds) ∧ Clamped seconds := by
  cases header with
  | none => exact absurd nofun h
  | some value =>
    obtain ⟨raw, hraw⟩ : ∃ raw, parseRetryAfter p (some value) now =
        .ok (some (min (max raw 0) maxRetryAfterSeconds)) := by
      rw [parseRetryAfter]
      cases hdelta : deltaSeconds p value with
      | some seconds => exact ⟨seconds, rfl⟩
      | none =>
        rw [deltaSeconds, Option.map_eq_none_iff] at hdelta
        cases hdate : p.parsedate value with
        | ok when =>
          refine ⟨p.totalSeconds (when.instant - now), ?_⟩
          dsimp only
          rw [secondsUntilHttpDate, hdate]
          rfl
        | error e =>
          refine absurd (fun other hother => ?_) h
          rw [← Option.some.inj hother]
          exact ⟨hdelta, e, hdate⟩
    exact ⟨_, hraw, clamped_clamp raw⟩

/-- The three ways in which a header is taken. -/
theorem parseRetryAfter_cases (p : HeaderParser) (header : Option Text) (now : ℤ) :
    (∃ value e, header = some value ∧ Overflows p value ∧
      parseRetryAfter p header now = .error e) ∨
    (∀ value, header = some value → ¬ Overflows p value) ∧
      (Unread p header ∧ parseRetryAfter p header now = .ok none ∨
        ¬ Unread p header ∧
          ∃ seconds, parseRetryAfter p header now = .ok (some seconds) ∧ Clamped seconds) := by
  by_cases hover : ∃ value, header = some value ∧ Overflows p value
  · obtain ⟨value, rfl, hover⟩ := hover
    obtain ⟨e, he⟩ := parseRetryAfter_overflows hover now
    exact .inl ⟨value, e, rfl, hover, he⟩
  · have hnot : ∀ value, header = some value → ¬ Overflows p value :=
      fun value hvalue h => hover ⟨value, hvalue, h⟩
    refine .inr ⟨hnot, ?_⟩
    by_cases hunread : Unread p header
    · exact .inl ⟨hunread, parseRetryAfter_unread hunread hnot now⟩
    · exact .inr ⟨hunread, parseRetryAfter_read hunread now⟩

/-- A header is read without an exception just when it does not overflow the date parser. -/
theorem parseRetryAfter_iff (value : Text) (now : ℤ) :
    (∃ r, parseRetryAfter p (some value) now = .ok r ∧ ∀ seconds ∈ r, Clamped seconds) ↔
      ¬ Overflows p value := by
  rcases parseRetryAfter_cases p (some value) now with
    ⟨other, e, hother, hover, he⟩ | ⟨hnot, ⟨-, hparse⟩ | ⟨-, seconds, hparse, hclamped⟩⟩
  · obtain rfl := Option.some.inj hother
    rw [he]
    exact ⟨nofun, fun h => absurd hover h⟩
  · exact ⟨fun _ => hnot value rfl, fun _ => ⟨none, hparse, nofun⟩⟩
  · refine ⟨fun _ => hnot value rfl, fun _ => ⟨some seconds, hparse, fun other hother => ?_⟩⟩
    rwa [← Option.some.inj hother]

theorem backoffDelay_of_lt {attempt : ℕ} (h : attempt < 1024) (draw : Draw) :
    ∃ delay, backoffDelay attempt draw = .ok delay ∧ 0 ≤ delay ∧ delay ≤ maxBackoffSeconds := by
  have hcap : (0 : ℚ) ≤ min maxBackoffSeconds (2 ^ attempt / 2) :=
    le_min (by decide) (by positivity)
  refine ⟨_, if_neg (by omega), mul_nonneg draw.nonneg hcap, ?_⟩
  calc draw.value * min maxBackoffSeconds (2 ^ attempt / 2)
      ≤ 1 * min maxBackoffSeconds (2 ^ attempt / 2) :=
        mul_le_mul_of_nonneg_right draw.lt_one.le hcap
    _ ≤ maxBackoffSeconds := by
        rw [one_mul]
        exact min_le_left _ _

end Delays

end UrlCrawler
