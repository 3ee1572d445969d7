import UrlCrawler.Library.Counter
import Mathlib.Data.Rat.Floor

/-! # The crawler's data types

`url_crawler/models.py`: what a fetch gives back, what a page reports and what a crawl counts.
Strings that are taken apart (URLs, headers) are lists of characters, `Text`; strings that are only
carried along (messages) are `String`.
-/
set_option autoImplicit false

namespace UrlCrawler

/-- A string the program looks into, as its code points. -/
abbrev Text := List Char

inductive FetchErrorKind
  | timeout
  | connection
  | httpStatus
  | unsupportedContent
  | tooLarge
  | invalidUrl
  | protocol
  | internal
deriving DecidableEq, Repr

/-- The `StrEnum` value, which is what the `page` table stores. -/
def FetchErrorKind.value : FetchErrorKind → String
  | timeout => "timeout"
  | connection => "connection"
  | httpStatus => "http_status"
  | unsupportedContent => "unsupported_content"
  | tooLarge => "too_large"
  | invalidUrl => "invalid_url"
  | protocol => "protocol"
  | internal => "internal"

def FetchErrorKind.all : List FetchErrorKind :=
  [timeout, connection, httpStatus, unsupportedContent, tooLarge, invalidUrl, protocol, internal]

theorem FetchErrorKind.nodup_all : all.Nodup := by decide

theorem FetchErrorKind.mem_all (kind : FetchErrorKind) : kind ∈ all := by
  cases kind <;> decide

structure FetchResult where
  url : Text
  status : ℕ
  body : List UInt8
  contentType : Text
  location : Option Text
  attempts : ℕ
deriving DecidableEq, Repr

structure FetchError where
  url : Text
  kind : FetchErrorKind
  status : Option ℕ
  message : String
  attempts : ℕ
deriving DecidableEq, Repr

structure PageResult where
  url : Text
  status : Option ℕ
  links : List Text
  error : Option FetchError := none
deriving DecidableEq, Repr

/-- What `Fetcher.fetch` returns. -/
inductive FetchOutcome
  | ok (result : FetchResult)
  | error (error : FetchError)
deriving DecidableEq, Repr

/-- What `Crawler.run` returns. -/
structure CrawlOutcome where
  pages : ℕ
  aborted : Bool
  reason : Option String
deriving DecidableEq, Repr

/-- How `Crawler.run` ended. A raised exception is given by the name of its type and its text. -/
inductive RunResult
  | returned (outcome : CrawlOutcome)
  | seedError (message : String)
  | raised (error : String)
  | cancelled
deriving DecidableEq, Repr

/-! ## Counters -/

/-- `pagesFailed` counts the error kinds. -/
structure CrawlStats where
  pagesOk : ℕ := 0
  pagesFailed : Counter FetchErrorKind := .empty
  pagesWithoutLinks : ℕ := 0
  redirects : ℕ := 0
  linksFound : ℕ := 0
  duplicatesDropped : ℕ := 0
  retries : ℕ := 0

def CrawlStats.pagesTotal (s : CrawlStats) : ℕ :=
  s.pagesOk + s.pagesFailed.total

/-- `pages_failed[kind] += 1`. -/
def CrawlStats.countFailed (s : CrawlStats) (kind : FetchErrorKind) : CrawlStats :=
  { s with pagesFailed := s.pagesFailed.increment kind }

@[simp] theorem CrawlStats.pagesTotal_countFailed (s : CrawlStats) (kind : FetchErrorKind) :
    (s.countFailed kind).pagesTotal = s.pagesTotal + 1 := by
  rw [CrawlStats.pagesTotal, CrawlStats.countFailed, Counter.total_increment]
  rfl

/-- The run summary, as the JSONL output prints it and the `stats` column stores it. -/
structure Summary where
  pagesOk : ℕ
  pagesFailed : Counter FetchErrorKind
  pagesWithoutLinks : ℕ
  redirects : ℕ
  linksFound : ℕ
  duplicatesDropped : ℕ
  retries : ℕ
  pagesTotal : ℕ
  elapsedSeconds : ℚ

/-- `round(x, 3)`, ties to even. -/
def roundMillis (x : ℚ) : ℚ :=
  let low := (x * 1000).floor
  let rest := x * 1000 - low
  let near := if rest < 1 / 2 then low else if 1 / 2 < rest then low + 1
    else if low % 2 = 0 then low else low + 1
  near / 1000

def summary (stats : CrawlStats) (elapsedSeconds : ℚ) : Summary where
  pagesOk := stats.pagesOk
  pagesFailed := stats.pagesFailed
  pagesWithoutLinks := stats.pagesWithoutLinks
  redirects := stats.redirects
  linksFound := stats.linksFound
  duplicatesDropped := stats.duplicatesDropped
  retries := stats.retries
  pagesTotal := stats.pagesTotal
  elapsedSeconds := roundMillis elapsedSeconds

end UrlCrawler
