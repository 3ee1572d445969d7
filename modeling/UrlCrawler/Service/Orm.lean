import UrlCrawler.Core.Models
import UrlCrawler.Core.Config
import UrlCrawler.Library.KeyedTable

/-! # The service's two tables

`url_crawler_service/orm.py` and `url_crawler_service/models.py`: the `crawl` table, one row per
job, keyed by `id`, and the `page` table, one row per URL fetched, keyed by `(crawl_id, seq)`.
A nullable column is an `Option`, a `timestamptz` is a number of microseconds.
-/
set_option autoImplicit false

namespace UrlCrawler

abbrev CrawlId := ℕ
abbrev WorkerId := String
abbrev Instant := ℤ

inductive CrawlState
  | queued
  | running
  | finished
  | failed
  | aborted
deriving DecidableEq, Repr

/-- `TERMINAL_STATES`. -/
def CrawlState.terminal : CrawlState → Bool
  | finished | failed | aborted => true
  | queued | running => false

structure Crawl where
  id : CrawlId
  seed : Text
  config : StoredConfig
  state : CrawlState := .queued
  createdAt : Instant
  startedAt : Option Instant := none
  finishedAt : Option Instant := none
  heartbeatAt : Option Instant := none
  workerId : Option WorkerId := none
  attempts : ℤ := 0
  cancelRequested : Bool := false
  stats : Option Summary := none
  error : Option String := none

/-- A page as the reporter hands it to the repository. -/
structure PageRow where
  seq : ℕ
  url : Text
  status : Option ℕ
  errorKind : Option String
  errorMessage : Option String
  links : List Text
  fetchedAt : Instant
deriving DecidableEq, Repr

def pageRow (seq : ℕ) (result : PageResult) (fetchedAt : Instant) : PageRow where
  seq := seq
  url := result.url
  status := result.status
  errorKind := result.error.map fun error => error.kind.value
  errorMessage := result.error.map fun error => error.message
  links := result.links
  fetchedAt := fetchedAt

/-- A row of the `page` table. -/
structure Page extends PageRow where
  crawlId : CrawlId
deriving DecidableEq, Repr

def Page.key (p : Page) : CrawlId × ℕ := (p.crawlId, p.seq)

/-- The database. -/
structure Db where
  crawl : KeyedTable CrawlId Crawl Crawl.id
  page : KeyedTable (CrawlId × ℕ) Page Page.key

def Db.empty : Db := ⟨KeyedTable.empty, KeyedTable.empty⟩

/-- An `UPDATE` of the `crawl` table. -/
abbrev CrawlUpdate := Update CrawlId Crawl Crawl.id

end UrlCrawler
