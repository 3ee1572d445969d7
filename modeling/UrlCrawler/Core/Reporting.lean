import UrlCrawler.Library.Json
import UrlCrawler.Library.Splitting
import UrlCrawler.Core.Counters
import Mathlib.Data.List.Dedup

/-! # JSON lines

`url_crawler/reporting.py`: what `JsonlReporter` writes for a page and for the summary, and what a
reader of the output makes of it, also of output that is cut off. The reader is no part of the
repository; it is here to say that nothing a page reports is lost in the text.
-/
set_option autoImplicit false

namespace UrlCrawler
open Splitting

/-- What the output says of an error. -/
structure ErrorRecord where
  kind : FetchErrorKind
  status : Option ℕ
  message : Text
deriving DecidableEq

/-- What the output says of a page. -/
structure PageRecord where
  url : Text
  status : Option ℕ
  links : List Text
  error : Option ErrorRecord
deriving DecidableEq

def FetchError.record (error : FetchError) : ErrorRecord where
  kind := error.kind
  status := error.status
  message := error.message.toList

def PageResult.record (result : PageResult) : PageRecord where
  url := result.url
  status := result.status
  links := result.links
  error := result.error.map FetchError.record

/-- What the output says of a run. `pagesFailed` is the `Counter`, in the order of its keys;
`elapsedSeconds` is the float as it is printed. -/
structure SummaryRecord where
  pagesOk : ℕ
  pagesFailed : List (FetchErrorKind × ℕ)
  pagesWithoutLinks : ℕ
  redirects : ℕ
  linksFound : ℕ
  duplicatesDropped : ℕ
  retries : ℕ
  pagesTotal : ℕ
  elapsedSeconds : Json.Literal
deriving DecidableEq

inductive JsonlRecord
  | page (page : PageRecord)
  | summary (summary : SummaryRecord)
deriving DecidableEq

/-! ## Writing -/

namespace JsonlReporter

def natJson (n : ℕ) : Json := .number (.nat n)

def errorJson (error : ErrorRecord) : Json :=
  .object [("kind".toList, .string error.kind.value.toList),
    ("status".toList, Json.ofOption natJson error.status),
    ("message".toList, .string error.message)]

def pageJson (record : PageRecord) : Json :=
  .object [("url".toList, .string record.url),
    ("status".toList, Json.ofOption natJson record.status),
    ("links".toList, .array (record.links.map Json.string)),
    ("error".toList, Json.ofOption errorJson record.error)]

def countsJson (counts : List (FetchErrorKind × ℕ)) : Json :=
  .object (counts.map fun count => (count.1.value.toList, natJson count.2))

/-- `summary(stats, elapsed_seconds)`. -/
def countersJson (record : SummaryRecord) : Json :=
  .object [("pages_ok".toList, natJson record.pagesOk),
    ("pages_failed".toList, countsJson record.pagesFailed),
    ("pages_without_links".toList, natJson record.pagesWithoutLinks),
    ("redirects".toList, natJson record.redirects),
    ("links_found".toList, natJson record.linksFound),
    ("duplicates_dropped".toList, natJson record.duplicatesDropped),
    ("retries".toList, natJson record.retries),
    ("pages_total".toList, natJson record.pagesTotal),
    ("elapsed_seconds".toList, .number record.elapsedSeconds)]

def summaryJson (record : SummaryRecord) : Json :=
  .object [("summary".toList, countersJson record)]

/-- `json.dumps(record, ensure_ascii=False) + "\n"`. -/
def line (json : Json) : Text := json.dumps [' '] ++ ['\n']

/-- `page`: what is written to the stream. -/
def page (result : PageResult) : Text := line (pageJson result.record)

/-- `finish`: what is written to the stream. -/
def finish (summary : SummaryRecord) : Text := line (summaryJson summary)

end JsonlReporter

/-! ## Reading -/

def FetchErrorKind.ofValue (text : Text) : Option FetchErrorKind :=
  FetchErrorKind.all.find? fun kind => kind.value.toList = text

namespace JsonlRecord

def readKind (json : Json) : Option FetchErrorKind := json.text?.bind FetchErrorKind.ofValue

def readError (json : Json) : Option ErrorRecord := do
  let kind ← json.get "kind" readKind
  let status ← json.get "status" (Json.nullable Json.nat?)
  let message ← json.get "message" Json.text?
  return { kind, status, message }

def readPage (json : Json) : Option PageRecord := do
  let url ← json.get "url" Json.text?
  let status ← json.get "status" (Json.nullable Json.nat?)
  let links ← json.get "links" (Json.list? Json.text?)
  let error ← json.get "error" (Json.nullable readError)
  return { url, status, links, error }

def readCounts : Json → Option (List (FetchErrorKind × ℕ))
  | .object fields => fields.mapM fun field => do
      return (← FetchErrorKind.ofValue field.1, ← field.2.nat?)
  | _ => none

def readElapsed : Json → Option Json.Literal
  | .number literal => some literal
  | _ => none

def readSummary (json : Json) : Option SummaryRecord := do
  let pagesOk ← json.get "pages_ok" Json.nat?
  let pagesFailed ← json.get "pages_failed" readCounts
  let pagesWithoutLinks ← json.get "pages_without_links" Json.nat?
  let redirects ← json.get "redirects" Json.nat?
  let linksFound ← json.get "links_found" Json.nat?
  let duplicatesDropped ← json.get "duplicates_dropped" Json.nat?
  let retries ← json.get "retries" Json.nat?
  let pagesTotal ← json.get "pages_total" Json.nat?
  let elapsedSeconds ← json.get "elapsed_seconds" readElapsed
  return SummaryRecord.mk pagesOk pagesFailed pagesWithoutLinks redirects linksFound
    duplicatesDropped retries pagesTotal elapsedSeconds

/-- The summary is the record under the key `summary`. -/
def ofJson (json : Json) : Option JsonlRecord :=
  match json.field "summary" with
  | some object => (readSummary object).map .summary
  | none => (readPage json).map .page

def read (line : Text) : Option JsonlRecord := (Json.loads line).bind ofJson

/-- The lines of an output that have been ended. -/
def readAll (output : Text) : Option (List JsonlRecord) := (ended '\n' output).mapM read

def json : JsonlRecord → Json
  | page record => JsonlReporter.pageJson record
  | summary record => JsonlReporter.summaryJson record

/-! ## What is written is read back -/

@[simp] theorem ofValue_value (kind : FetchErrorKind) :
    FetchErrorKind.ofValue kind.value.toList = some kind := by
  cases kind <;> decide

@[simp] theorem nat?_natJson (n : ℕ) : (JsonlReporter.natJson n).nat? = some n :=
  Json.Literal.toNat?_nat n

@[simp] theorem nullable_nat (o : Option ℕ) :
    (Json.ofOption JsonlReporter.natJson o).nullable Json.nat? = some o := by
  apply Json.nullable_ofOption nat?_natJson
  intro n h
  cases h

theorem readError_errorJson (error : ErrorRecord) :
    readError (JsonlReporter.errorJson error) = some error := by
  have hkind : (JsonlReporter.errorJson error).get "kind" readKind = some error.kind :=
    ofValue_value error.kind
  have hstatus : (JsonlReporter.errorJson error).get "status" (Json.nullable Json.nat?) =
      some error.status :=
    nullable_nat error.status
  have hmessage : (JsonlReporter.errorJson error).get "message" Json.text? = some error.message :=
    rfl
  simp [readError, hkind, hstatus, hmessage]

theorem readPage_pageJson (record : PageRecord) :
    readPage (JsonlReporter.pageJson record) = some record := by
  have hurl : (JsonlReporter.pageJson record).get "url" Json.text? = some record.url := rfl
  have hstatus : (JsonlReporter.pageJson record).get "status" (Json.nullable Json.nat?) =
      some record.status :=
    nullable_nat record.status
  have hlinks : (JsonlReporter.pageJson record).get "links" (Json.list? Json.text?) =
      some record.links :=
    Json.list?_array (f := Json.string) (fun _ => rfl) record.links
  have herror : (JsonlReporter.pageJson record).get "error" (Json.nullable readError) =
      some record.error := by
    refine Json.nullable_ofOption readError_errorJson (fun error h => ?_) record.error
    cases h
  simp [readPage, hurl, hstatus, hlinks, herror]

theorem readCounts_countsJson (counts : List (FetchErrorKind × ℕ)) :
    readCounts (JsonlReporter.countsJson counts) = some counts := by
  apply Json.mapM_map
  intro count
  simp

theorem readSummary_countersJson (record : SummaryRecord) :
    readSummary (JsonlReporter.countersJson record) = some record := by
  have hcounts : (JsonlReporter.countersJson record).get "pages_failed" readCounts =
      some record.pagesFailed :=
    readCounts_countsJson record.pagesFailed
  have helapsed : (JsonlReporter.countersJson record).get "elapsed_seconds" readElapsed =
      some record.elapsedSeconds := rfl
  have hnat : ∀ key n, (JsonlReporter.countersJson record).field key =
      some (JsonlReporter.natJson n) →
      (JsonlReporter.countersJson record).get key Json.nat? = some n := by
    intro key n h
    rw [Json.get, h, Option.bind_some, nat?_natJson]
  have hok := hnat "pages_ok" record.pagesOk rfl
  have hwithout := hnat "pages_without_links" record.pagesWithoutLinks rfl
  have hredirects := hnat "redirects" record.redirects rfl
  have hlinks := hnat "links_found" record.linksFound rfl
  have hdropped := hnat "duplicates_dropped" record.duplicatesDropped rfl
  have hretries := hnat "retries" record.retries rfl
  have htotal := hnat "pages_total" record.pagesTotal rfl
  simp [readSummary, hcounts, helapsed, hok, hwithout, hredirects, hlinks, hdropped, hretries,
    htotal]

theorem ofJson_json (record : JsonlRecord) : ofJson record.json = some record := by
  cases record with
  | page page => exact congrArg (Option.map JsonlRecord.page) (readPage_pageJson page)
  | summary summary =>
    exact congrArg (Option.map JsonlRecord.summary) (readSummary_countersJson summary)

theorem read_dumps (record : JsonlRecord) : read (record.json.dumps [' ']) = some record := by
  rw [read, Json.loads_dumps (List.all_eq_true.mp rfl), Option.bind_some, ofJson_json]

theorem not_mem_dumps (json : Json) : '\n' ∉ json.dumps [' '] := by
  intro h
  have hpad : [' '].all Json.isPrintable = true := rfl
  have hprintable := List.all_eq_true.mp (Json.printable_dumps hpad json) _ h
  cases hprintable

theorem ended_lines (records : List JsonlRecord) :
    ended '\n' (records.flatMap fun record => JsonlReporter.line record.json) =
      records.map fun record => record.json.dumps [' '] := by
  have hpieces : ∀ piece ∈ records.map fun record => record.json.dumps [' '], '\n' ∉ piece := by
    intro piece hpiece
    obtain ⟨record, -, rfl⟩ := List.mem_map.mp hpiece
    exact not_mem_dumps record.json
  have hended := ended_pieces hpieces
  rw [List.flatMap_map] at hended
  exact hended

/-- Records that are written are read back. -/
theorem readAll_printed (records : List JsonlRecord) :
    readAll (records.flatMap fun record => JsonlReporter.line record.json) = some records := by
  rw [readAll, ended_lines]
  exact Json.mapM_map read_dumps records

/-- An output that is cut off anywhere reads as the first of its records. -/
theorem readAll_of_start {records : List JsonlRecord} {output : Text}
    (h : output <+: records.flatMap fun record => JsonlReporter.line record.json) :
    ∃ read, readAll output = some read ∧ read <+: records := by
  have hstart := ended_of_start '\n' h
  rw [ended_lines, List.prefix_iff_eq_take, ← List.map_take] at hstart
  refine ⟨_, ?_, List.take_prefix (ended '\n' output).length records⟩
  rw [readAll]
  exact (congrArg (List.mapM read) hstart).trans (Json.mapM_map read_dumps _)

end JsonlRecord

/-! ## The summary -/

/-- `repr` prints a float. -/
def Summary.record (repr : ℚ → Json.Literal) (s : Summary) : SummaryRecord where
  pagesOk := s.pagesOk
  pagesFailed := s.pagesFailed.entries
  pagesWithoutLinks := s.pagesWithoutLinks
  redirects := s.redirects
  linksFound := s.linksFound
  duplicatesDropped := s.duplicatesDropped
  retries := s.retries
  pagesTotal := s.pagesTotal
  elapsedSeconds := repr s.elapsedSeconds

namespace PageRecord

def failedAs (kind : FetchErrorKind) (page : PageRecord) : Bool :=
  page.error.any fun error => error.kind = kind

def isRedirect (page : PageRecord) : Bool :=
  page.error.isNone && page.status.any (· ∈ redirectStatuses)

def isExtracted (page : PageRecord) : Bool :=
  page.error.isNone && !page.status.any (· ∈ redirectStatuses)

end PageRecord

/-- What the summary line says is what one counts in the page lines. -/
structure SummaryRecord.Recounts (s : SummaryRecord) (pages : List PageRecord) : Prop where
  total : s.pagesTotal = pages.length
  ok : s.pagesOk = pages.countP fun page => page.error.isNone
  keys : (s.pagesFailed.map Prod.fst).Nodup
  failed : ∀ kind n, (kind, n) ∈ s.pagesFailed ↔
    0 < n ∧ n = pages.countP (PageRecord.failedAs kind)
  redirects : s.redirects = pages.countP PageRecord.isRedirect
  linksFound : s.linksFound =
    ((pages.filter PageRecord.isExtracted).map fun page => page.links.length).sum
  pagesWithoutLinks : s.pagesWithoutLinks =
    pages.countP fun page => page.isExtracted && page.links.isEmpty

namespace PageResult

theorem failedAs_record (kind : FetchErrorKind) :
    PageRecord.failedAs kind ∘ record = failedAs kind := by
  funext page
  show page.record.error.any _ = page.error.any _
  unfold record
  cases page.error <;> rfl

theorem isNone_record : (fun page : PageRecord => page.error.isNone) ∘ record =
    fun page => page.error.isNone := by
  funext page
  show page.record.error.isNone = page.error.isNone
  unfold record
  cases page.error <;> rfl

theorem isRedirect_record : PageRecord.isRedirect ∘ record = isRedirect := by
  funext page
  have herror : page.record.error.isNone = page.error.isNone := congrFun isNone_record page
  show page.record.isRedirect = page.isRedirect
  rw [PageRecord.isRedirect, herror]
  rfl

theorem isExtracted_record : PageRecord.isExtracted ∘ record = isExtracted := by
  funext page
  have herror : page.record.error.isNone = page.error.isNone := congrFun isNone_record page
  show page.record.isExtracted = page.isExtracted
  rw [PageRecord.isExtracted, herror]
  rfl

end PageResult

theorem sum_failedAs (pages : List PageResult) :
    (FetchErrorKind.all.map fun kind => pages.countP (PageResult.failedAs kind)).sum +
      (pages.countP fun page => page.error.isNone) = pages.length := by
  induction pages with
  | nil => rfl
  | cons page pages ih =>
    rw [List.length_cons, ← ih]
    cases herror : page.error with
    | none => simp [FetchErrorKind.all, PageResult.failedAs, herror]; omega
    | some error =>
      cases hkind : error.kind <;>
        simp [FetchErrorKind.all, PageResult.failedAs, herror, hkind] <;> omega

theorem recounts_of_tallies {stats : CrawlStats} {pages : List PageResult} (h : stats.Tallies pages)
    (repr : ℚ → Json.Literal) (elapsed : ℚ) :
    ((summary stats elapsed).record repr).Recounts (pages.map PageResult.record) where
  total := by
    rw [List.length_map]
    exact h.total
  ok := by
    have htotal := h.total
    have hsum := sum_failedAs pages
    rw [CrawlStats.pagesTotal, stats.pagesFailed.total_eq_sum FetchErrorKind.nodup_all
      fun kind _ => kind.mem_all, funext h.failed] at htotal
    have hok : stats.pagesOk = pages.countP fun page => page.error.isNone := by omega
    rw [List.countP_map, PageResult.isNone_record]
    exact hok
  keys := by
    show (stats.pagesFailed.entries.map Prod.fst).Nodup
    rw [Counter.keys_entries]
    exact stats.pagesFailed.nodup
  failed := fun kind n => by
    have hcount : (pages.map PageResult.record).countP (PageRecord.failedAs kind) =
        stats.pagesFailed kind := by
      rw [List.countP_map, h.failed kind, PageResult.failedAs_record]
    rw [hcount]
    exact Counter.mem_entries
  redirects := by
    rw [List.countP_map, PageResult.isRedirect_record]
    exact h.redirects
  linksFound := by
    rw [List.filter_map, List.map_map, PageResult.isExtracted_record]
    exact h.linksFound
  pagesWithoutLinks := by
    have hempty : (fun page : PageRecord => page.isExtracted && page.links.isEmpty) ∘
        PageResult.record = fun page => page.isExtracted && page.links.isEmpty := by
      funext page
      exact congrArg (· && page.links.isEmpty) (congrFun PageResult.isExtracted_record page)
    rw [List.countP_map, hempty]
    exact h.pagesWithoutLinks

end UrlCrawler
