import UrlCrawler.Service.FinishedCrawls
import UrlCrawler.Service.Outcomes
import UrlCrawler.Service.Paging

/-! # The pages of a crawl that is over

A client that pages through a crawl that is over, with whatever limits and whatever else the service
does meanwhile, is told that there is no next page when it has every stored page once and in order:
what the crawler reported under its last lease, as far as it was stored, and all of it when the crawl
is finished.
-/
set_option autoImplicit false

namespace UrlCrawler
open Execution

structure CrawlErrorOut where
  kind : String
  message : Option String
deriving DecidableEq

structure PageOut where
  seq : ℕ
  url : Text
  status : Option ℕ
  error : Option CrawlErrorOut
  links : List Text
  fetchedAt : Instant
deriving DecidableEq

def PageOut.fromOrmRow (page : Page) : PageOut where
  seq := page.seq
  url := page.url
  status := page.status
  error := page.errorKind.map fun kind => { kind, message := page.errorMessage }
  links := page.links
  fetchedAt := page.fetchedAt

/-- What the crawler reported, as the API shows it. -/
def PageOut.ofReport (i : ℕ) (report : Report) : PageOut where
  seq := i + 1
  url := report.1.url
  status := report.1.status
  error := report.1.error.map fun error => { kind := error.kind.value, message := error.message }
  links := report.1.links
  fetchedAt := report.2

theorem PageOut.fromOrmRow_pageOf (c : CrawlId) (i : ℕ) (report : Report) :
    fromOrmRow (pageOf c (pageRow (i + 1) report.1 report.2)) = ofReport i report := by
  unfold fromOrmRow ofReport pageOf pageRow
  cases report.1.error <;> rfl

theorem PageOut.map_rowsOf (c : CrawlId) (log : List Report) :
    ((rowsOf log).map (pageOf c)).map fromOrmRow = log.mapIdx ofReport := by
  apply List.ext_getElem?
  intro i
  simp only [rowsOf, List.getElem?_map, List.getElem?_mapIdx, Option.map_map]
  congr 1
  funext report
  exact fromOrmRow_pageOf c i report

/-! ## A client that reads to the end -/

/-- A client that asks for pages until a response has no `next_after`. -/
structure PageReader (T : CrawlTask) where
  system : System T
  client : Client := {}
  complete : Bool := false
  polls : ℕ := 0

section
variable {T : CrawlTask} {settings : Settings} {c : CrawlId}

def pageReaderStep (settings : Settings) (c : CrawlId) (s : PageReader T) :
    ReadingAct T → Option (PageReader T)
  | .system a => (s.system.step settings a).map fun system => { s with system }
  | .poll limit =>
    if s.complete = false ∧ 1 ≤ limit ∧ limit ≤ 500 then
      (listCrawlPages s.system.store.db c s.client.after limit).map fun response =>
        { s with
          client := s.client.poll s.system.store.db c limit
          complete := response.2.isNone
          polls := s.polls + 1 }
    else none

/-! ## One poll -/

/-- The table holds the pages of a whole log. -/
def HoldsAll (db : Db) (c : CrawlId) (log : List Report) : Prop := HoldsPrefix db c log log.length

theorem HoldsPrefix.le {db : Db} {log : List Report} {k k' : ℕ} (h : HoldsPrefix db c log k)
    (h' : HoldsPrefix db c log k') : k ≤ k' := by
  by_contra hlt
  have hpos : k - 1 < (rowsOf log).length := by
    have hk := h.1
    rw [DbReporter.length_rowsOf]
    omega
  have hsame := (h.2 k).symm.trans (h'.2 k)
  rw [if_pos (by omega), if_neg (by omega), List.getElem?_eq_getElem hpos] at hsame
  cases hsame

/-- A prefix that is held is a log of its own. -/
theorem HoldsPrefix.all {db : Db} {log : List Report} {k : ℕ} (h : HoldsPrefix db c log k) :
    HoldsAll db c (log.take k) := by
  have hlength : (log.take k).length = k := by
    rw [List.length_take, min_eq_left h.1]
  refine ⟨le_rfl, fun seq => ?_⟩
  rw [h.2 seq, hlength]
  split
  · rename_i hseq
    have hrow : (rowsOf (log.take k))[seq - 1]? = (rowsOf log)[seq - 1]? := by
      rw [rowsOf, rowsOf, List.getElem?_mapIdx, List.getElem?_mapIdx,
        List.getElem?_take_of_lt (by omega)]
    rw [hrow]
  · rfl

theorem HoldsPrefix.lookup {db : Db} {log : List Report} (h : HoldsPrefix db c log log.length)
    (seq : ℕ) : db.page.lookup (c, seq + 1) = ((rowsOf log).map (pageOf c))[seq]? := by
  rw [h.2, Nat.add_sub_cancel, List.getElem?_map]
  split
  · rfl
  · rw [List.getElem?_eq_none]
    · rfl
    · rw [DbReporter.length_rowsOf]
      omega

/-- The rows of crawl `c` that a table with this log holds. -/
def storedPages (c : CrawlId) (log : List Report) : List Page := (rowsOf log).map (pageOf c)

theorem length_storedPages (log : List Report) : (storedPages c log).length = log.length := by
  rw [storedPages, List.length_map, DbReporter.length_rowsOf]

/-- The first `m` of them end with the `seq` `m`. -/
theorem getLast?_storedPages {log : List Report} {m : ℕ} (hm : m ≤ log.length) (hpos : 0 < m) :
    (((storedPages c log).take m).getLast?.map fun p => p.seq) = some m := by
  have hlt : m - 1 < (rowsOf log).length := by
    rw [DbReporter.length_rowsOf]
    omega
  have hlength : ((storedPages c log).take m).length = m := by
    rw [List.length_take, length_storedPages, min_eq_left hm]
  have hseq : (rowsOf log)[m - 1].seq = m - 1 + 1 := getElem_rowsOf (List.getElem?_eq_getElem hlt)
  rw [List.getLast?_eq_getElem?, hlength, List.getElem?_take_of_lt (by omega), storedPages,
    List.getElem?_map, List.getElem?_eq_getElem hlt]
  show some (rowsOf log)[m - 1].seq = some m
  rw [hseq]
  congr 1
  omega

/-- The items of a response to a client that has the first `j` stored pages. -/
theorem listPages_stored {db : Db} {log : List Report} (h : HoldsAll db c log) (j limit : ℕ) :
    db.listPages c j limit =
      ((storedPages c log).take (min (j + limit) log.length)).drop j := by
  have htake : (storedPages c log).take (j + limit) =
      (storedPages c log).take (min (j + limit) log.length) := by
    apply List.take_eq_take_iff.mpr
    rw [length_storedPages]
    omega
  have hrows : (rowsOf log).take log.length = rowsOf log := by
    rw [← DbReporter.length_rowsOf log, List.take_length]
  rw [listPages_eq h, hrows, List.map_drop, ← storedPages, List.take_drop, htake]

/-- A poll of a client that has the first `j` stored pages brings it up to `j + limit` of them, and
its response has no `next_after` when it asked for more than there are. -/
theorem poll_stored {db : Db} {log : List Report} {j limit : ℕ} (h : HoldsAll db c log)
    {row : Crawl} (hget : db.get c = some row) (hj : j ≤ log.length) (hlimit : 1 ≤ limit)
    {client : Client} (hafter : client.after = j)
    (hreceived : client.received = (storedPages c log).take j) :
    ∃ response, listCrawlPages db c client.after limit = some response ∧
      (response.2.isNone = true ↔ log.length < j + limit) ∧
      (client.poll db c limit).after = min (j + limit) log.length ∧
      (client.poll db c limit).received =
        (storedPages c log).take (min (j + limit) log.length) := by
  have hitems := listPages_stored h j limit
  have hcount : (db.listPages c j limit).length = min (j + limit) log.length - j := by
    rw [hitems, List.length_drop, List.length_take, length_storedPages]
    omega
  have hlast : min (j + limit) log.length ≠ j →
      ((db.listPages c j limit).getLast?.map fun p => p.seq) =
        some (min (j + limit) log.length) := by
    intro hne
    rw [hitems, List.getLast?_drop,
      if_neg (by rw [List.length_take, length_storedPages]; omega)]
    exact getLast?_storedPages (min_le_right _ _) (by omega)
  have hresponse : listCrawlPages db c client.after limit =
      some (db.listPages c j limit, if (db.listPages c j limit).length = limit then
        (db.listPages c j limit).getLast?.map fun p => p.seq else none) := by
    simp only [listCrawlPages, hget, hafter]
  refine ⟨_, hresponse, ?_, ?_, ?_⟩
  · by_cases hfull : j + limit ≤ log.length
    · have hne : min (j + limit) log.length ≠ j := by omega
      simp only [hcount, hlast hne]
      rw [if_pos (by omega)]
      simp only [Option.isNone_some, Bool.false_eq_true, false_iff, not_lt]
      exact hfull
    · simp only [hcount]
      rw [if_neg (by omega)]
      simp only [Option.isNone_none, true_iff]
      omega
  · unfold Client.poll
    rw [hresponse]
    by_cases hne : min (j + limit) log.length = j
    · have hnil : db.listPages c j limit = [] := by
        rw [← List.length_eq_zero_iff, hcount]
        omega
      simp only [hnil, List.getLast?_nil, Option.map_none, Option.getD_none]
      omega
    · simp only [hlast hne, Option.getD_some]
  · have hstart : (storedPages c log).take j =
        ((storedPages c log).take (min (j + limit) log.length)).take j := by
      rw [List.take_take, min_eq_left (by omega)]
    unfold Client.poll
    rw [hresponse]
    simp only [hitems, hreceived]
    rw [hstart, List.take_append_drop]

/-! ## Reading to the end -/

/-- The crawl stays over with its pages as they are; the client has the first of them, at least one
for each response that had a `next_after`. -/
structure PageReaderInv (c : CrawlId) (log : List Report) (s : PageReader T) : Prop where
  owner : s.system.OwnerInv
  row : ∃ row, s.system.store.db.crawl.lookup c = some row ∧ row.state.terminal = true
  stored : HoldsAll s.system.store.db c log
  read : ∃ j ≤ log.length, s.client.after = j ∧ s.client.received = (storedPages c log).take j ∧
    (s.complete = false → s.polls ≤ j) ∧
    (s.complete = true → j = log.length ∧ s.polls ≤ log.length + 1)

theorem pageReaderInv_step {log : List Report} {s s' : PageReader T} {a : ReadingAct T}
    (h : PageReaderInv c log s) (hs : pageReaderStep settings c s a = some s') :
    PageReaderInv c log s' := by
  obtain ⟨row, hrow, hterminal⟩ := h.row
  cases a with
  | system a =>
    simp only [pageReaderStep, Option.map_eq_some_iff] at hs
    obtain ⟨system, hsystem, rfl⟩ := hs
    have hstep := System.step_cases hsystem
    obtain ⟨⟨row', hrow', hsettled⟩, hpages⟩ :=
      System.settled_step h.owner hstep hrow hterminal
    refine ⟨System.ownerInv_step h.owner hstep, ⟨row', hrow', ?_⟩, ⟨le_rfl, ?_⟩, h.read⟩
    · rw [hsettled.state_eq]
      exact hterminal
    · intro seq
      exact (hpages seq).trans (h.stored.2 seq)
  | poll limit =>
    simp only [pageReaderStep] at hs
    split at hs
    · rename_i hopen
      obtain ⟨hincomplete, hlimit, -⟩ := hopen
      obtain ⟨j, hj, hafter, hreceived, hpolls, -⟩ := h.read
      obtain ⟨response, hresponse, hnext, hafter', hreceived'⟩ :=
        poll_stored h.stored hrow hj hlimit hafter hreceived
      rw [hresponse] at hs
      obtain rfl := Option.some.inj hs
      have hbefore := hpolls hincomplete
      refine ⟨h.owner, h.row, h.stored, min (j + limit) log.length, min_le_right _ _, hafter',
        hreceived', ?_, ?_⟩
      · intro hmore
        have hfull : ¬log.length < j + limit := by
          intro hshort
          have hend : response.2.isNone = false := hmore
          rw [hnext.mpr hshort] at hend
          cases hend
        show s.polls + 1 ≤ _
        omega
      · intro hend
        have hshort := hnext.mp hend
        refine ⟨by omega, ?_⟩
        show s.polls + 1 ≤ _
        omega
    · cases hs

theorem pageReaderInv_reaches {s : System T} {s' : PageReader T} {row : Crawl}
    (howner : s.OwnerInv) (hrow : s.store.db.crawl.lookup c = some row)
    (hterminal : row.state.terminal = true) {log : List Report} (hlog : HoldsAll s.store.db c log)
    (h : Reaches (pageReaderStep settings c) { system := s } s') : PageReaderInv c log s' :=
  h.invariant ⟨howner, ⟨row, hrow, hterminal⟩, hlog, 0, Nat.zero_le _, rfl, rfl, fun _ => le_rfl,
    fun he => by cases he⟩ fun _ _ _ hi hs => pageReaderInv_step hi hs

/-- A client that is through has all the stored pages. -/
theorem PageReaderInv.received {log : List Report} {s : PageReader T} (h : PageReaderInv c log s)
    (hcomplete : s.complete = true) : s.client.received = storedPages c log := by
  obtain ⟨j, -, -, hreceived, -, hend⟩ := h.read
  rw [hreceived, (hend hcomplete).1, ← length_storedPages (c := c), List.take_length]

/-- Pages through a crawl that is over, with any limits and while the service goes on. There is a
log, part of what the crawler reported under its last lease and all of it when the crawl is
finished, such that the stored pages are its entries under `seq` 1, 2, ...; a client has received a
stretch of it from the first entry on, can always ask for more until a response has no `next_after`,
and has all of it then, after at most one response more than there are pages. -/
theorem settled_pages_read {s : System T} (h : Reaches (System.step settings) {} s) {row : Crawl}
    (hrow : s.store.db.crawl.lookup c = some row) (hterminal : row.state.terminal = true) :
    ∃ log, log <+: (s.history c (s.leases c)).reports ∧
      (row.state = .finished → log = (s.history c (s.leases c)).reports ∧
        row.stats.map (fun stats => stats.pagesTotal) = some log.length) ∧
      (∀ seq, (s.store.db.page.lookup (c, seq + 1)).map PageOut.fromOrmRow =
        (log.mapIdx PageOut.ofReport)[seq]?) ∧
      ∀ s', Reaches (pageReaderStep settings c) { system := s } s' →
        s'.client.received.map PageOut.fromOrmRow <+: log.mapIdx PageOut.ofReport ∧
        s'.polls ≤ log.length + 1 ∧
        (s'.complete = false → ∀ limit, 1 ≤ limit → limit ≤ 500 →
          ∃ s'', pageReaderStep settings c s' (.poll limit) = some s'') ∧
        (s'.complete = true →
          s'.client.received.map PageOut.fromOrmRow = log.mapIdx PageOut.ofReport) := by
  have howner := (System.rowsInv_reaches h).owner
  obtain ⟨k, hk, -⟩ := howner.pages.stored c
  refine ⟨(s.history c (s.leases c)).reports.take k, List.take_prefix _ _, ?_, ?_, ?_⟩
  · intro hf
    obtain ⟨-, stats, hstats, ⟨-, htotal, hstored⟩⟩ :=
      (System.finishedInv_reaches h).rows c row hrow hf
    have hall : k = (s.history c (s.leases c)).reports.length :=
      le_antisymm (hk.le (hstored rfl)) ((hstored rfl).le hk)
    rw [hall, List.take_length, hstats]
    exact ⟨rfl, congrArg some htotal⟩
  · intro seq
    rw [← PageOut.map_rowsOf c, List.getElem?_map, ← hk.all.lookup seq]
  · intro s' hs'
    have hinv := pageReaderInv_reaches howner hrow hterminal hk.all hs'
    obtain ⟨row', hrow', -⟩ := hinv.row
    obtain ⟨j, hj, hafter, hreceived, hopen, hend⟩ := hinv.read
    have hmap := PageOut.map_rowsOf c ((s.history c (s.leases c)).reports.take k)
    refine ⟨?_, ?_, fun hincomplete limit hlow hhigh => ?_, fun hcomplete => ?_⟩
    · rw [hreceived, List.map_take, storedPages, hmap]
      exact List.take_prefix _ _
    · cases hcomplete : s'.complete with
      | false => exact (hopen hcomplete).trans (by omega)
      | true => exact (hend hcomplete).2
    · obtain ⟨response, hresponse, -⟩ := poll_stored hinv.stored hrow' hj hlow hafter hreceived
      exact ⟨_, by rw [pageReaderStep, if_pos ⟨hincomplete, hlow, hhigh⟩, hresponse]; rfl⟩
    · rw [hinv.received hcomplete, ← hmap]
      rfl

end

/-- One page at a time, from a crawl whose worker is about to record it a second time. -/
def readFinished : List (ReadingAct (CrawlTask.replay [examplePage ""])) :=
  [.poll 1, .system (.record "host:1" (.raised false)), .poll 1]

theorem settled_pages_read_readFinished :
    ∃ s row s' log, run (System.step ⟨100, toString⟩) {} recordedTwice = some s ∧
      s.store.db.crawl.lookup 1 = some row ∧ row.state = .finished ∧
      run (pageReaderStep ⟨100, toString⟩ 1) { system := s } readFinished = some s' ∧
      s'.complete = true ∧ s'.polls = 2 ∧ log = (s.history 1 (s.leases 1)).reports ∧
      s'.client.received.map PageOut.fromOrmRow = log.mapIdx PageOut.ofReport := by
  have hrun : (run (System.step ⟨100, toString⟩) {} recordedTwice).any (fun s =>
      ((s.store.db.crawl.lookup 1).any fun row => decide (row.state = .finished)) &&
      (run (pageReaderStep ⟨100, toString⟩ 1) { system := s } readFinished).any fun s' =>
        decide (s'.complete = true ∧ s'.polls = 2)) = true := by
    decide +kernel
  obtain ⟨s, hs, hfacts⟩ := (Option.any_eq_true _ _).mp hrun
  obtain ⟨hrow, hread⟩ := (Bool.and_eq_true _ _).mp hfacts
  obtain ⟨row, hrow, hfinished⟩ := (Option.any_eq_true _ _).mp hrow
  obtain ⟨s', hs', hend⟩ := (Option.any_eq_true _ _).mp hread
  have hf : row.state = .finished := of_decide_eq_true hfinished
  obtain ⟨hcomplete, hpolls⟩ := of_decide_eq_true hend
  obtain ⟨log, -, hall, -, hreader⟩ :=
    settled_pages_read ⟨recordedTwice, hs⟩ hrow (by rw [hf]; rfl)
  obtain ⟨-, -, -, hpages⟩ := hreader s' ⟨readFinished, hs'⟩
  exact ⟨s, row, s', log, hs, hrow, hf, hs', hcomplete, hpolls, (hall hf).1, hpages hcomplete⟩

end UrlCrawler
