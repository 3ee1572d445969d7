import UrlCrawler.Service.StoredPages

/-! # Reading the pages

`GET /crawls/{id}/pages`, and a client that pages through a crawl with the `seq` of its last item as
the cursor. One response is always a stretch of one lease's pages (`listPages_eq`). The whole of what
the client has received is not: the cursor does not say which lease it comes from, and a client that
goes on after the crawl has been claimed again gets the second run's rows behind the first run's
(`pollAcrossLeases_mixes`). As long as no poll can meet such rows the client reads one lease's pages
in order (`pagingClient_oneLease`).
-/
set_option autoImplicit false

namespace UrlCrawler
open Execution

/-- `list_crawl_pages`: the items and `next_after`, or `none` for the 404. -/
def listCrawlPages (db : Db) (id : CrawlId) (after limit : ℕ) : Option (List Page × Option ℕ) :=
  match db.get id with
  | none => none
  | some _ =>
    let items := db.listPages id after limit
    some (items, if items.length = limit then items.getLast?.map fun p => p.seq else none)

/-! ## One response -/

theorem pairwise_rowsOf (log : List Report) : (rowsOf log).Pairwise fun a b => a.seq < b.seq := by
  rw [List.pairwise_iff_getElem]
  intro i j hi hj hij
  rw [getElem_rowsOf (List.getElem?_eq_getElem hi), getElem_rowsOf (List.getElem?_eq_getElem hj)]
  omega

/-- The stretch of a log's stored rows after the cursor, as the table knows it. -/
theorem mem_stretch {db : Db} {c : CrawlId} {log : List Report} {k : ℕ}
    (h : HoldsPrefix db c log k) (after : ℕ) (p : Page) :
    p ∈ (((rowsOf log).take k).drop after).map (pageOf c) ↔
      after < p.seq ∧ db.page.lookup (c, p.seq) = some p := by
  rw [List.mem_map]
  constructor
  · rintro ⟨row, hrow, rfl⟩
    obtain ⟨i, hi⟩ := List.mem_iff_getElem?.mp hrow
    rw [List.getElem?_drop] at hi
    have hlt : after + i < k := by
      by_contra hge
      rw [List.getElem?_eq_none] at hi
      · cases hi
      · rw [List.length_take]
        omega
    rw [List.getElem?_take_of_lt hlt] at hi
    have hseq : (pageOf c row).seq = after + i + 1 := getElem_rowsOf hi
    rw [hseq]
    refine ⟨by omega, ?_⟩
    rw [h.2, if_pos (by omega), Nat.add_sub_cancel, hi]
    rfl
  · rintro ⟨hafter, hp⟩
    rw [h.2] at hp
    split at hp
    · rename_i hseq
      obtain ⟨row, hrow, rfl⟩ := Option.map_eq_some_iff.mp hp
      refine ⟨row, List.mem_iff_getElem?.mpr ⟨(pageOf c row).seq - 1 - after, ?_⟩, rfl⟩
      rw [List.getElem?_drop, List.getElem?_take_of_lt (by omega), ← hrow]
      congr 1
      omega
    · cases hp

/-- What a table that holds a prefix of a log answers: the stretch after the cursor. -/
theorem listPages_eq {db : Db} {c : CrawlId} {log : List Report} {k : ℕ}
    (h : HoldsPrefix db c log k) (after limit : ℕ) :
    db.listPages c after limit =
      ((((rowsOf log).take k).drop after).map (pageOf c)).take limit := by
  have hmem : ∀ p, p ∈ db.page.rows.filter (fun p => p.crawlId = c && after < p.seq) ↔
      after < p.seq ∧ db.page.lookup (c, p.seq) = some p := by
    intro p
    rw [List.mem_filter, KeyedTable.mem_rows_iff]
    simp only [Bool.and_eq_true, decide_eq_true_eq]
    constructor
    · rintro ⟨hp, rfl, hafter⟩
      exact ⟨hafter, hp⟩
    · rintro ⟨hafter, hp⟩
      have hkey := KeyedTable.lookup_key hp
      exact ⟨hkey ▸ hp, congrArg Prod.fst hkey, hafter⟩
  have hsorted : ((((rowsOf log).take k).drop after).map (pageOf c)).Pairwise
      fun a b => a.seq < b.seq := by
    rw [List.pairwise_map]
    exact (pairwise_rowsOf log).sublist ((List.drop_sublist _ _).trans (List.take_sublist _ _))
  unfold Db.listPages
  congr 1
  have hpairwise : ((((rowsOf log).take k).drop after).map (pageOf c)).Pairwise
      fun a b => a.seq ≤ b.seq := hsorted.imp le_of_lt
  refine List.Perm.eq_of_pairwise ?_ ?_ hpairwise ?_
  · intro a b ha hb hab hba
    have ha' := (hmem a).mp ((List.mergeSort_perm _ _).subset ha)
    have hb' := (mem_stretch h after b).mp hb
    rw [le_antisymm hab hba] at ha'
    exact Option.some.inj (ha'.2.symm.trans hb'.2)
  · refine (List.pairwise_mergeSort ?_ ?_ _).imp fun hab => of_decide_eq_true hab
    · intro a b d hab hbd
      exact decide_eq_true ((of_decide_eq_true hab).trans (of_decide_eq_true hbd))
    · intro a b
      simpa using le_total a.seq b.seq
  · refine (List.mergeSort_perm _ _).trans ((List.perm_ext_iff_of_nodup ?_ ?_).mpr fun p => ?_)
    · exact (List.Nodup.of_map _ db.page.nodup).filter _
    · exact hsorted.imp fun hab he => by simp [he] at hab
    · rw [hmem, mem_stretch h]

/-! ## A paging client -/

/-- A client that has read from `after` 0 on, each time after the last item it received. -/
structure Client where
  after : ℕ := 0
  received : List Page := []

/-- One more request, with any limit. -/
def Client.poll (client : Client) (db : Db) (c : CrawlId) (limit : ℕ) : Client :=
  match listCrawlPages db c client.after limit with
  | none => client
  | some (items, _) =>
    { after := (items.getLast?.map fun p => p.seq).getD client.after
      received := client.received ++ items }

/-- The service with a client that reads crawl `c`. `source` is the lease that was the crawl's last
one when the client received its first items; no step looks at it. -/
structure Reading (T : CrawlTask) where
  system : System T := {}
  client : Client := {}
  source : Option ℕ := none

inductive ReadingAct (T : CrawlTask)
  | system (a : SystemAct T)
  | poll (limit : ℕ)

section
variable {T : CrawlTask} {settings : Settings} {c : CrawlId}

def readingStep (settings : Settings) (c : CrawlId) (s : Reading T) :
    ReadingAct T → Option (Reading T)
  | .system a => (s.system.step settings a).map fun system => { s with system }
  | .poll limit =>
    let client := s.client.poll s.system.store.db c limit
    some
      { s with
        client
        source := if client.received.isEmpty then none
          else s.source.orElse fun _ => some (s.system.leases c) }

/-- All the client has received by the end of the run is a stretch 1 to `k` of the pages of one
lease. -/
def ReadsOneLease (settings : Settings) (c : CrawlId) (actions : List (ReadingAct T)) : Prop :=
  ∀ s, run (readingStep settings c) {} actions = some s →
    ∃ n k, k ≤ (s.system.history c n).reports.length ∧
      s.client.received = ((rowsOf (s.system.history c n).reports).take k).map (pageOf c)

/-- The poll cannot meet pages of another lease than the first items came from: there are no first
items yet, or that lease is still the crawl's last, or no stored row lies beyond the cursor. -/
def Reading.pollsOneLease (c : CrawlId) (s : Reading T) : ReadingAct T → Bool
  | .system _ => true
  | .poll _ => s.source = none || s.source = some (s.system.leases c) ||
      s.system.store.db.page.rows.all fun p => p.crawlId ≠ c || p.seq ≤ s.client.after

theorem take_append_stretch {α : Type*} (l : List α) (k k₀ limit : ℕ) :
    l.take k ++ ((l.take k₀).drop k).take limit =
      l.take (k + (((l.take k₀).drop k).take limit).length) := by
  rw [List.drop_take, List.take_take, ← List.take_add, List.length_take, List.length_drop]
  by_cases h : min limit (k₀ - k) ≤ l.length - k
  · rw [min_eq_left h]
  · have hmin : min (min limit (k₀ - k)) (l.length - k) = l.length - k := min_eq_right (by omega)
    rw [hmin, List.take_of_length_le (by omega), List.take_of_length_le (by omega)]

/-- A client with the first `k` pages of the log a table holds gets the next ones. -/
theorem poll_extends {db : Db} {log : List Report} {k₀ k : ℕ} (h : HoldsPrefix db c log k₀)
    (hk : k ≤ log.length) {client : Client} (hafter : client.after = k)
    (hreceived : client.received = ((rowsOf log).take k).map (pageOf c)) (limit : ℕ) :
    ∃ k', k ≤ k' ∧ k' ≤ log.length ∧ (client.poll db c limit).after = k' ∧
      (client.poll db c limit).received = ((rowsOf log).take k').map (pageOf c) := by
  unfold Client.poll listCrawlPages
  cases db.get c with
  | none => exact ⟨k, le_rfl, hk, hafter, hreceived⟩
  | some row =>
    simp only [listPages_eq h, hafter, hreceived]
    rw [← List.map_take, ← List.map_append, take_append_stretch]
    generalize hm : ((((rowsOf log).take k₀).drop k).take limit) = items
    have hitems : ∀ i row, items[i]? = some row → row.seq = k + i + 1 := by
      intro i row hi
      rw [← hm, List.getElem?_take] at hi
      split at hi
      · rw [List.getElem?_drop, List.getElem?_take] at hi
        split at hi
        · exact getElem_rowsOf hi
        · cases hi
      · cases hi
    have hlen : k + items.length ≤ log.length := by
      rw [← hm, List.length_take, List.length_drop, List.length_take, DbReporter.length_rowsOf]
      omega
    refine ⟨k + items.length, Nat.le_add_right _ _, hlen, ?_, rfl⟩
    rw [List.getLast?_map, Option.map_map, List.getLast?_eq_getElem?]
    cases hlast : items[items.length - 1]? with
    | none =>
      have hempty : items.length = 0 := by
        rw [List.getElem?_eq_none_iff] at hlast
        omega
      rw [hempty]
      rfl
    | some row =>
      have hseq := hitems _ row hlast
      have hpos : items.length - 1 < items.length := (List.getElem?_eq_some_iff.mp hlast).1
      show row.seq = k + items.length
      omega

/-- The reports of a lease are only ever added to. -/
theorem reports_grow {s s' : System T} (hs : SystemStep settings s s') (c : CrawlId) (n : ℕ) :
    (s.history c n).reports <+: (s'.history c n).reports := by
  cases hs with
  | reap id _ hreap =>
    obtain ⟨_, _, _, _, _, hhistory, -⟩ := System.commitReap_spec hreap
    exact hhistory ▸ List.prefix_rfl
  | commit worker slot now call hi _ hcommit =>
    obtain ⟨_, _, _, _, hhistory, -⟩ := System.commit_spec hi hcommit
    exact hhistory ▸ List.prefix_rfl
  | crawl worker job hw a clock task htask =>
    rw [System.setLog_history]
    split
    · rename_i hmine
      obtain ⟨rfl, rfl⟩ := hmine
      exact List.prefix_append _ _
    · exact List.prefix_rfl
  | external | crash | claim | move | job => exact List.prefix_rfl

theorem take_rowsOf_of_start {log log' : List Report} (h : log <+: log') {k : ℕ}
    (hk : k ≤ log.length) : (rowsOf log').take k = (rowsOf log).take k := by
  obtain ⟨more, rfl⟩ := h
  rw [rowsOf, List.mapIdx_append, List.take_append_of_le_length (by simpa using hk)]
  rfl

/-- The client has the first `k` pages of its source's log, and its cursor is `k`. -/
structure ReadingInv (c : CrawlId) (s : Reading T) : Prop where
  system : s.system.PagesInv
  client : s.source = none ∧ s.client.after = 0 ∧ s.client.received = [] ∨
    ∃ n k, s.source = some n ∧ k ≤ (s.system.history c n).reports.length ∧ s.client.after = k ∧
      s.client.received ≠ [] ∧
      s.client.received = ((rowsOf (s.system.history c n).reports).take k).map (pageOf c)

theorem readingInv_init : ReadingInv c ({} : Reading T) :=
  ⟨System.pagesInv_init, .inl ⟨rfl, rfl, rfl⟩⟩

/-- Nothing stored beyond the cursor: the poll brings nothing. -/
theorem poll_idle {db : Db} {client : Client}
    (h : db.page.rows.all (fun p => p.crawlId ≠ c || p.seq ≤ client.after) = true) (limit : ℕ) :
    client.poll db c limit = client := by
  have hnone : db.listPages c client.after limit = [] := by
    have hfilter : db.page.rows.filter (fun p => p.crawlId = c && client.after < p.seq) = [] := by
      rw [List.filter_eq_nil_iff]
      intro p hp hcond
      have hrow := List.all_eq_true.mp h p hp
      simp only [Bool.and_eq_true, decide_eq_true_eq] at hcond
      simp only [ne_eq, hcond.1, not_true_eq_false, decide_false, Bool.false_or,
        decide_eq_true_eq] at hrow
      omega
    simp [Db.listPages, hfilter]
  unfold Client.poll listCrawlPages
  cases db.get c with
  | none => rfl
  | some row => simp [hnone]

theorem readingInv_step {s s' : Reading T} {a : ReadingAct T} (h : ReadingInv c s)
    (hsafe : s.pollsOneLease c a = true) (hs : readingStep settings c s a = some s') :
    ReadingInv c s' := by
  cases a with
  | system a =>
    simp only [readingStep, Option.map_eq_some_iff] at hs
    obtain ⟨system, hsys, rfl⟩ := hs
    have hstep := System.step_cases hsys
    refine ⟨System.pagesInv_step h.system hstep, h.client.imp_right ?_⟩
    rintro ⟨n, k, hsource, hk, hafter, hne, hreceived⟩
    have hgrow := reports_grow hstep c n
    exact ⟨n, k, hsource, hk.trans hgrow.length_le, hafter, hne,
      hreceived.trans (by rw [take_rowsOf_of_start hgrow hk])⟩
  | poll limit =>
    obtain rfl := Option.some.inj hs
    refine ⟨h.system, ?_⟩
    obtain ⟨k₀, hk₀, -⟩ := h.system.stored c
    simp only [Reading.pollsOneLease, Bool.or_eq_true, decide_eq_true_eq] at hsafe
    rcases h.client with ⟨hsource, hafter, hreceived⟩ | ⟨n, k, hsource, hk, hafter, hne, hreceived⟩
    · -- the first items, if any, come from the crawl's last lease
      obtain ⟨k', -, hk', hafter', hreceived'⟩ :=
        poll_extends hk₀ (Nat.zero_le _) hafter (by simpa using hreceived) limit
      by_cases hitems : (s.client.poll s.system.store.db c limit).received = []
      · refine .inl ⟨by simp [hitems], ?_, hitems⟩
        have hzero : k' = 0 := by
          have hlen := congrArg List.length (hitems.symm.trans hreceived')
          rw [List.length_nil, List.length_map, List.length_take, DbReporter.length_rowsOf] at hlen
          omega
        exact hafter'.trans hzero
      · exact .inr ⟨s.system.leases c, k', by simp [hitems, hsource], hk', hafter', hitems,
          hreceived'⟩
    · have hkeep : s.client.poll s.system.store.db c limit = s.client ∨ n = s.system.leases c := by
        rcases hsafe with (hnone | hsame) | hidle
        · simp [hsource] at hnone
        · exact .inr (Option.some.inj (hsource.symm.trans hsame))
        · exact .inl (poll_idle hidle limit)
      rcases hkeep with hidle | rfl
      · refine .inr ⟨n, k, ?_, hk, ?_, ?_, ?_⟩
        · simp [hidle, hne, hsource]
        · rw [hidle]
          exact hafter
        · rw [hidle]
          exact hne
        · rw [hidle]
          exact hreceived
      · obtain ⟨k', hle, hk', hafter', hreceived'⟩ := poll_extends hk₀ hk hafter hreceived limit
        have hne' : (s.client.poll s.system.store.db c limit).received ≠ [] := by
          rw [hreceived] at hne
          rw [hreceived']
          intro hnil
          refine hne ?_
          rw [List.map_eq_nil_iff, List.take_eq_nil_iff] at hnil ⊢
          exact hnil.imp_left fun hz => by omega
        exact .inr ⟨s.system.leases c, k', by simp [hne', hsource], hk', hafter', hne', hreceived'⟩

/-- A client whose polls never meet pages of another lease than the first items came from reads a
stretch 1 to `k` of one lease's pages. -/
theorem pagingClient_oneLease {actions : List (ReadingAct T)}
    (h : Meets (readingStep settings c) (fun s a => s.pollsOneLease c a = true) {} actions) :
    ReadsOneLease settings c actions := by
  intro s hs
  have hinv : ReadingInv c s :=
    h.invariant (fun _ _ _ hi hc hst => readingInv_step hi hc hst) readingInv_init hs
  rcases hinv.client with ⟨-, -, hreceived⟩ | ⟨n, k, -, hk, -, -, hreceived⟩
  · exact ⟨0, 0, Nat.zero_le _, by simp [hreceived]⟩
  · exact ⟨n, k, hk, hreceived⟩

/-- The system under a reading is one the workers can reach. -/
theorem reading_pagesInv {actions : List (ReadingAct T)} {s : Reading T}
    (h : run (readingStep settings c) {} actions = some s) : s.system.PagesInv := by
  refine run_invariant (P := fun t : Reading T => t.system.PagesInv) (fun t a t' hi ht => ?_)
    System.pagesInv_init h
  cases a with
  | system a =>
    simp only [readingStep, Option.map_eq_some_iff] at ht
    obtain ⟨system, hsys, rfl⟩ := ht
    exact System.pagesInv_step hi (System.step_cases hsys)
  | poll limit =>
    obtain rfl := Option.some.inj ht
    exact hi

end

/-! ## Runs with a client -/

/-- A site of two pages. -/
abbrev twoPages : CrawlTask := CrawlTask.replay [examplePage "", examplePage "b"]

/-- A worker claims crawl 1 and stores its first page. -/
def claimAndStore (worker : WorkerId) (now : Instant) : List (SystemAct twoPages) :=
  [.claim worker, .claimCommit worker [] 1 now, .claimReturned worker,
    .job worker (.crawl false fun _ => now + 1), .job worker (.reporter .start),
    .job worker (.reporter .wake), .job worker (.reporter (.lock .run)),
    .commit worker (.flush .run) (now + 2), .job worker (.reporter (.resume .run))]

/-- The worker stores its second page. -/
def storeAnother (worker : WorkerId) (now : Instant) : List (SystemAct twoPages) :=
  [.job worker (.crawl false fun _ => now),
    .job worker (.reporter .wake), .job worker (.reporter (.lock .run)),
    .commit worker (.flush .run) (now + 1), .job worker (.reporter (.resume .run))]

def createOne : SystemAct twoPages :=
  .create 1 "https://a.test/".toList
    { concurrency := 10, timeout := 10, maxPages := none, maxBytes := 5000000,
      respectRobots := true } 0

/-- The client reads both pages of a lease, in two polls. -/
def pollTwice : List (ReadingAct twoPages) :=
  .system createOne :: (claimAndStore "host:1" 1).map .system ++ [.poll 100] ++
    (storeAnother "host:1" 10).map .system ++ [.poll 100]

theorem pagingClient_oneLease_pollTwice : ReadsOneLease ⟨100, toString⟩ 1 pollTwice :=
  pagingClient_oneLease (by decide +kernel)

/-- The client reads the first page, the worker falls silent, the crawl is reaped and claimed again,
and the client goes on once the second run has stored two pages. -/
def pollAcrossLeases : List (ReadingAct twoPages) :=
  .system createOne :: (claimAndStore "host:1" 1).map .system ++ [.poll 100] ++
    [.system (.beginReap 0 30 3 100), .system (.statement 0), .system (.statement 0),
      .system (.statement 0), .system (.commitReap 0)] ++
    (claimAndStore "host:2" 200 ++ storeAnother "host:2" 210).map .system ++ [.poll 100]

/-- It ends up with the first page of the first run and the second page of the second. -/
theorem pollAcrossLeases_mixes : ¬ReadsOneLease ⟨100, toString⟩ 1 pollAcrossLeases := by
  intro h
  have hrun : (run (readingStep ⟨100, toString⟩ 1) {} pollAcrossLeases).any (fun s =>
      decide (s.client.received.map (fun p => p.fetchedAt) = [2, 210] ∧ s.system.leases 1 = 2 ∧
        (s.system.history 1 0).reports.map Prod.snd = [] ∧
        (s.system.history 1 1).reports.map Prod.snd = [2] ∧
        (s.system.history 1 2).reports.map Prod.snd = [201, 210])) = true := by
    decide +kernel
  obtain ⟨s, hs, hfacts⟩ := (Option.any_eq_true _ _).mp hrun
  obtain ⟨hreceived, hleases, hzero, hone, htwo⟩ := of_decide_eq_true hfacts
  obtain ⟨n, k, -, hread⟩ := h s hs
  have htimes : ((s.system.history 1 n).reports.map Prod.snd).take k = [2, 210] := by
    rw [← hreceived, hread, List.map_map, List.map_take]
    congr 1
    refine List.ext_getElem (by simp [rowsOf]) fun i h₁ h₂ => ?_
    simp [rowsOf, pageOf, pageRow]
  have hlease : n = 0 ∨ n = 1 ∨ n = 2 ∨ 3 ≤ n := by omega
  rcases hlease with rfl | rfl | rfl | hn
  · simp [hzero] at htimes
  · rw [hone] at htimes
    have hlen := congrArg List.length htimes
    rw [List.length_take] at hlen
    simp only [List.length_cons, List.length_nil] at hlen
    omega
  · rw [htwo] at htimes
    cases k with
    | zero => cases htimes
    | succ k => cases htimes
  · rw [(reading_pagesInv hs).fresh 1 n (by omega)] at htimes
    simp at htimes

end UrlCrawler
