import UrlCrawler.Service.Outcomes
import UrlCrawler.Library.Json
import UrlCrawler.Library.ServerSentEvents

/-! # Watching a crawl

`GET /crawls/{id}/events`: a stream that reads the crawl's row again and again, sends what it reads
and ends with the row of a crawl that is over. It reads while workers, reapers and other clients go
on. What it sends is a history of the row, and what it sends last is how the crawl ended.
-/
set_option autoImplicit false

namespace UrlCrawler
open Execution

/-! ## How a row goes on -/

/-- The state `t` can follow on `s`, by edges of the lifecycle. -/
def CrawlState.leadsTo : CrawlState → CrawlState → Prop :=
  Relation.ReflTransGen fun s t => s.edge t = true

/-- `row'` is a later state of `row`. -/
structure Crawl.Precedes (row row' : Crawl) : Prop where
  id : row'.id = row.id
  seed : row'.seed = row.seed
  config : row'.config = row.config
  createdAt : row'.createdAt = row.createdAt
  cancelled : row.cancelRequested = true → row'.cancelRequested = true
  state : row.state.leadsTo row'.state
  settled : row.state.terminal = true → row.Settled row'

theorem Crawl.Precedes.refl (row : Crawl) : row.Precedes row :=
  ⟨rfl, rfl, rfl, rfl, fun h => h, Relation.ReflTransGen.refl, fun _ => .refl row⟩

theorem Crawl.Precedes.trans {row row' row'' : Crawl} (h : row.Precedes row')
    (h' : row'.Precedes row'') : row.Precedes row'' where
  id := h'.id.trans h.id
  seed := h'.seed.trans h.seed
  config := h'.config.trans h.config
  createdAt := h'.createdAt.trans h.createdAt
  cancelled := fun hc => h'.cancelled (h.cancelled hc)
  state := Relation.ReflTransGen.trans h.state h'.state
  settled := fun ht => (h.settled ht).trans (h'.settled ((h.settled ht).state_eq ▸ ht))

/-- What no transaction changes. -/
theorem rowMove_fixed {row row' : Crawl} (h : System.RowMove row row') :
    row'.id = row.id ∧ row'.seed = row.seed ∧ row'.config = row.config ∧
      row'.createdAt = row.createdAt ∧
      (row.cancelRequested = true → row'.cancelRequested = true) := by
  obtain hstep | ⟨tx, u, hu, -, rfl⟩ := h
  · cases hstep with
    | flag running => exact ⟨rfl, rfl, rfl, rfl, fun _ => rfl⟩
    | keep | claim | heartbeat | finish | release | reapAbort | reapRequeue | reapFail | abort =>
      exact ⟨rfl, rfl, rfl, rfl, id⟩
  · simp only [ReapTx.statements, reapStatements, List.mem_cons, List.not_mem_nil, or_false] at hu
    obtain rfl | rfl | rfl := hu <;> exact ⟨rfl, rfl, rfl, rfl, id⟩

namespace System
variable {T : CrawlTask} {settings : Settings}

theorem precedes_step {s s' : System T} (h : RowsInv s) (hs : SystemStep settings s s')
    {c : CrawlId} {row : Crawl} (hrow : s.store.db.crawl.lookup c = some row) :
    ∃ row', s'.store.db.crawl.lookup c = some row' ∧ row.Precedes row' := by
  obtain ⟨row', hrow', hmove⟩ := row_moves h.owner.pages.fence hs hrow
  obtain ⟨hid, hseed, hconfig, hcreated, hflag⟩ := rowMove_fixed hmove
  obtain ⟨hedge, -⟩ := lifecycle_step h.owner h.lifecycle hs hrow'
  refine ⟨row', hrow', hid, hseed, hconfig, hcreated, hflag, ?_, fun hterminal => ?_⟩
  · obtain hsame | hedge := hedge row hrow
    · rw [hsame]
      exact Relation.ReflTransGen.refl
    · exact Relation.ReflTransGen.single hedge
  · obtain ⟨⟨row₁, hrow₁, hsettled⟩, -⟩ := settled_step h.owner hs hrow hterminal
    obtain rfl := Option.some.inj (hrow'.symm.trans hrow₁)
    exact hsettled

end System

/-! ## The stream -/

/-- `CrawlOut`: what the API shows of a crawl. -/
structure CrawlOut where
  id : CrawlId
  seed : Text
  state : CrawlState
  config : StoredConfig
  createdAt : Instant
  startedAt : Option Instant
  finishedAt : Option Instant
  attempts : ℤ
  cancelRequested : Bool
  stats : Option Summary
  error : Option String

/-- `CrawlOut.model_validate`. -/
def CrawlOut.modelValidate (crawl : Crawl) : CrawlOut where
  id := crawl.id
  seed := crawl.seed
  state := crawl.state
  config := crawl.config
  createdAt := crawl.createdAt
  startedAt := crawl.startedAt
  finishedAt := crawl.finishedAt
  attempts := crawl.attempts
  cancelRequested := crawl.cancelRequested
  stats := crawl.stats
  error := crawl.error

inductive StreamEvent
  | stats (crawl : CrawlOut)
  | ended

inductive StreamPhase
  | reading
  | sleeping
  | closed
deriving DecidableEq

structure EventStream where
  sent : List StreamEvent := []
  phase : StreamPhase := .reading

/-- One round of the loop in `events`. -/
def EventStream.round (stream : EventStream) (db : Db) (id : CrawlId) : EventStream :=
  match db.get id with
  | none => { sent := stream.sent ++ [.ended], phase := .closed }
  | some crawl =>
    let stats := StreamEvent.stats (CrawlOut.modelValidate crawl)
    if crawl.state.terminal then
      { sent := stream.sent ++ [stats, .ended], phase := .closed }
    else { sent := stream.sent ++ [stats], phase := .sleeping }

/-- The service with a client that watches crawl `c`. -/
structure Watching (T : CrawlTask) where
  system : System T := {}
  stream : Option EventStream := none

inductive WatchingAct (T : CrawlTask)
  | system (a : SystemAct T)
  | connect
  | read
  | wake

section
variable {T : CrawlTask} {settings : Settings} {c : CrawlId}

def watchingStep (settings : Settings) (c : CrawlId) (s : Watching T) :
    WatchingAct T → Option (Watching T)
  | .system a => (s.system.step settings a).map fun system => { s with system }
  | .connect =>
    -- `get_or_404`
    match s.stream, s.system.store.db.get c with
    | none, some _ => some { s with stream := some {} }
    | _, _ => none
  | .read =>
    match s.stream with
    | some stream =>
      if stream.phase = .reading then
        some { s with stream := some (stream.round s.system.store.db c) }
      else none
    | none => none
  | .wake =>
    match s.stream with
    | some stream =>
      if stream.phase = .sleeping then
        some { s with stream := some { stream with phase := .reading } }
      else none
    | none => none

/-- What a stream has sent: a history of the crawl's row, and the end when the crawl is over. -/
structure EventStream.Tells (stream : EventStream) (rows : List Crawl) (current : Crawl) : Prop where
  sent : stream.sent = rows.map (fun row => .stats (CrawlOut.modelValidate row)) ++
    if stream.phase = .closed then [.ended] else []
  history : (rows ++ [current]).Pairwise Crawl.Precedes
  going : ∀ row ∈ rows.dropLast, row.state.terminal = false
  closed : stream.phase = .closed ↔ ∃ row, rows.getLast? = some row ∧ row.state.terminal = true

namespace EventStream
variable {stream : EventStream} {rows : List Crawl} {current : Crawl}

theorem Tells.all_going (h : stream.Tells rows current) (hopen : stream.phase ≠ .closed) :
    ∀ row ∈ rows, row.state.terminal = false := by
  intro row hrow
  cases hlast : rows.getLast? with
  | none =>
    rw [List.getLast?_eq_none_iff.mp hlast] at hrow
    cases hrow
  | some last =>
    have hne : last.state.terminal ≠ true := fun ht => hopen (h.closed.mpr ⟨last, hlast, ht⟩)
    have hrows : rows.dropLast ++ [last] = rows :=
      List.dropLast_append_getLast? last (Option.mem_def.mpr hlast)
    rw [← hrows, List.mem_append, List.mem_singleton] at hrow
    obtain hrow | rfl := hrow
    · exact h.going row hrow
    · exact Bool.eq_false_iff.mpr hne

/-- The row has gone on. -/
theorem Tells.later (h : stream.Tells rows current) {current' : Crawl}
    (hlater : current.Precedes current') : stream.Tells rows current' where
  sent := h.sent
  history := by
    have hhistory := List.pairwise_append.mp h.history
    refine List.pairwise_append.mpr ⟨hhistory.1, List.pairwise_singleton _ _, fun row hrow r hr => ?_⟩
    obtain rfl := List.mem_singleton.mp hr
    exact (hhistory.2.2 row hrow current (List.mem_singleton_self _)).trans hlater
  going := h.going
  closed := h.closed

theorem tells_connect (current : Crawl) : ({} : EventStream).Tells [] current where
  sent := rfl
  history := List.pairwise_singleton _ _
  going := fun row hrow => absurd hrow List.not_mem_nil
  closed := by
    constructor
    · intro h
      cases h
    · intro h
      obtain ⟨row, hrow, -⟩ := h
      cases hrow

theorem Tells.read (h : stream.Tells rows current) (hopen : stream.phase ≠ .closed) {db : Db}
    {id : CrawlId} (hget : db.get id = some current) :
    (stream.round db id).Tells (rows ++ [current]) current := by
  have hsent := h.sent
  rw [if_neg hopen, List.append_nil] at hsent
  have hhistory : ((rows ++ [current]) ++ [current]).Pairwise Crawl.Precedes := by
    refine List.pairwise_append.mpr ⟨h.history, List.pairwise_singleton _ _, fun row hrow r hr => ?_⟩
    obtain rfl := List.mem_singleton.mp hr
    obtain hrow | hrow := List.mem_append.mp hrow
    · exact (List.pairwise_append.mp h.history).2.2 row hrow r (List.mem_singleton_self _)
    · rw [List.mem_singleton.mp hrow]
      exact Crawl.Precedes.refl r
  have hgoing : ∀ row ∈ (rows ++ [current]).dropLast, row.state.terminal = false := by
    rw [List.dropLast_concat]
    exact h.all_going hopen
  simp only [EventStream.round, hget]
  cases hterminal : current.state.terminal with
  | true =>
    exact
      { sent := by simp [hsent]
        history := hhistory
        going := hgoing
        closed := by simp [hterminal] }
  | false =>
    exact
      { sent := by simp [hsent]
        history := hhistory
        going := hgoing
        closed := by simp [hterminal] }

/-- Who has received the end has received everything. -/
theorem Tells.whole (h : stream.Tells rows current) {sent : List StreamEvent}
    (hsent : sent <+: stream.sent) (hend : StreamEvent.ended ∈ sent) :
    stream.phase = .closed ∧
      sent = rows.map (fun row => .stats (CrawlOut.modelValidate row)) ++ [.ended] := by
  have hnone : StreamEvent.ended ∉ rows.map fun row => .stats (CrawlOut.modelValidate row) := by
    intro hmem
    obtain ⟨row, -, hrow⟩ := List.mem_map.mp hmem
    cases hrow
  have hwhole := h.sent
  by_cases hclosed : stream.phase = .closed
  · refine ⟨hclosed, ?_⟩
    rw [if_pos hclosed] at hwhole
    rw [hwhole] at hsent
    obtain hshort | hsame := List.prefix_concat_iff.mp hsent
    · exact hshort
    · exact absurd (hsame.subset hend) hnone
  · rw [if_neg hclosed, List.append_nil] at hwhole
    rw [hwhole] at hsent
    exact absurd (hsent.subset hend) hnone

/-- The row sent last is how the crawl ended. -/
theorem Tells.settled (h : stream.Tells rows current) (hclosed : stream.phase = .closed) :
    ∃ last, rows.getLast? = some last ∧ last.state.terminal = true ∧ last.Settled current := by
  obtain ⟨last, hlast, hterminal⟩ := h.closed.mp hclosed
  have hprecedes := (List.pairwise_append.mp h.history).2.2 last (List.mem_of_getLast? hlast)
    current (List.mem_singleton_self _)
  exact ⟨last, hlast, hterminal, hprecedes.settled hterminal⟩

end EventStream

/-- What holds of the service with a client that watches it. -/
structure WatchingInv (c : CrawlId) (s : Watching T) : Prop where
  system : System.RowsInv s.system
  stream : ∀ stream, s.stream = some stream → ∃ rows current,
    s.system.store.db.crawl.lookup c = some current ∧ stream.Tells rows current

theorem watchingInv_step {s s' : Watching T} {a : WatchingAct T} (h : WatchingInv c s)
    (hs : watchingStep settings c s a = some s') : WatchingInv c s' := by
  cases a with
  | system a =>
    simp only [watchingStep, Option.map_eq_some_iff] at hs
    obtain ⟨system, hsys, rfl⟩ := hs
    have hstep := System.step_cases hsys
    refine ⟨System.rowsInv_step h.system hstep, fun stream hstream => ?_⟩
    obtain ⟨rows, current, hrow, htells⟩ := h.stream stream hstream
    obtain ⟨current', hrow', hlater⟩ := System.precedes_step h.system hstep hrow
    exact ⟨rows, current', hrow', htells.later hlater⟩
  | connect =>
    simp only [watchingStep] at hs
    split at hs
    · rename_i crawl hnone hget
      cases hs
      refine ⟨h.system, fun stream hstream => ?_⟩
      obtain rfl := Option.some.inj hstream
      exact ⟨[], crawl, hget, EventStream.tells_connect crawl⟩
    · cases hs
  | read =>
    simp only [watchingStep] at hs
    split at hs
    · rename_i stream hstream
      split at hs
      · rename_i hreading
        cases hs
        obtain ⟨rows, current, hrow, htells⟩ := h.stream stream hstream
        refine ⟨h.system, fun stream' hstream' => ?_⟩
        obtain rfl := Option.some.inj hstream'
        exact ⟨_, current, hrow, htells.read (by simp [hreading]) hrow⟩
      · cases hs
    · cases hs
  | wake =>
    simp only [watchingStep] at hs
    split at hs
    · rename_i stream hstream
      split at hs
      · rename_i hsleeping
        cases hs
        obtain ⟨rows, current, hrow, htells⟩ := h.stream stream hstream
        refine ⟨h.system, fun stream' hstream' => ?_⟩
        obtain rfl := Option.some.inj hstream'
        have hopen : stream.phase ≠ .closed := by simp [hsleeping]
        refine ⟨rows, current, hrow, ?_, htells.history, htells.going, ?_⟩
        · rw [htells.sent, if_neg hopen, if_neg (by simp)]
        · rw [← htells.closed]
          simp [hsleeping]
      · cases hs
    · cases hs

theorem watchingInv_run {as : List (WatchingAct T)} {s : Watching T}
    (hrun : run (watchingStep settings c) {} as = some s) : WatchingInv c s := by
  refine run_invariant (P := WatchingInv c) (fun _ _ _ hi ht => watchingInv_step hi ht)
    ⟨⟨System.ownerInv_init, lifecycleInv_empty⟩, fun stream h => ?_⟩ hrun
  cases h

/-- How pydantic prints what the model does not take apart. -/
structure Printers where
  uuid : CrawlId → Text
  datetime : Instant → Text
  config : StoredConfig → Json
  stats : Summary → Json

/-- The `StrEnum` value. -/
def CrawlState.value : CrawlState → String
  | queued => "queued"
  | running => "running"
  | finished => "finished"
  | failed => "failed"
  | aborted => "aborted"

def errorJson (error : String) : Json := .string error.toList

/-- `model_dump_json`, before it is a text. -/
def CrawlOut.json (p : Printers) (crawl : CrawlOut) : Json :=
  .object [("id".toList, .string (p.uuid crawl.id)),
    ("seed".toList, .string crawl.seed),
    ("state".toList, .string crawl.state.value.toList),
    ("config".toList, p.config crawl.config),
    ("created_at".toList, .string (p.datetime crawl.createdAt)),
    ("started_at".toList, Json.ofOption (fun when => .string (p.datetime when)) crawl.startedAt),
    ("finished_at".toList, Json.ofOption (fun when => .string (p.datetime when)) crawl.finishedAt),
    ("attempts".toList, .number (.int crawl.attempts)),
    ("cancel_requested".toList, .bool crawl.cancelRequested),
    ("stats".toList, Json.ofOption p.stats crawl.stats),
    ("error".toList, Json.ofOption errorJson crawl.error)]

def StreamEvent.event (p : Printers) : StreamEvent → ServerSentEvents.Event
  | stats crawl => ⟨"stats".toList, (crawl.json p).dumps []⟩
  | ended => ⟨"end".toList, ['\x7b', '\x7d']⟩

/-- All that has been sent. -/
def EventStream.text (p : Printers) (stream : EventStream) : Text :=
  (stream.sent.map (StreamEvent.event p)).flatMap ServerSentEvents.Event.text

theorem StreamEvent.oneLine (p : Printers) (event : StreamEvent) : (event.event p).OneLine := by
  cases event with
  | stats crawl =>
    have hname : '\n' ∉ "stats".toList := by decide
    refine ⟨hname, fun h => ?_⟩
    have hpad : [].all Json.isPrintable = true := rfl
    have hprintable := List.all_eq_true.mp (Json.printable_dumps hpad (crawl.json p)) _ h
    cases hprintable
  | ended =>
    have hname : '\n' ∉ "end".toList := by decide
    have hdata : '\n' ∉ ['\x7b', '\x7d'] := by decide
    exact ⟨hname, hdata⟩

/-- Cut off anywhere, the text of a stream reads as the first of the events sent. -/
theorem EventStream.read_text (p : Printers) (stream : EventStream) {received : Text}
    (h : received <+: stream.text p) :
    ∃ sent, sent <+: stream.sent ∧
      ServerSentEvents.read received = sent.map (StreamEvent.event p) := by
  have honeLine : ∀ event ∈ stream.sent.map (StreamEvent.event p), event.OneLine := by
    intro event hevent
    obtain ⟨e, -, rfl⟩ := List.mem_map.mp hevent
    exact e.oneLine p
  have hread := ServerSentEvents.read_of_start honeLine h
  rw [List.prefix_iff_eq_take, ← List.map_take] at hread
  exact ⟨_, List.take_prefix _ _, hread⟩

/-- A client that has received `event: end`, in however much of the stream has reached it, has the
crawl's final state and error before it, and they stay what the service has stored. -/
theorem received_end_final (p : Printers) {as : List (WatchingAct T)} {s : Watching T}
    (hrun : run (watchingStep settings c) {} as = some s) {stream : EventStream}
    (hstream : s.stream = some stream) {received : Text} (hreceived : received <+: stream.text p)
    (hend : StreamEvent.ended.event p ∈ ServerSentEvents.read received) :
    ∃ before last json current,
      ServerSentEvents.read received = before ++ [last, StreamEvent.ended.event p] ∧
      last.name = "stats".toList ∧ Json.loads last.data = some json ∧
      s.system.store.db.crawl.lookup c = some current ∧ current.state.terminal = true ∧
      json.get "state" Json.text? = some current.state.value.toList ∧
      json.get "error" (Json.nullable Json.text?) = some (current.error.map String.toList) := by
  obtain ⟨rows, current, hrow, htells⟩ := (watchingInv_run hrun).stream stream hstream
  obtain ⟨sent, hsent, hread⟩ := stream.read_text p hreceived
  have hmem : StreamEvent.ended ∈ sent := by
    rw [hread] at hend
    obtain ⟨event, hevent, hsame⟩ := List.mem_map.mp hend
    cases event with
    | stats crawl => cases congrArg ServerSentEvents.Event.name hsame
    | ended => exact hevent
  obtain ⟨hclosed, hwhole⟩ := htells.whole hsent hmem
  obtain ⟨last, hlast, hterminal, hsettled⟩ := htells.settled hclosed
  have hrows : rows.dropLast ++ [last] = rows :=
    List.dropLast_append_getLast? last (Option.mem_def.mpr hlast)
  have hstate : current.state = last.state := hsettled.state_eq
  have herror : current.error = last.error := by
    rw [hsettled]
  refine ⟨(rows.dropLast.map fun row => .stats (CrawlOut.modelValidate row)).map
      (StreamEvent.event p), (StreamEvent.stats (CrawlOut.modelValidate last)).event p,
    (CrawlOut.modelValidate last).json p, current, ?_, rfl,
    Json.loads_dumps (fun c hc => absurd hc List.not_mem_nil) _, hrow, hstate ▸ hterminal, ?_, ?_⟩
  · rw [hread, hwhole, ← hrows]
    simp
  · rw [hstate]
    rfl
  · show (Json.ofOption errorJson last.error).nullable Json.text? = _
    rw [herror]
    cases last.error <;> rfl

end

/-! ## A crawl that is watched -/

/-- A client connects when the crawl has been created and reads its row then and at the end. -/
def watchedOnce : List (WatchingAct (CrawlTask.replay [examplePage ""])) :=
  (recordedTwice.take 1).map .system ++ [.connect, .read, .wake] ++
    (recordedTwice.drop 1).map .system ++ [.read]

theorem watchedOnce_closed : ∃ s stream,
    run (watchingStep ⟨100, toString⟩ 1) {} watchedOnce = some s ∧ s.stream = some stream ∧
      stream.phase = .closed ∧ stream.sent.length = 3 := by
  have hrun : (run (watchingStep ⟨100, toString⟩ 1) {} watchedOnce).any (fun s =>
      s.stream.any fun stream => decide (stream.phase = .closed ∧ stream.sent.length = 3)) =
        true := by
    decide +kernel
  obtain ⟨s, hs, hany⟩ := (Option.any_eq_true _ _).mp hrun
  obtain ⟨stream, hstream, hfacts⟩ := (Option.any_eq_true _ _).mp hany
  obtain ⟨hclosed, hlength⟩ := of_decide_eq_true hfacts
  exact ⟨s, stream, hs, hstream, hclosed, hlength⟩

/-- Printers that leave out what a client does not look into. -/
def briefPrinters : Printers where
  uuid id := Nat.toDigits 10 id
  datetime when := (Json.Literal.int when).chars
  config _ := .object []
  stats _ := .object []

theorem received_end_final_watchedOnce : ∃ s stream current json,
    run (watchingStep ⟨100, toString⟩ 1) {} watchedOnce = some s ∧ s.stream = some stream ∧
      s.system.store.db.crawl.lookup 1 = some current ∧
      Json.get "state" Json.text? json = some current.state.value.toList := by
  obtain ⟨s, stream, hs, hstream, hclosed, -⟩ := watchedOnce_closed
  obtain ⟨rows, current, -, htells⟩ := (watchingInv_run hs).stream stream hstream
  have hend : StreamEvent.ended.event briefPrinters ∈
      ServerSentEvents.read (stream.text briefPrinters) := by
    rw [EventStream.text, ServerSentEvents.read_text (fun event hevent => ?_)]
    · apply List.mem_map_of_mem
      rw [htells.sent, if_pos hclosed]
      simp
    · obtain ⟨e, -, rfl⟩ := List.mem_map.mp hevent
      exact e.oneLine briefPrinters
  obtain ⟨-, -, json, current, -, -, -, hrow, -, hstate, -⟩ :=
    received_end_final briefPrinters hs hstream List.prefix_rfl hend
  exact ⟨s, stream, current, json, hs, hstream, hrow, hstate⟩

end UrlCrawler
