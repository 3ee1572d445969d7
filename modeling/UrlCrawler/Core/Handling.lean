import UrlCrawler.Core.Crawler
import UrlCrawler.Library.Effects

/-! # What handling a page does

Handling a page, however it ends, leaves the configuration, the scope and the policy of the crawler
alone and adds to the frontier only links of that page that scope and policy allow. If nothing
raises, the page is reported once and every such link is seen.
-/
set_option autoImplicit false

namespace UrlCrawler.Crawler
open Effects
variable {d : Deps}

/-! ## The steps of a program -/

@[simp] theorem ends_raiseError {α : Type} {x : Except Exn α} {c : Crawler}
    {post : α → Crawler → Prop} {err : Exn → Crawler → Prop} :
    Ends (raiseError x) c post err ↔
      (∀ a, x = .ok a → post a c) ∧ ∀ e, x = .error e → err e c := by
  cases x with
  | error e => simp [raiseError]
  | ok a => simp [raiseError]

@[simp] theorem ends_report {page : PageResult} {c : Crawler} {post : PUnit → Crawler → Prop}
    {err : Exn → Crawler → Prop} :
    Ends (report d page) c post err ↔
      (d.reporter c.reports page = none → post ⟨⟩ { c with reports := c.reports ++ [page] }) ∧
        ∀ e, d.reporter c.reports page = some e → err e c := by
  unfold report
  rw [ends_bind, ends_get]
  cases d.reporter c.reports page with
  | none => simp
  | some e => simp

/-! ## What stays, and what is added to the frontier -/

/-- The crawler lets `_enqueue` add `url`. -/
def Admits (d : Deps) (c : Crawler) (url : Text) : Prop :=
  ∃ scope, c.scope = some scope ∧ allows d scope c.robots url = .ok true

/-- `c'` comes from `c` by following some of `links`. A page that trips the fuse stops the crawl
and aborts it. -/
structure Follows (d : Deps) (links : List Text) (c c' : Crawler) : Prop where
  config : c'.config = c.config
  scope : c'.scope = c.scope
  robots : c'.robots = c.robots
  frontier : Frontier.Grows d.unicode (fun url => url ∈ links ∧ c.Admits d url) c.frontier
    c'.frontier
  claimed : c'.claimed = c.claimed
  stopping : c.stopping = true → c'.stopping = true
  aborted : c.aborted = true → c'.aborted = true
  tripped : c'.stopping = true → c.stopping = true ∨ c'.aborted = true
  reports : c.reports <+: c'.reports

variable {links : List Text}

theorem Follows.refl (c : Crawler) : Follows d links c c :=
  ⟨rfl, rfl, rfl, .refl, rfl, id, id, .inl, List.prefix_rfl⟩

theorem Follows.trans {a b c : Crawler} (h : Follows d links a b) (h' : Follows d links b c) :
    Follows d links a c where
  config := h'.config.trans h.config
  scope := h'.scope.trans h.scope
  robots := h'.robots.trans h.robots
  frontier := h.frontier.trans (h'.frontier.mono fun url hurl => by
    obtain ⟨hmem, scope, hs, ha⟩ := hurl
    exact ⟨hmem, scope, h.scope ▸ hs, h.robots ▸ ha⟩)
  claimed := h'.claimed.trans h.claimed
  stopping := fun hc => h'.stopping (h.stopping hc)
  aborted := fun hc => h'.aborted (h.aborted hc)
  tripped := fun hc => (h'.tripped hc).elim
    (fun hb => (h.tripped hb).imp_right h'.aborted) .inr
  reports := h.reports.trans h'.reports

theorem report_follows (page : PageResult) : Within (Follows d links) (report d page) := by
  intro c
  rw [ends_report]
  exact ⟨fun _ => ⟨rfl, rfl, rfl, .refl, rfl, id, id, .inl, List.prefix_append _ _⟩,
    fun _ _ => Follows.refl c⟩

theorem countRetries_follows (attempts : ℕ) : Within (Follows d links) (countRetries attempts) :=
  within_modify fun _ => ⟨rfl, rfl, rfl, .refl, rfl, id, id, .inl, List.prefix_rfl⟩

theorem countFailed_follows (kind : FetchErrorKind) :
    Within (Follows d links) (countFailed kind) :=
  within_modify fun _ => ⟨rfl, rfl, rfl, .refl, rfl, id, id, .inl, List.prefix_rfl⟩

theorem countRedirect_follows : Within (Follows d links) countRedirect :=
  within_modify fun _ => ⟨rfl, rfl, rfl, .refl, rfl, id, id, .inl, List.prefix_rfl⟩

theorem countOk_follows : Within (Follows d links) countOk :=
  within_modify fun _ => ⟨rfl, rfl, rfl, .refl, rfl, id, id, .inl, List.prefix_rfl⟩

theorem countLinks_follows (found : List Text) : Within (Follows d links) (countLinks found) :=
  within_modify fun _ => ⟨rfl, rfl, rfl, .refl, rfl, id, id, .inl, List.prefix_rfl⟩

theorem checkFuse_follows (error : FetchError) : Within (Follows d links) (checkFuse error) := by
  refine within_modify fun c => ?_
  split
  · exact Follows.refl c
  · dsimp only
    split
    · exact ⟨rfl, rfl, rfl, .refl, rfl, id, id, .inl, List.prefix_rfl⟩
    · exact ⟨rfl, rfl, rfl, .refl, rfl, fun _ => rfl, fun _ => rfl, fun _ => .inr rfl, List.prefix_rfl⟩

theorem enqueueLinks_follows {scope : HostScope} : ∀ {rest : List Text} {c : Crawler},
    c.scope = some scope → rest ⊆ links →
      Ends (enqueueLinks d scope rest) c (fun _ c' => Follows d links c c')
        fun _ c' => Follows d links c c'
  | [], c, _, _ => Follows.refl c
  | link :: rest, c, hscope, hsub => by
      have hrest : rest ⊆ links := fun url hurl => hsub (List.mem_cons_of_mem _ hurl)
      rw [enqueueLinks]
      simp only [ends_bind, ends_get, ends_raiseError]
      refine ⟨fun allowed hallowed => ?_, fun _ _ => Follows.refl c⟩
      cases allowed with
      | false => exact enqueueLinks_follows hscope hrest
      | true =>
        simp only [if_true, ends_bind, ends_get, ends_raiseError, ends_modify]
        refine ⟨fun frontier hadd => ?_, fun _ _ => Follows.refl c⟩
        have hstep : Follows d links c { c with frontier } :=
          ⟨rfl, rfl, rfl, Frontier.add_grows
            ⟨hsub (List.mem_cons_self ..), scope, hscope, hallowed⟩ hadd, rfl, id, id, .inl,
            List.prefix_rfl⟩
        exact (enqueueLinks_follows (c := { c with frontier }) hscope hrest).mono
          (fun _ _ => hstep.trans) fun _ _ => hstep.trans

theorem enqueue_follows (found : List Text) (hsub : found ⊆ links) :
    Within (Follows d links) (enqueue d found) := by
  refine within_get fun c => ?_
  cases hscope : c.scope with
  | none => exact Follows.refl c
  | some scope =>
    rw [ends_bind]
    exact (enqueueLinks_follows hscope hsub).mono
      (fun _ _ h => h.trans ⟨rfl, rfl, rfl, .refl, rfl, id, id, .inl, List.prefix_rfl⟩) fun _ _ h => h

/-- The links a fetched page is reported with. -/
def foundLinks (d : Deps) (url : Text) : Except Exn FetchOutcome → List Text
  | .ok (.ok result) => (pageLinks d url result).toOption.getD []
  | _ => []

theorem handle_follows (url : Text) (outcome : FetchOutcome) :
    Within (Follows d (foundLinks d url (.ok outcome))) (handle d url outcome) := by
  have htrans : ∀ a b c : Crawler, Follows d (foundLinks d url (.ok outcome)) a b →
      Follows d (foundLinks d url (.ok outcome)) b c →
      Follows d (foundLinks d url (.ok outcome)) a c := fun _ _ _ => Follows.trans
  cases outcome with
  | error error =>
    exact within_bind htrans (countRetries_follows _) fun _ =>
      within_bind htrans (countFailed_follows _) fun _ =>
        within_bind htrans (report_follows _) fun _ => checkFuse_follows _
  | ok result =>
    refine within_bind htrans (countRetries_follows _) fun _ =>
      within_bind htrans (within_modify fun _ =>
        ⟨rfl, rfl, rfl, .refl, rfl, id, id, .inl, List.prefix_rfl⟩) fun _ => ?_
    intro c
    simp only [ends_bind, ends_raiseError]
    refine ⟨fun found hfound => ?_, fun _ _ => Follows.refl c⟩
    have hsub : found ⊆ foundLinks d url (.ok (.ok result)) := by
      simp [foundLinks, hfound, Except.toOption]
    have hrest : Within (Follows d (foundLinks d url (.ok (.ok result)))) (do
        countOk
        report d { url, status := some result.status, links := found }
        enqueue d found) :=
      within_bind htrans countOk_follows fun _ =>
        within_bind htrans (report_follows _) fun _ => enqueue_follows found hsub
    split
    · exact within_bind htrans countRedirect_follows (fun _ => hrest) c
    · exact within_bind htrans (countLinks_follows found) (fun _ => hrest) c

theorem handleUnexpected_follows (url : Text) (e : Exn) :
    Within (Follows d links) (handleUnexpected d url e) :=
  within_bind (R := Follows d links) (fun _ _ _ => Follows.trans) (countFailed_follows _) fun _ =>
    report_follows _

/-- However a worker's round ends, it only follows links of its page. -/
theorem work_follows (url : Text) (fetched : Except Exn FetchOutcome) :
    Within (Follows d (foundLinks d url fetched)) (work d url fetched) := by
  refine within_tryCatch (R := Follows d (foundLinks d url fetched)) (fun _ _ _ => Follows.trans)
    ?_ fun e => ?_
  · cases fetched with
    | error e => exact fun c => Follows.refl c
    | ok outcome => exact handle_follows url outcome
  · split
    · exact within_throw Follows.refl e
    · exact handleUnexpected_follows url e

/-! ## One report, and every link seen -/

/-- The key of `url` is seen. -/
def Seen (d : Deps) (c : Crawler) (url : Text) : Prop :=
  ∃ key ∈ c.frontier.seen, canonicalKey d.unicode url = .ok key

theorem Follows.seen {c c' : Crawler} (h : Follows d links c c') {url : Text} (hs : c.Seen d url) :
    c'.Seen d url := by
  obtain ⟨key, hkey, hok⟩ := hs
  exact ⟨key, h.frontier.seen_subset hkey, hok⟩

/-- The report of a page whose handling raised. -/
def internalError (url : Text) (e : Exn) : PageResult where
  url
  status := none
  links := []
  error := some { url, kind := .internal, status := none, message := e.text, attempts := 0 }

/-- The report of a page, by what fetching it ended in. -/
def reportOf (d : Deps) (url : Text) : Except Exn FetchOutcome → PageResult
  | .error e => internalError url e
  | .ok (.error error) => { url, status := error.status, links := [], error := some error }
  | .ok (.ok result) =>
    match pageLinks d url result with
    | .error e => internalError url e
    | .ok links => { url, status := some result.status, links }

@[simp] theorem reportOf_url (url : Text) (fetched : Except Exn FetchOutcome) :
    (reportOf d url fetched).url = url := by
  unfold reportOf
  split
  · rfl
  · rfl
  · split <;> rfl

/-- The page is reported, and those of its links that the crawler admits are seen. -/
structure Reported (d : Deps) (url : Text) (fetched : Except Exn FetchOutcome) (c c' : Crawler) :
    Prop where
  reports : c'.reports = c.reports ++ [reportOf d url fetched]
  seen : ∀ link ∈ foundLinks d url fetched, c.Admits d link → c'.Seen d link

theorem enqueueLinks_seen {scope : HostScope} : ∀ {rest : List Text} {c : Crawler},
    c.scope = some scope → Ends (enqueueLinks d scope rest) c
      (fun _ c' => c'.reports = c.reports ∧ ∀ link ∈ rest, c.Admits d link → c'.Seen d link)
      fun _ _ => True
  | [], c, _ => ⟨rfl, fun _ h => absurd h List.not_mem_nil⟩
  | link :: rest, c, hscope => by
      rw [enqueueLinks]
      simp only [ends_bind, ends_get, ends_raiseError]
      refine ⟨fun allowed hallowed => ?_, fun _ _ => trivial⟩
      have hadmits : c.Admits d link → allowed = true := by
        rintro ⟨scope', hscope', hlink⟩
        obtain rfl := Option.some.inj (hscope.symm.trans hscope')
        exact Except.ok.inj (hallowed.symm.trans hlink)
      cases allowed with
      | false =>
        refine Ends.mono (enqueueLinks_seen hscope) ?_ fun _ _ _ => trivial
        rintro - c' ⟨hreports, hseen⟩
        refine ⟨hreports, fun url hurl ha => ?_⟩
        rcases List.mem_cons.mp hurl with rfl | hurl
        · cases hadmits ha
        · exact hseen url hurl ha
      | true =>
        simp only [if_true, ends_bind, ends_get, ends_raiseError, ends_modify]
        refine ⟨fun frontier hadd => ?_, fun _ _ => trivial⟩
        have hnow : Seen d { c with frontier } link := Frontier.seen_of_add hadd
        have hfollows : Ends (enqueueLinks d scope rest) { c with frontier }
            (fun _ c' => Follows d rest { c with frontier } c')
            fun _ c' => Follows d rest { c with frontier } c' :=
          enqueueLinks_follows hscope (List.Subset.refl rest)
        refine Ends.mono (Ends.and (enqueueLinks_seen hscope) hfollows) ?_ fun _ _ _ => trivial
        rintro - c' ⟨⟨hreports, hseen⟩, hf⟩
        refine ⟨hreports, fun url hurl ha => ?_⟩
        rcases List.mem_cons.mp hurl with rfl | hurl
        · exact hf.seen hnow
        · exact hseen url hurl ha

theorem enqueue_seen (found : List Text) (c : Crawler) :
    Ends (enqueue d found) c
      (fun _ c' => c'.reports = c.reports ∧ ∀ link ∈ found, c.Admits d link → c'.Seen d link)
      fun _ _ => True := by
  unfold enqueue
  rw [ends_bind, ends_get]
  split
  · exact trivial
  · rename_i scope hscope
    rw [ends_bind]
    exact (enqueueLinks_seen hscope).mono (fun _ _ h => h) fun _ _ h => h

/-- A page that is handled without an exception is reported once, and its links are seen. -/
theorem handle_reported (url : Text) (outcome : FetchOutcome) (c : Crawler) :
    Ends (handle d url outcome) c
      (fun _ c' => Reported d url (.ok outcome) c c') fun _ _ => True := by
  cases outcome with
  | error error =>
    simp only [handle, countRetries, countFailed, checkFuse, ends_bind, ends_modify, ends_report]
    refine ⟨fun _ => ⟨?_, fun _ h => absurd h List.not_mem_nil⟩, fun _ _ => trivial⟩
    split
    · rfl
    · split <;> rfl
  | ok result =>
    simp only [handle, countRetries, ends_bind, ends_modify, ends_raiseError]
    refine ⟨fun found hfound => ?_, fun _ _ => trivial⟩
    have hlinks : foundLinks d url (.ok (.ok result)) = found := by
      simp [foundLinks, hfound, Except.toOption]
    have hreport : reportOf d url (.ok (.ok result)) =
        { url, status := some result.status, links := found } := by
      simp only [reportOf, hfound]
    split
    all_goals
      simp only [countRedirect, countLinks, countOk, ends_bind, ends_modify, ends_report]
      refine ⟨fun _ => (enqueue_seen found _).mono ?_ fun _ _ _ => trivial, fun _ _ => trivial⟩
      rintro - c' ⟨hreports, hseen⟩
      exact ⟨hreport ▸ hreports, hlinks ▸ hseen⟩

/-! ## Nothing raises -/

/-- The checks of `_enqueue` come to an answer about `link`. -/
def Decides (d : Deps) (c : Crawler) (link : Text) : Prop :=
  ∃ scope allowed, c.scope = some scope ∧ allows d scope c.robots link = .ok allowed ∧
    (allowed = true → ∃ key, canonicalKey d.unicode link = .ok key)

theorem enqueueLinks_total {scope : HostScope} : ∀ {rest : List Text} {c : Crawler},
    c.scope = some scope → (∀ link ∈ rest, c.Decides d link) →
      Ends (enqueueLinks d scope rest) c (fun _ _ => True) fun _ _ => False
  | [], _, _, _ => trivial
  | link :: rest, c, hscope, hdecides => by
      have hrest : ∀ link ∈ rest, c.Decides d link := fun url hurl =>
        hdecides url (List.mem_cons_of_mem _ hurl)
      obtain ⟨scope', allowed, hscope', hallowed, hkey⟩ := hdecides link (List.mem_cons_self ..)
      obtain rfl := Option.some.inj (hscope.symm.trans hscope')
      rw [enqueueLinks]
      simp only [ends_bind, ends_get, ends_raiseError, hallowed]
      refine ⟨fun allowed' h => ?_, fun _ h => by cases h⟩
      cases h
      cases allowed with
      | false => exact enqueueLinks_total hscope hrest
      | true =>
        obtain ⟨key, hkey⟩ := hkey rfl
        simp only [if_true, ends_bind, ends_get, ends_raiseError, ends_modify]
        refine ⟨fun frontier _ => enqueueLinks_total (c := { c with frontier }) hscope hrest,
          fun e he => ?_⟩
        rw [Frontier.add, hkey] at he
        cases he

theorem enqueue_total (found : List Text) {c : Crawler} {scope : HostScope}
    (hscope : c.scope = some scope) (hdecides : ∀ link ∈ found, c.Decides d link) :
    Ends (enqueue d found) c (fun _ _ => True) fun _ _ => False := by
  unfold enqueue
  rw [ends_bind, ends_get, hscope]
  dsimp only
  rw [ends_bind]
  exact (enqueueLinks_total hscope hdecides).mono (fun _ _ _ => trivial) fun _ _ h => h

section Silent
variable (hsilent : ∀ pages page, d.reporter pages page = none)
  (hquiet : ∀ url result, Quiet (pageLinks d url result))
include hsilent hquiet

/-- Where the reporter and the checks do not raise, handling a page raises only if its links cannot
be had, and before anything of it is reported. -/
theorem handle_raises (url : Text) (outcome : FetchOutcome) {c : Crawler} {scope : HostScope}
    (hscope : c.scope = some scope)
    (hdecides : ∀ link ∈ foundLinks d url (.ok outcome), c.Decides d link) :
    Ends (handle d url outcome) c (fun _ _ => True) fun e c' => e.brokenPipe = false ∧
      c'.reports = c.reports ∧ foundLinks d url (.ok outcome) = [] ∧
        reportOf d url (.ok outcome) = internalError url e := by
  cases outcome with
  | error error =>
    simp only [handle, countRetries, countFailed, checkFuse, ends_bind, ends_modify, ends_report,
      hsilent]
    exact ⟨fun _ => trivial, fun _ h => by cases h⟩
  | ok result =>
    simp only [handle, countRetries, ends_bind, ends_modify, ends_raiseError]
    refine ⟨fun found hfound => ?_, fun e he => ⟨hquiet url result e he, trivial, ?_, ?_⟩⟩
    · have hlinks : foundLinks d url (.ok (.ok result)) = found := by
        simp [foundLinks, hfound, Except.toOption]
      rw [hlinks] at hdecides
      split
      all_goals
        simp only [countRedirect, countLinks, countOk, ends_bind, ends_modify, ends_report, hsilent]
        exact ⟨fun _ => Ends.mono (enqueue_total found hscope hdecides) (fun _ _ h => h)
          fun _ _ h => h.elim, fun _ h => by cases h⟩
    · simp [foundLinks, he, Except.toOption]
    · simp only [reportOf, he]

omit hquiet in
theorem handleUnexpected_reported (url : Text) (e : Exn) (c : Crawler) :
    Ends (handleUnexpected d url e) c
      (fun _ c' => c'.reports = c.reports ++ [internalError url e]) fun _ _ => False := by
  simp only [handleUnexpected, countFailed, ends_bind, ends_modify, ends_report, hsilent]
  exact ⟨fun _ => rfl, fun _ h => by cases h⟩

/-- A worker's round then reports its page once and does not raise. -/
theorem work_reported (url : Text) {fetched : Except Exn FetchOutcome} (hf : Quiet fetched)
    {c : Crawler} {scope : HostScope} (hscope : c.scope = some scope)
    (hdecides : ∀ link ∈ foundLinks d url fetched, c.Decides d link) :
    Ends (work d url fetched) c (fun _ c' => Reported d url fetched c c') fun _ _ => False := by
  rw [work, ends_tryCatch]
  cases fetched with
  | error e =>
    simp only [raiseError, ends_bind, ends_throw]
    rw [if_neg (by simp [hf e rfl])]
    exact (handleUnexpected_reported hsilent url e c).mono
      (fun _ _ h => ⟨h, fun _ hlink => absurd hlink List.not_mem_nil⟩) fun _ _ h => h
  | ok outcome =>
    have hhandle := (handle_reported (d := d) url outcome c).and
      (handle_raises hsilent hquiet url outcome hscope hdecides)
    refine Ends.mono hhandle (fun _ _ h => h.1) ?_
    rintro e c' ⟨-, hpipe, hreports, hnone, hreport⟩
    rw [if_neg (by simp [hpipe])]
    refine (handleUnexpected_reported hsilent url e c').mono (fun _ c'' h => ⟨?_, ?_⟩)
      fun _ _ h => h
    · rw [h, hreports, hreport]
    · rw [hnone]
      exact fun _ hlink => absurd hlink List.not_mem_nil

end Silent

/-! ## Marking seed URLs -/

@[simp] theorem ends_markSeen {url : Text} {c : Crawler} {post : Bool → Crawler → Prop}
    {err : Exn → Crawler → Prop} :
    Ends (markSeen d url) c post err ↔
      (∀ new frontier, c.frontier.markSeen d.unicode url = .ok (new, frontier) →
        post new { c with frontier }) ∧
      ∀ e, c.frontier.markSeen d.unicode url = .error e → err e c := by
  unfold markSeen
  rw [ends_bind, ends_get, ends_bind, ends_raiseError]
  refine and_congr ?_ Iff.rfl
  exact ⟨fun h new frontier hm => h (new, frontier) hm, fun h marked hm => h marked.1 marked.2 hm⟩

/-- Following a redirect reports the hop and marks its target. -/
theorem ends_followRedirect (url target : Text) (result : FetchResult) (c : Crawler) :
    Ends (followRedirect d url result target) c
      (fun new c' => ∃ frontier, c.frontier.markSeen d.unicode target = .ok (new, frontier) ∧
        c'.frontier = frontier ∧ Follows d [] { c with frontier } c' ∧
        c'.reports = c.reports ++ [{ url, status := some result.status, links := [target] }] ∧
        c'.stopping = c.stopping)
      fun _ c' => Follows d [] c c' := by
  simp only [followRedirect, countRetries, countOk, countRedirect, ends_bind, ends_modify,
    ends_report, ends_markSeen]
  refine ⟨fun _ => ⟨fun new frontier hm => ⟨frontier, hm, rfl, ?_, trivial, trivial⟩, fun _ _ => ?_⟩,
    fun _ _ => ?_⟩
  · exact ⟨rfl, rfl, rfl, .refl, rfl, id, id, .inl, List.prefix_append _ _⟩
  · exact ⟨rfl, rfl, rfl, .refl, rfl, id, id, .inl, List.prefix_append _ _⟩
  · exact ⟨rfl, rfl, rfl, .refl, rfl, id, id, .inl, List.prefix_rfl⟩

end UrlCrawler.Crawler
