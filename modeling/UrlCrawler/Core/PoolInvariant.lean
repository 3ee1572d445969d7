import UrlCrawler.Core.RunInvariant

/-! # The invariant in the pool

What the workers do keeps the invariant of a run, and so it holds in every state reached.
-/
set_option autoImplicit false

namespace UrlCrawler.CrawlRun
open Execution
variable {d : Deps} {s s' : CrawlRun}

theorem Pooled.mono (h : s.Pooled d) (hscope : s'.crawler.scope = s.crawler.scope)
    (hrobots : s'.crawler.robots = s.crawler.robots) {events : List Event}
    (hlog : s'.log = s.log ++ events) (hseed : ∀ e ∈ events, e.seedFetched? = none) :
    s'.Pooled d := by
  obtain ⟨url, hf, ⟨scope, hs, hurl⟩, hready⟩ := h
  have hnil : events.filterMap Event.seedFetched? = [] := List.filterMap_eq_nil_iff.mpr hseed
  refine ⟨url, ⟨hf.normalized, ?_, fun hg => ?_⟩, ⟨scope, hscope.trans hs, hurl⟩, ?_⟩
  · rw [hlog, seedUrls, List.filterMap_append, hnil, List.append_nil]
    exact hf.last
  · rw [hlog]
    exact List.mem_append_left _ (hf.passed hg)
  · rw [hlog, hscope, hrobots]
    exact List.mem_append_left _ hready

theorem Pooled.congr (h : s.Pooled d) (hscope : s'.crawler.scope = s.crawler.scope)
    (hrobots : s'.crawler.robots = s.crawler.robots) (hlog : s'.log = s.log) : s'.Pooled d :=
  h.mono hscope hrobots (hlog.trans (List.append_nil _).symm) (by simp)

/-! ## One worker changes its phase -/

theorem filterMap_set_perm {α β : Type} {l : List α} {i : ℕ} {x : α} (h : l[i]? = some x)
    (f : α → Option β) (y : α) : ∃ rest, (l.filterMap f).Perm ((f x).toList ++ rest) ∧
      ((l.set i y).filterMap f).Perm ((f y).toList ++ rest) := by
  obtain ⟨hi, rfl⟩ := List.getElem?_eq_some_iff.mp h
  have hcons : ∀ a, (a :: l.eraseIdx i).filterMap f =
      (f a).toList ++ (l.eraseIdx i).filterMap f := by
    intro a
    cases hfa : f a <;> simp [hfa]
  refine ⟨(l.eraseIdx i).filterMap f, ?_, ?_⟩
  · rw [← hcons]
    exact (List.getElem_cons_eraseIdx_perm hi).symm.filterMap f
  · rw [← hcons]
    exact (List.set_perm_cons_eraseIdx hi y).filterMap f

/-- What the other workers contribute to the URLs in progress and to those issued stays. -/
theorem setWorker_urls {w : ℕ} {phase : WorkerPhase} (hw : s.workers[w]? = some phase)
    (phase' : WorkerPhase) : ∃ busy issued,
      s.busy.Perm (phase.url?.toList ++ busy) ∧
      (s.setWorker w phase').busy.Perm (phase'.url?.toList ++ busy) ∧
      s.issued.Perm (phase.waiting?.toList ++ issued) ∧
      (s.setWorker w phase').issued.Perm (phase'.waiting?.toList ++ issued) := by
  obtain ⟨busy, hbusy, hbusy'⟩ := filterMap_set_perm hw WorkerPhase.url? phase'
  obtain ⟨waiting, hwaiting, hwaiting'⟩ := filterMap_set_perm hw WorkerPhase.waiting? phase'
  -- `issued` lists what waits in the seed chain first
  have hfront : ∀ urls : List Text,
      (s.phase.waiting ++ (urls ++ waiting) ++ s.fetchedUrls).Perm
        (urls ++ (s.phase.waiting ++ waiting ++ s.fetchedUrls)) := by
    intro urls
    rw [← List.append_assoc, ← List.append_assoc, ← List.append_assoc]
    exact ((List.perm_append_comm).append_right _).append_right _
  exact ⟨busy, s.phase.waiting ++ waiting ++ s.fetchedUrls, hbusy, hbusy',
    ((hwaiting.append_left _).append_right _).trans (hfront _),
    ((hwaiting'.append_left _).append_right _).trans (hfront _)⟩

/-- The core is kept if what is issued stays fresh, `join` counts right, and no URL comes in. -/
theorem Core.shift (h : s.Core d) (hscope : s'.crawler.scope = s.crawler.scope)
    (hrobots : s'.crawler.robots = s.crawler.robots)
    (hqueue : s'.crawler.frontier.queue ⊆ s.crawler.frontier.queue)
    (hbusy : s'.busy ⊆ s.crawler.frontier.queue ++ s.busy) (hlog : s'.log = s.log)
    (hfresh : s'.crawler.frontier.Fresh d.unicode s'.issued)
    (hunfinished : s'.crawler.frontier.unfinished =
      s'.crawler.frontier.queue.length + s'.busy.length) : s'.Core d where
  fresh := hfresh
  unfinished := hunfinished
  queued := fun url hurl => (h.queued url (hqueue hurl)).congr hscope hrobots
  processed := fun url hurl => by
    rcases List.mem_append.mp (hbusy hurl) with hold | hold
    · exact (h.queued url hold).congr hscope hrobots
    · exact (h.processed url hold).congr hscope hrobots
  fixed := by
    rw [hlog, hscope, hrobots]
    exact h.fixed
  log := hlog ▸ h.log

/-- A worker goes on with the URL it has. -/
theorem Core.keepUrl (h : s.Core d) {w : ℕ} {phase phase' : WorkerPhase}
    (hw : s.workers[w]? = some phase) (hurl : phase'.url? = phase.url?)
    (hwaiting : phase'.waiting? = phase.waiting?) : (s.setWorker w phase').Core d := by
  obtain ⟨busy, issued, hbusy, hbusy', hissued, hissued'⟩ := setWorker_urls hw phase'
  have hb : (s.setWorker w phase').busy.Perm s.busy := hbusy'.trans (hurl ▸ hbusy.symm)
  have hi : s.issued.Perm (s.setWorker w phase').issued := hissued.trans (hwaiting ▸ hissued'.symm)
  refine h.shift rfl rfl (List.Subset.refl _) (fun url hu => ?_) rfl
    (h.fresh.perm (hi.append_right _) (Finset.Subset.refl _)) ?_
  · exact List.mem_append_right _ (hb.mem_iff.mp hu)
  · rw [hb.length_eq]
    exact h.unfinished

/-- A worker takes a URL off the queue. -/
theorem Core.takeUrl (h : s.Core d) {w : ℕ} (hw : s.workers[w]? = some .ready) {url : Text}
    {c : Crawler} (hget : s.crawler.frontier.get = some (url, c.frontier))
    (hscope : c.scope = s.crawler.scope) (hrobots : c.robots = s.crawler.robots) :
    ({ s with crawler := c }.setWorker w (.locking url)).Core d := by
  obtain ⟨busy, issued, hbusy, hbusy', hissued, hissued'⟩ := setWorker_urls hw (.locking url)
  obtain ⟨hqueue, hunfinished, -⟩ := Frontier.get_spec hget
  refine h.shift hscope hrobots (fun next hnext => ?_) (fun next hnext => ?_) rfl
    ((h.fresh.get hget).perm (((hissued.cons url).trans hissued'.symm).append_right _)
      (Finset.Subset.refl _)) ?_
  · rw [hqueue]
    exact List.mem_cons_of_mem _ hnext
  · rw [hqueue]
    rcases List.mem_append.mp (hbusy'.mem_iff.mp hnext) with hmem | hmem
    · obtain rfl := List.mem_singleton.mp hmem
      exact List.mem_append_left _ (List.mem_cons_self ..)
    · exact List.mem_append_right _ (hbusy.mem_iff.mpr hmem)
  · have hcount := h.unfinished
    have hold := hbusy.length_eq
    have hnew := hbusy'.length_eq
    have hlength := congrArg List.length hqueue
    simp only [WorkerPhase.url?, Option.toList, List.nil_append, List.length_append,
      List.length_nil, List.length_cons] at hold hnew hlength
    show c.frontier.unfinished = c.frontier.queue.length + (s.setWorker w (.locking url)).busy.length
    omega

/-- A URL taken off the queue is dropped. -/
theorem Core.dropUrl (h : s.Core d) {url : Text} {c : Crawler}
    (hget : s.crawler.frontier.get = some (url, c.frontier))
    (hscope : c.scope = s.crawler.scope) (hrobots : c.robots = s.crawler.robots) :
    ({ s with crawler := c }.taskDone).Core d := by
  obtain ⟨hqueue, hunfinished, -⟩ := Frontier.get_spec hget
  have hfresh := (h.fresh.get hget).sublist (List.sublist_cons_self url s.issued)
  refine h.shift hscope hrobots (fun next hnext => ?_) (fun next hnext => ?_) rfl
    ⟨hfresh.distinct, hfresh.seen⟩ ?_
  · rw [hqueue]
    exact List.mem_cons_of_mem _ hnext
  · exact List.mem_append_right _ hnext
  · have hcount := h.unfinished
    have hlength := congrArg List.length hqueue
    rw [List.length_cons] at hlength
    show c.frontier.unfinished - 1 = c.frontier.queue.length + s.busy.length
    omega

/-- A worker is through with its URL. -/
theorem Core.releaseUrl (h : s.Core d) {w : ℕ} {phase phase' : WorkerPhase}
    (hw : s.workers[w]? = some phase) (hurl : phase.url?.isSome)
    (hurl' : phase'.url? = none) (hwaiting' : phase'.waiting? = none) :
    ((s.setWorker w phase').taskDone).Core d := by
  obtain ⟨url, hurl⟩ := Option.isSome_iff_exists.mp hurl
  obtain ⟨busy, issued, hbusy, hbusy', hissued, hissued'⟩ := setWorker_urls hw phase'
  rw [hurl] at hbusy
  rw [hurl', Option.toList_none, List.nil_append] at hbusy'
  rw [hwaiting', Option.toList_none, List.nil_append] at hissued'
  have hfresh := (h.fresh.perm (hissued.append_right _) (Finset.Subset.refl _)).sublist
    (List.sublist_append_right _ issued)
  have hfresh' := hfresh.perm (hissued'.symm.append_right _) (Finset.Subset.refl _)
  refine h.shift rfl rfl (List.Subset.refl _) (fun next hnext => ?_) rfl
    ⟨hfresh'.distinct, hfresh'.seen⟩ ?_
  · exact List.mem_append_right _
      (hbusy.mem_iff.mpr (List.mem_append_right _ (hbusy'.mem_iff.mp hnext)))
  · have hcount := h.unfinished
    have hold := hbusy.length_eq
    have hnew := hbusy'.length_eq
    simp only [Option.toList, List.length_append, List.length_singleton] at hold
    show s.crawler.frontier.unfinished - 1 =
      s.crawler.frontier.queue.length + (s.setWorker w phase').busy.length
    omega

/-- The pool requests URLs of the host that the guard of the seed let pass. -/
theorem Pooled.licensed (hp : s.Pooled d) {url : Text} (h : s.Admitted d url) {log : List Event}
    (hlog : s.log ⊆ log) : Licensed d log (.request url) := by
  intro hguard _
  obtain ⟨scope, hscope, -, hhost, -⟩ := h.scope
  obtain ⟨final, hf, ⟨anchor, hanchor, -, hfinal⟩, -⟩ := hp
  obtain rfl := Option.some.inj (hscope.symm.trans hanchor)
  exact ⟨final, hlog (hf.passed hguard), hhost.trans hfinal.symm⟩

/-- A worker sends its first request for a URL that waited for it. -/
theorem Core.poolFetch (h : s.Core d) (hp : s.Pooled d) {w : ℕ} {phase : WorkerPhase} {url : Text}
    (hw : s.workers[w]? = some phase) (hwaiting : phase.waiting? = some url)
    (hurl : phase.url? = some url) : (s.poolFetch w url).Core d := by
  obtain ⟨busy, issued, hbusy, hbusy', hissued, hissued'⟩ := setWorker_urls hw (.fetching url 1)
  rw [hurl] at hbusy
  rw [hwaiting] at hissued
  have hb : (s.poolFetch w url).busy.Perm s.busy := hbusy'.trans hbusy.symm
  have hi : s.issued.Perm (s.poolFetch w url).issued := by
    have hfetched :
        (s.poolFetch w url).issued = (s.setWorker w (.fetching url 1)).issued ++ [url] := by
      simp [CrawlRun.issued, CrawlRun.poolFetch, fetchedUrls, CrawlRun.note, setWorker,
        Event.fetched?]
    rw [hfetched]
    exact hissued.trans ((List.perm_append_comm).trans (hissued'.symm.append_right _))
  have hadmitted : s.Admitted d url := h.processed url (hbusy.mem_iff.mpr (List.mem_cons_self ..))
  have hfetch : Licensed d s.log (.fetch url true) := by
    obtain ⟨scope, hscope, hin, -, hallowed⟩ := hadmitted.scope
    obtain ⟨final, hf, ⟨anchor, hanchor, hfinal, -⟩, hready⟩ := hp
    obtain rfl := Option.some.inj (hscope.symm.trans hanchor)
    exact ⟨final, scope, s.crawler.robots, hscope ▸ hready, hf.last, hfinal, hin, hallowed⟩
  have hlog : (s.poolFetch w url).log = s.log ++ [.fetch url true] ++ [.request url] := by
    simp [CrawlRun.poolFetch, CrawlRun.note, setWorker]
  exact
    { fresh := h.fresh.perm (hi.append_right _) (Finset.Subset.refl _)
      unfinished := by
        rw [hb.length_eq]
        exact h.unfinished
      queued := h.queued
      processed := fun next hnext => h.processed next (hb.mem_iff.mp hnext)
      fixed := fun next scope policy hmem => by
        refine h.fixed next scope policy ?_
        simpa [hlog] using hmem
      log := by
        rw [hlog]
        exact (h.log.concat hfetch).concat
          (hp.licensed hadmitted (List.subset_append_left _ _)) }

/-! ## The step -/

theorem Inv.of_pool (h : s.Core d) (hp : s.Pooled d)
    (hphase : s.phase = .joining ∨ ∃ cancelled, s.phase = .leaving cancelled) : s.Inv d := by
  refine ⟨h, ?_⟩
  rcases hphase with hphase | ⟨cancelled, hphase⟩ <;> rw [hphase] <;> exact hp

theorem mem_busy {w : ℕ} {phase : WorkerPhase} {url : Text} (hw : s.workers[w]? = some phase)
    (hurl : phase.url? = some url) : url ∈ s.busy :=
  List.mem_filterMap.mpr ⟨phase, List.mem_of_getElem? hw, hurl⟩

theorem inv_guarded (h : s.Inv d) {reason : Option String} (hs : s.guarded reason = some s') :
    s'.Inv d := by
  unfold guarded at hs
  split at hs
  · rename_i url hops hphase
    obtain ⟨hun, hnormal⟩ : s.Unstarted ∧ Normalized d.unicode url := by
      have := h.phase
      rwa [hphase] at this
    split at hs <;> cases hs
    · exact inv_finish h.core _
    · have hcore : (s.note [.passed url]).Core d := h.core.note trivial rfl (by simp)
      refine inv_startFetch hcore (hun.note (by simp)) hops ?_ hnormal
        fun _ => List.mem_append_right _ (List.mem_singleton_self _)
      have hfresh := h.core.fresh
      rw [hun.issued, hphase] at hfresh
      have hfetched : (s.note [.passed url]).fetchedUrls = s.fetchedUrls := by
        rw [fetchedUrls, CrawlRun.note, List.filterMap_append]
        exact List.append_nil _
      rw [hfetched]
      exact hfresh
  · cases hs

theorem inv_attempted (hd : d.NormalLinks) (h : s.Inv d) {answer : Answer}
    (hs : s.attempted d answer = some s') : s'.Inv d := by
  unfold attempted at hs
  split at hs
  · rename_i url hops attempt hphase
    obtain ⟨hun, hf⟩ : s.Unstarted ∧ s.Fetched d url := by
      have := h.phase
      rwa [hphase] at this
    cases answer with
    | retry =>
      dsimp only at hs
      split at hs <;> cases hs
      have hcore : { s with phase := .fetching url hops (attempt + 1) }.Core d :=
        h.core.congr rfl rfl rfl (List.nil_sublist _) rfl rfl
      have hun₁ : { s with phase := .fetching url hops (attempt + 1) }.Unstarted :=
        ⟨hun.queue, hun.workers, hun.ready⟩
      have hf₁ : { s with phase := .fetching url hops (attempt + 1) }.Fetched d url :=
        ⟨hf.normalized, hf.last, hf.passed⟩
      exact ⟨hcore.note (fun hg _ => ⟨url, hf.passed hg, rfl⟩) rfl (by simp),
        hun₁.note (by simp), hf₁.note rfl⟩
    | fetched response =>
      cases hs
      exact inv_seedFetched hd h.core hun (by rw [hphase]; rfl) hf hops _
    | raised e =>
      cases hs
      exact inv_finish h.core _
  · cases hs

theorem inv_robotsGuarded (hd : d.NormalLinks) (h : s.Inv d) {reason : Option String}
    (hs : s.robotsGuarded d reason = some s') : s'.Inv d := by
  unfold robotsGuarded at hs
  split at hs
  · rename_i url result robotsUrl left hphase
    obtain ⟨hun, hf, ha⟩ : s.Unstarted ∧ s.Fetched d url ∧ s.Anchored d url := by
      have := h.phase
      rwa [hphase] at this
    split at hs <;> cases hs
    · exact inv_loaded hd h.core hun hf ha result _
    · have hcore : (s.note [.passed robotsUrl]).Core d := h.core.note trivial rfl (by simp)
      exact inv_robotsRequest hcore (hun.note (by simp)) (hf.note rfl) ha result left
        fun _ => List.mem_append_right _ (List.mem_singleton_self _)
  · cases hs

theorem inv_robotsAnswered (hd : d.NormalLinks) (h : s.Inv d) {answer : RobotsAnswer}
    (hs : s.robotsAnswered d answer = some s') : s'.Inv d := by
  unfold robotsAnswered at hs
  split at hs
  · rename_i url result robotsUrl left hphase
    obtain ⟨hun, hf, ha, -⟩ : s.Unstarted ∧ s.Fetched d url ∧ s.Anchored d url ∧
        (d.robotsGuard = true → .passed robotsUrl ∈ s.log) := by
      have := h.phase
      rwa [hphase] at this
    split at hs <;> cases hs
    · exact inv_finish h.core _
    · exact inv_loaded hd h.core hun hf ha result _
    · exact inv_robotsHop h.core hun hf ha result _ _
  · cases hs

theorem Inv.pooled (h : s.Inv d) (hphase : s.phase = .joining) : s.Pooled d := by
  have := h.phase
  rwa [hphase] at this

theorem claim_frame (c : Crawler) : (c.claim).2.frontier = c.frontier ∧
    (c.claim).2.scope = c.scope ∧ (c.claim).2.robots = c.robots ∧ (c.claim).2.config = c.config ∧
    (c.claim).2.reports = c.reports := by
  unfold Crawler.claim
  split
  · exact ⟨rfl, rfl, rfl, rfl, rfl⟩
  · split <;> exact ⟨rfl, rfl, rfl, rfl, rfl⟩

theorem claim_stats (c : Crawler) : (c.claim).2.stats = c.stats := by
  unfold Crawler.claim
  split
  · rfl
  · split <;> rfl

theorem inv_take (h : s.Inv d) {w : ℕ} (hs : s.take w = some s') : s'.Inv d := by
  unfold take at hs
  split at hs
  · rename_i url frontier hphase hw hget
    have hp := h.pooled hphase
    obtain ⟨hfrontier, hscope, hrobots, -⟩ := claim_frame { s.crawler with frontier }
    generalize hc : { s.crawler with frontier }.claim = claimed at hs hfrontier hscope hrobots
    obtain ⟨claim, crawler⟩ := claimed
    have hget' : s.crawler.frontier.get = some (url, crawler.frontier) := hfrontier ▸ hget
    have htaken := h.core.takeUrl hw hget' hscope hrobots
    have hpool : ({ s with crawler }.setWorker w (.locking url)).Pooled d :=
      hp.congr hscope hrobots rfl
    cases claim <;> cases hs
    · exact .of_pool (h.core.dropUrl hget' hscope hrobots) (hp.congr hscope hrobots rfl)
        (.inl hphase)
    · exact .of_pool htaken hpool (.inl hphase)
    · have hlt : w < s.workers.length := (List.getElem?_eq_some_iff.mp hw).1
      -- for the invariant the worker has passed the lock and the sleep
      have hthrough : ({ s with crawler }.setWorker w (.locking url)).poolFetch w url =
          { s with crawler }.poolFetch w url := by
        simp [CrawlRun.poolFetch, setWorker]
      have hlocking : ({ s with crawler }.setWorker w (.locking url)).workers[w]? =
          some (.locking url) := by
        simp [setWorker, hlt]
      have hfetch := htaken.poolFetch hpool hlocking rfl rfl
      rw [hthrough] at hfetch
      exact .of_pool hfetch (hpool.mono rfl rfl rfl (by simp [Event.seedFetched?])) (.inl hphase)
  · cases hs

theorem inv_locked (h : s.Inv d) {w : ℕ} (hs : s.locked w = some s') : s'.Inv d := by
  unfold locked at hs
  split at hs
  · rename_i url hphase hw
    split at hs <;> cases hs
    exact .of_pool (h.core.keepUrl hw rfl rfl) ((h.pooled hphase).congr rfl rfl rfl) (.inl hphase)
  · cases hs

theorem inv_slept (h : s.Inv d) {w : ℕ} (hs : s.slept w = some s') : s'.Inv d := by
  obtain ⟨url, hphase, hw, -, rfl⟩ := slept_some.mp hs
  have hp := h.pooled hphase
  exact .of_pool (h.core.poolFetch hp hw rfl rfl)
    (hp.mono rfl rfl rfl (by simp [Event.seedFetched?])) (.inl hphase)

theorem inv_worked (hd : d.NormalLinks) (h : s.Core d) (hp : s.Pooled d)
    (hphase : s.phase = .joining) {w attempt : ℕ} {url : Text}
    (hw : s.workers[w]? = some (.fetching url attempt)) (fetched : Except Exn FetchOutcome) :
    (s.worked d w url fetched).Inv d := by
  have hfollows := Crawler.work_follows (d := d) url fetched s.crawler
  unfold worked
  split
  · rename_i crawler hwork
    have hf := hfollows.of_ok hwork
    have hcore := h.follows (normalized_foundLinks hd) hf
    exact .of_pool (hcore.releaseUrl hw rfl rfl rfl)
      (hp.congr hf.scope hf.robots rfl) (.inl hphase)
  · rename_i e crawler hwork
    have hf := hfollows.of_error hwork
    have hcore := h.follows (normalized_foundLinks hd) hf
    have hfailed : { s with crawler, errors := s.errors ++ [e] }.Core d :=
      hcore.congr rfl rfl rfl (List.Sublist.refl _) rfl rfl
    exact .of_pool (hfailed.releaseUrl hw rfl rfl rfl)
      (hp.congr hf.scope hf.robots rfl) (.inl hphase)

theorem inv_workerAttempted (hd : d.NormalLinks) (h : s.Inv d) {w : ℕ} {answer : Answer}
    (hs : s.workerAttempted d w answer = some s') : s'.Inv d := by
  unfold workerAttempted at hs
  split at hs
  · rename_i url attempt hphase hw
    have hp := h.pooled hphase
    cases answer with
    | retry =>
      dsimp only at hs
      split at hs <;> cases hs
      have hkept : (s.setWorker w (.fetching url (attempt + 1))).Core d := h.core.keepUrl hw rfl rfl
      have hlicensed := hp.licensed (h.core.processed url (mem_busy hw rfl)) (List.Subset.refl _)
      exact .of_pool (hkept.note hlicensed rfl (by simp))
        (hp.mono rfl rfl rfl (by simp [Event.seedFetched?])) (.inl hphase)
    | fetched response =>
      cases hs
      exact inv_worked hd h.core hp hphase hw _
    | raised e =>
      cases hs
      exact inv_worked hd h.core hp hphase hw _
  · cases hs

theorem inv_leaving (h : s.Inv d) (hp : s.Pooled d) (cancelled : Bool) :
    { s with phase := .leaving cancelled }.Inv d :=
  ⟨h.core.congr rfl rfl rfl (List.nil_sublist _) rfl rfl, hp.congr rfl rfl rfl⟩

theorem inv_cancel (h : s.Inv d) (hs : s.cancel = some s') : s'.Inv d := by
  unfold cancel at hs
  have hphase := h.phase
  split at hs
  · cases hs
  · rename_i hjoining
    cases hs
    rw [hjoining] at hphase
    exact inv_leaving h hphase true
  · rename_i hleaving
    cases hs
    rw [hleaving] at hphase
    exact inv_leaving h hphase true
  · cases hs
    exact inv_finish h.core _

theorem Inv.pooled_of_cancelling (h : s.Inv d) (hc : s.cancelling) : s.Pooled d ∧
    (s.phase = .joining ∨ ∃ cancelled, s.phase = .leaving cancelled) := by
  have hphase := h.phase
  unfold cancelling at hc
  split at hc
  · rename_i cancelled heq
    rw [heq] at hphase
    exact ⟨hphase, .inr ⟨cancelled, heq⟩⟩
  · rename_i heq
    rw [heq] at hphase
    exact ⟨hphase, .inl heq⟩
  · cases hc

theorem inv_workerCancelled (h : s.Inv d) {w : ℕ} (hs : s.workerCancelled w = some s') :
    s'.Inv d := by
  unfold workerCancelled at hs
  split at hs
  · rename_i phase hw
    split at hs
    · cases hs
    · rename_i hlive
      obtain ⟨hp, hphase⟩ := h.pooled_of_cancelling (by simp_all)
      have hp₁ : (s.setWorker w .done).Pooled d := hp.congr rfl rfl rfl
      split at hs <;> cases hs
      · rename_i hurl
        exact .of_pool (h.core.releaseUrl hw hurl rfl rfl) (hp.congr rfl rfl rfl) hphase
      · rename_i hurl
        have hnone : phase.url? = none := by simpa using hurl
        have hwaiting : phase.waiting? = none := by
          cases phase <;> first | rfl | cases hnone
        exact .of_pool (h.core.keepUrl hw hnone.symm hwaiting.symm) hp₁ hphase
  · cases hs

theorem inv_left (h : s.Inv d) (hs : s.left = some s') : s'.Inv d := by
  unfold left at hs
  split at hs
  · split at hs <;> cases hs
    exact inv_finish h.core _
  · cases hs

theorem inv_step (hd : d.NormalLinks) (h : s.Inv d) {act : CrawlerAct}
    (hs : s.step d act = some s') : s'.Inv d := by
  cases act with
  | begin =>
    simp only [step] at hs
    split at hs <;> cases hs
    rename_i hphase
    exact inv_begin h hphase
  | guarded reason => exact inv_guarded h hs
  | guardRaised e =>
    simp only [step, guardRaised] at hs
    split at hs <;> cases hs
    exact inv_finish h.core _
  | attempted answer => exact inv_attempted hd h hs
  | robotsGuarded reason => exact inv_robotsGuarded hd h hs
  | robotsGuardRaised e =>
    simp only [step, robotsGuardRaised] at hs
    split at hs <;> cases hs
    exact inv_finish h.core _
  | robotsAnswered answer => exact inv_robotsAnswered hd h hs
  | take w => exact inv_take h hs
  | locked w => exact inv_locked h hs
  | slept w => exact inv_slept h hs
  | workerAttempted w answer => exact inv_workerAttempted hd h hs
  | joined =>
    simp only [step, joined] at hs
    split at hs
    · rename_i hphase
      split at hs <;> cases hs
      exact inv_leaving h (h.pooled hphase) false
    · cases hs
  | failed =>
    simp only [step, failed] at hs
    split at hs
    · rename_i hphase
      split at hs <;> cases hs
      exact inv_leaving h (h.pooled hphase) false
    · cases hs
  | cancel => exact inv_cancel h hs
  | workerCancelled w => exact inv_workerCancelled h hs
  | left => exact inv_left h hs

/-- The invariant holds in every state of every run. -/
theorem inv_reaches (hd : d.NormalLinks) {config : CrawlConfig} {seed : Text}
    (h : Reaches (step d) (create config seed) s) : s.Inv d :=
  h.invariant (inv_create config seed) fun _ _ _ hs hstep => inv_step hd hs hstep

end UrlCrawler.CrawlRun
