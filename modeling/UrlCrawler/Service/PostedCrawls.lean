import UrlCrawler.Service.Causes
import UrlCrawler.Service.CreateCrawl

/-! # Crawls that are posted

What `POST /crawls` stores can be run. The ranges that the request is checked for are those that
`CrawlConfig` asks for when a worker has claimed the crawl, so a worker never rejects a posted crawl,
and the crawler it starts has the values of the request.
-/
set_option autoImplicit false

namespace UrlCrawler
open Execution

/-- The configuration a request is for; what it does not say has its default. -/
structure CrawlCreate.Configures (body : CrawlCreate) (config : CrawlConfig) : Prop where
  concurrency : config.concurrency = body.concurrency
  timeout : config.timeout = body.timeout
  maxPages : config.maxPages = body.maxPages
  maxBytes : config.maxBytes = body.maxBytes
  respectRobots : config.respectRobots = body.respectRobots
  requestBudget : config.requestBudget = 60
  maxSeedRedirects : config.maxSeedRedirects = 5
  failureFuse : config.failureFuse = 20

theorem CrawlCreate.ofStored_toConfig (repr : ℚ → String) (body : CrawlCreate) :
    ∃ config, CrawlConfig.ofStored repr body.toConfig = .ok config ∧ body.Configures config := by
  obtain ⟨hconcurrency, -⟩ := body.concurrency_range
  obtain ⟨htimeout, hbudget⟩ := body.timeout_range
  obtain ⟨hbytes, -⟩ := body.maxBytes_range
  have hpages : ¬∃ m ∈ body.maxPages, m < 1 := by
    rintro ⟨m, hm, hless⟩
    have hpos := body.maxPages_pos m hm
    omega
  unfold CrawlConfig.ofStored toConfig
  dsimp only
  rw [dif_neg (by omega), dif_neg (not_le.mpr htimeout), dif_neg hpages, dif_neg (by omega),
    dif_neg (not_lt.mpr hbudget)]
  exact ⟨_, rfl, ⟨rfl, rfl, rfl, rfl, rfl, rfl, rfl, rfl⟩⟩

/-- A seed and a configuration that `create_crawl` has let pass. -/
def Posted (u : Unicode) (seed : Text) (config : StoredConfig) : Prop :=
  ∃ (getaddrinfo : Text → Lookup) (body : CrawlCreate), body.normalizedSeed u = .ok seed ∧
    privateHostReason u getaddrinfo seed = .ok none ∧ config = body.toConfig

theorem posted_of_createCrawl {u : Unicode} {getaddrinfo : Text → Lookup} {db db' : Db}
    {id : CrawlId} {now : Instant} {body : CrawlCreate} {crawl : Crawl}
    (h : createCrawl u getaddrinfo db id now body = .ok (.accepted crawl, db')) :
    Posted u crawl.seed crawl.config := by
  unfold createCrawl at h
  split at h
  · split at h <;> cases h
  · rename_i seed hseed
    split at h
    · cases h
    · cases h
    · rename_i hsafe
      split at h
      · cases h
      · cases h
        exact ⟨getaddrinfo, body, hseed, hsafe, rfl⟩

section
variable {T : CrawlTask} {settings : Settings} {u : Unicode}

/-- Crawls come in through `POST /crawls`. -/
def Posts (u : Unicode) (s : System T) : SystemAct T → Prop
  | .create id seed config now => ∃ (getaddrinfo : Text → Lookup) (body : CrawlCreate) (db' : Db),
      createCrawl u getaddrinfo s.store.db id now body =
        .ok (.accepted { id, seed, config, createdAt := now }, db')
  | _ => True

/-! ## New rows -/

namespace System

/-- Only the API's `create` brings a row. -/
theorem created_step {s s' : System T} {a : SystemAct T} (hs : s.step settings a = some s')
    {c : CrawlId} (hnone : s.store.db.crawl.lookup c = none) {row' : Crawl}
    (hrow' : s'.store.db.crawl.lookup c = some row') :
    ∃ seed config now, a = .create c seed config now ∧
      row' = { id := c, seed, config, createdAt := now } := by
  have hkept : ¬s'.store.db.crawl.lookup c = s.store.db.crawl.lookup c := by
    rw [hrow', hnone]
    exact Option.some_ne_none _
  have hcall : ∀ (call : Call) (store : Store) (reply : Reply),
      s.store.call call = some (store, reply) → s'.store = store →
      ∃ seed config now, call = .create c seed config now ∧
        row' = { id := c, seed, config, createdAt := now } := by
    rintro call store reply hstore rfl
    obtain ⟨-, hdb, -, -⟩ := call_spec hstore
    exact lookup_exec_none hnone (hdb ▸ hrow')
  cases a with
  | create id seed config now =>
    simp only [step, api, Option.map_eq_some_iff] at hs
    obtain ⟨⟨store, reply⟩, hstore, rfl⟩ := hs
    obtain ⟨seed', config', now', hsame, rfl⟩ := hcall _ store reply hstore rfl
    cases hsame
    exact ⟨seed, config, now, rfl, rfl⟩
  | requestCancel id now =>
    simp only [step, api, Option.map_eq_some_iff] at hs
    obtain ⟨⟨store, reply⟩, hstore, rfl⟩ := hs
    obtain ⟨_, _, _, hsame, -⟩ := hcall _ store reply hstore rfl
    cases hsame
  | beginReap id leaseMicros maxAttempts now =>
    simp only [step, Option.map_eq_some_iff] at hs
    obtain ⟨store, hstore, rfl⟩ := hs
    exact absurd (by rw [(lookup_beginReap hstore).1]) hkept
  | statement id =>
    simp only [step, Option.map_eq_some_iff] at hs
    obtain ⟨store, hstore, rfl⟩ := hs
    obtain ⟨_, _, _, _, _, hdb, _⟩ := statement_spec hstore
    exact absurd (by rw [hdb]) hkept
  | rollbackReap id =>
    simp only [step, Option.map_eq_some_iff] at hs
    obtain ⟨store, hstore, rfl⟩ := hs
    obtain rfl := Option.some.inj hstore
    exact absurd rfl hkept
  | commitReap id =>
    obtain ⟨tx, htx, hstore, -⟩ := commitReap_spec hs
    obtain ⟨tx', htx', -, hcrawl, -⟩ := UrlCrawler.commitReap_spec hstore
    rw [hcrawl, hnone] at hrow'
    cases hrow'
  | claimCommit worker skip want now =>
    simp only [step, claimCommit] at hs
    split at hs
    · rename_i store row hworker hstore
      obtain rfl := Option.some.inj hs
      obtain ⟨_, _, _, hsame, -⟩ := hcall _ store _ hstore rfl
      cases hsame
    · rename_i store hworker hstore
      obtain rfl := Option.some.inj hs
      obtain ⟨_, _, _, hsame, -⟩ := hcall _ store _ hstore rfl
      cases hsame
    · cases hs
  | commit worker slot now =>
    simp only [step, commit] at hs
    split at hs
    · cases hs
    · rename_i call hissued
      obtain ⟨⟨store, reply⟩, hstore, rfl⟩ := Option.map_eq_some_iff.mp hs
      obtain ⟨_, _, _, rfl, -⟩ := hcall _ store reply hstore rfl
      obtain ⟨_, _, -, habout, -⟩ := issued_spec hissued
      cases habout
  | crash worker =>
    obtain rfl := Option.some.inj hs
    exact absurd rfl hkept
  | claim worker | claimReturned worker | claimRaised worker =>
    simp only [step, alive, claimReturned, claimRaised] at hs
    split at hs
    · cases hs
    · split at hs <;> cases hs <;> exact absurd rfl hkept
  | job worker b =>
    simp only [step, alive, job] at hs
    split at hs
    · cases hs
    · split at hs
      · obtain ⟨_, _, rfl⟩ := Option.map_eq_some_iff.mp hs
        exact absurd rfl hkept
      · cases hs
  | record worker b =>
    simp only [step, alive, record] at hs
    split at hs
    · cases hs
    · split at hs
      · obtain ⟨_, _, rfl⟩ := Option.map_eq_some_iff.mp hs
        exact absurd rfl hkept
      · cases hs

/-- A row keeps its seed and its configuration. -/
theorem rowMove_posted {row row' : Crawl} (h : RowMove row row') :
    row'.seed = row.seed ∧ row'.config = row.config := by
  obtain hstep | ⟨tx, u, hu, -, rfl⟩ := h
  · cases hstep <;> exact ⟨rfl, rfl⟩
  · simp only [ReapTx.statements, reapStatements, List.mem_cons, List.not_mem_nil, or_false] at hu
    obtain rfl | rfl | rfl := hu <;> exact ⟨rfl, rfl⟩

/-! ## All that is stored has been posted -/

structure PostedInv (u : Unicode) (s : System T) : Prop where
  rows : RowsInv s
  stored : ∀ c row, s.store.db.crawl.lookup c = some row → Posted u row.seed row.config
  claimed : ∀ worker crawl n, s.workers worker = .claimed (some crawl) n →
    Posted u crawl.seed crawl.config

theorem postedInv_init : PostedInv u ({} : System T) where
  rows := ⟨ownerInv_init, lifecycleInv_empty⟩
  stored := by intro c row h; cases h
  claimed := by intro worker crawl n h; cases h

theorem posted_stored {s s' : System T} {a : SystemAct T} (h : PostedInv u s) (hpost : Posts u s a)
    (hs : s.step settings a = some s') {c : CrawlId} {row' : Crawl}
    (hrow' : s'.store.db.crawl.lookup c = some row') : Posted u row'.seed row'.config := by
  cases hrow : s.store.db.crawl.lookup c with
  | none =>
    obtain ⟨seed, config, now, rfl, rfl⟩ := created_step hs hrow hrow'
    obtain ⟨getaddrinfo, body, db', hcreate⟩ := hpost
    exact posted_of_createCrawl hcreate
  | some row =>
    obtain ⟨row₁, hrow₁, hmove⟩ := row_moves h.rows.owner.pages.fence (step_cases hs) hrow
    obtain rfl := Option.some.inj (hrow'.symm.trans hrow₁)
    obtain ⟨hseed, hconfig⟩ := rowMove_posted hmove
    rw [hseed, hconfig]
    exact h.stored c row hrow

theorem postedInv_step {s s' : System T} {a : SystemAct T} (h : PostedInv u s) (hpost : Posts u s a)
    (hs : s.step settings a = some s') : PostedInv u s' where
  rows := rowsInv_step h.rows (step_cases hs)
  stored _ _ hrow' := posted_stored h hpost hs hrow'
  claimed := by
    intro worker crawl n hw
    obtain hkept | hrow := claimed_step hs hw
    · exact h.claimed worker crawl n hkept
    · exact posted_stored h hpost hs hrow

theorem postedInv_run {as : List (SystemAct T)} {s : System T}
    (hposts : Meets (step settings) (Posts u) {} as) (hrun : run (step settings) {} as = some s) :
    PostedInv u s :=
  hposts.invariant (fun _ _ _ hi hpost hs => postedInv_step hi hpost hs) postedInv_init hrun

end System

variable (T settings) in
/-- What `run_job` makes of a posted crawl. -/
theorem runJob_posted {crawl : Crawl} (h : Posted u crawl.seed crawl.config) (lease : ℕ) :
    ∃ body config, crawl.config = CrawlCreate.toConfig body ∧ body.Configures config ∧
      runJob T settings crawl lease = .running
        { crawl := crawl.id, lease, task := T.start config crawl.seed,
          reporter := { batchSize := settings.pageBatchSize } } := by
  obtain ⟨_, body, -, -, hconfig⟩ := h
  obtain ⟨config, hstored, hconfigures⟩ := body.ofStored_toConfig settings.repr
  refine ⟨body, config, hconfig, hconfigures, ?_⟩
  rw [runJob, hconfig, hstored]

/-- In a service whose crawls are posted, a worker never rejects the crawl it has claimed: it starts a
crawler with the seed and the values of the request. A crawl that has failed did so because its crawler
came to an end, or because a reap gave it up. -/
theorem posted_started {as : List (SystemAct T)} {s : System T}
    (hposts : Meets (System.step settings) (Posts u) {} as)
    (hrun : run (System.step settings) {} as = some s) :
    (∀ worker crawl n s', s.workers worker = .claimed (some crawl) n →
      s.step settings (.claimReturned worker) = some s' →
        ∃ body config job, crawl.config = CrawlCreate.toConfig body ∧ body.Configures config ∧
          s'.workers worker = .running job ∧ job.crawl = crawl.id ∧ job.lease = n ∧
          job.task = T.start config crawl.seed) ∧
    ∀ c row, s.store.db.crawl.lookup c = some row → row.state = .failed →
      (∃ result, (s.history c (s.leases c)).result = some result) ∨
        row.error = some leaseLostError ∧
          Happened (System.step settings) (GaveUp c (s.leases c)) {} as := by
  have hinv := System.postedInv_run hposts hrun
  refine ⟨fun worker crawl n s' hw hs => ?_, fun c row hrow hfailed => ?_⟩
  · obtain ⟨body, config, hconfig, hconfigures, hjob⟩ :=
      runJob_posted T settings (hinv.claimed worker crawl n hw) n
    simp only [System.step, System.alive, System.claimReturned, hw, hjob] at hs
    split at hs
    · cases hs
    · obtain rfl := Option.some.inj hs
      exact ⟨body, config, _, hconfig, hconfigures, Function.update_self .., rfl, rfl, rfl⟩
  · obtain ⟨_, hcauses⟩ := System.causesInv_run hrun
    have hcause := hcauses.causes c row hrow (by rw [hfailed]; rfl)
    rw [hfailed] at hcause
    generalize herror : row.error = error at hcause
    cases hcause with
    | unwritten returned | seedError returned | raised returned => exact .inl ⟨_, returned⟩
    | rejected hrejected =>
      obtain ⟨_, body, -, -, hconfig⟩ := hinv.stored c row hrow
      obtain ⟨config, hstored, -⟩ := body.ofStored_toConfig settings.repr
      rw [hconfig, hstored] at hrejected
      cases hrejected
    | lost unowned hgaveUp => exact .inr ⟨rfl, hgaveUp⟩

end

/-- A request for a crawl with three workers. -/
def threeWorkers : CrawlCreate where
  seed := "http://example.com/".toList
  concurrency := 3
  maxPages_pos := CrawlConfig.uncapped_pos

/-- It is posted, claimed and about to be started. -/
def postedOnce : List (SystemAct (CrawlTask.replay [examplePage ""])) :=
  [.create 1 threeWorkers.seed threeWorkers.toConfig 0, .claim "host:1",
    .claimCommit "host:1" [] 1 1]

theorem posted_started_once :
    ∃ s s' crawl body config job, run (System.step ⟨100, toString⟩) {} postedOnce = some s ∧
      s.workers "host:1" = .claimed (some crawl) 1 ∧
      s.step ⟨100, toString⟩ (.claimReturned "host:1") = some s' ∧
      s'.workers "host:1" = .running job ∧ crawl.config = CrawlCreate.toConfig body ∧
      body.Configures config := by
  have hseed : threeWorkers.normalizedSeed .ascii = .ok threeWorkers.seed := by decide +kernel
  have hsafe : privateHostReason .ascii publicResolver threeWorkers.seed = .ok none := by
    decide +kernel
  let created : Crawl :=
    { id := 1, seed := threeWorkers.seed, config := threeWorkers.toConfig, createdAt := 0 }
  have hcreate : ∃ db', createCrawl .ascii publicResolver Db.empty 1 0 threeWorkers =
      .ok (.accepted created, db') := by
    have hnew : (Db.empty.create 1 threeWorkers.seed threeWorkers.toConfig 0).isSome = true := rfl
    obtain ⟨db', hdb'⟩ := Option.isSome_iff_exists.mp hnew
    refine ⟨db', ?_⟩
    rw [createCrawl, hseed]
    dsimp only
    rw [hsafe]
    dsimp only
    rw [hdb']
  have hposts : Meets (System.step ⟨100, toString⟩) (Posts .ascii) {} postedOnce := by
    obtain ⟨db', hdb'⟩ := hcreate
    exact ⟨⟨publicResolver, threeWorkers, db', hdb'⟩, fun _ _ => ⟨trivial, fun _ _ =>
      ⟨trivial, fun _ _ => trivial⟩⟩⟩
  have hrun : (run (System.step ⟨100, toString⟩) {} postedOnce).any (fun s =>
      decide ((s.workers "host:1").lease = some (1, 1)) &&
      (s.step ⟨100, toString⟩ (.claimReturned "host:1")).isSome) = true := by
    decide +kernel
  obtain ⟨s, hs, hfacts⟩ := (Option.any_eq_true _ _).mp hrun
  obtain ⟨hlease, hnext⟩ := (Bool.and_eq_true _ _).mp hfacts
  replace hlease := of_decide_eq_true hlease
  obtain ⟨s', hs'⟩ := Option.isSome_iff_exists.mp hnext
  have hclaimed : ∃ crawl, s.workers "host:1" = .claimed (some crawl) 1 := by
    have halive := System.alive_some hs'
    unfold System.claimReturned at halive
    split at halive
    · rename_i hw
      rw [hw] at hlease
      cases hlease
    · rename_i crawl n hw
      rw [hw] at hlease
      have hsame : (crawl.id, n) = (1, 1) := Option.some.inj hlease
      obtain ⟨-, rfl⟩ := Prod.mk.inj hsame
      exact ⟨crawl, hw⟩
    · cases halive
  obtain ⟨crawl, hw⟩ := hclaimed
  obtain ⟨hstarts, -⟩ := posted_started hposts hs
  obtain ⟨body, config, job, hconfig, hconfigures, hjob, -⟩ := hstarts _ _ _ s' hw hs'
  exact ⟨s, s', crawl, body, config, job, hs, hw, hs', hjob, hconfig, hconfigures⟩

end UrlCrawler
