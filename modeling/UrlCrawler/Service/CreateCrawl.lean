import UrlCrawler.Core.Origin
import UrlCrawler.Service.HostCheck
import UrlCrawler.Service.Repository

/-! # Posting a seed

`POST /crawls` (`url_crawler_service/api.py`, `url_crawler_service/schemas.py`). A seed that cannot be
crawled is answered with 422, but only if it is refused in one of the ways the handler expects:
`private_host_reason` takes the URL apart without a `try`, and asks the resolver with one for `OSError`
alone.
-/
set_option autoImplicit false

namespace UrlCrawler

/-- The body of the request; pydantic has checked the ranges. -/
structure CrawlCreate where
  seed : Text
  concurrency : ℤ := 10
  timeout : ℚ := 10
  maxPages : Option ℤ := none
  maxBytes : ℤ := 5000000
  respectRobots : Bool := true
  concurrency_range : 1 ≤ concurrency ∧ concurrency ≤ 50 := by decide
  timeout_range : 0 < timeout ∧ timeout ≤ 60 := by decide
  maxPages_pos : ∀ m, maxPages = some m → 1 ≤ m := by decide
  maxBytes_range : 1 ≤ maxBytes ∧ maxBytes ≤ 100000000 := by decide

/-- `MAX_SEED_IN_ERROR`. -/
def maxSeedInError : ℕ := 200

def CrawlCreate.normalizedSeed (u : Unicode) (body : CrawlCreate) : Except Exn Text :=
  (prepareSeed u body.seed).bind fun prepared =>
    match normalize u prepared with
    | none => .error (.valueError
        (u.repr (body.seed.take maxSeedInError) ++ " is not a crawlable http(s) URL".toList))
    | some normalized => .ok normalized

def CrawlCreate.toConfig (body : CrawlCreate) : StoredConfig where
  concurrency := body.concurrency
  timeout := body.timeout
  maxPages := body.maxPages
  maxBytes := body.maxBytes
  respectRobots := body.respectRobots

/-- What the handler answers: 202 with the crawl, or 422 with what is wrong with the seed. -/
inductive CreateReply
  | accepted (crawl : Crawl)
  | rejected (seed : Text)

/-- `isinstance(exc, ValueError)`. -/
def Exn.isValueError (e : Exn) : Bool := e.type = "ValueError" || e.type = "UnicodeError"

/-- `create_crawl`, with the id and the time of the row it inserts. -/
def createCrawl (u : Unicode) (getaddrinfo : Text → Lookup) (db : Db) (id : CrawlId) (now : Instant)
    (body : CrawlCreate) : Except Exn (CreateReply × Db) :=
  match body.normalizedSeed u with
  | .error e => if e.isValueError then .ok (.rejected e.text.toList, db) else .error e
  | .ok seed =>
    match privateHostReason u getaddrinfo seed with
    | .error e => .error e
    | .ok (some rejected) => .ok (.rejected rejected, db)
    | .ok none =>
      match db.create id seed body.toConfig now with
      | none => .error ⟨"IntegrityError", "duplicate key value violates unique constraint"⟩
      | some db' => .ok (.accepted { id, seed, config := body.toConfig, createdAt := now }, db')

/-! ## The answer owed -/

/-- A crawl of the seed was let pass and queued, as the one row added. -/
structure Accepts (u : Unicode) (getaddrinfo : Text → Lookup) (body : CrawlCreate) (db db' : Db)
    (crawl : Crawl) : Prop where
  seed : ∃ prepared, prepareSeed u body.seed = .ok prepared ∧ normalize u prepared = some crawl.seed
  safe : privateHostReason u getaddrinfo crawl.seed = .ok none
  queued : crawl.state = .queued
  added : db'.crawl.rows = db.crawl.rows ++ [crawl] ∧ db'.page = db.page

/-- 202 for a crawl that was queued, or 422 and nothing done. -/
def Answered (u : Unicode) (getaddrinfo : Text → Lookup) (body : CrawlCreate) (db : Db)
    (outcome : Except Exn (CreateReply × Db)) : Prop :=
  (∃ crawl db', outcome = .ok (.accepted crawl, db') ∧ Accepts u getaddrinfo body db db' crawl) ∨
    ∃ reason, outcome = .ok (.rejected reason, db)

/-- The `idna` codec, through which the resolver sends a host, refuses empty and long labels. It refuses
other hosts as well, of which nothing is said here. -/
def Idna (getaddrinfo : Text → Lookup) : Prop :=
  ∀ host, host ≠ [] → bareHost host = host →
    (∃ label ∈ host.splitOn '.', label = [] ∨ 63 < label.length) →
      ∃ text, getaddrinfo host = .unicodeError text

/-- The host of a seed, as `normalize` writes it, is taken apart again, and is no host that the resolver
cannot even ask for. -/
structure HostFits (u : Unicode) (getaddrinfo : Text → Lookup) (parts : SplitResult)
    (port : Option ℕ) : Prop where
  brackets : ':' ∈ parts.normalHost u ∨ '[' ∉ parts.normalHost u ∧ ']' ∉ parts.normalHost u
  netloc : checkNetloc u (authority (u.lower parts.scheme) (parts.normalHost u) port) = .ok ()
  encodes : asksFor (bareHost (parts.normalHost u)) = true →
    ∀ text, getaddrinfo (bareHost (parts.normalHost u)) ≠ .unicodeError text

variable {u : Unicode} {getaddrinfo : Text → Lookup}

theorem quiet_resolve {lookup : Lookup} :
    (∃ reason, lookupReason lookup = .ok reason) ↔ ∀ text, lookup ≠ .unicodeError text := by
  cases lookup with
  | osError => simp [lookupReason]
  | unicodeError text => simp [lookupReason]
  | addresses found => cases found <;> simp [lookupReason]

theorem resolveHost_eq_unicodeError {host : Text} {text : String} :
    resolveHost getaddrinfo host = .unicodeError text ↔ getaddrinfo host = .unicodeError text := by
  unfold resolveHost
  cases getaddrinfo host <;> simp

/-- The guard gives a verdict unless it cannot take the URL apart, or the resolver the host. -/
theorem privateHostReason_ok_iff {url : Text} {parts : SplitResult} (h : urlsplit u url = .ok parts) :
    (∃ reason, privateHostReason u getaddrinfo url = .ok reason) ↔
      (asksFor (bareHost ((parts.hostname u).getD [])) = true → ∀ text,
        getaddrinfo (bareHost ((parts.hostname u).getD [])) ≠ .unicodeError text) := by
  rw [privateHostReason, h]
  simp only [Except.bind]
  generalize bareHost ((parts.hostname u).getD []) = host
  have hasks : asksFor host = (decide (host ≠ []) && !isLocalHost host && (ipAddress host).isNone) :=
    rfl
  by_cases hempty : host = []
  · rw [if_pos hempty]
    refine iff_of_true ⟨_, rfl⟩ fun h => ?_
    rw [hasks] at h
    simp [hempty] at h
  rw [if_neg hempty]
  cases hlocal : isLocalHost host with
  | true =>
    rw [if_pos rfl]
    refine iff_of_true ⟨_, rfl⟩ fun h => ?_
    simp [hasks, hlocal] at h
  | false =>
    rw [if_neg Bool.false_ne_true]
    cases hliteral : ipAddress host with
    | some literal =>
      refine iff_of_true ⟨_, rfl⟩ fun h => ?_
      simp [hasks, hliteral] at h
    | none =>
      have hyes : asksFor host = true := by simp [hasks, hempty, hlocal, hliteral]
      simp only [hyes, true_implies, quiet_resolve, ne_eq, resolveHost_eq_unicodeError]

/-! ## Seeds that are answered -/

theorem normalizedSeed_eq_ok {body : CrawlCreate} {url : Text} : body.normalizedSeed u = .ok url ↔
    ∃ prepared, prepareSeed u body.seed = .ok prepared ∧ normalize u prepared = some url := by
  unfold CrawlCreate.normalizedSeed
  cases prepareSeed u body.seed with
  | error e => simp [Except.bind]
  | ok prepared => cases hn : normalize u prepared <;> simp [Except.bind, hn]

theorem isValueError_normalizedSeed {body : CrawlCreate} {e : Exn}
    (h : body.normalizedSeed u = .error e) : e.isValueError = true := by
  have hprepare : ∀ e', prepareSeed u body.seed = .error e' → e'.isValueError = true := by
    intro e' he
    unfold prepareSeed at he
    split at he
    · cases he
    · split at he
      · cases he
      · cases he
        rfl
  unfold CrawlCreate.normalizedSeed at h
  cases hp : prepareSeed u body.seed with
  | error e' =>
    rw [hp] at h
    cases h
    exact hprepare e hp
  | ok prepared =>
    rw [hp] at h
    cases hn : normalize u prepared with
    | none =>
      simp only [Except.bind, hn] at h
      cases h
      rfl
    | some url => simp [Except.bind, hn] at h

/-- The handler answers whenever there is no URL to look up, or the guard gives its verdict. -/
theorem answered_iff {db : Db} {id : CrawlId} (hid : db.get id = none) (now : Instant)
    (body : CrawlCreate) :
    Answered u getaddrinfo body db (createCrawl u getaddrinfo db id now body) ↔
      ∀ url, body.normalizedSeed u = .ok url →
        ∃ reason, privateHostReason u getaddrinfo url = .ok reason := by
  unfold createCrawl
  cases hseed : body.normalizedSeed u with
  | error e =>
    have herror := isValueError_normalizedSeed hseed
    refine iff_of_true (.inr ⟨e.text.toList, ?_⟩) fun url h => by cases h
    dsimp only
    rw [if_pos herror]
  | ok seed =>
    simp only [Except.ok.injEq, forall_eq']
    cases hguard : privateHostReason u getaddrinfo seed with
    | error e => simp [Answered]
    | ok reason =>
      refine iff_of_true ?_ ⟨reason, rfl⟩
      cases reason with
      | some rejected => exact .inr ⟨rejected, rfl⟩
      | none =>
        have hfree : db.crawl.lookup id = none := hid
        simp only [Db.create, hfree]
        refine .inl ⟨_, _, rfl, ?_⟩
        exact
          { seed := normalizedSeed_eq_ok.mp hseed
            safe := hguard
            queued := rfl
            added := by simp [KeyedTable.insertIgnore, hfree] }

/-- Every seed gets its answer exactly when the host of each seed that normalizes fits. -/
theorem createCrawl_answered {db : Db} {id : CrawlId} (hid : db.get id = none) (now : Instant)
    (body : CrawlCreate) :
    Answered u getaddrinfo body db (createCrawl u getaddrinfo db id now body) ↔
      ∀ prepared, prepareSeed u body.seed = .ok prepared → (normalize u prepared).isSome = true →
        ∃ parts port, urlsplit u (strip prepared) = .ok parts ∧ parts.port u = .ok port ∧
          HostFits u getaddrinfo parts port := by
  have hfits : ∀ prepared url, normalize u prepared = some url →
      ((∃ reason, privateHostReason u getaddrinfo url = .ok reason) ↔
        ∃ parts port, urlsplit u (strip prepared) = .ok parts ∧ parts.port u = .ok port ∧
          HostFits u getaddrinfo parts port) := by
    intro prepared url h
    obtain ⟨hcontrol, parts, port, hs, hport, hsome⟩ := normalize_eq_some.mp h
    obtain ⟨hsplits, hhost⟩ := splits_normalize_iff hcontrol hs hport hsome
    have hguard : (∃ reason, privateHostReason u getaddrinfo url = .ok reason) ↔
        HostFits u getaddrinfo parts port := by
      constructor
      · rintro ⟨reason, hreason⟩
        obtain ⟨parts', hs', -⟩ := bind_eq_ok.mp hreason
        have hverdict := (privateHostReason_ok_iff hs').mp ⟨reason, hreason⟩
        rw [hhost parts' hs', Option.getD_some] at hverdict
        obtain ⟨hbrackets, hnetloc⟩ := hsplits.mp ⟨parts', hs'⟩
        exact ⟨hbrackets, hnetloc, hverdict⟩
      · rintro ⟨hbrackets, hnetloc, hencodes⟩
        obtain ⟨parts', hs'⟩ := hsplits.mpr ⟨hbrackets, hnetloc⟩
        rw [privateHostReason_ok_iff hs', hhost parts' hs', Option.getD_some]
        exact hencodes
    rw [hguard]
    constructor
    · exact fun hfit => ⟨parts, port, hs, hport, hfit⟩
    · rintro ⟨parts', port', hs', hport', hfit⟩
      obtain rfl := Except.ok.inj (hs.symm.trans hs')
      obtain rfl := Except.ok.inj (hport.symm.trans hport')
      exact hfit
  rw [answered_iff hid]
  constructor
  · intro h prepared hprepared hsome
    obtain ⟨url, hurl⟩ := Option.isSome_iff_exists.mp hsome
    exact (hfits prepared url hurl).mp (h url (normalizedSeed_eq_ok.mpr ⟨prepared, hprepared, hurl⟩))
  · intro h url hseed
    obtain ⟨prepared, hprepared, hurl⟩ := normalizedSeed_eq_ok.mp hseed
    exact (hfits prepared url hurl).mpr (h prepared hprepared (by rw [hurl]; rfl))

/-- A resolver that finds every host it can ask for at one public address. -/
def publicResolver (host : Text) : Lookup :=
  if (host.splitOn '.').any (fun label => label = [] || 63 < label.length) then
    .unicodeError "label empty or too long"
  else .addresses ["93.184.216.34".toList]

theorem idna_publicResolver : Idna publicResolver := by
  intro host _ _ hlabel
  unfold publicResolver
  split
  · exact ⟨_, rfl⟩
  · rename_i hgood
    exact absurd (by simpa using hlabel) hgood

theorem createCrawl_answered_bare :
    Answered .ascii publicResolver { seed := "example.com".toList } Db.empty
        (createCrawl .ascii publicResolver Db.empty 1 0 { seed := "example.com".toList }) ↔
      ∀ prepared, prepareSeed .ascii "example.com".toList = .ok prepared →
        (normalize .ascii prepared).isSome = true →
          ∃ parts port, urlsplit .ascii (strip prepared) = .ok parts ∧
            parts.port .ascii = .ok port ∧ HostFits .ascii publicResolver parts port :=
  createCrawl_answered rfl 0 { seed := "example.com".toList }

/-- A seed with an empty label is neither queued nor refused. -/
theorem createCrawl_emptyLabel : Idna publicResolver ∧
    createCrawl .ascii publicResolver Db.empty 1 0 { seed := "http://a..b/".toList } =
      .error ⟨"UnicodeError", "label empty or too long"⟩ := by
  refine ⟨idna_publicResolver, ?_⟩
  have hseed : CrawlCreate.normalizedSeed .ascii { seed := "http://a..b/".toList } =
      .ok "http://a..b/".toList := by
    decide +kernel
  have hguard : privateHostReason .ascii publicResolver "http://a..b/".toList =
      .error ⟨"UnicodeError", "label empty or too long"⟩ := by
    decide +kernel
  rw [createCrawl, hseed]
  dsimp only
  rw [hguard]

end UrlCrawler
