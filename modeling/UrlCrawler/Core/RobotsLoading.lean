import UrlCrawler.Core.Inflating
import UrlCrawler.Core.RobotsTxt
import UrlCrawler.Core.Robots

/-! # How the robots policy is loaded

`load_robots` with its requests. The guard, the servers and the client answer by the number of the request,
in any way; what is read of a body is what `read_bounded` makes of its chunks.
-/
set_option autoImplicit false

namespace UrlCrawler

/-- `MAX_ROBOTS_BYTES`. -/
def maxRobotsBytes : ℕ := 512000

/-! ## What the client gives back -/

/-- What the client raises: an `httpx.HTTPError`, or anything else. -/
inductive ClientError
  | http (text : String)
  | other (e : Exn)
deriving DecidableEq, Repr

/-- A response with its stream: the chunks, and what is raised after them. -/
structure RobotsResponse where
  status : ℕ
  location : Option Text := none
  contentEncoding : Text := []
  chunks : List (List UInt8) := []
  broken : Option ClientError := none

inductive ClientReply
  | response (r : RobotsResponse)
  | raised (error : ClientError)

/-- What `load_robots` meets: what the guard says of a URL, if there is a guard, and what a request for it
comes to, by the number of the request. -/
structure RobotsSite where
  guard : Option (ℕ → Text → Option String) := none
  client : ℕ → Text → ClientReply

/-- Why the guard stops request `n`, if it does. -/
def RobotsSite.blocked (site : RobotsSite) (n : ℕ) (url : Text) : Option String :=
  site.guard.bind fun guard => guard n url

section Source
variable {σ δ : Type} (u : Unicode) (z : Zlib σ) (float : Floats δ)

/-- What `read_bounded` ends in; a `DecodingError` is an `HTTPError`. -/
def RobotsResponse.read (r : RobotsResponse) : Except ClientError (List UInt8) :=
  match readResponse z u r.contentEncoding maxRobotsBytes r.chunks with
  | .error e => .error (.http e.text)
  | .ok (body, true) => .ok body
  | .ok (body, false) =>
    match r.broken with
    | none => .ok body
    | some error => .error error

/-- `_UnreachableError`, or an exception that escapes. -/
inductive RobotsFailure
  | unreachable (text : String)
  | raised (e : Exn)
deriving DecidableEq, Repr

def ClientError.failure : ClientError → RobotsFailure
  | .http text => .unreachable text
  | .other e => .raised e

/-- How a round of the loop of `_fetch_robots` ends, once the guard has let the URL pass. -/
inductive RobotsRound
  | hop (url : Text)
  | done (result : Except RobotsFailure (Option Text))
deriving DecidableEq

def robotsRound (url : Text) : ClientReply → RobotsRound
  | .raised error => .done (.error error.failure)
  | .response r =>
    if r.status ∈ redirectStatuses then
      match r.location with
      | none | some [] =>
        .done (.error (.unreachable ("redirect from " ++ String.ofList url ++ " without a location")))
      | some location =>
        match urljoin u url location with
        | .error e => .done (.error (.raised e))
        | .ok url => .hop url
    else if 500 ≤ r.status then .done (.error (.unreachable ("status " ++ toString r.status)))
    else if r.status ≠ 200 then .done (.ok none)
    else
      match r.read u z with
      | .error error => .done (.error error.failure)
      | .ok body =>
        match decodeRobots body with
        | none => .done (.error (.unreachable (String.ofList url ++ " is not valid utf-8")))
        | some text => .done (.ok (some text))

variable (site : RobotsSite)

/-- The loop of `_fetch_robots` from request `n` on, with `left` rounds to go: the URLs requested, and
what it ends in. -/
def fetchRobots (n : ℕ) (url : Text) : ℕ → List Text × Except RobotsFailure (Option Text)
  | 0 => ([], .error (.unreachable ("more than " ++ toString maxRobotsRedirects ++ " redirects")))
  | left + 1 =>
    match site.blocked n url with
    | some reason => ([], .error (.unreachable ("blocked: " ++ reason)))
    | none =>
      match robotsRound u z url (site.client n url) with
      | .done result => ([url], result)
      | .hop next =>
        let (later, result) := fetchRobots (n + 1) next left
        (url :: later, result)

/-- The policies of `load_robots`. -/
inductive LoadedPolicy (δ : Type)
  | allowAll
  | denyAll
  | robotsTxt (robots : RobotsTxt δ)
deriving DecidableEq

/-- The end of `load_robots`. -/
def policyOf (userAgent : Text) : Except RobotsFailure (Option Text) → Except Exn (LoadedPolicy δ)
  | .error (.unreachable _) => .ok .denyAll
  | .error (.raised e) => .error e
  | .ok none => .ok .allowAll
  | .ok (some body) => .ok (.robotsTxt (.new u float body userAgent))

def loadRobots (siteUrl userAgent : Text) : List Text × Except Exn (LoadedPolicy δ) :=
  match robotsUrl u siteUrl with
  | .error e => ([], .error e)
  | .ok url =>
    let (requests, result) := fetchRobots u z site 0 url (maxRobotsRedirects + 1)
    (requests, policyOf u float userAgent result)

end Source

/-! ## One request -/

section Round
variable {σ : Type} (u : Unicode) (z : Zlib σ)

/-- Where a redirect leads. -/
def hopTarget (url : Text) : ClientReply → Option Text
  | .raised _ => none
  | .response r =>
    if r.status ∈ redirectStatuses then
      (r.location.filter (· ≠ [])).bind fun location => (urljoin u url location).toOption
    else none

/-- A 200 with a readable body. -/
def Reads (reply : ClientReply) (text : Text) : Prop :=
  ∃ r body, reply = .response r ∧ r.status = 200 ∧ r.read u z = .ok body ∧ decodeRobots body = some text

/-- A status below 500 that is neither a redirect nor a 200. -/
def Absent (reply : ClientReply) : Prop :=
  ∃ r, reply = .response r ∧ r.status ∉ redirectStatuses ∧ r.status < 500 ∧ r.status ≠ 200

/-- The client or the stream raises what is no `HTTPError`, or a redirect has a malformed location. -/
def Raises (url : Text) (reply : ClientReply) : Prop :=
  (∃ e, reply = .raised (.other e)) ∨
    ∃ r, reply = .response r ∧
      ((r.status ∈ redirectStatuses ∧ ∃ location e, r.location = some location ∧ location ≠ [] ∧
        urljoin u url location = .error e) ∨
      (r.status = 200 ∧ ∃ e, r.read u z = .error (.other e)))

variable {u z} {url : Text} {reply : ClientReply}

theorem redirect_lt {status : ℕ} (h : status ∈ redirectStatuses) : status < 500 ∧ status ≠ 200 := by
  simp only [redirectStatuses, List.mem_cons, List.not_mem_nil, or_false] at h
  omega

theorem round_redirect {r : RobotsResponse} (h : r.status ∈ redirectStatuses) :
    robotsRound u z url (.response r) = match r.location.filter (· ≠ []) with
      | none =>
        .done (.error (.unreachable ("redirect from " ++ String.ofList url ++ " without a location")))
      | some location =>
        match urljoin u url location with
        | .error e => .done (.error (.raised e))
        | .ok next => .hop next := by
  rw [robotsRound, if_pos h]
  match r.location with
  | none => rfl
  | some [] => rfl
  | some (c :: rest) => rfl

theorem round_unavailable {r : RobotsResponse} (h : r.status ∉ redirectStatuses) (hlt : r.status < 500)
    (hne : r.status ≠ 200) : robotsRound u z url (.response r) = .done (.ok none) := by
  rw [robotsRound, if_neg h, if_neg (not_le.mpr hlt), if_pos hne]

theorem round_failed {r : RobotsResponse} (h : r.status ∉ redirectStatuses) (hge : 500 ≤ r.status) :
    robotsRound u z url (.response r) =
      .done (.error (.unreachable ("status " ++ toString r.status))) := by
  rw [robotsRound, if_neg h, if_pos hge]

theorem round_ok {r : RobotsResponse} (h : r.status = 200) :
    robotsRound u z url (.response r) = match r.read u z with
      | .error error => .done (.error error.failure)
      | .ok body =>
        match decodeRobots body with
        | none => .done (.error (.unreachable (String.ofList url ++ " is not valid utf-8")))
        | some text => .done (.ok (some text)) := by
  have hredirect : r.status ∉ redirectStatuses := fun hmem => (redirect_lt hmem).2 h
  rw [robotsRound, if_neg hredirect, if_neg (by omega), if_neg (by omega)]

/-- The four kinds of status. -/
theorem status_cases (r : RobotsResponse) :
    r.status ∈ redirectStatuses ∨ (r.status ∉ redirectStatuses ∧ 500 ≤ r.status) ∨
      (r.status ∉ redirectStatuses ∧ r.status < 500 ∧ r.status ≠ 200) ∨ r.status = 200 := by
  by_cases h : r.status ∈ redirectStatuses
  · exact .inl h
  · by_cases hok : r.status = 200
    · exact .inr (.inr (.inr hok))
    · exact .inr ((le_or_gt 500 r.status).imp (fun hge => ⟨h, hge⟩) fun hlt => .inl ⟨h, hlt, hok⟩)

/-- What it says of the request that its round ends so. -/
def RobotsRound.Means (u : Unicode) (z : Zlib σ) (url : Text) (reply : ClientReply) :
    RobotsRound → Prop
  | .hop next => hopTarget u url reply = some next ∧
      (∀ text, ¬Reads u z reply text) ∧ ¬Absent reply ∧ ¬Raises u z url reply
  | .done (.ok (some text)) => hopTarget u url reply = none ∧
      (∀ text', Reads u z reply text' ↔ text' = text) ∧ ¬Absent reply ∧ ¬Raises u z url reply
  | .done (.ok none) => hopTarget u url reply = none ∧
      (∀ text, ¬Reads u z reply text) ∧ Absent reply ∧ ¬Raises u z url reply
  | .done (.error (.unreachable _)) => hopTarget u url reply = none ∧
      (∀ text, ¬Reads u z reply text) ∧ ¬Absent reply ∧ ¬Raises u z url reply
  | .done (.error (.raised _)) => hopTarget u url reply = none ∧
      (∀ text, ¬Reads u z reply text) ∧ ¬Absent reply ∧ Raises u z url reply

theorem not_raises_of_status {r : RobotsResponse} (hredirect : r.status ∉ redirectStatuses)
    (hok : r.status ≠ 200) : ¬Raises u z url (.response r) := by
  rintro (⟨e, he⟩ | ⟨r', heq, ⟨hmem, -⟩ | ⟨hstatus, -⟩⟩)
  · cases he
  · cases heq
    exact hredirect hmem
  · cases heq
    exact hok hstatus

theorem not_reads_of_status {r : RobotsResponse} (hok : r.status ≠ 200) (text : Text) :
    ¬Reads u z (.response r) text := by
  rintro ⟨r', body, heq, hstatus, -⟩
  cases heq
  exact hok hstatus

theorem not_absent_of_status {r : RobotsResponse}
    (h : r.status ∈ redirectStatuses ∨ 500 ≤ r.status ∨ r.status = 200) : ¬Absent (.response r) := by
  rintro ⟨r', heq, hredirect, hlt, hne⟩
  cases heq
  rcases h with hmem | hge | hok
  · exact hredirect hmem
  · exact not_le.mpr hlt hge
  · exact hne hok

theorem raises_redirect_iff {r : RobotsResponse} (h : r.status ∈ redirectStatuses) :
    Raises u z url (.response r) ↔
      ∃ location e, r.location.filter (· ≠ []) = some location ∧ urljoin u url location = .error e := by
  constructor
  · rintro (⟨e, he⟩ | ⟨r', heq, ⟨-, location, e, hlocation, hne, herror⟩ | ⟨hstatus, -⟩⟩)
    · cases he
    · cases heq
      exact ⟨location, e, Option.filter_eq_some_iff.mpr ⟨hlocation, by simpa using hne⟩, herror⟩
    · cases heq
      exact absurd hstatus (redirect_lt h).2
  · rintro ⟨location, e, hlocation, herror⟩
    obtain ⟨hsome, hne⟩ := Option.filter_eq_some_iff.mp hlocation
    exact .inr ⟨r, rfl, .inl ⟨h, location, e, hsome, by simpa using hne, herror⟩⟩

theorem raises_ok_iff {r : RobotsResponse} (h : r.status = 200) :
    Raises u z url (.response r) ↔ ∃ e, r.read u z = .error (.other e) := by
  constructor
  · rintro (⟨e, he⟩ | ⟨r', heq, ⟨hmem, -⟩ | ⟨-, hread⟩⟩)
    · cases he
    · cases heq
      exact absurd h (redirect_lt hmem).2
    · cases heq
      exact hread
  · exact fun hread => .inr ⟨r, rfl, .inr ⟨h, hread⟩⟩

theorem reads_ok_iff {r : RobotsResponse} (h : r.status = 200) (text : Text) :
    Reads u z (.response r) text ↔ ∃ body, r.read u z = .ok body ∧ decodeRobots body = some text := by
  constructor
  · rintro ⟨r', body, heq, -, hread, hdecode⟩
    cases heq
    exact ⟨body, hread, hdecode⟩
  · rintro ⟨body, hread, hdecode⟩
    exact ⟨r, body, rfl, h, hread, hdecode⟩

theorem hopTarget_eq {r : RobotsResponse} (h : r.status ∈ redirectStatuses) :
    hopTarget u url (.response r) =
      (r.location.filter (· ≠ [])).bind fun location => (urljoin u url location).toOption :=
  if_pos h

theorem round_means (u : Unicode) (z : Zlib σ) (url : Text) (reply : ClientReply) :
    (robotsRound u z url reply).Means u z url reply := by
  match reply with
  | .raised (.http text) =>
    refine ⟨rfl, fun _ => ?_, ?_, ?_⟩
    · rintro ⟨r, body, h, -⟩
      cases h
    · rintro ⟨r, h, -⟩
      cases h
    · rintro (⟨e, h⟩ | ⟨r, h, -⟩) <;> cases h
  | .raised (.other e) =>
    refine ⟨rfl, fun _ => ?_, ?_, .inl ⟨e, rfl⟩⟩
    · rintro ⟨r, body, h, -⟩
      cases h
    · rintro ⟨r, h, -⟩
      cases h
  | .response r =>
    rcases status_cases r with hredirect | ⟨hredirect, hge⟩ | ⟨hredirect, hlt, hne⟩ | hok
    · have hreads := not_reads_of_status (u := u) (z := z) (redirect_lt hredirect).2
      have habsent := not_absent_of_status (.inl hredirect)
      have hraises : Raises u z url (.response r) ↔ _ := raises_redirect_iff hredirect
      have htarget : hopTarget u url (.response r) = _ := hopTarget_eq hredirect
      rw [round_redirect hredirect]
      cases hlocation : r.location.filter (· ≠ []) with
      | none =>
        rw [hlocation] at htarget hraises
        refine ⟨htarget, hreads, habsent, fun h => ?_⟩
        obtain ⟨location, e, h, -⟩ := hraises.mp h
        cases h
      | some location =>
        rw [hlocation] at htarget hraises
        cases hjoin : urljoin u url location with
        | error e =>
          rw [Option.bind_some, hjoin] at htarget
          simp only [hjoin]
          exact ⟨htarget, hreads, habsent, hraises.mpr ⟨location, e, rfl, hjoin⟩⟩
        | ok next =>
          rw [Option.bind_some, hjoin] at htarget
          simp only [hjoin]
          refine ⟨htarget, hreads, habsent, fun h => ?_⟩
          obtain ⟨location', e, heq, herror⟩ := hraises.mp h
          cases heq
          cases hjoin.symm.trans herror
    · have hne : r.status ≠ 200 := by omega
      rw [round_failed hredirect hge]
      exact ⟨if_neg hredirect, not_reads_of_status hne, not_absent_of_status (.inr (.inl hge)),
        not_raises_of_status hredirect hne⟩
    · rw [round_unavailable hredirect hlt hne]
      exact ⟨if_neg hredirect, not_reads_of_status hne, ⟨r, rfl, hredirect, hlt, hne⟩,
        not_raises_of_status hredirect hne⟩
    · have htarget : hopTarget u url (.response r) = none :=
        if_neg fun hmem => (redirect_lt hmem).2 hok
      have habsent := not_absent_of_status (.inr (.inr hok))
      have hreads := reads_ok_iff (u := u) (z := z) hok
      have hraises : Raises u z url (.response r) ↔ _ := raises_ok_iff hok
      rw [round_ok hok]
      cases hread : r.read u z with
      | error error =>
        have hnone (text : Text) : ¬Reads u z (.response r) text := by
          rw [hreads, hread]
          rintro ⟨body, h, -⟩
          cases h
        cases error with
        | http text =>
          refine ⟨htarget, hnone, habsent, fun h => ?_⟩
          obtain ⟨e, he⟩ := hraises.mp h
          cases hread.symm.trans he
        | other e => exact ⟨htarget, hnone, habsent, hraises.mpr ⟨e, hread⟩⟩
      | ok body =>
        have hnot : ¬Raises u z url (.response r) := by
          rw [hraises, hread]
          rintro ⟨e, h⟩
          cases h
        cases hdecode : decodeRobots body with
        | none =>
          simp only [hdecode]
          refine ⟨htarget, fun text => ?_, habsent, hnot⟩
          rw [hreads, hread]
          rintro ⟨body', h, hsome⟩
          cases h
          cases hdecode.symm.trans hsome
        | some text =>
          simp only [hdecode]
          refine ⟨htarget, fun text' => ?_, habsent, hnot⟩
          rw [hreads, hread]
          constructor
          · rintro ⟨body', h, hsome⟩
            cases h
            exact (Option.some.inj (hdecode.symm.trans hsome)).symm
          · rintro rfl
            exact ⟨body, rfl, hdecode⟩

/-! ## The step of a crawl -/

variable (u z) in
/-- What a request comes to, as a crawl takes it. -/
def ClientReply.answer : ClientReply → RobotsAnswer
  | .raised (.http text) => .httpError text
  | .raised (.other e) => .raised e
  | .response r =>
    match r.read u z with
    | .error (.other e) => if r.status = 200 then .raised e else .response r.status r.location (.ok [])
    | .error (.http text) => .response r.status r.location (.error text)
    | .ok body => .response r.status r.location (.ok body)

/-- How a crawl goes on after a round, with `left` requests left. -/
def RobotsRound.next (robotsTxt : Text → Text → RobotsPolicy) (userAgent : Text) (left : ℕ) :
    RobotsRound → RobotsNext
  | .hop url => if left = 0 then .policy .denyAll else .hop url (left - 1)
  | .done (.error (.unreachable _)) => .policy .denyAll
  | .done (.error (.raised e)) => .raised e
  | .done (.ok none) => .policy .allowAll
  | .done (.ok (some text)) => .policy (robotsTxt text userAgent)

theorem robotsNext_of_redirect (robotsTxt : Text → Text → RobotsPolicy) (userAgent : Text)
    (left : ℕ) {status : ℕ} (h : status ∈ redirectStatuses) (location : Option Text)
    (body : Except String (List UInt8)) :
    robotsNext u robotsTxt userAgent url left (.response status location body) =
      match location.filter (· ≠ []) with
      | none => .policy .denyAll
      | some location =>
        match urljoin u url location with
        | .error e => .raised e
        | .ok next => if left = 0 then .policy .denyAll else .hop next (left - 1) := by
  rw [robotsNext.eq_def]
  dsimp only
  rw [if_pos h]
  match location, left with
  | none, _ => rfl
  | some [], _ => rfl
  | some (c :: rest), 0 => rfl
  | some (c :: rest), left + 1 => rfl

theorem robotsNext_of_status (robotsTxt : Text → Text → RobotsPolicy) (userAgent : Text) (left : ℕ)
    {status : ℕ} (h : status ∉ redirectStatuses) (location : Option Text)
    (body : Except String (List UInt8)) :
    robotsNext u robotsTxt userAgent url left (.response status location body) =
      if 500 ≤ status then .policy .denyAll
      else if status ≠ 200 then .policy .allowAll
      else match body with
        | .error _ => .policy .denyAll
        | .ok body =>
          match decodeRobots body with
          | none => .policy .denyAll
          | some text => .policy (robotsTxt text userAgent) := by
  rw [robotsNext.eq_def]
  exact if_neg h

theorem answer_of_status {r : RobotsResponse} (h : r.status ≠ 200) :
    ∃ body, (ClientReply.response r).answer u z = .response r.status r.location body := by
  rw [ClientReply.answer]
  match r.read u z with
  | .error (.other e) => exact ⟨_, if_neg h⟩
  | .error (.http text) => exact ⟨_, rfl⟩
  | .ok body => exact ⟨_, rfl⟩

/-- The step a crawl takes is the round of `_fetch_robots`. -/
theorem robotsNext_answer (robotsTxt : Text → Text → RobotsPolicy) (userAgent : Text) (left : ℕ)
    (reply : ClientReply) : robotsNext u robotsTxt userAgent url left (reply.answer u z) =
      (robotsRound u z url reply).next robotsTxt userAgent left := by
  match reply with
  | .raised (.http text) => rfl
  | .raised (.other e) => rfl
  | .response r =>
    by_cases hok : r.status = 200
    · have hredirect : r.status ∉ redirectStatuses := fun hmem => (redirect_lt hmem).2 hok
      rw [round_ok hok, ClientReply.answer]
      cases hread : r.read u z with
      | error error =>
        cases error with
        | http text =>
          dsimp only
          rw [robotsNext_of_status _ _ _ hredirect, if_neg (by omega), if_neg (not_not.mpr hok)]
          rfl
        | other e =>
          simp only [hok, if_true]
          rfl
      | ok body =>
        dsimp only
        rw [robotsNext_of_status _ _ _ hredirect, if_neg (by omega), if_neg (not_not.mpr hok)]
        dsimp only
        cases decodeRobots body with
        | none => rfl
        | some text => rfl
    · obtain ⟨body, hanswer⟩ := answer_of_status (u := u) (z := z) hok
      rw [hanswer]
      rcases status_cases r with hredirect | ⟨hredirect, hge⟩ | ⟨hredirect, hlt, hne⟩ | hok'
      · rw [round_redirect hredirect, robotsNext_of_redirect _ _ _ hredirect]
        cases r.location.filter (· ≠ []) with
        | none => rfl
        | some location =>
          dsimp only
          cases urljoin u url location with
          | error e => rfl
          | ok next => rfl
      · rw [round_failed hredirect hge, robotsNext_of_status _ _ _ hredirect, if_pos hge]
        rfl
      · rw [round_unavailable hredirect hlt hne, robotsNext_of_status _ _ _ hredirect,
          if_neg (not_le.mpr hlt), if_pos hne]
        rfl
      · exact absurd hok' hok

end Round

/-! ## The requests of a load -/

section Walk
variable {σ δ : Type} (u : Unicode) (z : Zlib σ) (float : Floats δ) (site : RobotsSite)

/-- The URL the redirects lead to before request `n`, as long as the guard lets them pass. -/
def arrival (start : Text) : ℕ → Option Text
  | 0 => some start
  | n + 1 => (arrival start n).bind fun url =>
    if site.blocked n url = none then hopTarget u url (site.client n url) else none

def Requested (start : Text) (n : ℕ) (url : Text) : Prop :=
  n ≤ maxRobotsRedirects ∧ arrival u site start n = some url ∧ site.blocked n url = none

/-- What a load promises: its bound on the requests, and the policy that goes with what they came to. -/
structure FailsClosed (start userAgent : Text) (loaded : List Text × Except Exn (LoadedPolicy δ)) :
    Prop where
  requests : loaded.1.length ≤ maxRobotsRedirects + 1
  robotsTxt : ∀ n url text, Requested u site start n url → Reads u z (site.client n url) text →
    loaded.2 = .ok (.robotsTxt (.new u float text userAgent))
  allowAll : ∀ n url, Requested u site start n url → Absent (site.client n url) → loaded.2 = .ok .allowAll
  denyAll : (∀ n url, Requested u site start n url →
    (∀ text, ¬Reads u z (site.client n url) text) ∧ ¬Absent (site.client n url)) → loaded.2 = .ok .denyAll

variable {u z float site} {start url : Text} {n : ℕ}

theorem arrival_succ (h : arrival u site start n = some url) (hpass : site.blocked n url = none) :
    arrival u site start (n + 1) = hopTarget u url (site.client n url) := by
  rw [arrival, h, Option.bind_some, if_pos hpass]

theorem arrival_blocked (h : arrival u site start n = some url) {reason : String}
    (hstop : site.blocked n url = some reason) : arrival u site start (n + 1) = none := by
  rw [arrival, h, Option.bind_some, hstop, if_neg nofun]

theorem arrival_none {m : ℕ} (h : arrival u site start n = none) (hle : n ≤ m) :
    arrival u site start m = none := by
  induction m, hle using Nat.le_induction with
  | base => exact h
  | succ m _ ih => rw [arrival, ih, Option.bind_none]

theorem not_requested_of_none {m : ℕ} {url' : Text} (h : arrival u site start (n + 1) = none)
    (hle : n ≤ m) (hne : m ≠ n) : ¬Requested u site start m url' := by
  rintro ⟨-, hsome, -⟩
  rw [arrival_none h (Nat.lt_of_le_of_ne hle (Ne.symm hne))] at hsome
  cases hsome

theorem Requested.url_eq {url' : Text} (hrequested : Requested u site start n url')
    (h : arrival u site start n = some url) : url' = url :=
  Option.some.inj (hrequested.2.1.symm.trans h)

variable (u z site) in
/-- The load goes on after request `n`. -/
def Hops (n : ℕ) (url : Text) : Prop := ∃ next, robotsRound u z url (site.client n url) = .hop next

variable (u z site) in
/-- How the requests from `n` on end: one of them with the result, or in `_UnreachableError` after hops
only. -/
def EndsIn (start : Text) (n : ℕ) (result : Except RobotsFailure (Option Text)) : Prop :=
  (∃ m url, n ≤ m ∧ Requested u site start m url ∧
    robotsRound u z url (site.client m url) = .done result ∧
    ∀ m' url', n ≤ m' → m' ≠ m → Requested u site start m' url' → Hops u z site m' url') ∨
  (∃ text, result = .error (.unreachable text)) ∧
    ∀ m url, n ≤ m → Requested u site start m url → Hops u z site m url

theorem hopTarget_of_done {reply : ClientReply} {result : Except RobotsFailure (Option Text)}
    (h : robotsRound u z url reply = .done result) : hopTarget u url reply = none := by
  have hmeans := round_means u z url reply
  rw [h] at hmeans
  match result with
  | .ok (some _) | .ok none | .error (.unreachable _) | .error (.raised _) => exact hmeans.1

theorem hopTarget_of_hop {reply : ClientReply} {next : Text}
    (h : robotsRound u z url reply = .hop next) : hopTarget u url reply = some next := by
  have hmeans := round_means u z url reply
  rw [h] at hmeans
  exact hmeans.1

theorem fetchRobots_length (n : ℕ) (url : Text) (left : ℕ) :
    (fetchRobots u z site n url left).1.length ≤ left := by
  induction left generalizing n url with
  | zero => exact Nat.zero_le 0
  | succ left ih =>
    rw [fetchRobots]
    cases site.blocked n url with
    | some reason => exact Nat.zero_le _
    | none =>
      cases robotsRound u z url (site.client n url) with
      | done result => exact Nat.le_add_left 1 left
      | hop next => exact Nat.succ_le_succ (ih (n + 1) next)

/-- By induction on the rounds left: where the loop stands, the redirects have led. -/
theorem fetchRobots_endsIn {left : ℕ} (hleft : n + left = maxRobotsRedirects + 1)
    (h : arrival u site start n = some url) :
    EndsIn u z site start n (fetchRobots u z site n url left).2 := by
  induction left generalizing n url with
  | zero =>
    refine .inr ⟨⟨_, rfl⟩, fun m url' hle hrequested => ?_⟩
    have := hrequested.1
    omega
  | succ left ih =>
    rw [fetchRobots]
    cases hpass : site.blocked n url with
    | some reason =>
      refine .inr ⟨⟨_, rfl⟩, fun m url' hle hrequested => ?_⟩
      by_cases hm : m = n
      · subst hm
        cases hrequested.url_eq h
        cases hpass.symm.trans hrequested.2.2
      · exact absurd hrequested (not_requested_of_none (arrival_blocked h hpass) hle hm)
    | none =>
      have hthis : Requested u site start n url := ⟨by omega, h, hpass⟩
      cases hround : robotsRound u z url (site.client n url) with
      | done result =>
        have hlast : arrival u site start (n + 1) = none :=
          (arrival_succ h hpass).trans (hopTarget_of_done hround)
        exact .inl ⟨n, url, le_rfl, hthis, hround, fun m' url' hle hne hrequested =>
          absurd hrequested (not_requested_of_none hlast hle hne)⟩
      | hop next =>
        have hnext : arrival u site start (n + 1) = some next :=
          (arrival_succ h hpass).trans (hopTarget_of_hop hround)
        -- request `n` is a hop, the later ones are those of the rounds left
        have hhops {m : ℕ} {url' : Text} (hle : n ≤ m) (hrequested : Requested u site start m url')
            (hlater : n + 1 ≤ m → Hops u z site m url') : Hops u z site m url' := by
          by_cases hm : m = n
          · subst hm
            cases hrequested.url_eq h
            exact ⟨next, hround⟩
          · exact hlater (Nat.lt_of_le_of_ne hle (Ne.symm hm))
        rcases ih (n := n + 1) (by omega) hnext with ⟨m, url', hle, hrequested, hdone, hothers⟩ |
          ⟨htext, hall⟩
        · exact .inl ⟨m, url', by omega, hrequested, hdone, fun m' url'' hle' hne hrequested' =>
            hhops hle' hrequested' fun hlater => hothers m' url'' hlater hne hrequested'⟩
        · exact .inr ⟨htext, fun m url' hle hrequested =>
            hhops hle hrequested fun hlater => hall m url' hlater hrequested⟩

theorem Hops.means (h : Hops u z site n url) : (∀ text, ¬Reads u z (site.client n url) text) ∧
    ¬Absent (site.client n url) ∧ ¬Raises u z url (site.client n url) := by
  obtain ⟨next, hround⟩ := h
  have hmeans := round_means u z url (site.client n url)
  rw [hround] at hmeans
  exact hmeans.2

/-- What the result says of the request it comes from. -/
theorem done_means {result : Except RobotsFailure (Option Text)} {reply : ClientReply}
    (h : robotsRound u z url reply = .done result) :
    (RobotsRound.done result).Means u z url reply := by
  rw [← h]
  exact round_means u z url reply

/-- A request that is no hop is the last one. -/
theorem EndsIn.last {result result' : Except RobotsFailure (Option Text)}
    (h : EndsIn u z site start 0 result) (hrequested : Requested u site start n url)
    (hround : robotsRound u z url (site.client n url) = .done result') : result = result' := by
  have hnot : ¬Hops u z site n url := fun ⟨next, hhop⟩ => nomatch hhop.symm.trans hround
  rcases h with ⟨m, url', -, hrequested', hdone, hothers⟩ | ⟨-, hall⟩
  · have hn : n = m := by
      by_contra hne
      exact hnot (hothers n url (Nat.zero_le n) hne hrequested)
    subst hn
    cases hrequested.url_eq hrequested'.2.1
    exact RobotsRound.done.inj (hdone.symm.trans hround)
  · exact absurd (hall n url (Nat.zero_le n) hrequested) hnot

/-- The request that ends the loop gives the policy. -/
theorem loadRobots_of_done {siteUrl userAgent : Text} {result : Except RobotsFailure (Option Text)}
    (hstart : robotsUrl u siteUrl = .ok start) (hrequested : Requested u site start n url)
    (hround : robotsRound u z url (site.client n url) = .done result) :
    (loadRobots u z float site siteUrl userAgent).2 = policyOf u float userAgent result := by
  rw [loadRobots, hstart]
  exact congrArg (policyOf u float userAgent)
    ((fetchRobots_endsIn (Nat.zero_add _) rfl).last hrequested hround)

theorem failsClosed_of_endsIn {userAgent : Text} {requests : List Text}
    {result : Except RobotsFailure (Option Text)} (hlength : requests.length ≤ maxRobotsRedirects + 1)
    (h : EndsIn u z site start 0 result)
    (hraises : ∀ n url, Requested u site start n url → ¬Raises u z url (site.client n url)) :
    FailsClosed u z float site start userAgent (requests, policyOf u float userAgent result) := by
  rcases h with ⟨m, url, -, hrequested, hdone, hothers⟩ | ⟨⟨text, rfl⟩, hall⟩
  · have hmeans := done_means hdone
    -- a request that is no hop is the last one
    have hlast {n : ℕ} {url' : Text} (h : Requested u site start n url')
        (hnot : ¬Hops u z site n url') : n = m ∧ url' = url := by
      have hn : n = m := by
        by_contra hne
        exact hnot (hothers n url' (Nat.zero_le n) hne h)
      subst hn
      exact ⟨rfl, h.url_eq hrequested.2.1⟩
    have hreads {n : ℕ} {url' text : Text} (h : Requested u site start n url')
        (hread : Reads u z (site.client n url') text) : n = m ∧ url' = url :=
      hlast h fun hhop => hhop.means.1 text hread
    have habsent {n : ℕ} {url' : Text} (h : Requested u site start n url')
        (ha : Absent (site.client n url')) : n = m ∧ url' = url :=
      hlast h fun hhop => hhop.means.2.1 ha
    match result with
    | .ok (some text) =>
      refine ⟨hlength, fun n url' text' h hread => ?_, fun n url' h ha => ?_, fun hnone => ?_⟩
      · obtain ⟨rfl, rfl⟩ := hreads h hread
        rw [(hmeans.2.1 text').mp hread]
        rfl
      · obtain ⟨rfl, rfl⟩ := habsent h ha
        exact absurd ha hmeans.2.2.1
      · exact absurd ((hmeans.2.1 text).mpr rfl) ((hnone m url hrequested).1 text)
    | .ok none =>
      refine ⟨hlength, fun n url' text' h hread => ?_, fun _ _ _ _ => rfl, fun hnone => ?_⟩
      · obtain ⟨rfl, rfl⟩ := hreads h hread
        exact absurd hread (hmeans.2.1 text')
      · exact absurd hmeans.2.2.1 (hnone m url hrequested).2
    | .error (.unreachable text) =>
      refine ⟨hlength, fun n url' text' h hread => ?_, fun n url' h ha => ?_, fun _ => rfl⟩
      · obtain ⟨rfl, rfl⟩ := hreads h hread
        exact absurd hread (hmeans.2.1 text')
      · obtain ⟨rfl, rfl⟩ := habsent h ha
        exact absurd ha hmeans.2.2.1
    | .error (.raised e) => exact absurd hmeans.2.2.2 (hraises m url hrequested)
  · exact ⟨hlength, fun n url text' h hread =>
      absurd hread ((hall n url (Nat.zero_le n) h).means.1 text'),
      fun n url h ha => absurd ha (hall n url (Nat.zero_le n) h).means.2.1, fun _ => rfl⟩

/-- A request that raises ends the load with its exception. -/
theorem raised_of_endsIn {result : Except RobotsFailure (Option Text)}
    (h : EndsIn u z site start 0 result) (hrequested : Requested u site start n url)
    (hraises : Raises u z url (site.client n url)) : (∃ e, result = .error (.raised e)) ∧
      ∀ n url, Requested u site start n url →
        (∀ text, ¬Reads u z (site.client n url) text) ∧ ¬Absent (site.client n url) := by
  have hnot : ¬Hops u z site n url := fun hhop => hhop.means.2.2 hraises
  rcases h with ⟨m, url', -, hrequested', hdone, hothers⟩ | ⟨-, hall⟩
  · have hn : n = m := by
      by_contra hne
      exact hnot (hothers n url (Nat.zero_le n) hne hrequested)
    subst hn
    cases hrequested.url_eq hrequested'.2.1
    have hmeans := done_means hdone
    match result with
    | .ok (some _) | .ok none | .error (.unreachable _) => exact absurd hraises hmeans.2.2.2
    | .error (.raised e) =>
      refine ⟨⟨e, rfl⟩, fun m url' h => ?_⟩
      by_cases hm : m = n
      · subst hm
        cases h.url_eq hrequested.2.1
        exact ⟨hmeans.2.1, hmeans.2.2.1⟩
      · have hhop := (hothers m url' (Nat.zero_le m) hm h).means
        exact ⟨hhop.1, hhop.2.1⟩
  · exact absurd (hall n url (Nat.zero_le n) hrequested) hnot

variable (u z float site) in
/-- A load fails closed unless an exception other than an `HTTPError` comes out of one of its requests. -/
theorem loadRobots_failsClosed (siteUrl userAgent : Text) :
    (∃ start, robotsUrl u siteUrl = .ok start ∧
      FailsClosed u z float site start userAgent (loadRobots u z float site siteUrl userAgent)) ↔
    ∃ start, robotsUrl u siteUrl = .ok start ∧
      ∀ n url, Requested u site start n url → ¬Raises u z url (site.client n url) := by
  refine exists_congr fun start => and_congr_right fun hstart => ?_
  have hload : loadRobots u z float site siteUrl userAgent =
      ((fetchRobots u z site 0 start (maxRobotsRedirects + 1)).1,
        policyOf u float userAgent (fetchRobots u z site 0 start (maxRobotsRedirects + 1)).2) := by
    rw [loadRobots, hstart]
  have hends : EndsIn u z site start 0 (fetchRobots u z site 0 start (maxRobotsRedirects + 1)).2 :=
    fetchRobots_endsIn (Nat.zero_add _) rfl
  rw [hload]
  constructor
  · intro hcloses n url hrequested hraises
    obtain ⟨⟨e, he⟩, hnone⟩ := raised_of_endsIn hends hrequested hraises
    have hdeny := hcloses.denyAll hnone
    rw [he] at hdeny
    cases hdeny
  · exact failsClosed_of_endsIn (fetchRobots_length 0 start _) hends

end Walk

/-- A server that redirects to a location whose bracket stays open. -/
def openBracket : RobotsSite where
  client _ _ := .response ⟨301, some "http://[x".toList, [], [], none⟩

/-- `urljoin` raises, and so does `load_robots`. -/
theorem loadRobots_openBracket :
    loadRobots .ascii storedZlib digitFloats openBracket "http://h/".toList "bot".toList =
      (["http://h/robots.txt".toList], .error (.valueError "Invalid IPv6 URL".toList)) := by
  decide +kernel

end UrlCrawler
