import UrlCrawler.Core.Urls
import UrlCrawler.Core.RobotsTxt

/-! # Loading robots.txt

`url_crawler/robots.py`: the policies, and `load_robots` as the hops it makes. How a body is read for a
user agent is a parameter of the hops.
-/
set_option autoImplicit false

namespace UrlCrawler

def redirectStatuses : List ℕ := [301, 302, 303, 307, 308]

/-- The protocol `RobotsPolicy`. A delay of `⊤` is the float `inf`, which `_delay` lets through; a check
may raise. -/
structure RobotsPolicy where
  crawlDelay : Option (WithTop ℚ)
  allows : Text → Except Exn Bool

namespace RobotsPolicy

def allowAll : RobotsPolicy := ⟨none, fun _ => .ok true⟩

def denyAll : RobotsPolicy := ⟨none, fun _ => .ok false⟩

/-- `if crawl_delay:`. -/
def delays (policy : RobotsPolicy) : Bool := policy.crawlDelay.any (· ≠ 0)

/-- `asyncio.sleep(crawl_delay)` never returns. -/
def endless (policy : RobotsPolicy) : Bool := policy.crawlDelay = some ⊤

theorem delays_of_endless {policy : RobotsPolicy} (h : policy.endless = true) :
    policy.delays = true := by
  have htop : policy.crawlDelay = some ⊤ := of_decide_eq_true h
  rw [delays, htop]
  rfl

end RobotsPolicy

/-- A `RobotsTxt` as the policy of a crawl. -/
def RobotsTxt.policy (u : Unicode) (robots : RobotsTxt (WithTop ℚ)) : RobotsPolicy :=
  ⟨robots.crawlDelay, robots.allows u⟩

/-- `MAX_ROBOTS_REDIRECTS`. -/
def maxRobotsRedirects : ℕ := 5

/-- What one request of the loader ends in: a response with what `read_bounded` makes of its body,
an `httpx.HTTPError`, or an exception that is not one. -/
inductive RobotsAnswer
  | response (status : ℕ) (location : Option Text) (body : Except String (List UInt8))
  | httpError (text : String)
  | raised (e : Exn)

/-- How the loader goes on after a request: another hop, with the requests then left, a policy, or
an exception that escapes. -/
inductive RobotsNext
  | hop (url : Text) (left : ℕ)
  | policy (policy : RobotsPolicy)
  | raised (e : Exn)

/-- `_decode`: UTF-8 after an optional byte order mark. -/
def decodeRobots (body : List UInt8) : Option Text :=
  let body := if body.take 3 = [0xEF, 0xBB, 0xBF] then body.drop 3 else body
  (String.fromUTF8? ⟨body.toArray⟩).map String.toList

/-- `f"{split.scheme}://{split.netloc}/robots.txt"`. -/
def robotsUrl (u : Unicode) (siteUrl : Text) : Except Exn Text :=
  (urlsplit u siteUrl).map fun split =>
    split.scheme ++ "://".toList ++ split.netloc ++ "/robots.txt".toList

/-- What the loader does with an answer for `url`, with `left` requests left to make. An
`_UnreachableError` ends in `DenyAll`, a response that is no redirect and below 500 in `AllowAll`
unless it is a 200. -/
def robotsNext (u : Unicode) (robotsTxt : Text → Text → RobotsPolicy) (userAgent : Text)
    (url : Text) (left : ℕ) : RobotsAnswer → RobotsNext
  | .raised e => .raised e
  | .httpError _ => .policy .denyAll
  | .response status location body =>
    if status ∈ redirectStatuses then
      match location with
      | none | some [] => .policy .denyAll
      | some location =>
        match urljoin u url location with
        | .error e => .raised e
        | .ok url =>
          match left with
          | 0 => .policy .denyAll
          | left + 1 => .hop url left
    else if 500 ≤ status then .policy .denyAll
    else if status ≠ 200 then .policy .allowAll
    else
      match body with
      | .error _ => .policy .denyAll
      | .ok body =>
        match decodeRobots body with
        | none => .policy .denyAll
        | some text => .policy (robotsTxt text userAgent)

end UrlCrawler
