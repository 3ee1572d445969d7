import UrlCrawler.Core.PoolInvariant
import UrlCrawler.Library.Worklist

/-! # Crawling a site

A site is a function that gives every URL what fetching it ends in, which may be an exception.
Against a site the seed chain is determined by the seed, and the links of the pages span a graph on
the canonical keys.
-/
set_option autoImplicit false

namespace UrlCrawler
open Execution

abbrev Site := Text → Except Exn Response

/-- `url` is a normalized URL with the given key. -/
def Keyed (u : Unicode) (url key : Text) : Prop := Normalized u url ∧ canonicalKey u url = .ok key

theorem Keyed.functional {u : Unicode} {url key key' : Text} (h : Keyed u url key)
    (h' : Keyed u url key') : key = key' :=
  Except.ok.inj (h.2.symm.trans h'.2)

namespace Site
variable (site : Site) (d : Deps)

/-- What fetching `url` ends in after some attempts. -/
def fetched (url : Text) (attempts : ℕ) : Except Exn FetchOutcome :=
  (site url).map (Response.outcome url attempts)

/-- The links the page at `url` is reported with; none for one that failed. -/
def links (url : Text) : List Text := Crawler.foundLinks d url (site.fetched url 1)

/-- Where the seed chain goes on from `url`. -/
def target (url : Text) : Option Text :=
  match site.fetched url 1 with
  | .ok (.ok result) => (Crawler.redirectTarget d url result).toOption.join
  | _ => none

/-- The URLs of the seed chain from `url` on, with `hops` redirects left to follow. -/
def seedChain : ℕ → Text → List Text
  | 0, url => [url]
  | hops + 1, url =>
    match site.target d url with
    | none => [url]
    | some target => url :: seedChain hops target

/-- URLs of one key have the same links. -/
def Consistent : Prop := ∀ a b key, Keyed d.unicode a key → Keyed d.unicode b key →
  site.links d a = site.links d b

/-- The page at `a` has a link to `b` that scope and policy allow. -/
def Leads (scope : HostScope) (policy : RobotsPolicy) (a b : Text) : Prop :=
  b ∈ site.links d a ∧ Crawler.allows d scope policy b = .ok true

/-- The least set of keys that contains the final seed URL's and, with the key of a page, the key
of every link of that page that scope and policy allow. -/
def Covers (scope : HostScope) (policy : RobotsPolicy) (final key : Text) : Prop :=
  Worklist.Reach (Keyed d.unicode) (site.Leads d scope policy) final key

/-- The answers to an attempt that the site gives; it may be retried. -/
def Gives (url : Text) : Answer → Prop
  | .retry => True
  | .fetched response => site url = .ok response
  | .raised e => site url = .error e

/-- The fetches are answered by the site, and nobody cancels the run. -/
def Serves (s : CrawlRun) : CrawlerAct → Prop
  | .attempted answer =>
    match s.phase with
    | .fetching url _ _ => site.Gives url answer
    | _ => True
  | .workerAttempted w answer =>
    match s.workers[w]? with
    | some (.fetching url _) => site.Gives url answer
    | _ => True
  | .cancel => False
  | _ => True

variable {site d}

instance (url : Text) : DecidablePred (site.Gives url)
  | .retry => isTrue trivial
  | .fetched response => inferInstanceAs (Decidable (site url = .ok response))
  | .raised e => inferInstanceAs (Decidable (site url = .error e))

instance (s : CrawlRun) : DecidablePred (site.Serves s)
  | .attempted answer =>
    show Decidable (match s.phase with
      | .fetching url _ _ => site.Gives url answer
      | _ => True) from
    match s.phase with
    | .fetching url _ _ => inferInstanceAs (Decidable (site.Gives url answer))
    | .created | .guarding .. | .robotsGuarding .. | .robotsFetching .. | .joining | .leaving _
    | .done _ => isTrue trivial
  | .workerAttempted w answer =>
    show Decidable (match s.workers[w]? with
      | some (.fetching url _) => site.Gives url answer
      | _ => True) from
    match s.workers[w]? with
    | some (.fetching url _) => inferInstanceAs (Decidable (site.Gives url answer))
    | some .ready | some (.locking _) | some (.sleeping _) | some .done | some .failed | none =>
      isTrue trivial
  | .cancel => isFalse id
  | .begin | .guarded _ | .guardRaised _ | .robotsGuarded _ | .robotsGuardRaised _
  | .robotsAnswered _ | .take _ | .locked _ | .slept _ | .joined | .failed | .workerCancelled _
  | .left => isTrue trivial

theorem links_eq (url : Text) (attempts : ℕ) :
    Crawler.foundLinks d url (site.fetched url attempts) = site.links d url := by
  unfold links fetched
  cases site url with
  | error e => rfl
  | ok response => cases response <;> rfl

/-- A page of the seed chain leads to the next one only. -/
theorem links_of_target {url target : Text} (h : site.target d url = some target) :
    site.links d url = [target] := by
  unfold Site.target at h
  unfold links
  split at h
  · rename_i result hresult
    rw [hresult]
    have htarget : Crawler.redirectTarget d url result = .ok (some target) := by
      cases ht : Crawler.redirectTarget d url result with
      | error e =>
        rw [ht] at h
        cases h
      | ok t =>
        rw [ht] at h
        exact congrArg Except.ok h
    have hstatus := CrawlRun.status_of_redirectTarget htarget
    simp [Crawler.foundLinks, Crawler.pageLinks, hstatus, htarget, Except.map, Except.toOption]
  · cases h

theorem seedChain_eq_singleton {url : Text} (h : site.target d url = none) (hops : ℕ) :
    site.seedChain d hops url = [url] := by
  cases hops with
  | zero => rfl
  | succ hops => rw [seedChain, h]

end Site
end UrlCrawler
