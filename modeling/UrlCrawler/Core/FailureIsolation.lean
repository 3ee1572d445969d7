import UrlCrawler.Core.Coverage

/-! # A page whose handling raises

Past the seed, a page whose fetch or extraction raises is one internal error, and the crawl goes on
as if the page had failed.
-/
set_option autoImplicit false

namespace UrlCrawler
open Execution Crawler

namespace Site
variable {site site' : Site} {d : Deps}

/-- Fetching the page at `url`, or reading its links, raises `e`. -/
def Raises (site : Site) (d : Deps) (url : Text) (e : Exn) : Prop :=
  site url = .error e ∨
    ∃ result, site.fetched url 1 = .ok (.ok result) ∧ pageLinks d url result = .error e

/-- `site'` is `site` with the pages that raise simply failing. -/
structure Settles (site site' : Site) (d : Deps) : Prop where
  failed : ∀ url e, site.Raises d url e → ∃ kind status message,
    site' url = .ok (.error kind status message)
  same : ∀ url, (∀ e, ¬site.Raises d url e) → site' url = site url

theorem links_of_raises {url : Text} {e : Exn} (h : site.Raises d url e) :
    site.links d url = [] := by
  rcases h with hfetch | ⟨result, hresult, hlinks⟩
  · rw [links, fetched, hfetch]
    rfl
  · rw [links, hresult]
    simp [foundLinks, hlinks, Except.toOption]

theorem Settles.links_eq (h : site.Settles site' d) (url : Text) :
    site'.links d url = site.links d url := by
  by_cases hraises : ∃ e, site.Raises d url e
  · obtain ⟨e, he⟩ := hraises
    obtain ⟨kind, status, message, hfailed⟩ := h.failed url e he
    rw [links_of_raises he, links, fetched, hfailed]
    rfl
  · unfold links fetched
    rw [h.same url fun e he => hraises ⟨e, he⟩]

end Site

end UrlCrawler
