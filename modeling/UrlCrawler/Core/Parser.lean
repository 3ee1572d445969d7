import UrlCrawler.Core.NormalForm

/-! # Links of a page

`url_crawler/parser.py`. The HTML parser belongs to a library; what the crawler reads off its tree
is a `Document`.
-/
set_option autoImplicit false

namespace UrlCrawler

/-- The `href` of the first `base[href]` element and the `href`s of the nodes `a[href], area[href]`
selects, in document order; `none` for one that is not valid UTF-8. -/
structure Document where
  base : Option (Option Text)
  hrefs : List (Option Text)

/-- `LexborHTMLParser`. -/
abbrev Lexbor := List UInt8 → Document

/-- `_effective_base`. -/
def effectiveBase (u : Unicode) (tree : Document) (baseUrl : Text) : Except Exn Text :=
  match tree.base.join with
  | none | some [] => .ok baseUrl
  | some href => (resolveHref u href baseUrl).map fun resolved => resolved.getD baseUrl

/-- The crawlable hyperlinks of a body, deduplicated in document order. -/
def extractLinks (u : Unicode) (lexbor : Lexbor) (body : List UInt8) (baseUrl : Text) :
    Except Exn (List Text) := do
  let tree := lexbor body
  let base ← effectiveBase u tree baseUrl
  let resolved ← (tree.hrefs.filterMap id).mapM fun href => resolveHref u href base
  return (resolved.filterMap id).eraseDups

/-- `resolve_href` only gives normalized URLs. -/
theorem normalize_of_resolveHref {u : Unicode} {href baseUrl url : Text}
    (h : resolveHref u href baseUrl = .ok (some url)) : ∃ text, normalize u text = some url := by
  obtain ⟨joined, -, hn⟩ := map_eq_ok.mp h
  exact ⟨joined, hn⟩

theorem mem_of_mapM {α β ε : Type} {f : α → Except ε β} : ∀ {l : List α} {r : List β},
    l.mapM f = .ok r → ∀ {b : β}, b ∈ r → ∃ a ∈ l, f a = .ok b
  | [], r, h, b, hb => by
      rw [List.mapM_nil] at h
      cases h
      cases hb
  | a :: l, r, h, b, hb => by
      rw [List.mapM_cons] at h
      obtain ⟨x, hx, h⟩ := bind_eq_ok.mp h
      obtain ⟨xs, hxs, h⟩ := bind_eq_ok.mp h
      obtain rfl := Except.ok.inj h
      rcases List.mem_cons.mp hb with rfl | hb
      · exact ⟨a, List.mem_cons_self .., hx⟩
      · obtain ⟨a', ha', hf⟩ := mem_of_mapM hxs hb
        exact ⟨a', List.mem_cons_of_mem _ ha', hf⟩

/-- Every extracted link is a normalized URL. -/
theorem normalize_of_extractLinks {u : Unicode} {lexbor : Lexbor} {body : List UInt8}
    {baseUrl : Text} {links : List Text} (h : extractLinks u lexbor body baseUrl = .ok links)
    {link : Text} (hl : link ∈ links) : ∃ text, normalize u text = some link := by
  obtain ⟨base, -, h⟩ := bind_eq_ok.mp h
  obtain ⟨resolved, hr, h⟩ := bind_eq_ok.mp h
  obtain rfl := Except.ok.inj h
  rw [List.mem_eraseDups, List.mem_filterMap] at hl
  obtain ⟨url, hmem, rfl⟩ := hl
  obtain ⟨href, -, hf⟩ := mem_of_mapM hr hmem
  exact normalize_of_resolveHref hf

/-- A URL with an authority does not depend on the base it is resolved against. -/
theorem urljoin_absolute {u : Unicode} {url : Text} {parts : SplitResult}
    (hurl : ∀ scheme, urlsplit u url scheme = .ok parts) (hne : url ≠ [])
    (hsame : urlunparse { parts with path := (splitParams parts.scheme parts.path).1 }
      (splitParams parts.scheme parts.path).2 = url)
    (hnetloc : parts.scheme ∈ usesNetloc ∧ parts.netloc ≠ []) {base : Text} {b : SplitResult}
    (hbase : urlsplit u base = .ok b) : urljoin u base url = .ok url := by
  unfold urljoin
  by_cases hempty : base = []
  · rw [if_pos hempty]
    rfl
  rw [if_neg hempty]
  simp only [hbase, hurl, bind, Except.bind, hne, if_false]
  by_cases hscheme : parts.scheme = b.scheme ∧ parts.scheme ∈ usesRelative
  · simp [hscheme.1.symm, hscheme.2, hnetloc, hsame, pure, Except.pure]
  · simp only [pure, Except.pure]
    rw [if_pos]
    simp only [Bool.or_eq_true, decide_eq_true_eq]
    tauto

section Quiet
variable (u : Unicode)

theorem resolveHref_quiet (href baseUrl : Text) : Quiet (resolveHref u href baseUrl) :=
  (urljoin_quiet u _ _).map _

theorem effectiveBase_quiet (tree : Document) (baseUrl : Text) :
    Quiet (effectiveBase u tree baseUrl) := by
  unfold effectiveBase
  split
  · exact quiet_ok _
  · exact quiet_ok _
  · exact (resolveHref_quiet u _ _).map _

theorem extractLinks_quiet (lexbor : Lexbor) (body : List UInt8) (baseUrl : Text) :
    Quiet (extractLinks u lexbor body baseUrl) :=
  (effectiveBase_quiet u _ _).bind fun _ =>
    (Quiet.mapM (fun _ => resolveHref_quiet u _ _) _).bind fun _ => quiet_ok _

end Quiet

end UrlCrawler
