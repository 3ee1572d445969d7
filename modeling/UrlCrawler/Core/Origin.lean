import UrlCrawler.Core.Idempotence
import UrlCrawler.Core.LinkExtraction

/-! # What a normalized URL keeps

The normal form of a URL, taken apart again, has the scheme, the host, the effective port and the query
of the URL given, and neither credentials nor a fragment. What can fail is the taking apart: a bracket in
a host that stands bare, or an authority that its lower case spoils.
-/
set_option autoImplicit false

namespace UrlCrawler
variable {u : Unicode}

/-- `again`, split from the normal form `url`, says what the parts of the URL given said. -/
structure Preserved (u : Unicode) (parts : SplitResult) (port : Option ℕ) (url : Text)
    (again : SplitResult) : Prop where
  scheme : again.scheme = parts.scheme ∧ again.scheme ∈ allowedSchemes
  hostname : ∃ name host, parts.hostname u = some name ∧ host = u.lower name ∧
    again.hostname u = some host ∧ host ≠ [] ∧ ∀ c ∈ host, isSpace c = false
  effectivePort : ∃ shown, again.port u = .ok shown ∧ shown ≠ some (defaultPort parts.scheme) ∧
    shown.getD (defaultPort parts.scheme) = port.getD (defaultPort parts.scheme)
  netloc : again.netloc = authority parts.scheme (parts.normalHost u) port
  userinfo : '@' ∉ again.netloc
  fragment : again.fragment = []
  query : again.query = parts.query
  path : again.path.head? = some '/' ∧
    ∀ segment ∈ again.path.splitOn '/', segment ≠ ".".toList ∧ segment ≠ "..".toList
  length : url.length ≤ maxUrlLength
  clean : ∀ c ∈ url, isControl c = false

theorem lower_splitScheme (url : Text) :
    u.lower (splitScheme u [] url).1 = (splitScheme u [] url).1 := by
  unfold splitScheme
  split
  · exact Unicode.lower_lower _
  · rfl

theorem lower_scheme_of_urlsplit {text : Text} {parts : SplitResult}
    (h : urlsplit u text = .ok parts) : u.lower parts.scheme = parts.scheme := by
  simp only [urlsplit] at h
  obtain ⟨cut, -, h⟩ := bind_eq_ok.mp h
  obtain ⟨_, -, h⟩ := bind_eq_ok.mp h
  obtain rfl := Except.ok.inj h
  exact lower_splitScheme _

theorem shownPort_ne_default (scheme : Text) (port : Option ℕ) :
    shownPort scheme port ≠ some (defaultPort scheme) := by
  intro h
  have hshown := (Option.mem_filter_iff.mp h).2
  simp at hshown

theorem getD_shownPort (scheme : Text) (port : Option ℕ) :
    (shownPort scheme port).getD (defaultPort scheme) = port.getD (defaultPort scheme) := by
  cases port with
  | none => rfl
  | some p => by_cases hp : p = defaultPort scheme <;> simp [shownPort, Option.filter, hp]

theorem plain_removeDotSegments (text : Text) :
    ∀ segment ∈ (removeDotSegments ('/' :: text)).splitOn '/',
      segment ≠ ".".toList ∧ segment ≠ "..".toList := by
  intro segment hs
  rw [splitOn_removeDotSegments] at hs
  obtain ⟨tail, htail, -, hplain⟩ := keptSegments_spec text
  rw [htail] at hs
  have hsegment : isPlain segment = true := by
    rcases List.mem_cons.mp hs with rfl | hs
    · decide
    · exact (hplain segment hs).1
  simpa [isPlain] using hsegment

/-- What decides whether a normalized URL splits, and the host it has then. -/
theorem splits_normalize_iff {text url : Text} {parts : SplitResult} {port : Option ℕ}
    (hcontrol : ∀ c ∈ text, isControl c = false) (hs : urlsplit u text = .ok parts)
    (hport : parts.port u = .ok port) (h : normalizeParts u parts port = some url) :
    (Splits u url ↔ (':' ∈ parts.normalHost u ∨ '[' ∉ parts.normalHost u ∧ ']' ∉ parts.normalHost u) ∧
      checkNetloc u (authority (u.lower parts.scheme) (parts.normalHost u) port) = .ok ()) ∧
    ∀ parts', urlsplit u url = .ok parts' → parts'.hostname u = some (parts.normalHost u) := by
  obtain ⟨rest, hurl⟩ := normalForm_of_parts (urlsplit_spec hs) hport hcontrol h
  refine ⟨?_, fun parts' hs' => hurl.hostname_eq hs'⟩
  rw [← checkBrackets_normalHost (urlsplit_spec hs) hurl]
  constructor
  · rintro ⟨parts', hs'⟩
    rw [hurl.urlsplit_eq] at hs'
    obtain ⟨_, hbrackets, hs'⟩ := bind_eq_ok.mp hs'
    obtain ⟨_, hnetloc, -⟩ := map_eq_ok.mp hs'
    exact ⟨hbrackets, hnetloc⟩
  · rintro ⟨hbrackets, hnetloc⟩
    rw [SplitResult.normalHost] at hbrackets hnetloc
    rw [Splits, hurl.urlsplit_eq, hbrackets, hnetloc]
    exact ⟨_, rfl⟩

/-- Whatever parts a normalized URL splits into, they say what those of the URL given said. -/
theorem preserved_of_urlsplit {text url : Text} {parts again : SplitResult} {port : Option ℕ}
    (hcontrol : ∀ c ∈ text, isControl c = false) (hs : urlsplit u text = .ok parts)
    (hport : parts.port u = .ok port) (h : normalizeParts u parts port = some url)
    (hagain : urlsplit u url = .ok again) : Preserved u parts port url again := by
  obtain ⟨tail, kept, -, -, hquestion, hkept, hurl⟩ := exists_rest hcontrol hs hport h
  obtain ⟨hscheme, hhost, hspace, hlength, -⟩ := normalizeParts_eq_some.mp h
  obtain ⟨name, hname⟩ := exists_hostname hhost
  have hlower := lower_scheme_of_urlsplit hs
  rw [hlower] at hurl hscheme
  obtain ⟨-, hscheme', hnetloc⟩ := hurl.of_urlsplit hagain
  have hnormal : parts.normalHost u = u.lower name := by
    rw [SplitResult.normalHost, hname, Option.getD_some]
  have hmark : '?' ∉ kept := by
    intro hmem
    have hpath : '?' ∈ removeDotSegments ('/' :: tail) := by
      rw [hkept]
      exact List.mem_cons_of_mem _ hmem
    rcases mem_removeDotSegments hpath with hc | hc
    · exact absurd hc (by decide)
    · exact hquestion ((List.mem_cons.mp hc).resolve_left (by decide))
  have hnohash : '#' ∉ '/' :: (kept ++ queryPart parts.query) := by
    intro hmem
    rcases List.mem_cons.mp hmem with hc | hc
    · exact absurd hc (by decide)
    · exact (hurl.rest_char '#' hc).1 rfl
  obtain ⟨hbefore, hafter⟩ := split_queryPart hmark parts.query
  have hparts := hurl.urlsplit_eq
  rw [hagain, before_of_not_mem hnohash, after_of_not_mem hnohash, before_slash, after_slash, hbefore,
    hafter] at hparts
  obtain ⟨_, -, hparts⟩ := bind_eq_ok.mp hparts.symm
  obtain ⟨_, -, hparts⟩ := map_eq_ok.mp hparts
  have hpath : again.path = '/' :: kept := by rw [← hparts]
  exact
    { scheme := ⟨hscheme', hscheme'.symm ▸ hscheme⟩
      hostname := ⟨name, u.lower name, hname, rfl, hnormal ▸ hurl.hostname_eq hagain,
        hnormal ▸ hhost, hnormal ▸ hspace⟩
      effectivePort := ⟨_, hurl.port_eq hagain, shownPort_ne_default _ _, getD_shownPort _ _⟩
      netloc := hnetloc
      userinfo := by
        rw [hnetloc]
        exact fun hmem => (hurl.authority_char hmem).2.1 rfl
      fragment := by rw [← hparts]
      query := by rw [← hparts]
      path := by
        rw [hpath]
        refine ⟨rfl, ?_⟩
        rw [← hkept]
        exact plain_removeDotSegments tail
      length := hlength
      clean := fun c => hurl.url_char }

/-- The normal form of a URL splits, and then has kept everything, exactly when no bracket stands in a
bare host and `urlsplit` accepts the lowered authority. -/
theorem normalize_preserves {text url : Text} (h : normalize u text = some url) :
    (∃ parts port again, urlsplit u (strip text) = .ok parts ∧ parts.port u = .ok port ∧
      urlsplit u url = .ok again ∧ Preserved u parts port url again) ↔
    ∃ parts port, urlsplit u (strip text) = .ok parts ∧ parts.port u = .ok port ∧
      (':' ∈ parts.normalHost u ∨ '[' ∉ parts.normalHost u ∧ ']' ∉ parts.normalHost u) ∧
      checkNetloc u (authority (u.lower parts.scheme) (parts.normalHost u) port) = .ok () := by
  obtain ⟨hcontrol, parts, port, hs, hport, hsome⟩ := normalize_eq_some.mp h
  obtain ⟨hsplits, -⟩ := splits_normalize_iff hcontrol hs hport hsome
  constructor
  · rintro ⟨-, -, again, -, -, hagain, -⟩
    exact ⟨parts, port, hs, hport, hsplits.mp ⟨again, hagain⟩⟩
  · rintro ⟨parts', port', hs', hport', hfit⟩
    obtain rfl := Except.ok.inj (hs.symm.trans hs')
    obtain rfl := Except.ok.inj (hport.symm.trans hport')
    obtain ⟨again, hagain⟩ := hsplits.mpr hfit
    exact ⟨parts, port, again, hs, hport, hagain,
      preserved_of_urlsplit hcontrol hs hport hsome hagain⟩

theorem normalize_preserves_port :
    (∃ parts port again, urlsplit .ascii (strip "http://u:p@H:080/a/../b?q#f".toList) = .ok parts ∧
      parts.port .ascii = .ok port ∧ urlsplit .ascii "http://h/b?q".toList = .ok again ∧
      Preserved .ascii parts port "http://h/b?q".toList again) ↔
    ∃ parts port, urlsplit .ascii (strip "http://u:p@H:080/a/../b?q#f".toList) = .ok parts ∧
      parts.port .ascii = .ok port ∧
      (':' ∈ parts.normalHost .ascii ∨
        '[' ∉ parts.normalHost .ascii ∧ ']' ∉ parts.normalHost .ascii) ∧
      checkNetloc .ascii (authority (Unicode.lower .ascii parts.scheme) (parts.normalHost .ascii) port) =
        .ok () := by
  have h : normalize .ascii "http://u:p@H:080/a/../b?q#f".toList = some "http://h/b?q".toList := by
    decide +kernel
  exact normalize_preserves h

/-- Credentials with a bracket leave the other one in the host. -/
theorem normalize_strayBracket :
    normalize .ascii "http://[@v1.a]b/".toList = some "http://v1.a]b/".toList ∧
      urlsplit .ascii "http://v1.a]b/".toList = .error invalidIpv6Url := by
  decide +kernel

end UrlCrawler
