import UrlCrawler.Core.BracketedHost
import UrlCrawler.Core.DotSegments

/-! # Normalizing twice

The normal form of a URL is split into the parts it was put together from, and these are put together
to the same URL, except where dropping a part of the URL has moved something to an edge: white space to
the end of the URL, or a bracket into a host that stands bare.
-/
set_option autoImplicit false

namespace UrlCrawler
variable {u : Unicode}

theorem normalize_eq_some {text url : Text} : normalize u text = some url ↔
    (∀ c ∈ strip text, isControl c = false) ∧ ∃ parts port, urlsplit u (strip text) = .ok parts ∧
      parts.port u = .ok port ∧ normalizeParts u parts port = some url := by
  unfold normalize
  constructor
  · intro h
    dsimp only at h
    split at h
    · cases h
    rename_i hcontrol
    split at h
    · cases h
    rename_i parts hparts
    split at h
    · cases h
    rename_i port hport
    exact ⟨by simpa using hcontrol, parts, port, hparts, hport, h⟩
  · rintro ⟨hcontrol, parts, port, hparts, hport, h⟩
    have hany : (strip text).any isControl = false := by
      rw [List.any_eq_false]
      intro c hc
      rw [hcontrol c hc]
      decide
    simp [hany, hparts, hport, h]

/-! ## Path and query -/

/-- The query of a URL with its question mark. -/
def queryPart (query : Text) : Text := if query = [] then [] else '?' :: query

/-- What `normalize` makes of the path and the query `/rest`. -/
def settle (rest : Text) : Text :=
  removeDotSegments ('/' :: before '?' rest) ++ queryPart (after '?' rest)

theorem length_before_queryPart (text : Text) :
    (before '?' text).length + (queryPart (after '?' text)).length ≤ text.length := by
  by_cases hmark : '?' ∈ text
  · have hlength := congrArg List.length (before_append_after hmark)
    rw [List.length_append, List.length_cons] at hlength
    have hquery : (queryPart (after '?' text)).length ≤ (after '?' text).length + 1 := by
      unfold queryPart
      split
      · exact Nat.zero_le _
      · exact le_rfl
    omega
  · rw [before_of_not_mem hmark, after_of_not_mem hmark]
    exact le_rfl

theorem length_settle (rest : Text) : (settle rest).length ≤ rest.length + 1 := by
  have hpath := length_removeDotSegments (before '?' rest)
  have hrest := length_before_queryPart rest
  rw [settle, List.length_append]
  omega

theorem split_queryPart {path : Text} (hpath : '?' ∉ path) (query : Text) :
    before '?' (path ++ queryPart query) = path ∧ after '?' (path ++ queryPart query) = query := by
  unfold queryPart
  split
  · rename_i hquery
    rw [List.append_nil, hquery]
    exact ⟨before_of_not_mem hpath, after_of_not_mem hpath⟩
  · exact ⟨before_append query hpath, after_append query hpath⟩

theorem not_mem_kept {text kept : Text} (htext : '?' ∉ text)
    (hkept : removeDotSegments ('/' :: text) = '/' :: kept) : '?' ∉ kept := by
  intro hmem
  have hpath : '?' ∈ removeDotSegments ('/' :: text) := by
    rw [hkept]
    exact List.mem_cons_of_mem _ hmem
  rcases mem_removeDotSegments hpath with h | h
  · exact absurd h (by decide)
  · exact htext ((List.mem_cons.mp h).resolve_left (by decide))

/-- A path and query that are settled stay so. -/
theorem settle_settled {text kept : Text} (htext : '?' ∉ text) (query : Text)
    (hkept : removeDotSegments ('/' :: text) = '/' :: kept) :
    settle (kept ++ queryPart query) = '/' :: (kept ++ queryPart query) := by
  obtain ⟨hbefore, hafter⟩ := split_queryPart (not_mem_kept htext hkept) query
  have hidem := removeDotSegments_idem text
  rw [hkept] at hidem
  rw [settle, hbefore, hafter, hidem]
  rfl

theorem before_slash (text : Text) : before '?' ('/' :: text) = '/' :: before '?' text := by
  rw [before, List.takeWhile_cons_of_pos (by decide)]
  rfl

theorem after_slash (text : Text) : after '?' ('/' :: text) = after '?' text := by
  rw [after, List.dropWhile_cons_of_pos (by decide)]
  rfl

theorem urlunsplit_slash {scheme netloc : Text} (hscheme : scheme ≠ []) (hnetloc : netloc ≠ [])
    (kept query : Text) :
    urlunsplit { scheme, netloc, path := '/' :: kept, query, fragment := [] } =
      httpUrl scheme netloc (kept ++ queryPart query) := by
  simp [urlunsplit, joinNetloc, httpUrl, queryPart, hscheme, hnetloc]

/-! ## The edge of a URL -/

theorem endsInSpace_cons {c : Char} (hc : isSpace c = false) (text : Text) :
    endsInSpace (c :: text) = endsInSpace text := by
  cases text with
  | nil => simp [endsInSpace, hc]
  | cons next text =>
    rw [endsInSpace, endsInSpace, List.getLast?_cons_cons]

theorem endsInSpace_append {a b : Text} (hb : b ≠ []) : endsInSpace (a ++ b) = endsInSpace b := by
  rw [endsInSpace, endsInSpace, List.getLast?_append_of_ne_nil _ hb]

theorem rdropWhile_of_endsInSpace {text : Text} (h : endsInSpace text = false) :
    text.rdropWhile isSpace = text := by
  refine List.rdropWhile_eq_self_iff.mpr fun hne hspace => ?_
  rw [endsInSpace, List.getLast?_eq_some_getLast hne, Option.any_some, hspace] at h
  exact Bool.noConfusion h

theorem length_rdropWhile_lt {text : Text} (h : endsInSpace text = true) :
    (text.rdropWhile isSpace).length < text.length := by
  cases hne : text with
  | nil =>
    rw [hne] at h
    exact Bool.noConfusion h
  | cons c rest =>
    have hnonempty : text ≠ [] := by simp [hne]
    have hlast : isSpace (text.getLast hnonempty) = true := by
      rw [endsInSpace, List.getLast?_eq_some_getLast hnonempty] at h
      exact h
    rw [← hne]
    rcases lt_or_eq_of_le (List.rdropWhile_prefix isSpace text).length_le with hlt | heq
    · exact hlt
    · have hsame := (List.rdropWhile_prefix isSpace text).eq_of_length heq
      exact absurd hlast (List.rdropWhile_eq_self_iff.mp hsame hnonempty)

/-! ## The authority -/

/-- A host with a colon stood in brackets, and they were checked. -/
theorem checkBracketedHost_of_colon {parts : SplitResult}
    (h : checkBrackets u parts.netloc = .ok ()) (hcolon : ':' ∈ parts.hostinfo.1) :
    checkBracketedHost u parts.hostinfo.1 = .ok () := by
  simp only [SplitResult.hostinfo] at hcolon ⊢
  by_cases hopen : '[' ∈ afterLast '@' parts.netloc
  · rw [if_pos hopen] at hcolon ⊢
    have hnetloc : '[' ∈ parts.netloc := afterLast_subset '@' _ hopen
    unfold checkBrackets at h
    split at h
    · unfold checkBracketedNetloc at h
      dsimp only at h
      rw [if_pos hopen] at h
      split at h
      · cases h
      · split at h
        · cases h
        · exact h
    · rw [if_pos (.inl hnetloc)] at h
      cases h
  · rw [if_neg hopen] at hcolon
    exact absurd hcolon (not_mem_before ':' _)

theorem lower_hostname {parts : SplitResult} {name : Text} (h : parts.hostname u = some name) :
    u.lower name = loweredHost u parts.hostinfo.1 := by
  unfold SplitResult.hostname at h
  dsimp only at h
  split at h
  · cases h
  · rw [← Option.some.inj h]
    rfl

namespace NormalForm
variable {scheme host rest url : Text} {port : Option ℕ}

theorem checkBrackets_authority (h : NormalForm u scheme host port rest url) (hcolon : ':' ∈ host) :
    checkBrackets u (authority scheme host port) = checkBracketedHost u host := by
  have hclose : ']' ∉ host := h.host_cut.resolve_right fun hcut => hcut.1 hcolon
  have hat : afterLast '@' (authority scheme host port) = authority scheme host port :=
    afterLast_of_not_mem fun hc => (h.authority_char hc).2.1 rfl
  generalize hport : ((shownPort scheme port).elim [] fun p => ':' :: showNat p) = shown
  have hshown : ¬(shown ≠ [] ∧ shown.head? ≠ some ':') := by
    rintro ⟨hne, hhead⟩
    rw [← hport] at hne hhead
    cases hp : shownPort scheme port with
    | none => simp [hp] at hne
    | some p => simp [hp] at hhead
  have heq : authority scheme host port = [] ++ '[' :: (host ++ ']' :: shown) := by
    rw [authority_eq, if_pos hcolon, hport]
    simp
  rw [checkBrackets, if_pos (by rw [heq]; simp), checkBracketedNetloc, hat, heq,
    before_append _ List.not_mem_nil, after_append _ List.not_mem_nil]
  simp only [before_append _ hclose, after_append _ hclose]
  simp [hshown]

/-- Brackets in a host that stands bare are refused. -/
theorem checkBrackets_bare (h : NormalForm u scheme host port rest url) (hcolon : ':' ∉ host) :
    checkBrackets u (authority scheme host port) = .ok () ↔ '[' ∉ host ∧ ']' ∉ host := by
  have hmem : ∀ c, c = '[' ∨ c = ']' → (c ∈ authority scheme host port ↔ c ∈ host) := by
    intro c hc
    rw [authority_eq, if_neg hcolon, List.mem_append]
    refine or_iff_left fun hshown => ?_
    cases hp : shownPort scheme port with
    | none =>
      rw [hp] at hshown
      cases hshown
    | some p =>
      rw [hp] at hshown
      rcases List.mem_cons.mp hshown with rfl | hdigit
      · revert hc
        decide
      · have hno : c.isDigit = false := by
          rcases hc with rfl | rfl <;> decide
        rw [isDigit_of_mem_showNat hdigit] at hno
        exact Bool.noConfusion hno
  constructor
  · intro hb
    have hopen := h.not_bracket hb hcolon
    refine ⟨hopen, fun hclose => ?_⟩
    simp [checkBrackets, hmem, hopen, hclose] at hb
  · rintro ⟨hopen, hclose⟩
    simp [checkBrackets, hmem, hopen, hclose]

/-- What normalizing a normalized URL once more gives. -/
theorem normalize_iff (h : NormalForm u scheme host port rest url)
    (hspace : ∀ c ∈ host, isSpace c = false) {again : Text} : normalize u url = some again ↔
      checkBrackets u (authority scheme host port) = .ok () ∧
      checkNetloc u (authority scheme host port) = .ok () ∧ again.length ≤ maxUrlLength ∧
      scheme ++ ':' :: '/' :: '/' ::
        (authority scheme host port ++ settle (rest.rdropWhile isSpace)) = again := by
  have hstrip := h.strip
  generalize rest.rdropWhile isSpace = edge at hstrip ⊢
  have hfixed : u.lower host = host := Unicode.lower_of_fixed h.host_fixed
  have hnohash : '#' ∉ '/' :: edge := by
    intro hmem
    rcases List.mem_cons.mp hmem with hc | hc
    · exact absurd hc (by decide)
    · exact (hstrip.rest_char '#' hc).1 rfl
  obtain ⟨kept, hkept⟩ := exists_removeDotSegments (before '?' edge)
  have hsettle : settle edge = '/' :: (kept ++ queryPart (after '?' edge)) := by
    rw [settle, hkept]
    rfl
  -- the parts of the URL, and what `normalize` puts together from them
  have hparts : ∀ parts, urlsplit u (UrlCrawler.strip url) = .ok parts →
      (normalizeParts u parts (shownPort scheme port) = some again ↔
        again.length ≤ maxUrlLength ∧ scheme ++ ':' :: '/' :: '/' ::
          (authority scheme host port ++ settle edge) = again) := by
    intro parts hs
    have hpath : parts.path = '/' :: before '?' edge ∧ parts.query = after '?' edge := by
      have hsplit := hstrip.urlsplit_eq
      rw [hs, before_of_not_mem hnohash] at hsplit
      obtain ⟨_, -, hsplit⟩ := bind_eq_ok.mp hsplit.symm
      obtain ⟨_, -, rfl⟩ := map_eq_ok.mp hsplit
      exact ⟨before_slash edge, after_slash edge⟩
    have hauthority : authority scheme host port ≠ [] := authority_ne_nil port h.host_ne
    have hurl := urlunsplit_slash (scheme_ne_nil h.scheme_mem) hauthority kept (after '?' edge)
    rw [normalizeParts_eq_some, (hstrip.of_urlsplit hs).2.1, hstrip.hostname_eq hs, hpath.1, hpath.2,
      lower_scheme h.scheme_mem, Option.getD_some, hfixed, if_neg (List.cons_ne_nil _ _), hkept,
      authority_shownPort, hurl, hsettle]
    exact ⟨fun hsome => hsome.2.2.2, fun hsome => ⟨h.scheme_mem, h.host_ne, hspace, hsome⟩⟩
  rw [normalize_eq_some]
  constructor
  · rintro ⟨-, parts, port', hs, hport, hsome⟩
    obtain rfl : port' = shownPort scheme port :=
      Except.ok.inj (hport.symm.trans (hstrip.port_eq hs))
    have hsplit := hstrip.urlsplit_eq
    rw [hs] at hsplit
    obtain ⟨_, hbrackets, hsplit⟩ := bind_eq_ok.mp hsplit.symm
    obtain ⟨_, hnetloc, -⟩ := map_eq_ok.mp hsplit
    exact ⟨hbrackets, hnetloc, (hparts parts hs).mp hsome⟩
  · rintro ⟨hbrackets, hnetloc, hsome⟩
    obtain ⟨parts, hs⟩ : ∃ parts, urlsplit u (UrlCrawler.strip url) = .ok parts := by
      rw [hstrip.urlsplit_eq, hbrackets, hnetloc]
      exact ⟨_, rfl⟩
    exact ⟨fun c => hstrip.url_char, parts, _, hs, hstrip.port_eq hs, (hparts parts hs).mpr hsome⟩

end NormalForm

/-! ## Normalizing the result -/

/-- The host of a normalized URL, made of the parts of the URL given. -/
def SplitResult.normalHost (u : Unicode) (parts : SplitResult) : Text :=
  u.lower ((parts.hostname u).getD [])

/-- Nothing is dropped behind white space, no bracket comes to stand in a bare host, and the lowered
authority is one `urlsplit` accepts. -/
structure Settled (u : Unicode) (parts : SplitResult) (port : Option ℕ) : Prop where
  edge : endsInSpace (if parts.query = [] then parts.path else parts.query) = false
  brackets : ':' ∈ parts.normalHost u ∨ '[' ∉ parts.normalHost u ∧ ']' ∉ parts.normalHost u
  netloc : checkNetloc u (authority (u.lower parts.scheme) (parts.normalHost u) port) = .ok ()

theorem exists_hostname {parts : SplitResult} (h : parts.normalHost u ≠ []) :
    ∃ name, parts.hostname u = some name := by
  cases hname : parts.hostname u with
  | none =>
    rw [SplitResult.normalHost, hname] at h
    exact absurd rfl h
  | some name => exact ⟨name, rfl⟩

/-- A normalized URL passes the bracket checks unless its host stands bare and has a bracket. -/
theorem checkBrackets_normalHost {text rest url : Text} {parts : SplitResult} {port : Option ℕ}
    (hspec : SplitSpec u text parts)
    (hurl : NormalForm u (u.lower parts.scheme) (parts.normalHost u) port rest url) :
    checkBrackets u (authority (u.lower parts.scheme) (parts.normalHost u) port) = .ok () ↔
      ':' ∈ parts.normalHost u ∨ '[' ∉ parts.normalHost u ∧ ']' ∉ parts.normalHost u := by
  by_cases hcolon : ':' ∈ parts.normalHost u
  · obtain ⟨name, hname⟩ := exists_hostname hurl.host_ne
    have hlowered : parts.normalHost u = loweredHost u parts.hostinfo.1 := by
      rw [SplitResult.normalHost, hname, Option.getD_some, lower_hostname hname]
    have hinfo : ':' ∈ parts.hostinfo.1 := by
      rw [SplitResult.normalHost, hname] at hcolon
      exact mem_hostname hname (by decide) (by decide)
        (Unicode.mem_of_mem_lower (by decide) (by decide) hcolon)
    have hchecked := checkBracketedHost_of_colon hspec.brackets hinfo
    refine iff_of_true ?_ (.inl hcolon)
    rw [hurl.checkBrackets_authority hcolon, hlowered]
    exact checkBracketedHost_loweredHost hchecked
  · rw [or_iff_right hcolon]
    exact hurl.checkBrackets_bare hcolon

/-- The path of a URL with an authority is empty or begins with a slash. -/
theorem urlsplit_path {text : Text} {parts : SplitResult} (h : urlsplit u text = .ok parts)
    (hnetloc : parts.netloc ≠ []) :
    (parts.path = [] ∨ ∃ tail, parts.path = '/' :: tail) ∧ '?' ∉ parts.path := by
  simp only [urlsplit] at h
  obtain ⟨⟨netloc, rest⟩, hcut, h⟩ := bind_eq_ok.mp h
  obtain ⟨_, -, h⟩ := bind_eq_ok.mp h
  obtain rfl := Except.ok.inj h
  refine ⟨?_, not_mem_before '?' _⟩
  unfold splitNetloc at hcut
  split at hcut
  · rename_i text hslashes
    obtain ⟨_, -, hcut⟩ := bind_eq_ok.mp hcut
    obtain ⟨-, hrest⟩ := Prod.mk.inj (Except.ok.inj hcut)
    cases hne : rest with
    | nil => exact .inl rfl
    | cons c tail =>
      have hstop : inNetloc c = false := by
        have hhead := List.head_dropWhile_not inNetloc (l := text) (by rw [hrest, hne]; simp)
        simpa [hrest, hne] using hhead
      simp only [inNetloc, List.mem_cons, List.not_mem_nil, or_false, decide_eq_false_iff_not,
        not_not] at hstop
      rcases hstop with rfl | rfl | rfl
      · exact .inr ⟨_, rfl⟩
      · exact .inl rfl
      · exact .inl rfl
  · exact absurd (Prod.mk.inj (Except.ok.inj hcut)).1.symm hnetloc

theorem endsInSpace_queryPart {query : Text} (h : query ≠ []) :
    endsInSpace (queryPart query) = endsInSpace query := by
  rw [queryPart, if_neg h, endsInSpace_cons (by decide)]

/-- What `normalize` makes of path and query ends as they do. -/
theorem endsInSpace_path {path : Text} (query : Text) (hpath : path = [] ∨ ∃ tail, path = '/' :: tail) :
    endsInSpace (removeDotSegments (if path = [] then ['/'] else path) ++ queryPart query) =
      endsInSpace (if query = [] then path else query) := by
  by_cases hquery : query = []
  · rw [hquery, queryPart, if_pos rfl, List.append_nil, if_pos rfl]
    rcases hpath with rfl | ⟨tail, rfl⟩
    · decide
    · rw [if_neg (List.cons_ne_nil _ _), endsInSpace_removeDotSegments]
  · have hne : queryPart query ≠ [] := by
      rw [queryPart, if_neg hquery]
      exact List.cons_ne_nil _ _
    rw [endsInSpace_append hne, endsInSpace_queryPart hquery, if_neg hquery]

/-- What stands behind the authority of a normalized URL: the path without its dot segments and the
query. -/
theorem exists_rest {text url : Text} {parts : SplitResult} {port : Option ℕ}
    (hcontrol : ∀ c ∈ text, isControl c = false) (hs : urlsplit u text = .ok parts)
    (hport : parts.port u = .ok port) (h : normalizeParts u parts port = some url) :
    ∃ tail kept, (parts.path = [] ∨ ∃ tail, parts.path = '/' :: tail) ∧
      (if parts.path = [] then ['/'] else parts.path) = '/' :: tail ∧ '?' ∉ tail ∧
      removeDotSegments ('/' :: tail) = '/' :: kept ∧
      NormalForm u (u.lower parts.scheme) (parts.normalHost u) port (kept ++ queryPart parts.query)
        url := by
  obtain ⟨rest, hurl⟩ := normalForm_of_parts (urlsplit_spec hs) hport hcontrol h
  obtain ⟨hscheme, hhost, -, -, heq⟩ := normalizeParts_eq_some.mp h
  obtain ⟨name, hname⟩ := exists_hostname hhost
  have hnetloc : parts.netloc ≠ [] := by
    intro hnil
    simp [SplitResult.hostname, SplitResult.hostinfo, hnil, afterLast, before] at hname
  obtain ⟨hpath, hmark⟩ := urlsplit_path hs hnetloc
  obtain ⟨tail, htail, hquestion⟩ : ∃ tail,
      (if parts.path = [] then ['/'] else parts.path) = '/' :: tail ∧ '?' ∉ tail := by
    rcases hpath with hnil | ⟨tail, htail⟩
    · exact ⟨[], if_pos hnil, List.not_mem_nil⟩
    · refine ⟨tail, by rw [htail, if_neg (List.cons_ne_nil _ _)], fun hmem => hmark ?_⟩
      rw [htail]
      exact List.mem_cons_of_mem _ hmem
  obtain ⟨kept, hkept⟩ := exists_removeDotSegments tail
  have hrest : rest = kept ++ queryPart parts.query := by
    rw [htail, hkept, urlunsplit_slash (scheme_ne_nil hscheme) (authority_ne_nil port hhost)] at heq
    have hsame := heq.trans hurl.url_eq
    rw [httpUrl, httpUrl] at hsame
    simpa using hsame.symm
  exact ⟨tail, kept, hpath, htail, hquestion, hkept, hrest ▸ hurl⟩

/-- Whether the normal form of the given parts normalizes to itself. -/
theorem normalize_parts_iff {text url : Text} {parts : SplitResult} {port : Option ℕ}
    (hcontrol : ∀ c ∈ text, isControl c = false) (hs : urlsplit u text = .ok parts)
    (hport : parts.port u = .ok port) (h : normalizeParts u parts port = some url) :
    normalize u url = some url ↔ Settled u parts port := by
  obtain ⟨tail, kept, hpath, htail, hquestion, hkept, hurl⟩ := exists_rest hcontrol hs hport h
  have hbrackets := checkBrackets_normalHost (urlsplit_spec hs) hurl
  obtain ⟨-, -, hspace, hlength, -⟩ := normalizeParts_eq_some.mp h
  generalize hrest : kept ++ queryPart parts.query = rest at hurl
  have hedge : endsInSpace rest =
      endsInSpace (if parts.query = [] then parts.path else parts.query) := by
    rw [← endsInSpace_path parts.query hpath, htail, hkept, ← hrest]
    exact (endsInSpace_cons (by decide) _).symm
  rw [hurl.normalize_iff hspace, hurl.url_eq]
  constructor
  · rintro ⟨hb, hn, -, hsettle⟩
    refine ⟨?_, hbrackets.mp hb, hn⟩
    rw [← hedge, ← Bool.not_eq_true]
    intro hends
    have hshort := length_rdropWhile_lt hends
    have hsettled := length_settle (rest.rdropWhile isSpace)
    have hlen := congrArg List.length hsettle
    simp only [httpUrl, List.length_append, List.length_cons] at hlen
    omega
  · rintro ⟨hends, hb, hn⟩
    rw [← hedge] at hends
    refine ⟨hbrackets.mpr hb, hn, by rw [← hurl.url_eq]; exact hlength, ?_⟩
    rw [rdropWhile_of_endsInSpace hends, ← hrest, settle_settled hquestion parts.query hkept]
    rfl

/-- A URL in normal form is its own normal form exactly when the parts it was made of are settled. -/
theorem normalize_normalize {text url : Text} (h : normalize u text = some url) :
    normalize u url = some url ↔ ∃ parts port, urlsplit u (strip text) = .ok parts ∧
      parts.port u = .ok port ∧ Settled u parts port := by
  obtain ⟨hcontrol, parts, port, hs, hport, hsome⟩ := normalize_eq_some.mp h
  rw [normalize_parts_iff hcontrol hs hport hsome]
  constructor
  · exact fun hsettled => ⟨parts, port, hs, hport, hsettled⟩
  · rintro ⟨parts', port', hs', hport', hsettled⟩
    obtain rfl := Except.ok.inj (hs.symm.trans hs')
    obtain rfl := Except.ok.inj (hport.symm.trans hport')
    exact hsettled

theorem normalize_normalize_http :
    normalize .ascii "http://h/a".toList = some "http://h/a".toList ↔
      ∃ parts port, urlsplit .ascii (strip " HTTP://H/./a#f".toList) = .ok parts ∧
        parts.port .ascii = .ok port ∧ Settled .ascii parts port := by
  have h : normalize .ascii " HTTP://H/./a#f".toList = some "http://h/a".toList := by decide +kernel
  exact normalize_normalize h

/-- The space before a fragment is at the end of the URL, once the fragment is gone. -/
theorem normalize_spaceBeforeFragment :
    normalize .ascii "http://h/a #f".toList = some "http://h/a ".toList ∧
      normalize .ascii "http://h/a ".toList = some "http://h/a".toList := by
  decide +kernel

end UrlCrawler
