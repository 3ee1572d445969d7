import UrlCrawler.Core.Urls

/-! # What a normalized URL looks like

A normalized URL is `scheme://authority/…` with a lower-case host, so that taking it apart gives the
parts it was put together from, or fails one of the checks `urlsplit` makes on an authority.
Normalizing it again may still change it, but not its scope.
-/
set_option autoImplicit false

namespace UrlCrawler
variable {u : Unicode}

/-! ## Splitting a URL with an authority -/

/-- `scheme://netloc/rest`. -/
def httpUrl (scheme netloc rest : Text) : Text :=
  scheme ++ ':' :: '/' :: '/' :: (netloc ++ '/' :: rest)

theorem mem_scheme {scheme : Text} (h : scheme ∈ allowedSchemes) {c : Char} (hc : c ∈ scheme) :
    c = 'h' ∨ c = 't' ∨ c = 'p' ∨ c = 's' := by
  have hsub : ∀ s ∈ allowedSchemes, s.all (fun c => c = 'h' || c = 't' || c = 'p' || c = 's') := by
    intro s hs
    rcases List.mem_cons.mp hs with rfl | hs
    · rfl
    · obtain rfl := List.mem_singleton.mp hs
      rfl
  have hall := List.all_eq_true.mp (hsub scheme h) c hc
  simpa [or_assoc] using hall

theorem fixed_of_mem_scheme {scheme : Text} (h : scheme ∈ allowedSchemes) {c : Char}
    (hc : c ∈ scheme) : u.Fixed c := by
  have hlower : c.toLower = c ∧ c ≠ 'Σ' ∧ isAscii c = true := by
    rcases mem_scheme h hc with rfl | rfl | rfl | rfl <;> decide
  refine ⟨?_, hlower.2.1⟩
  rw [u.toLower_ascii c hlower.2.2, hlower.1]

theorem lower_scheme {scheme : Text} (h : scheme ∈ allowedSchemes) : u.lower scheme = scheme :=
  Unicode.lower_of_fixed fun _ => fixed_of_mem_scheme h

theorem splitScheme_http {scheme : Text} (h : scheme ∈ allowedSchemes) (given rest : Text) :
    splitScheme u given (scheme ++ ':' :: rest) = (scheme, rest) := by
  have hcolon : ':' ∉ scheme := by
    rcases List.mem_cons.mp h with rfl | h
    · decide
    · obtain rfl := List.mem_singleton.mp h
      decide
  have hgood : scheme.head?.any Char.isAlpha = true ∧ scheme.all isSchemeChar = true := by
    rcases List.mem_cons.mp h with rfl | h
    · decide
    · obtain rfl := List.mem_singleton.mp h
      decide
  rw [splitScheme, before_append rest hcolon, after_append rest hcolon, hgood.1, hgood.2,
    if_pos (by simp), lower_scheme h]

theorem takeWhile_netloc {netloc : Text} (h : ∀ c ∈ netloc, inNetloc c = true) (rest : Text) :
    (netloc ++ '/' :: rest).takeWhile inNetloc = netloc := by
  rw [List.takeWhile_append_of_pos h, List.takeWhile_cons_of_neg (by decide), List.append_nil]

theorem dropWhile_netloc {netloc : Text} (h : ∀ c ∈ netloc, inNetloc c = true) (rest : Text) :
    (netloc ++ '/' :: rest).dropWhile inNetloc = '/' :: rest := by
  rw [List.dropWhile_append_of_pos h, List.dropWhile_cons_of_neg (by decide)]

/-- A URL with an authority splits into its parts, if the authority passes the checks. -/
theorem urlsplit_httpUrl {scheme netloc rest : Text} (hs : scheme ∈ allowedSchemes)
    (hn : ∀ c ∈ netloc, inNetloc c = true)
    (hclean : ∀ c ∈ httpUrl scheme netloc rest, isUnsafeByte c = false) :
    urlsplit u (httpUrl scheme netloc rest) =
      (checkBrackets u netloc).bind fun _ => (checkNetloc u netloc).map fun _ =>
        { scheme, netloc, path := before '?' (before '#' ('/' :: rest)),
          query := after '?' (before '#' ('/' :: rest)), fragment := after '#' ('/' :: rest) } := by
  have hstrip : (httpUrl scheme netloc rest).dropWhile isC0OrSpace = httpUrl scheme netloc rest := by
    rcases List.mem_cons.mp hs with rfl | h
    · rfl
    · obtain rfl := List.mem_singleton.mp h
      rfl
  have hfilter : (httpUrl scheme netloc rest).filter (fun c => !isUnsafeByte c) =
      httpUrl scheme netloc rest :=
    List.filter_eq_self.mpr fun c hc => by rw [hclean c hc]; rfl
  simp only [urlsplit, hstrip, hfilter]
  rw [httpUrl, splitScheme_http hs]
  simp only [splitNetloc, takeWhile_netloc hn, dropWhile_netloc hn]
  cases checkBrackets u netloc with
  | error e => rfl
  | ok _ =>
    show (checkNetloc u netloc).bind _ = _
    cases checkNetloc u netloc <;> rfl

/-! ## The parts of a split URL -/

/-- What the parts of a split URL can hold. -/
structure SplitSpec (u : Unicode) (url : Text) (parts : SplitResult) : Prop where
  brackets : checkBrackets u parts.netloc = .ok ()
  netloc : ∀ c ∈ parts.netloc, inNetloc c = true ∧ c ∈ url
  path : ∀ c ∈ parts.path, c ≠ '#' ∧ c ∈ url
  query : ∀ c ∈ parts.query, c ≠ '#' ∧ c ∈ url

theorem splitScheme_subset (scheme url : Text) : (splitScheme u scheme url).2 ⊆ url := by
  unfold splitScheme
  split
  · exact after_subset ':' url
  · exact List.Subset.refl _

theorem splitNetloc_spec {url netloc rest : Text} (h : splitNetloc u url = .ok (netloc, rest)) :
    checkBrackets u netloc = .ok () ∧ (∀ c ∈ netloc, inNetloc c = true ∧ c ∈ url) ∧
      rest ⊆ url := by
  unfold splitNetloc at h
  split at h
  · rename_i after
    obtain ⟨_, hb, h⟩ := bind_eq_ok.mp h
    cases h
    refine ⟨hb, fun c hc => ⟨List.mem_takeWhile_imp hc, ?_⟩, fun c hc => ?_⟩
    · have := (List.takeWhile_prefix _).subset hc
      simp [this]
    · have := (List.dropWhile_suffix _).subset hc
      simp [this]
  · cases h
    exact ⟨rfl, by simp, List.Subset.refl _⟩

theorem urlsplit_spec {url given : Text} {parts : SplitResult}
    (h : urlsplit u url given = .ok parts) : SplitSpec u url parts := by
  simp only [urlsplit] at h
  generalize hurl : (url.dropWhile isC0OrSpace).filter (fun c => !isUnsafeByte c) = clean at h
  have hclean : clean ⊆ url := fun c hc => by
    rw [← hurl] at hc
    exact (List.dropWhile_suffix _).subset (List.mem_of_mem_filter hc)
  generalize hscheme : splitScheme u _ clean = cut at h
  have hcut : cut.2 ⊆ url := by
    rw [← hscheme]
    exact List.Subset.trans (splitScheme_subset _ clean) hclean
  obtain ⟨⟨netloc, rest⟩, hnetloc, h⟩ := bind_eq_ok.mp h
  obtain ⟨_, -, h⟩ := bind_eq_ok.mp h
  obtain rfl := Except.ok.inj h
  obtain ⟨hbrackets, hin, hrest⟩ := splitNetloc_spec hnetloc
  have hhash : ∀ c ∈ before '#' rest, c ≠ '#' ∧ c ∈ url := fun c hc =>
    ⟨fun he => not_mem_before '#' rest (he ▸ hc), hcut (hrest (before_subset '#' rest hc))⟩
  exact
    { brackets := hbrackets
      netloc := fun c hc => ⟨(hin c hc).1, hcut (hin c hc).2⟩
      path := fun c hc => hhash c (before_subset '?' _ hc)
      query := fun c hc => hhash c (after_subset '?' _ hc) }

/-- The characters that cut an authority in pieces can only be in a host as far as the host was
cut out by them. -/
theorem hostinfo_spec (parts : SplitResult) :
    (∀ c ∈ parts.hostinfo.1, c ∈ parts.netloc ∧ c ≠ '@') ∧
      (']' ∉ parts.hostinfo.1 ∨ ':' ∉ parts.hostinfo.1 ∧ '[' ∉ parts.hostinfo.1) := by
  have hat : ∀ c ∈ afterLast '@' parts.netloc, c ∈ parts.netloc ∧ c ≠ '@' := fun c hc =>
    ⟨afterLast_subset '@' _ hc, fun he => not_mem_afterLast '@' parts.netloc (he ▸ hc)⟩
  simp only [SplitResult.hostinfo]
  split
  · exact ⟨fun c hc => hat c (after_subset '[' _ (before_subset ']' _ hc)),
      .inl (not_mem_before ']' _)⟩
  · rename_i hopen
    exact ⟨fun c hc => hat c (before_subset ':' _ hc),
      .inr ⟨not_mem_before ':' _, fun hc => hopen (before_subset ':' _ hc)⟩⟩

theorem mem_hostname {parts : SplitResult} {host : Text} (h : parts.hostname u = some host)
    {d : Char} (hascii : isAscii d = true) (hletter : d.isLower = false) (hd : d ∈ host) :
    d ∈ parts.hostinfo.1 := by
  simp only [SplitResult.hostname] at h
  split at h
  · cases h
  · cases h
    rcases List.mem_append.mp hd with hd | hd
    · exact before_subset '%' _ (Unicode.mem_of_mem_lower hascii hletter hd)
    · exact (List.dropWhile_suffix _).subset hd

theorem port_spec {parts : SplitResult} {port : Option ℕ} (h : parts.port u = .ok port) :
    ∀ p ∈ port, p ≤ 65535 := by
  rintro p rfl
  unfold SplitResult.port at h
  split at h
  · cases h
  · split at h
    · cases h
    · split at h
      · cases h
      · split at h
        · rename_i hle
          cases h
          exact hle
        · cases h

/-! ## Paths -/

theorem mem_intercalate {x c : Char} : ∀ {segments : List Text},
    c ∈ [x].intercalate segments → c = x ∨ ∃ segment ∈ segments, c ∈ segment
  | [], h => by simp at h
  | [segment], h => .inr ⟨segment, List.mem_singleton_self _, by simpa using h⟩
  | segment :: next :: rest, h => by
      rw [List.intercalate_cons_cons, List.mem_append, List.mem_append] at h
      rcases h with (h | h) | h
      · exact .inr ⟨segment, List.mem_cons_self .., h⟩
      · exact .inl (List.mem_singleton.mp h)
      · rcases mem_intercalate h with h | ⟨segment, hs, hc⟩
        · exact .inl h
        · exact .inr ⟨segment, List.mem_cons_of_mem _ hs, hc⟩

theorem mem_intercalate_of_mem {x c : Char} {segment : Text} (hc : c ∈ segment) :
    ∀ {segments : List Text}, segment ∈ segments → c ∈ [x].intercalate segments
  | [only], h => by
      obtain rfl := List.mem_singleton.mp h
      simpa using hc
  | first :: next :: rest, h => by
      rw [List.intercalate_cons_cons, List.mem_append, List.mem_append]
      rcases List.mem_cons.mp h with rfl | h
      · exact .inl (.inl hc)
      · exact .inr (mem_intercalate_of_mem hc h)

theorem mem_removeDots {segment : Text} : ∀ {segments output : List Text},
    segment ∈ removeDots output segments → segment ∈ output ∨ segment ∈ segments ∨ segment = []
  | [], output, h => .inl h
  | next :: rest, output, h => by
      rw [removeDots] at h
      split at h
      · rcases mem_removeDots h with h | h | h
        · rcases List.mem_append.mp h with h | h
          · exact .inl h
          · exact .inr (.inl (List.mem_singleton.mp h ▸ List.mem_cons_self ..))
        · exact .inr (.inl (List.mem_cons_of_mem _ h))
        · exact .inr (.inr h)
      · generalize hkept : (if next = "..".toList && 1 < output.length then output.dropLast
          else output) = kept at h
        have hsub : kept ⊆ output := by
          rw [← hkept]
          split
          · exact List.dropLast_subset output
          · exact List.Subset.refl _
        rcases mem_removeDots h with h | h | h
        · split at h
          · rcases List.mem_append.mp h with h | h
            · exact .inl (hsub h)
            · exact .inr (.inr (List.mem_singleton.mp h))
          · exact .inl (hsub h)
        · exact .inr (.inl (List.mem_cons_of_mem _ h))
        · exact .inr (.inr h)

theorem mem_removeDotSegments {path : Text} {c : Char} (h : c ∈ removeDotSegments path) :
    c = '/' ∨ c ∈ path := by
  simp only [removeDotSegments] at h
  split at h
  · exact .inl (List.mem_singleton.mp h)
  · rcases mem_intercalate h with h | ⟨segment, hs, hc⟩
    · exact .inl h
    · rcases mem_removeDots hs with hs | hs | rfl
      · cases hs
      · refine .inr ?_
        have hjoined : ['/'].intercalate (path.splitOn '/') = path := List.intercalate_splitOn '/'
        rw [← hjoined]
        exact mem_intercalate_of_mem hc hs
      · cases hc

theorem removeDotSegments_ne_nil (path : Text) : removeDotSegments path ≠ [] := by
  simp only [removeDotSegments]
  split
  · exact List.cons_ne_nil _ _
  · assumption

/-! ## The normal form -/

theorem isAscii_of_isControl {c : Char} (h : isControl c = true) :
    isAscii c = true ∧ c.isLower = false := by
  have hn : c.toNat ≤ 0x1F ∨ c.toNat = 0x7F := by simpa [isControl] using h
  refine ⟨?_, ?_⟩
  · simp only [isAscii, decide_eq_true_eq]
    omega
  · rw [Bool.eq_false_iff, Ne, isLower_iff]
    omega

/-- `url` is the normal form of a URL with this scheme, host and port. -/
structure NormalForm (u : Unicode) (scheme host : Text) (port : Option ℕ) (rest url : Text) :
    Prop where
  scheme_mem : scheme ∈ allowedSchemes
  host_ne : host ≠ []
  host_fixed : ∀ c ∈ host, u.Fixed c
  host_char : ∀ c ∈ host, inNetloc c = true ∧ c ≠ '@' ∧ isControl c = false
  host_cut : ']' ∉ host ∨ ':' ∉ host ∧ '[' ∉ host
  port_le : ∀ p ∈ port, p ≤ 65535
  rest_char : ∀ c ∈ rest, c ≠ '#' ∧ isControl c = false
  url_eq : url = httpUrl scheme (authority scheme host port) rest

/-- A URL with an authority and a path, put together. -/
theorem urlunsplit_eq {scheme netloc path : Text} (hs : scheme ≠ []) (hn : netloc ≠ [])
    (hp : path ≠ []) (query : Text) : ∃ rest, (∀ c ∈ rest, c ∈ path ∨ c = '?' ∨ c ∈ query) ∧
      urlunsplit { scheme, netloc, path, query, fragment := [] } = httpUrl scheme netloc rest := by
  obtain ⟨c, tail, rfl⟩ := List.exists_cons_of_ne_nil hp
  have hquery : ∀ d ∈ (if query = [] then [] else '?' :: query : Text), d = '?' ∨ d ∈ query := by
    intro d hd
    split at hd
    · cases hd
    · exact List.mem_cons.mp hd
  by_cases hc : c = '/'
  · subst hc
    refine ⟨tail ++ if query = [] then [] else '?' :: query, fun d hd => ?_, ?_⟩
    · rcases List.mem_append.mp hd with hd | hd
      · exact .inl (List.mem_cons_of_mem _ hd)
      · exact .inr (hquery d hd)
    · simp [urlunsplit, joinNetloc, httpUrl, hs, hn]
  · refine ⟨c :: tail ++ if query = [] then [] else '?' :: query, fun d hd => ?_, ?_⟩
    · rcases List.mem_append.mp hd with hd | hd
      · exact .inl hd
      · exact .inr (hquery d hd)
    · simp [urlunsplit, joinNetloc, httpUrl, hs, hn, hc]

theorem scheme_ne_nil {scheme : Text} (h : scheme ∈ allowedSchemes) : scheme ≠ [] := by
  rintro rfl
  revert h
  decide

/-- The port a normalized URL shows. -/
def shownPort (scheme : Text) (port : Option ℕ) : Option ℕ :=
  port.filter (· ≠ defaultPort scheme)

theorem authority_eq (scheme host : Text) (port : Option ℕ) :
    authority scheme host port = (if ':' ∈ host then '[' :: host ++ [']'] else host) ++
      ((shownPort scheme port).elim [] fun p => ':' :: showNat p) := by
  cases port with
  | none => simp [authority, shownPort]
  | some p => by_cases hp : p = defaultPort scheme <;> simp [authority, shownPort, Option.filter, hp]

theorem authority_ne_nil {scheme host : Text} (port : Option ℕ) (h : host ≠ []) :
    authority scheme host port ≠ [] := by
  rw [authority_eq]
  split
  · exact List.cons_ne_nil _ _
  · exact List.append_ne_nil_of_left_ne_nil h _

theorem mem_authority {scheme host : Text} {port : Option ℕ} {c : Char}
    (h : c ∈ authority scheme host port) :
    c ∈ host ∨ c = '[' ∨ c = ']' ∨ c = ':' ∨ c.isDigit = true := by
  rw [authority_eq] at h
  rcases List.mem_append.mp h with h | h
  · split at h
    · simp only [List.cons_append, List.mem_cons, List.mem_append, List.not_mem_nil,
        or_false] at h
      tauto
    · exact .inl h
  · cases hport : shownPort scheme port with
    | none => simp [hport] at h
    | some p =>
      rw [hport] at h
      rcases List.mem_cons.mp h with h | h
      · exact .inr (.inr (.inr (.inl h)))
      · exact .inr (.inr (.inr (.inr (isDigit_of_mem_showNat h))))

theorem normalizeParts_eq_some {parts : SplitResult} {port : Option ℕ} {url : Text} :
    normalizeParts u parts port = some url ↔
    u.lower parts.scheme ∈ allowedSchemes ∧ u.lower ((parts.hostname u).getD []) ≠ [] ∧
      (∀ c ∈ u.lower ((parts.hostname u).getD []), isSpace c = false) ∧
      url.length ≤ maxUrlLength ∧
      urlunsplit
        { scheme := u.lower parts.scheme
          netloc := authority (u.lower parts.scheme) (u.lower ((parts.hostname u).getD [])) port
          path := removeDotSegments (if parts.path = [] then ['/'] else parts.path)
          query := parts.query
          fragment := [] } = url := by
  simp only [normalizeParts, Option.ite_none_left_eq_some, Option.ite_none_right_eq_some,
    Option.some.injEq, Bool.not_eq_eq_eq_not, Bool.not_true, Bool.not_eq_false,
    List.contains_iff_mem, Bool.or_eq_true, decide_eq_true_eq, not_or, Bool.not_eq_true,
    List.any_eq_false]
  constructor
  · rintro ⟨hscheme, ⟨hhost, hspace⟩, hlength, rfl⟩
    exact ⟨hscheme, hhost, fun c hc => by simpa using hspace c hc, hlength, rfl⟩
  · rintro ⟨hscheme, hhost, hspace, hlength, rfl⟩
    exact ⟨hscheme, ⟨hhost, fun c hc => by simpa using hspace c hc⟩, hlength, rfl⟩

/-- What `normalize` makes of the parts of a URL is in normal form. -/
theorem normalForm_of_parts {text url : Text} {parts : SplitResult} {port : Option ℕ}
    (hspec : SplitSpec u text parts) (hport : parts.port u = .ok port)
    (htext : ∀ c ∈ text, isControl c = false) (h : normalizeParts u parts port = some url) :
    ∃ rest, NormalForm u (u.lower parts.scheme) (u.lower ((parts.hostname u).getD [])) port rest
      url := by
  obtain ⟨hscheme, hhost, hspace, hlength, rfl⟩ := normalizeParts_eq_some.mp h
  generalize hname : parts.hostname u = name at *
  -- a delimiter in the host comes from the host cut out of the authority
  have hcut : ∀ d ∈ u.lower (name.getD []), isAscii d = true → d.isLower = false →
      d ∈ parts.hostinfo.1 := by
    intro d hd hascii hletter
    cases name with
    | none => exact absurd rfl hhost
    | some host => exact mem_hostname hname hascii hletter (Unicode.mem_of_mem_lower hascii hletter hd)
  obtain ⟨hinfo, hbrackets⟩ := hostinfo_spec parts
  have hauthority : authority (u.lower parts.scheme) (u.lower (name.getD [])) port ≠ [] :=
    authority_ne_nil port hhost
  obtain ⟨rest, hrest, hurl⟩ := urlunsplit_eq (scheme_ne_nil hscheme) hauthority
    (removeDotSegments_ne_nil (if parts.path = [] then ['/'] else parts.path)) parts.query
  refine ⟨rest,
    { scheme_mem := hscheme
      host_ne := hhost
      host_fixed := fun c => Unicode.fixed_of_mem_lower
      host_char := fun c hc => ⟨?_, ?_, ?_⟩
      host_cut := ?_
      port_le := port_spec hport
      rest_char := fun c hc => ?_
      url_eq := hurl }⟩
  · by_cases hn : inNetloc c = true
    · exact hn
    · simp only [inNetloc, decide_eq_true_eq, not_not] at hn
      have hdelim : isAscii c = true ∧ c.isLower = false := by
        simp only [List.mem_cons, List.not_mem_nil, or_false] at hn
        rcases hn with rfl | rfl | rfl <;> decide
      obtain ⟨hascii, hletter⟩ := hdelim
      exact (hspec.netloc c (hinfo c (hcut c hc hascii hletter)).1).1
  · rintro rfl
    exact (hinfo '@' (hcut '@' hc (by decide) (by decide))).2 rfl
  · cases hcontrol : isControl c with
    | false => rfl
    | true =>
      obtain ⟨hascii, hletter⟩ := isAscii_of_isControl hcontrol
      have hmem := (hspec.netloc c (hinfo c (hcut c hc hascii hletter)).1).2
      exact hcontrol.symm.trans (htext c hmem)
  · rcases hbrackets with hb | ⟨hb, hb'⟩
    · exact .inl fun hd => hb (hcut ']' hd (by decide) (by decide))
    · exact .inr ⟨fun hd => hb (hcut ':' hd (by decide) (by decide)),
        fun hd => hb' (hcut '[' hd (by decide) (by decide))⟩
  · have hslash : ∀ c ∈ (if parts.path = [] then ['/'] else parts.path),
        c = '/' ∨ c ∈ parts.path := by
      intro c hc
      split at hc
      · exact .inl (List.mem_singleton.mp hc)
      · exact .inr hc
    have hpart : c = '/' ∨ c = '?' ∨ c ∈ parts.path ∨ c ∈ parts.query := by
      rcases hrest c hc with hp | hq | hq
      · rcases mem_removeDotSegments hp with hp | hp
        · exact .inl hp
        · rcases hslash c hp with hp | hp
          · exact .inl hp
          · exact .inr (.inr (.inl hp))
      · exact .inr (.inl hq)
      · exact .inr (.inr (.inr hq))
    rcases hpart with rfl | rfl | hp | hq
    · decide
    · decide
    · exact ⟨(hspec.path c hp).1, htext c (hspec.path c hp).2⟩
    · exact ⟨(hspec.query c hq).1, htext c (hspec.query c hq).2⟩

/-- What `normalize` returns is in normal form. -/
theorem normalForm_of_normalize {text url : Text} (h : normalize u text = some url) :
    ∃ scheme host port rest, NormalForm u scheme host port rest url := by
  simp only [normalize] at h
  split at h
  · cases h
  rename_i hcontrol
  split at h
  · cases h
  rename_i parts hparts
  split at h
  · cases h
  rename_i port hport
  have htext : ∀ c ∈ strip text, isControl c = false := by simpa using hcontrol
  exact ⟨_, _, _, normalForm_of_parts (urlsplit_spec hparts) hport htext h⟩

/-! ## Taking a normalized URL apart -/

namespace NormalForm
variable {scheme host rest url : Text} {port : Option ℕ}

theorem authority_char (h : NormalForm u scheme host port rest url) {c : Char}
    (hc : c ∈ authority scheme host port) :
    inNetloc c = true ∧ c ≠ '@' ∧ isControl c = false := by
  rcases mem_authority hc with hc | rfl | rfl | rfl | hc
  · exact h.host_char c hc
  · decide
  · decide
  · decide
  · have hdigit : '0'.toNat ≤ c.toNat ∧ c.toNat ≤ '9'.toNat := Char.isDigit_iff_toNat.mp hc
    have h0 : '0'.toNat = 48 := rfl
    have h9 : '9'.toNat = 57 := rfl
    refine ⟨?_, ?_, ?_⟩
    · simp only [inNetloc, List.mem_cons, List.not_mem_nil, or_false, not_or, decide_eq_true_eq]
      refine ⟨?_, ?_, ?_⟩ <;> rintro rfl <;> revert hc <;> decide
    · rintro rfl
      revert hc
      decide
    · simp only [isControl, Bool.or_eq_false_iff, decide_eq_false_iff_not]
      omega

theorem url_char (h : NormalForm u scheme host port rest url) {c : Char} (hc : c ∈ url) :
    isControl c = false := by
  have hscheme : ∀ c ∈ scheme, isControl c = false := by
    intro c hc
    rcases mem_scheme h.scheme_mem hc with rfl | rfl | rfl | rfl <;> decide
  rw [h.url_eq, httpUrl, List.mem_append] at hc
  simp only [List.mem_cons, List.mem_append] at hc
  rcases hc with hc | rfl | rfl | rfl | hc | rfl | hc
  · exact hscheme c hc
  · decide
  · decide
  · decide
  · exact (h.authority_char hc).2.2
  · decide
  · exact (h.rest_char c hc).2

theorem isUnsafeByte_eq_false {c : Char} (h : isControl c = false) : isUnsafeByte c = false := by
  simp only [isUnsafeByte, Bool.or_eq_false_iff, decide_eq_false_iff_not]
  refine ⟨⟨?_, ?_⟩, ?_⟩ <;> rintro rfl <;> revert h <;> decide

/-- Splitting the normal form gives its parts, if its authority passes the checks. -/
theorem urlsplit_eq (h : NormalForm u scheme host port rest url) :
    urlsplit u url = (checkBrackets u (authority scheme host port)).bind fun _ =>
      (checkNetloc u (authority scheme host port)).map fun _ =>
        { scheme, netloc := authority scheme host port,
          path := before '?' (before '#' ('/' :: rest)),
          query := after '?' (before '#' ('/' :: rest)), fragment := after '#' ('/' :: rest) } := by
  have hclean : ∀ c ∈ url, isUnsafeByte c = false := fun c hc =>
    isUnsafeByte_eq_false (h.url_char hc)
  rw [h.url_eq] at hclean ⊢
  exact urlsplit_httpUrl h.scheme_mem (fun c hc => (h.authority_char hc).1) hclean

theorem of_urlsplit (h : NormalForm u scheme host port rest url) {parts : SplitResult}
    (hs : urlsplit u url = .ok parts) :
    checkBrackets u (authority scheme host port) = .ok () ∧ parts.scheme = scheme ∧
      parts.netloc = authority scheme host port := by
  rw [h.urlsplit_eq] at hs
  obtain ⟨_, hb, hs⟩ := bind_eq_ok.mp hs
  obtain ⟨_, hn, rfl⟩ := map_eq_ok.mp hs
  exact ⟨hb, rfl, rfl⟩

/-- A host without a colon stands bare, so that brackets in it fail the check. -/
theorem not_bracket (h : NormalForm u scheme host port rest url)
    (hb : checkBrackets u (authority scheme host port) = .ok ()) (hcolon : ':' ∉ host) :
    '[' ∉ host := by
  intro hopen
  have hclose : ']' ∉ host := h.host_cut.resolve_right fun hcut => hcut.2 hopen
  have hport : ']' ∉ ((shownPort scheme port).elim [] fun p => ':' :: showNat p) := by
    cases shownPort scheme port with
    | none => exact List.not_mem_nil
    | some p =>
      intro hmem
      rcases List.mem_cons.mp hmem with hc | hc
      · exact absurd hc (by decide)
      · exact absurd (isDigit_of_mem_showNat hc) (by decide)
  have ho : '[' ∈ authority scheme host port := by
    rw [authority_eq, if_neg hcolon]
    exact List.mem_append_left _ hopen
  have hc : ']' ∉ authority scheme host port := by
    rw [authority_eq, if_neg hcolon, List.mem_append, not_or]
    exact ⟨hclose, hport⟩
  simp [checkBrackets, ho, hc] at hb

theorem hostinfo_eq (h : NormalForm u scheme host port rest url) {parts : SplitResult}
    (hs : urlsplit u url = .ok parts) :
    parts.hostinfo = (host, (shownPort scheme port).map showNat) := by
  obtain ⟨hb, -, hnetloc⟩ := h.of_urlsplit hs
  have hat : afterLast '@' (authority scheme host port) = authority scheme host port :=
    afterLast_of_not_mem fun hc => (h.authority_char hc).2.1 rfl
  have hport : ∀ p : Option ℕ, (if after ':' (p.elim [] fun p => ':' :: showNat p) = [] then none
      else some (after ':' (p.elim [] fun p => ':' :: showNat p))) = p.map showNat := by
    rintro (_ | p)
    · rfl
    · have ha : after ':' (':' :: showNat p) = showNat p := after_append (a := []) _ (by simp)
      simp [ha, showNat_ne_nil]
  simp only [SplitResult.hostinfo, hnetloc, hat]
  by_cases hcolon : ':' ∈ host
  · have hclose : ']' ∉ host := h.host_cut.resolve_right fun hcut => hcut.1 hcolon
    have hopen : authority scheme host port = [] ++ '[' :: (host ++ ']' ::
        ((shownPort scheme port).elim [] fun p => ':' :: showNat p)) := by
      rw [authority_eq, if_pos hcolon]
      simp
    rw [hopen, after_append _ (by simp), if_pos (by simp)]
    simp only [before_append _ hclose, after_append _ hclose, hport]
  · have hopen : '[' ∉ authority scheme host port := by
      rw [authority_eq, if_neg hcolon, List.mem_append, not_or]
      refine ⟨h.not_bracket hb hcolon, fun hmem => ?_⟩
      cases hp : shownPort scheme port with
      | none =>
        rw [hp] at hmem
        cases hmem
      | some p =>
        rw [hp] at hmem
        rcases List.mem_cons.mp hmem with hc | hc
        · exact absurd hc (by decide)
        · exact absurd (isDigit_of_mem_showNat hc) (by decide)
    rw [if_neg hopen, authority_eq, if_neg hcolon]
    cases shownPort scheme port with
    | none => simp [before_of_not_mem hcolon, after_of_not_mem hcolon]
    | some p => simp [before_append _ hcolon, after_append _ hcolon, showNat_ne_nil]

theorem hostname_eq (h : NormalForm u scheme host port rest url) {parts : SplitResult}
    (hs : urlsplit u url = .ok parts) : parts.hostname u = some host := by
  have hfixed : u.lower (before '%' host) = before '%' host :=
    Unicode.lower_of_fixed fun c hc => h.host_fixed c (before_subset '%' host hc)
  simp only [SplitResult.hostname, h.hostinfo_eq hs, if_neg h.host_ne, hfixed]
  rw [before, List.takeWhile_append_dropWhile]

theorem port_eq (h : NormalForm u scheme host port rest url) {parts : SplitResult}
    (hs : urlsplit u url = .ok parts) :
    parts.port u = .ok (shownPort scheme port) := by
  cases hp : shownPort scheme port with
  | none => simp [SplitResult.port, h.hostinfo_eq hs, hp]
  | some p =>
    have hmem : p ∈ port := (Option.mem_filter_iff.mp hp).1
    have hle : p ≤ 65535 := h.port_le p hmem
    have hdigits : (showNat p).all Char.isDigit = true :=
      List.all_eq_true.mpr fun c hc => isDigit_of_mem_showNat hc
    have hlength : (showNat p).length ≤ 5 :=
      (Nat.length_toDigits_le_iff (by norm_num) (by norm_num)).mpr (by omega)
    have hlimit : ¬SplitResult.maxIntDigits < (showNat p).length := by
      unfold SplitResult.maxIntDigits
      omega
    simp [SplitResult.port, h.hostinfo_eq hs, hp, hdigits, hlimit, readNat_showNat, hle]

/-- The scope of a normalized URL is its host and the port it shows. -/
theorem fromUrl_eq (h : NormalForm u scheme host port rest url) {parts : SplitResult}
    (hs : urlsplit u url = .ok parts) :
    HostScope.fromUrl u url = .ok ⟨host, shownPort scheme port⟩ := by
  have hlower : u.lower host = host := Unicode.lower_of_fixed h.host_fixed
  simp [HostScope.fromUrl, hs, h.hostname_eq hs, h.port_eq hs, hlower, bind, Except.bind, pure,
    Except.pure]

end NormalForm

/-! ## Normalizing a normalized URL -/

theorem rdropWhile_append_cons {α : Type} {p : α → Bool} {x : α} (hx : p x = false)
    (l r : List α) : (l ++ x :: r).rdropWhile p = l ++ x :: r.rdropWhile p := by
  rw [List.rdropWhile, List.rdropWhile, List.reverse_append, List.reverse_cons, List.append_assoc,
    List.dropWhile_append]
  split
  · rename_i hnil
    rw [List.isEmpty_iff.mp hnil]
    simp [hx]
  · simp

theorem strip_httpUrl {scheme : Text} (hs : scheme ∈ allowedSchemes) (netloc rest : Text) :
    strip (httpUrl scheme netloc rest) = httpUrl scheme netloc (rest.rdropWhile isSpace) := by
  have hleft : (httpUrl scheme netloc rest).dropWhile isSpace = httpUrl scheme netloc rest := by
    rcases List.mem_cons.mp hs with rfl | h
    · rfl
    · obtain rfl := List.mem_singleton.mp h
      rfl
  rw [strip, hleft, httpUrl, httpUrl]
  have hright := rdropWhile_append_cons (p := isSpace) (x := '/') (by decide)
    (scheme ++ ':' :: '/' :: '/' :: netloc) rest
  simpa using hright

theorem shownPort_shownPort (scheme : Text) (port : Option ℕ) :
    shownPort scheme (shownPort scheme port) = shownPort scheme port := by
  simp [shownPort, Option.filter_filter]

theorem authority_shownPort (scheme host : Text) (port : Option ℕ) :
    authority scheme host (shownPort scheme port) = authority scheme host port := by
  rw [authority_eq, authority_eq, shownPort_shownPort]

namespace NormalForm
variable {scheme host rest url : Text} {port : Option ℕ}

theorem strip (h : NormalForm u scheme host port rest url) :
    NormalForm u scheme host port (rest.rdropWhile isSpace) (UrlCrawler.strip url) :=
  { h with
    rest_char := fun c hc => h.rest_char c ((List.rdropWhile_prefix _ _).subset hc)
    url_eq := by rw [h.url_eq, strip_httpUrl h.scheme_mem] }

/-- Whether a normalized URL splits is decided by its authority. -/
theorem urlsplit_of_authority (h : NormalForm u scheme host port rest url) {port' : Option ℕ}
    {rest' url' : Text} (h' : NormalForm u scheme host port' rest' url')
    (ha : authority scheme host port' = authority scheme host port) {parts : SplitResult}
    (hs : urlsplit u url = .ok parts) : ∃ parts', urlsplit u url' = .ok parts' := by
  rw [h.urlsplit_eq] at hs
  obtain ⟨_, hb, hs⟩ := bind_eq_ok.mp hs
  obtain ⟨_, hn, -⟩ := map_eq_ok.mp hs
  rw [h'.urlsplit_eq, ha, hb, hn]
  exact ⟨_, rfl⟩

end NormalForm

/-- A normalized URL that normalizes again splits, and keeps its scope: its host is the scope's. -/
theorem fromUrl_of_normalize {text url url' : Text} (h : normalize u text = some url)
    (h' : normalize u url = some url') :
    ∃ scope parts, HostScope.fromUrl u url = .ok scope ∧ HostScope.fromUrl u url' = .ok scope ∧
      urlsplit u url = .ok parts ∧ parts.hostname u = some scope.host := by
  obtain ⟨scheme, host, port, rest, hurl⟩ := normalForm_of_normalize h
  have hstrip := hurl.strip
  simp only [normalize] at h'
  split at h'
  · cases h'
  split at h'
  · cases h'
  rename_i parts hparts
  split at h'
  · cases h'
  rename_i port' hport'
  obtain ⟨-, hscheme, -⟩ := hstrip.of_urlsplit hparts
  have hport : port' = shownPort scheme port :=
    Except.ok.inj (hport'.symm.trans (hstrip.port_eq hparts))
  obtain ⟨rest', hurl'⟩ := normalForm_of_parts (urlsplit_spec hparts) hport'
    (fun c => hstrip.url_char) h'
  rw [hstrip.hostname_eq hparts, hscheme, lower_scheme hurl.scheme_mem, Option.getD_some,
    Unicode.lower_of_fixed hurl.host_fixed, hport] at hurl'
  obtain ⟨parts₁, hsplit⟩ := hstrip.urlsplit_of_authority hurl rfl hparts
  obtain ⟨parts₂, hsplit'⟩ := hurl.urlsplit_of_authority hurl'
    (authority_shownPort scheme host port) hsplit
  refine ⟨⟨host, shownPort scheme port⟩, parts₁, hurl.fromUrl_eq hsplit, ?_, hsplit,
    hurl.hostname_eq hsplit⟩
  rw [hurl'.fromUrl_eq hsplit', shownPort_shownPort]

/-- The host `urlsplit` reports for a URL, which is the host a client contacts. -/
def hostOf (u : Unicode) (url : Text) : Option Text :=
  (urlsplit u url).toOption.bind (SplitResult.hostname u)

/-- A normalized URL that splits has a scope, with its host. -/
theorem fromUrl_of_urlsplit {text url : Text} (h : normalize u text = some url)
    {parts : SplitResult} (hs : urlsplit u url = .ok parts) :
    ∃ scope, HostScope.fromUrl u url = .ok scope ∧ hostOf u url = some scope.host := by
  obtain ⟨scheme, host, port, rest, hurl⟩ := normalForm_of_normalize h
  refine ⟨_, hurl.fromUrl_eq hs, ?_⟩
  simp [hostOf, hs, Except.toOption, hurl.hostname_eq hs]

/-- The scope check never raises on a normalized URL. -/
theorem HostScope.allows_total {text url : Text} (h : normalize u text = some url)
    (scope : HostScope) : ∃ allowed, scope.allows u url = .ok allowed := by
  unfold HostScope.allows
  cases h' : normalize u url with
  | none => exact ⟨false, rfl⟩
  | some url' =>
    obtain ⟨scope', -, -, hscope, -⟩ := fromUrl_of_normalize h h'
    exact ⟨_, congrArg (Except.map _) hscope⟩

/-- A normalized URL that passes the scope check has that scope, and its host. -/
theorem HostScope.of_allows {text url : Text} (h : normalize u text = some url)
    {scope : HostScope} (ha : scope.allows u url = .ok true) :
    HostScope.fromUrl u url = .ok scope ∧ hostOf u url = some scope.host ∧
      ∃ key, canonicalKey u url = .ok key := by
  unfold HostScope.allows at ha
  cases h' : normalize u url with
  | none =>
    rw [h'] at ha
    cases ha
  | some url' =>
    obtain ⟨scope', parts, hurl, hurl', hsplit, hhost⟩ := fromUrl_of_normalize h h'
    simp only [h', hurl'] at ha
    obtain rfl : scope' = scope := by simpa using Except.ok.inj ha
    refine ⟨hurl, ?_, ?_⟩
    · simp [hostOf, hsplit, Except.toOption, hhost]
    · exact ⟨_, by rw [canonicalKey, hsplit]; rfl⟩

end UrlCrawler
