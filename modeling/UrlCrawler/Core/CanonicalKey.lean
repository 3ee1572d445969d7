import UrlCrawler.Core.Escapes
import UrlCrawler.Core.Idempotence
import UrlCrawler.Library.StableSort

/-! # The key of a page

What `canonical_key` tells apart. It folds the escapes of a URL after it has sorted the parameters by their
names as they are spelled, so that two URLs of one page may differ in their keys, and a `%` that begins no
escape may become the beginning of one.
-/
set_option autoImplicit false

namespace UrlCrawler
variable {u : Unicode}

/-! ## The parts of a key -/

/-- The parameters of a query, sorted by name. -/
def sortParameters (parameters : List Text) : List Text :=
  parameters.insertionSort fun a b => parameterName a ≤ parameterName b

/-- The parts a key is put together from. -/
def SplitResult.key (parts : SplitResult) : SplitResult :=
  { parts with
    path := canonicalEscapes isPathSafe parts.path
    query := canonicalEscapes isQuerySafe (sortedQuery parts.query)
    fragment := [] }

theorem canonicalKey_eq (url : Text) :
    canonicalKey u url = (urlsplit u url).map fun parts => urlunsplit parts.key := rfl

theorem sortedQuery_eq (query : Text) :
    sortedQuery query = ['&'].intercalate (sortParameters (query.splitOn '&')) := rfl

theorem sortParameters_ne_nil {parameters : List Text} (h : parameters ≠ []) :
    sortParameters parameters ≠ [] := by
  intro hnil
  have hlength := List.length_insertionSort (fun a b => parameterName a ≤ parameterName b) parameters
  rw [sortParameters] at hnil
  rw [hnil] at hlength
  exact h (List.length_eq_zero_iff.mp hlength.symm)

theorem mem_sortParameters {parameters : List Text} {pair : Text} :
    pair ∈ sortParameters parameters ↔ pair ∈ parameters := List.mem_insertionSort _

theorem splitOn_sortedQuery (query : Text) :
    (sortedQuery query).splitOn '&' = sortParameters (query.splitOn '&') := by
  rw [sortedQuery_eq]
  refine List.splitOn_intercalate '&' (fun pair hpair => ?_) ?_
  · exact Splitting.not_mem_of_mem_splitOn (mem_sortParameters.mp hpair)
  · exact sortParameters_ne_nil (List.splitOn_ne_nil '&' query)

/-- The parameters of a key. -/
theorem splitOn_key_query (parts : SplitResult) : parts.key.query.splitOn '&' =
    (sortParameters (parts.query.splitOn '&')).map (canonicalEscapes isQuerySafe) := by
  rw [SplitResult.key, separates_ampersand.splitOn, splitOn_sortedQuery]

/-! ## Splitting a key -/

theorem mem_queryPart {query : Text} {c : Char} (hc : c ∈ queryPart query) : c = '?' ∨ c ∈ query := by
  unfold queryPart at hc
  split at hc
  · cases hc
  · exact List.mem_cons.mp hc

/-- What the path and the query of a normalized URL hold. -/
structure Normal (path query : Text) : Prop where
  slash : path.head? = some '/'
  path : ∀ c ∈ path, c ≠ '?' ∧ c ≠ '#' ∧ isUnsafeByte c = false
  query : ∀ c ∈ query, c ≠ '#' ∧ isUnsafeByte c = false

theorem normal_of_normalize {text url : Text} {parts : SplitResult} (h : normalize u text = some url)
    (hs : urlsplit u url = .ok parts) : Normal parts.path parts.query := by
  obtain ⟨scheme, host, port, rest, hurl⟩ := normalForm_of_normalize h
  rw [hurl.urlsplit_eq] at hs
  obtain ⟨_, -, hs⟩ := bind_eq_ok.mp hs
  obtain ⟨_, -, rfl⟩ := map_eq_ok.mp hs
  have hhash : '#' ∉ '/' :: rest := by
    intro hmem
    rcases List.mem_cons.mp hmem with hmem | hmem
    · exact absurd hmem (by decide)
    · exact (hurl.rest_char _ hmem).1 rfl
  have hsafe : ∀ c ∈ '/' :: rest, c ≠ '#' ∧ isUnsafeByte c = false := by
    intro c hc
    refine ⟨fun he => hhash (he ▸ hc), ?_⟩
    rcases List.mem_cons.mp hc with rfl | hc
    · rfl
    · exact NormalForm.isUnsafeByte_eq_false (hurl.rest_char c hc).2
  rw [before_of_not_mem hhash]
  refine ⟨?_, fun c hc => ⟨fun he => not_mem_before '?' _ (he ▸ hc), ?_⟩, fun c hc => ?_⟩
  · rw [before_slash]
    rfl
  · exact hsafe c (before_subset '?' _ hc)
  · exact hsafe c (after_subset '?' _ hc)

/-- The URL of a normalized one with another path and query is split into them again. -/
theorem urlsplit_urlunsplit {text url : Text} {parts : SplitResult} (h : normalize u text = some url)
    (hs : urlsplit u url = .ok parts) {path query : Text} (hnormal : Normal path query) :
    urlsplit u (urlunsplit { parts with path, query, fragment := [] }) =
      .ok { parts with path, query, fragment := [] } := by
  obtain ⟨scheme, host, port, rest, hurl⟩ := normalForm_of_normalize h
  have hparts := hs
  rw [hurl.urlsplit_eq] at hparts
  obtain ⟨_, hbrackets, hparts⟩ := bind_eq_ok.mp hparts
  obtain ⟨_, hnetloc, rfl⟩ := map_eq_ok.mp hparts
  obtain ⟨tail, rfl⟩ : ∃ tail, path = '/' :: tail := List.head?_eq_some_iff.mp hnormal.slash
  have htail (c : Char) (hc : c ∈ tail) := hnormal.path c (List.mem_cons_of_mem _ hc)
  dsimp only
  rw [urlunsplit_slash (scheme_ne_nil hurl.scheme_mem) (authority_ne_nil port hurl.host_ne)]
  have hmark : '?' ∉ tail := fun hmem => (htail _ hmem).1 rfl
  have hhash : '#' ∉ '/' :: (tail ++ queryPart query) := by
    intro hmem
    rcases List.mem_cons.mp hmem with hmem | hmem
    · exact absurd hmem (by decide)
    rcases List.mem_append.mp hmem with hmem | hmem
    · exact (htail _ hmem).2.1 rfl
    · rcases mem_queryPart hmem with hmem | hmem
      · exact absurd hmem (by decide)
      · exact (hnormal.query _ hmem).1 rfl
  have hclean : ∀ c ∈ httpUrl scheme (authority scheme host port) (tail ++ queryPart query),
      isUnsafeByte c = false := by
    intro c hc
    have hold : c ∈ url ∨ c ∈ tail ∨ c ∈ queryPart query := by
      rw [hurl.url_eq]
      simp only [httpUrl, List.mem_append, List.mem_cons] at hc ⊢
      tauto
    rcases hold with hc | hc | hc
    · exact NormalForm.isUnsafeByte_eq_false (hurl.url_char hc)
    · exact (htail c hc).2.2
    · rcases mem_queryPart hc with rfl | hc
      · rfl
      · exact (hnormal.query c hc).2
  rw [urlsplit_httpUrl hurl.scheme_mem (fun c hc => (hurl.authority_char hc).1) hclean, hbrackets, hnetloc,
    before_of_not_mem hhash, after_of_not_mem hhash, before_slash, after_slash,
    (split_queryPart hmark query).1, (split_queryPart hmark query).2]
  rfl

/-- A normalized URL is put together of its parts. -/
theorem exists_tail {text url : Text} {parts : SplitResult} (h : normalize u text = some url)
    (hs : urlsplit u url = .ok parts) : ∃ tail, parts.path = '/' :: tail ∧ parts.fragment = [] ∧
      urlunsplit parts = url ∧ url = httpUrl parts.scheme parts.netloc (tail ++ queryPart parts.query) := by
  obtain ⟨hcontrol, parts₀, port, hs₀, hport, hsome⟩ := normalize_eq_some.mp h
  obtain ⟨tail, kept, -, -, hquestion, hkept, hurl⟩ := exists_rest hcontrol hs₀ hport hsome
  have hhash : '#' ∉ '/' :: (kept ++ queryPart parts₀.query) := by
    intro hmem
    rcases List.mem_cons.mp hmem with hmem | hmem
    · exact absurd hmem (by decide)
    · exact (hurl.rest_char _ hmem).1 rfl
  rw [hurl.urlsplit_eq] at hs
  obtain ⟨_, -, hs⟩ := bind_eq_ok.mp hs
  obtain ⟨_, -, rfl⟩ := map_eq_ok.mp hs
  have hsplit := split_queryPart (not_mem_kept hquestion hkept) parts₀.query
  rw [before_of_not_mem hhash, after_of_not_mem hhash, before_slash, after_slash, hsplit.1, hsplit.2,
    urlunsplit_slash (scheme_ne_nil hurl.scheme_mem) (authority_ne_nil port hurl.host_ne)]
  exact ⟨kept, rfl, rfl, hurl.url_eq.symm, hurl.url_eq⟩

theorem mem_sortedQuery {query : Text} {c : Char} (hc : c ∈ sortedQuery query) : c ∈ query ∨ c = '&' := by
  rw [sortedQuery_eq] at hc
  rcases mem_intercalate hc with hc | ⟨pair, hpair, hc⟩
  · exact .inr hc
  · left
    have hjoin : ['&'].intercalate (query.splitOn '&') = query := List.intercalate_splitOn '&'
    rw [← hjoin]
    exact mem_intercalate_of_mem hc (mem_sortParameters.mp hpair)

theorem plain_of_isUnreserved {c : Char} (hc : isUnreserved c = true ∨ c = '%') :
    c ≠ '?' ∧ c ≠ '#' ∧ isUnsafeByte c = false := by
  rcases hc with hc | rfl
  · have hall : ∀ n < 128, isUnreserved (Char.ofNat n) = true →
        Char.ofNat n ≠ '?' ∧ Char.ofNat n ≠ '#' ∧ isUnsafeByte (Char.ofNat n) = false := by decide
    exact ascii_forall (P := fun c => isUnreserved c = true → c ≠ '?' ∧ c ≠ '#' ∧
      isUnsafeByte c = false) hall (isAscii_of_isUnreserved hc) hc
  · decide

theorem head_canonicalEscapes {path : Text} (h : path.head? = some '/') :
    (canonicalEscapes isPathSafe path).head? = some '/' := by
  obtain ⟨tail, rfl⟩ : ∃ tail, path = '/' :: tail := List.head?_eq_some_iff.mp h
  exact congrArg List.head? (separates_slash.append [] tail)

theorem Normal.key {parts : SplitResult} (h : Normal parts.path parts.query) :
    Normal parts.key.path parts.key.query := by
  refine ⟨head_canonicalEscapes h.slash, fun c hc => ?_, fun c hc => ?_⟩
  · exact (mem_canonicalEscapes (by decide) hc).elim (h.path c) plain_of_isUnreserved
  · rcases mem_canonicalEscapes (by decide) hc with hc | hc
    · rcases mem_sortedQuery hc with hc | rfl
      · exact h.query c hc
      · decide
    · exact (plain_of_isUnreserved hc).2

/-- A key is split into its parts. -/
theorem urlsplit_key {text url : Text} {parts : SplitResult} (h : normalize u text = some url)
    (hs : urlsplit u url = .ok parts) : urlsplit u (urlunsplit parts.key) = .ok parts.key :=
  urlsplit_urlunsplit h hs (normal_of_normalize h hs).key

/-! ## One page -/

/-- The parameters with a decoded name, decoded. -/
def decodedParameters (query : Text) (name : List UInt8) : List (List UInt8) :=
  ((query.splitOn '&').filter fun pair => percentDecode (parameterName pair) = name).map percentDecode

/-- URLs of one page: they differ in the spelling of their path and query, and in the order of parameters of
different names. -/
structure SamePage (parts parts' : SplitResult) : Prop where
  scheme : parts.scheme = parts'.scheme
  netloc : parts.netloc = parts'.netloc
  segments : (parts.path.splitOn '/').map percentDecode = (parts'.path.splitOn '/').map percentDecode
  parameters : ∀ name, decodedParameters parts.query name = decodedParameters parts'.query name

theorem SamePage.symm {parts parts' : SplitResult} (h : SamePage parts parts') : SamePage parts' parts :=
  ⟨h.scheme.symm, h.netloc.symm, h.segments.symm, fun name => (h.parameters name).symm⟩

theorem SamePage.trans {a b c : SplitResult} (h : SamePage a b) (h' : SamePage b c) : SamePage a c :=
  ⟨h.scheme.trans h'.scheme, h.netloc.trans h'.netloc, h.segments.trans h'.segments,
    fun name => (h.parameters name).trans (h'.parameters name)⟩

/-- No `%` of a segment or a parameter becomes the beginning of an escape, and the parameters of one decoded
name stand as they do when all are sorted by their names as they are spelled. -/
structure Unmixed (parts : SplitResult) : Prop where
  path : ∀ segment ∈ parts.path.splitOn '/', Apart segment
  query : ∀ pair ∈ parts.query.splitOn '&', Apart pair
  order : ∀ name, decodedParameters (sortedQuery parts.query) name = decodedParameters parts.query name

theorem parameterName_key (pair : Text) : parameterName (canonicalEscapes isQuerySafe pair) =
    canonicalEscapes isQuerySafe (parameterName pair) := separates_equals.before pair

/-- Parameters of one name stand as they are sorted, if those that differ do. -/
theorem decodedParameters_sortedQuery {query : Text} (h : (query.splitOn '&').Pairwise fun a b =>
    percentDecode (parameterName a) = percentDecode (parameterName b) →
      percentDecode a ≠ percentDecode b → parameterName a ≤ parameterName b) (name : List UInt8) :
    decodedParameters (sortedQuery query) name = decodedParameters query name := by
  have hnames : ∀ pair ∈ (query.splitOn '&').filter
      (fun pair => percentDecode (parameterName pair) = name),
      percentDecode (parameterName pair) = name := fun pair hpair => by
    simpa using (List.mem_filter.mp hpair).2
  rw [decodedParameters, decodedParameters, splitOn_sortedQuery, sortParameters,
    StableSort.filter_insertionSort]
  refine StableSort.map_insertionSort_of_pairwise percentDecode ?_
  refine (h.filter _).imp_of_mem fun ha hb hab hne => ?_
  exact hab ((hnames _ ha).trans (hnames _ hb).symm) hne

section Unmixed
variable {parts : SplitResult}

theorem segments_key (parts : SplitResult) : (parts.key.path.splitOn '/').map percentDecode =
    (parts.path.splitOn '/').map fun segment => percentDecode (canonicalEscapes isPathSafe segment) := by
  rw [SplitResult.key, separates_slash.splitOn, List.map_map]
  rfl

/-- The parameters of a key, where no `%` becomes the beginning of an escape. -/
theorem decodedParameters_key (h : ∀ pair ∈ parts.query.splitOn '&', Apart pair) (name : List UInt8) :
    decodedParameters parts.key.query name = decodedParameters (sortedQuery parts.query) name := by
  have hdecode : ∀ pair ∈ sortParameters (parts.query.splitOn '&'),
      percentDecode (canonicalEscapes isQuerySafe pair) = percentDecode pair ∧
        percentDecode (parameterName (canonicalEscapes isQuerySafe pair)) =
          percentDecode (parameterName pair) := by
    intro pair hpair
    have hapart := h pair (mem_sortParameters.mp hpair)
    rw [parameterName_key]
    exact ⟨percentDecode_canonicalEscapes (by decide) hapart,
      percentDecode_canonicalEscapes (by decide) (hapart.before separates_equals.hex)⟩
  rw [decodedParameters, decodedParameters, splitOn_key_query, splitOn_sortedQuery, List.filter_map,
    List.map_map]
  have hfilter : (sortParameters (parts.query.splitOn '&')).filter
      ((fun pair => decide (percentDecode (parameterName pair) = name)) ∘ canonicalEscapes isQuerySafe) =
      (sortParameters (parts.query.splitOn '&')).filter
        fun pair => percentDecode (parameterName pair) = name :=
    List.filter_congr fun pair hpair => by rw [Function.comp_apply, (hdecode pair hpair).2]
  rw [hfilter]
  exact List.map_congr_left fun pair hpair => (hdecode pair (List.mem_of_mem_filter hpair)).1

/-- The parameters with their decoded names, decoded. -/
def decodedPairs (parameters : List Text) : List (List UInt8 × List UInt8) :=
  parameters.map fun pair => (percentDecode (parameterName pair), percentDecode pair)

theorem decodedParameters_eq (query : Text) (name : List UInt8) : decodedParameters query name =
    ((decodedPairs (query.splitOn '&')).filter fun x => x.1 = name).map Prod.snd := by
  rw [decodedPairs, List.filter_map, List.map_map]
  rfl

/-- Where the key has the same parameters, none of them has become shorter. -/
theorem apart_of_decodedParameters (h : ∀ name, decodedParameters parts.key.query name =
    decodedParameters parts.query name) : ∀ pair ∈ parts.query.splitOn '&', Apart pair := by
  have hperm : (decodedPairs (parts.key.query.splitOn '&')).Perm
      (decodedPairs (parts.query.splitOn '&')) := by
    refine StableSort.perm_of_groups fun name => ?_
    rw [← decodedParameters_eq, ← decodedParameters_eq, h]
  have hsum := (hperm.map fun x => x.2.length).sum_eq
  rw [splitOn_key_query, decodedPairs, decodedPairs, List.map_map, List.map_map, List.map_map] at hsum
  have hsorted := ((List.perm_insertionSort (fun a b => parameterName a ≤ parameterName b)
    (parts.query.splitOn '&')).map fun pair =>
      (percentDecode (canonicalEscapes isQuerySafe pair)).length).sum_eq
  have hlength := StableSort.eq_of_sum_eq
    (fun pair _ => (length_percentDecode_canonicalEscapes separates_ampersand.percent_safe pair).1)
    (hsorted.symm.trans hsum)
  exact fun pair hpair => (length_percentDecode_canonicalEscapes (by decide) pair).2 (hlength pair hpair)

/-- A key is a URL of the page it is the key of, if and only if that page's URL is unmixed. -/
theorem samePage_key_iff : SamePage parts.key parts ↔ Unmixed parts := by
  constructor
  · intro h
    have hquery := apart_of_decodedParameters h.parameters
    refine ⟨fun segment hsegment => ?_, hquery, fun name => ?_⟩
    · have hsegments := h.segments
      rw [segments_key, List.map_inj_left] at hsegments
      exact (length_percentDecode_canonicalEscapes (by decide) segment).2
        (congrArg List.length (hsegments segment hsegment))
    · rw [← decodedParameters_key hquery, h.parameters]
  · intro h
    refine ⟨rfl, rfl, ?_, fun name => ?_⟩
    · rw [segments_key]
      exact List.map_congr_left fun segment hsegment =>
        percentDecode_canonicalEscapes (by decide) (h.path segment hsegment)
    · rw [decodedParameters_key h.query, h.order]

end Unmixed

/-- URLs of one key are URLs of one page exactly when both are unmixed, if one of them is. -/
theorem samePage_of_canonicalKey {text text' url url' : Text} {parts parts' : SplitResult}
    (h : normalize u text = some url) (h' : normalize u text' = some url')
    (hs : urlsplit u url = .ok parts) (hs' : urlsplit u url' = .ok parts')
    (hkey : canonicalKey u url = canonicalKey u url') (hunmixed : Unmixed parts) :
    SamePage parts parts' ↔ Unmixed parts' := by
  rw [canonicalKey_eq, canonicalKey_eq, hs, hs'] at hkey
  have hparts : parts.key = parts'.key := by
    have hurls : urlunsplit parts.key = urlunsplit parts'.key := Except.ok.inj hkey
    have hsplit := urlsplit_key h' hs'
    rw [← hurls, urlsplit_key h hs] at hsplit
    exact Except.ok.inj hsplit
  have hpage := samePage_key_iff.mpr hunmixed
  rw [hparts] at hpage
  constructor
  · intro hsame
    exact samePage_key_iff.mp (hpage.trans hsame)
  · intro hunmixed'
    exact hpage.symm.trans (samePage_key_iff.mpr hunmixed')

/-- Two spellings of a path are one page. -/
theorem samePage_of_canonicalKey_tilde :
    SamePage ⟨"http".toList, "h".toList, "/~".toList, [], []⟩
      ⟨"http".toList, "h".toList, "/%7e".toList, [], []⟩ := by
  have h : normalize .ascii "http://h/~".toList = some "http://h/~".toList := by decide +kernel
  have h' : normalize .ascii "http://h/%7e".toList = some "http://h/%7e".toList := by decide +kernel
  have hkey : canonicalKey .ascii "http://h/~".toList = canonicalKey .ascii "http://h/%7e".toList := by
    decide +kernel
  refine (samePage_of_canonicalKey h h' rfl rfl hkey ?_).mpr ?_
  · exact ⟨by decide +kernel, by decide +kernel, decodedParameters_sortedQuery (by decide)⟩
  · exact ⟨by decide +kernel, by decide +kernel, decodedParameters_sortedQuery (by decide)⟩

/-- A `%` and the escape of a digit become the beginning of an escape, and parameters that spell one name
in two ways change places. -/
theorem canonicalKey_merges :
    (∃ url url' parts parts', url = "http://h/a%2Fb".toList ∧ url' = "http://h/a%%32Fb".toList ∧
      normalize .ascii url = some url ∧ normalize .ascii url' = some url' ∧
      urlsplit .ascii url = .ok parts ∧ urlsplit .ascii url' = .ok parts' ∧
      canonicalKey .ascii url = canonicalKey .ascii url' ∧ ¬SamePage parts parts') ∧
    ∃ url url' parts parts', url = "http://h/?a=1&%61=2".toList ∧ url' = "http://h/?a=2&a=1".toList ∧
      normalize .ascii url = some url ∧ normalize .ascii url' = some url' ∧
      urlsplit .ascii url = .ok parts ∧ urlsplit .ascii url' = .ok parts' ∧
      canonicalKey .ascii url = canonicalKey .ascii url' ∧ ¬SamePage parts parts' := by
  constructor
  · refine ⟨_, _, ⟨"http".toList, "h".toList, "/a%2Fb".toList, [], []⟩,
      ⟨"http".toList, "h".toList, "/a%%32Fb".toList, [], []⟩, rfl, rfl, ?_, ?_, rfl, rfl, ?_, ?_⟩
    · decide +kernel
    · decide +kernel
    · decide +kernel
    · intro h
      exact absurd h.segments (by decide +kernel)
  · refine ⟨_, _, ⟨"http".toList, "h".toList, "/".toList, "a=1&%61=2".toList, []⟩,
      ⟨"http".toList, "h".toList, "/".toList, "a=2&a=1".toList, []⟩, rfl, rfl, ?_, ?_, rfl, rfl, ?_, ?_⟩
    · decide +kernel
    · decide +kernel
    · decide +kernel
    · intro h
      exact absurd (h.parameters (percentDecode "a".toList)) (by decide +kernel)

end UrlCrawler
