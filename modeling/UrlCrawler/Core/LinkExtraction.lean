import UrlCrawler.Core.Parser

/-! # One bad href

`normalize` answers `None` for a URL that `urlsplit` refuses, but before `normalize` sees an href it goes
through `urljoin`, which lets the `ValueError` out. `extract_links` resolves the hrefs in one generator,
so that the first one refused takes all the links of the page with it, and so does a refused base.
-/
set_option autoImplicit false

namespace UrlCrawler
variable {u : Unicode}

/-- `urlsplit` takes the text apart without a `ValueError`. -/
def Splits (u : Unicode) (text : Text) : Prop := ∃ parts, urlsplit u text = .ok parts

/-- The default scheme has no part in what `urlsplit` refuses. -/
theorem splits_scheme {text scheme : Text} :
    (∃ parts, urlsplit u text scheme = .ok parts) ↔ Splits u text := by
  have hrest : ∀ given clean : Text, (splitScheme u given clean).2 = (splitScheme u [] clean).2 := by
    intro given clean
    unfold splitScheme
    split <;> rfl
  have hsame : ∀ given : Text, (∃ parts, urlsplit u text given = .ok parts) ↔
      ∃ cut, splitNetloc u (splitScheme u []
          ((text.dropWhile isC0OrSpace).filter fun c => !isUnsafeByte c)).2 = .ok cut ∧
        checkNetloc u cut.1 = .ok () := by
    intro given
    simp only [urlsplit]
    generalize (text.dropWhile isC0OrSpace).filter _ = clean
    generalize hgiven : (((given.dropWhile isC0OrSpace).rdropWhile isC0OrSpace).filter _) = scheme'
    rw [← hrest scheme' clean]
    constructor
    · rintro ⟨parts, h⟩
      obtain ⟨cut, hcut, h⟩ := bind_eq_ok.mp h
      obtain ⟨_, hcheck, -⟩ := bind_eq_ok.mp h
      exact ⟨cut, hcut, hcheck⟩
    · rintro ⟨cut, hcut, hcheck⟩
      exact ⟨_, bind_eq_ok.mpr ⟨cut, hcut, bind_eq_ok.mpr ⟨(), hcheck, rfl⟩⟩⟩
  exact (hsame scheme).trans (hsame []).symm

/-- `urljoin` raises when it has to take apart what `urlsplit` refuses. -/
theorem urljoin_ok_iff {base url : Text} : (∃ joined, urljoin u base url = .ok joined) ↔
    base = [] ∨ url = [] ∨ Splits u base ∧ Splits u url := by
  unfold urljoin
  by_cases hbase : base = []
  · simp [hbase, pure, Except.pure]
  by_cases hurl : url = []
  · simp [hbase, hurl, pure, Except.pure]
  simp only [hbase, hurl, if_false, false_or]
  constructor
  · rintro ⟨joined, h⟩
    obtain ⟨b, hb, h⟩ := bind_eq_ok.mp h
    obtain ⟨parts, hparts, -⟩ := bind_eq_ok.mp h
    exact ⟨⟨b, hb⟩, splits_scheme.mp ⟨parts, hparts⟩⟩
  · rintro ⟨⟨b, hb⟩, hsplits⟩
    obtain ⟨parts, hparts⟩ := splits_scheme.mpr hsplits
    simp only [hb, bind, Except.bind]
    rw [hparts]
    simp only [pure, Except.pure]
    repeat' split
    all_goals exact ⟨_, rfl⟩

/-! ## The links of a page, href by href -/

/-- What one href leads to by itself; an href that is refused leads nowhere. -/
def linkOf (u : Unicode) (base href : Text) : Option Text := (resolveHref u href base).toOption.join

/-- The base the hrefs are resolved against: a `base` that leads nowhere is as good as none. -/
def baseOf (u : Unicode) (tree : Document) (baseUrl : Text) : Text :=
  ((tree.base.join.filter (· ≠ [])).bind (linkOf u baseUrl)).getD baseUrl

/-- The links of a page, each found on its own, in document order and each once. -/
def linksOf (u : Unicode) (tree : Document) (baseUrl : Text) : List Text :=
  ((tree.hrefs.filterMap id).filterMap (linkOf u (baseOf u tree baseUrl))).eraseDups

/-- `urlsplit` refuses neither the base nor the href, or is not asked. -/
def Joins (u : Unicode) (base href : Text) : Prop :=
  base = [] ∨ strip href = [] ∨ Splits u base ∧ Splits u (strip href)

theorem resolveHref_ok_iff {href base : Text} :
    resolveHref u href base = .ok (linkOf u base href) ↔ Joins u base href := by
  unfold Joins
  rw [← urljoin_ok_iff]
  unfold linkOf resolveHref
  cases urljoin u base (strip href) with
  | error e => simp [Except.map]
  | ok joined => simp [Except.map, Except.toOption]

theorem resolveHref_cases (href base : Text) :
    resolveHref u href base = .ok (linkOf u base href) ∨
      ∃ e, resolveHref u href base = .error e ∧ linkOf u base href = none := by
  unfold linkOf
  cases resolveHref u href base with
  | error e => exact .inr ⟨e, rfl, rfl⟩
  | ok link => exact .inl rfl

theorem mapM_ok_iff {α β ε : Type} {f : α → Except ε β} {g : α → β} {l : List α}
    (hf : ∀ a, f a = .ok (g a) ∨ ∃ e, f a = .error e) :
    (∃ r, l.mapM f = .ok r) ↔ ∀ a ∈ l, f a = .ok (g a) := by
  induction l with
  | nil => simp [pure, Except.pure]
  | cons a l ih =>
    rw [List.mapM_cons, List.forall_mem_cons, ← ih]
    constructor
    · rintro ⟨r, h⟩
      obtain ⟨b, hb, h⟩ := bind_eq_ok.mp h
      obtain ⟨bs, hbs, -⟩ := bind_eq_ok.mp h
      refine ⟨(hf a).resolve_right ?_, bs, hbs⟩
      rintro ⟨e, he⟩
      cases he.symm.trans hb
    · rintro ⟨ha, bs, hbs⟩
      exact ⟨g a :: bs, bind_eq_ok.mpr ⟨_, ha, bind_eq_ok.mpr ⟨bs, hbs, rfl⟩⟩⟩

theorem mapM_eq_map {α β ε : Type} {f : α → Except ε β} {g : α → β} {l : List α}
    (h : ∀ a ∈ l, f a = .ok (g a)) : l.mapM f = .ok (l.map g) := by
  induction l with
  | nil => rfl
  | cons a l ih =>
    obtain ⟨ha, hl⟩ := List.forall_mem_cons.mp h
    rw [List.mapM_cons]
    exact bind_eq_ok.mpr ⟨_, ha, bind_eq_ok.mpr ⟨_, ih hl, rfl⟩⟩

theorem effectiveBase_ok_iff {tree : Document} {baseUrl : Text} :
    (∃ base, effectiveBase u tree baseUrl = .ok base) ↔
      ∀ href, tree.base.join = some href → href ≠ [] → Joins u baseUrl href := by
  unfold effectiveBase
  cases htree : tree.base.join with
  | none => simp
  | some href =>
    cases href with
    | nil => simp
    | cons c rest =>
      simp only [Option.some.injEq, ne_eq, forall_eq', reduceCtorEq, not_false_eq_true,
        true_implies]
      rw [← resolveHref_ok_iff]
      rcases resolveHref_cases (u := u) (c :: rest) baseUrl with h | ⟨e, h, -⟩ <;>
        simp [h, Except.map]

theorem effectiveBase_eq {tree : Document} {baseUrl base : Text}
    (h : effectiveBase u tree baseUrl = .ok base) : base = baseOf u tree baseUrl := by
  unfold effectiveBase at h
  unfold baseOf
  cases htree : tree.base.join with
  | none =>
    rw [htree] at h
    exact (Except.ok.inj h).symm
  | some href =>
    rw [htree] at h
    cases href with
    | nil => exact (Except.ok.inj h).symm
    | cons c rest =>
      obtain ⟨link, hlink, rfl⟩ := map_eq_ok.mp h
      simp [Option.filter, linkOf, hlink, Except.toOption]

/-- `extract_links` gives the links found href by href exactly when `urlsplit` refuses neither the base
URLs nor an href that it has to take apart. -/
theorem extractLinks_eq_linksOf (u : Unicode) (lexbor : Lexbor) (body : List UInt8) (baseUrl : Text) :
    extractLinks u lexbor body baseUrl = .ok (linksOf u (lexbor body) baseUrl) ↔
      (∀ href, (lexbor body).base.join = some href → href ≠ [] → Joins u baseUrl href) ∧
      ∀ href, some href ∈ (lexbor body).hrefs →
        Joins u (baseOf u (lexbor body) baseUrl) href := by
  have hrefs : ∀ base, (∀ href ∈ (lexbor body).hrefs.filterMap id,
      resolveHref u href base = .ok (linkOf u base href)) ↔
        ∀ href, some href ∈ (lexbor body).hrefs → Joins u base href := by
    intro base
    simp [resolveHref_ok_iff]
  rw [← effectiveBase_ok_iff, ← hrefs]
  constructor
  · intro h
    obtain ⟨base, hbase, h⟩ := bind_eq_ok.mp h
    obtain ⟨resolved, hresolved, -⟩ := bind_eq_ok.mp h
    refine ⟨⟨base, hbase⟩, ?_⟩
    rw [← effectiveBase_eq hbase]
    refine (mapM_ok_iff fun href => ?_).mp ⟨resolved, hresolved⟩
    exact (resolveHref_cases href base).imp_right fun ⟨e, he, _⟩ => ⟨e, he⟩
  · rintro ⟨⟨base, hbase⟩, hall⟩
    rw [← effectiveBase_eq hbase] at hall
    refine bind_eq_ok.mpr ⟨base, hbase, bind_eq_ok.mpr ⟨_, mapM_eq_map hall, ?_⟩⟩
    rw [linksOf, ← effectiveBase_eq hbase, List.filterMap_map]
    rfl

/-- A bracket that is not closed costs the page its other link. -/
theorem extractLinks_unclosedBracket :
    extractLinks .ascii (fun _ => ⟨none, [some "http://[".toList, some "/b".toList]⟩) []
        "http://h/".toList = .error invalidIpv6Url ∧
      linksOf .ascii ⟨none, [some "http://[".toList, some "/b".toList]⟩ "http://h/".toList =
        ["http://h/b".toList] := by
  decide +kernel

end UrlCrawler
