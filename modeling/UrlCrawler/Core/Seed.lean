import UrlCrawler.Core.Idempotence

/-! # The scheme of a seed

`prepare_seed` looks for `://` anywhere in the raw text, `normalize` strips the text and parses it. The
two agree on a seed that has no `://` in it and on one that begins with a scheme and `://`, and on no
other.
-/
set_option autoImplicit false

namespace UrlCrawler
variable {u : Unicode}

/-- A URI scheme and `://` stand at the front of the text. -/
def BeginsWithScheme (text : Text) : Prop :=
  ∃ scheme rest, text = scheme ++ "://".toList ++ rest ∧ scheme.head?.any Char.isAlpha = true ∧
    scheme.all isSchemeChar = true

/-- What is asked of `prepare_seed` for one seed. -/
structure SeedAgrees (u : Unicode) (seed : Text) : Prop where
  normalized : ∀ url, normalize u seed = some url →
    ∃ prepared, prepareSeed u seed = .ok prepared ∧ normalize u prepared = some url
  defaulted : ¬ BeginsWithScheme seed →
    ∃ prepared, prepareSeed u seed = .ok prepared ∧
      normalize u prepared = normalize u ("https://".toList ++ seed)

/-! ## The text before `://` -/

theorem beforeText_eq_none {sep : Text} : ∀ {text : Text},
    beforeText sep text = none ↔ ¬ sep <:+: text
  | [] => by simp [beforeText]
  | c :: rest => by
    rw [beforeText, List.infix_cons_iff, not_or, ← @beforeText_eq_none sep rest]
    by_cases h : sep <+: c :: rest
    · simp [h]
    · simp [h]

theorem eq_of_beforeText {sep text : Text} : ∀ {front : Text}, beforeText sep text = some front →
    ∃ rest, text = front ++ sep ++ rest := by
  induction text with
  | nil =>
    intro front h
    rw [beforeText] at h
    split at h
    · obtain rfl := Option.some.inj h
      subst sep
      exact ⟨[], rfl⟩
    · cases h
  | cons c text ih =>
    intro front h
    rw [beforeText] at h
    split at h
    · rename_i hp
      obtain rfl := Option.some.inj h
      obtain ⟨rest, hrest⟩ := hp
      exact ⟨rest, hrest.symm⟩
    · obtain ⟨front, hfront, rfl⟩ := Option.map_eq_some_iff.mp h
      obtain ⟨rest, hrest⟩ := ih hfront
      exact ⟨rest, by rw [hrest]; rfl⟩

theorem beforeText_of_not_mem {front : Text} (h : ':' ∉ front) (rest : Text) :
    beforeText "://".toList (front ++ "://".toList ++ rest) = some front := by
  induction front with
  | nil => exact if_pos (List.prefix_append _ rest)
  | cons c front ih =>
    obtain ⟨hc, hfront⟩ := not_or.mp fun hmem => h (List.mem_cons.mpr hmem)
    have hnot : ¬ "://".toList <+: c :: (front ++ "://".toList ++ rest) := fun hp =>
      hc (List.cons_prefix_cons.mp hp).1
    rw [List.cons_append, List.cons_append, beforeText, if_neg hnot, ih hfront]
    rfl

theorem colon_not_mem {scheme : Text} (h : scheme.all isSchemeChar = true) : ':' ∉ scheme :=
  fun hmem => absurd (List.all_eq_true.mp h ':' hmem) (by decide)

theorem BeginsWithScheme.before_colon {text : Text} (h : BeginsWithScheme text) :
    (before ':' text).all isSchemeChar = true := by
  obtain ⟨scheme, rest, rfl, -, hall⟩ := h
  have hbefore : before ':' (scheme ++ "://".toList ++ rest) = scheme := by
    rw [List.append_assoc]
    exact before_append _ (colon_not_mem hall)
  rwa [hbefore]

/-! ## The scheme `normalize` reads -/

/-- A text that splits into an authority and a scheme begins with that scheme. -/
theorem beginsWithScheme_of_urlsplit {text : Text} {parts : SplitResult}
    (hcontrol : ∀ c ∈ text, isControl c = false)
    (hspace : ∀ c, text.head? = some c → isSpace c = false)
    (h : urlsplit u text = .ok parts) (hscheme : parts.scheme ≠ []) (hnetloc : parts.netloc ≠ []) :
    ∃ scheme rest, text = scheme ++ "://".toList ++ rest ∧ scheme.head?.any Char.isAlpha = true ∧
      scheme.all isSchemeChar = true ∧ u.lower scheme = parts.scheme := by
  have hclean : (text.dropWhile isC0OrSpace).filter (fun c => !isUnsafeByte c) = text := by
    have hfilter : text.filter (fun c => !isUnsafeByte c) = text := by
      refine List.filter_eq_self.mpr fun c hc => ?_
      rw [NormalForm.isUnsafeByte_eq_false (hcontrol c hc)]
      rfl
    cases text with
    | nil => rfl
    | cons c text =>
      have hc := hspace c rfl
      have hc' := hcontrol c (List.mem_cons_self ..)
      have hfirst : ¬ isC0OrSpace c = true := by
        simp only [isControl, isSpace, isC0OrSpace, Bool.or_eq_false_iff, decide_eq_false_iff_not,
          Bool.and_eq_false_iff, decide_eq_true_eq] at hc hc' ⊢
        omega
      rw [List.dropWhile_cons_of_neg hfirst, hfilter]
  simp only [urlsplit, hclean, List.dropWhile_nil, List.rdropWhile_nil, List.filter_nil] at h
  obtain ⟨⟨netloc, rest⟩, hcut, h⟩ := bind_eq_ok.mp h
  obtain ⟨_, -, h⟩ := bind_eq_ok.mp h
  obtain rfl := Except.ok.inj h
  rw [splitScheme] at hcut hscheme ⊢
  split at hcut
  · rename_i hvalid
    rw [if_pos hvalid] at hscheme ⊢
    simp only [Bool.and_eq_true, decide_eq_true_eq] at hvalid
    obtain ⟨⟨hcolon, halpha⟩, hall⟩ := hvalid
    unfold splitNetloc at hcut
    dsimp only at hcut
    split at hcut
    · rename_i tail hslashes
      refine ⟨before ':' text, tail, ?_, halpha, hall, rfl⟩
      conv_lhs => rw [before_append_after hcolon, hslashes]
      rw [List.append_assoc]
      rfl
    · exact absurd (Prod.mk.inj (Except.ok.inj hcut)).1.symm hnetloc
  · rename_i hvalid
    rw [if_neg hvalid] at hscheme
    exact absurd rfl hscheme

theorem isSpace_head_strip (text : Text) : ∀ c, (strip text).head? = some c → isSpace c = false := by
  intro c hc
  obtain ⟨tail, htail⟩ : strip text <+: text.dropWhile isSpace := List.rdropWhile_prefix _ _
  have hhead : (text.dropWhile isSpace).head? = some c := by
    rw [← htail, List.head?_append, hc, Option.some_or]
  have hne : text.dropWhile isSpace ≠ [] := by
    rintro hnil
    rw [hnil] at hhead
    cases hhead
  have hnot := List.head_dropWhile_not isSpace hne
  rwa [List.head_eq_iff_head?_eq_some hne |>.mpr hhead] at hnot

/-- What `normalize` accepts begins, once stripped, with a scheme it allows and `://`. -/
theorem beginsWithScheme_of_normalize {text url : Text} (h : normalize u text = some url) :
    ∃ scheme rest, strip text = scheme ++ "://".toList ++ rest ∧ scheme.all isSchemeChar = true ∧
      u.lower scheme ∈ allowedSchemes := by
  obtain ⟨hcontrol, parts, port, hparts, -, hnormal⟩ := normalize_eq_some.mp h
  obtain ⟨hallowed, hhost, -⟩ := normalizeParts_eq_some.mp hnormal
  obtain ⟨name, hname⟩ := exists_hostname hhost
  have hnetloc : parts.netloc ≠ [] := by
    intro hnil
    simp [SplitResult.hostname, SplitResult.hostinfo, hnil, afterLast, before] at hname
  have hscheme : parts.scheme ≠ [] := by
    intro hnil
    rw [hnil] at hallowed
    have hempty : ([] : Text) ∉ allowedSchemes := by decide
    exact hempty hallowed
  obtain ⟨scheme, rest, htext, -, hall, hlower⟩ :=
    beginsWithScheme_of_urlsplit hcontrol (isSpace_head_strip text) hparts hscheme hnetloc
  refine ⟨scheme, rest, htext, hall, ?_⟩
  rwa [← hlower, Unicode.lower_lower] at hallowed

/-! ## Lower case -/

/-- No character beyond ASCII has an ASCII character in its lower case, but for the Kelvin sign and the
capital I with a dot. -/
def Unicode.LowersInAscii (u : Unicode) : Prop :=
  ∀ c d, d ∈ u.toLower c → isAscii d = true → isAscii c = true ∨ d = 'k' ∨ d = 'i'

theorem lowersInAscii_ascii : Unicode.ascii.LowersInAscii := by
  intro c d hd hascii
  left
  by_cases hsigma : c = 'Σ'
  · rw [hsigma] at hd
    rw [List.mem_singleton.mp hd] at hascii
    exact absurd hascii (by decide)
  · have hlower : Unicode.ascii.toLower c = [c.toLower] := if_neg hsigma
    rw [hlower, List.mem_singleton] at hd
    rw [hd, isAscii, decide_eq_true_eq, Unicode.toNat_toLower] at hascii
    rw [isAscii, decide_eq_true_eq]
    split at hascii <;> omega

theorem Unicode.mem_lowerFrom {c : Char} {text : Text} (hc : c ∈ text) : ∀ before : Text,
    ∃ d ∈ u.lowerFrom before text, if c = 'Σ' then d = 'σ' ∨ d = 'ς' else d ∈ u.toLower c := by
  induction text with
  | nil => cases hc
  | cons c' after ih =>
    intro before
    rw [lowerFrom]
    rcases List.mem_cons.mp hc with rfl | hc
    · by_cases hsigma : c = 'Σ'
      · refine ⟨u.lowerSigma before after, ?_, ?_⟩
        · rw [if_pos hsigma]
          exact List.mem_append_left _ (List.mem_singleton_self _)
        · rw [if_pos hsigma, lowerSigma]
          split
          · exact .inr rfl
          · exact .inl rfl
      · obtain ⟨d, lowered, heq⟩ := List.exists_cons_of_ne_nil (u.toLower_ne_nil c)
        have hd : d ∈ u.toLower c := heq ▸ List.mem_cons_self ..
        refine ⟨d, ?_, ?_⟩
        · rw [if_neg hsigma]
          exact List.mem_append_left _ hd
        · rwa [if_neg hsigma]
    · obtain ⟨d, hd, hfrom⟩ := ih hc (c' :: before)
      exact ⟨d, List.mem_append_right _ hd, hfrom⟩

theorem isAlpha_iff (c : Char) : c.isAlpha = true ↔
    (65 ≤ c.toNat ∧ c.toNat ≤ 90) ∨ (97 ≤ c.toNat ∧ c.toNat ≤ 122) := by
  have hupper : c.isUpper = true ↔ 65 ≤ c.toNat ∧ c.toNat ≤ 90 := by
    simp only [Char.isUpper, decide_eq_true_eq]
    exact Iff.rfl
  rw [Char.isAlpha, Bool.or_eq_true, isLower_iff, hupper]

theorem isAlpha_of_toLower {c : Char} (h : c.toLower.isLower = true) : c.isAlpha = true := by
  rw [isLower_iff, Unicode.toNat_toLower] at h
  rw [isAlpha_iff]
  split at h <;> omega

/-- A scheme that lowers to an allowed one is made of letters. -/
theorem isAlpha_of_lower {scheme : Text} (hlowers : u.LowersInAscii)
    (h : u.lower scheme ∈ allowedSchemes) : ∀ c ∈ scheme, c.isAlpha = true := by
  intro c hc
  obtain ⟨d, hd, hfrom⟩ := Unicode.mem_lowerFrom (u := u) hc []
  have hletter := mem_scheme h hd
  by_cases hsigma : c = 'Σ'
  · rw [if_pos hsigma] at hfrom
    rcases hfrom with rfl | rfl <;> exact absurd hletter (by decide)
  · rw [if_neg hsigma] at hfrom
    have hascii : isAscii c = true := by
      have hd' : isAscii d = true ∧ ¬ (d = 'k' ∨ d = 'i') := by
        rcases hletter with rfl | rfl | rfl | rfl <;> decide
      exact (hlowers c d hfrom hd'.1).resolve_right hd'.2
    rw [u.toLower_ascii c hascii, List.mem_singleton] at hfrom
    have hlower : c.toLower.isLower = true := by
      rw [← hfrom]
      rcases hletter with rfl | rfl | rfl | rfl <;> decide
    exact isAlpha_of_toLower hlower

theorem isInfix_strip (text : Text) : strip text <:+: text :=
  (List.rdropWhile_prefix _ _).isInfix.trans (List.dropWhile_suffix _).isInfix

/-- A text that begins with a letter is only stripped at its end. -/
theorem strip_prefix_of_alpha {text : Text} (h : text.head?.any Char.isAlpha = true) :
    strip text <+: text := by
  have hfirst : text.dropWhile isSpace = text := by
    cases text with
    | nil => rfl
    | cons c text =>
      refine List.dropWhile_cons_of_neg ?_
      have halpha := (isAlpha_iff c).mp h
      simp only [isSpace, Bool.or_eq_true, Bool.and_eq_true, decide_eq_true_eq]
      omega
  rw [strip, hfirst]
  exact List.rdropWhile_prefix _ _

/-- `prepare_seed` agrees with `normalize` on the seeds without `://` and on those that begin with a
scheme and `://`. -/
theorem seedAgrees_iff (hlowers : u.LowersInAscii) (seed : Text) :
    SeedAgrees u seed ↔ ¬ "://".toList <:+: seed ∨ BeginsWithScheme seed := by
  constructor
  · intro h
    by_contra hnot
    obtain ⟨hseparator, hscheme⟩ := not_or.mp hnot
    obtain ⟨prepared, hprepared, -⟩ := h.defaulted hscheme
    rw [prepareSeed] at hprepared
    split at hprepared
    · rename_i hnone
      exact hseparator (beforeText_eq_none.mp hnone)
    rename_i scheme hbefore
    split at hprepared
    · rename_i hallowed
      rw [List.contains_iff_mem] at hallowed
      have halpha := isAlpha_of_lower hlowers hallowed
      obtain ⟨rest, hrest⟩ := eq_of_beforeText hbefore
      refine hscheme ⟨scheme, rest, hrest, ?_, ?_⟩
      · cases scheme with
        | nil => exact absurd hallowed (by decide : ([] : Text) ∉ allowedSchemes)
        | cons c scheme => exact halpha c (List.mem_cons_self ..)
      · refine List.all_eq_true.mpr fun c hc => ?_
        rw [isSchemeChar, Char.isAlphanum, halpha c hc]
        rfl
    · cases hprepared
  · rintro (hseparator | ⟨scheme, rest, rfl, halpha, hall⟩)
    · have hprepared : prepareSeed u seed = .ok ("https://".toList ++ seed) := by
        rw [prepareSeed, beforeText_eq_none.mpr hseparator]
      refine ⟨fun url hurl => ?_, fun _ => ⟨_, hprepared, rfl⟩⟩
      obtain ⟨scheme, rest, htext, -⟩ := beginsWithScheme_of_normalize hurl
      have hin : "://".toList <:+: strip seed := ⟨scheme, rest, htext.symm⟩
      exact absurd (hin.trans (isInfix_strip seed)) hseparator
    · have hbegins : BeginsWithScheme (scheme ++ "://".toList ++ rest) :=
        ⟨scheme, rest, rfl, halpha, hall⟩
      refine ⟨fun url hurl => ?_, fun hnot => absurd hbegins hnot⟩
      obtain ⟨read, tail, htext, hread, hallowed⟩ := beginsWithScheme_of_normalize hurl
      -- only the end has been stripped, so the scheme read is the one the text begins with
      have hsame : read = scheme := by
        have hhead : (scheme ++ "://".toList ++ rest).head?.any Char.isAlpha = true := by
          rw [List.append_assoc, List.head?_append]
          cases scheme with
          | nil => cases halpha
          | cons c scheme => exact halpha
        obtain ⟨last, hlast⟩ := strip_prefix_of_alpha hhead
        have hbefore := congrArg (before ':') hlast
        rw [htext, List.append_assoc, List.append_assoc, List.append_assoc] at hbefore
        exact (before_append _ (colon_not_mem hread)).symm.trans
          (hbefore.trans (before_append _ (colon_not_mem hall)))
      refine ⟨_, ?_, hurl⟩
      rw [prepareSeed, beforeText_of_not_mem (colon_not_mem hall)]
      exact if_pos (List.contains_iff_mem.mpr (hsame ▸ hallowed))

theorem seedAgrees_upperCase :
    SeedAgrees .ascii "HTTP://h/?u=ftp://x".toList ↔
      ¬ "://".toList <:+: "HTTP://h/?u=ftp://x".toList ∨
        BeginsWithScheme "HTTP://h/?u=ftp://x".toList :=
  seedAgrees_iff lowersInAscii_ascii _

/-- A URL in the query of a seed without a scheme is taken for the rest of a scheme, and so is white
space before one. -/
theorem not_seedAgrees_query :
    ¬ SeedAgrees .ascii "example.com/?u=http://x".toList ∧
      ¬ SeedAgrees .ascii " http://h/".toList := by
  constructor
  · intro h
    have hscheme : ¬ BeginsWithScheme "example.com/?u=http://x".toList := fun hbegins =>
      absurd hbegins.before_colon (by decide)
    obtain ⟨prepared, hprepared, -⟩ := h.defaulted hscheme
    have hraises : (prepareSeed .ascii "example.com/?u=http://x".toList).toOption = none := by
      decide +kernel
    rw [hprepared] at hraises
    cases hraises
  · intro h
    obtain ⟨prepared, hprepared, -⟩ := h.normalized "http://h/".toList (by decide +kernel)
    have hraises : (prepareSeed .ascii " http://h/".toList).toOption = none := by decide +kernel
    rw [hprepared] at hraises
    cases hraises

end UrlCrawler
