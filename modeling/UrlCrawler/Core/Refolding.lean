import UrlCrawler.Core.CanonicalKey

/-! # The key of a key

Folding may leave an escape that a second folding changes: a `%` that began none gets two hexadecimal digits
behind it. And names that are in order as they are spelled need not be in order when they are folded.
-/
set_option autoImplicit false

namespace UrlCrawler
variable {u : Unicode}

/-! ## Folding twice -/

/-- The text goes on with two hexadecimal digits that are folded, or capitalized, behind a `%`. -/
def startsFolded : Text → Bool
  | high :: low :: _ => isHexDigit high && isHexDigit low && foldEscape high low != ['%', high, low]
  | _ => false

/-- No `%` becomes the beginning of an escape that would be folded in its turn. -/
def Stays (text : Text) : Prop := Strays startsFolded text

instance (text : Text) : Decidable (Stays text) :=
  inferInstanceAs (Decidable (Strays startsFolded text))

theorem startsFolded_of_not_startsHex {text : Text} (h : startsHex text = false) :
    startsFolded text = false := by
  match text with
  | [] | [_] => rfl
  | high :: low :: rest =>
    rw [startsHex] at h
    rw [startsFolded, h, Bool.false_and]

theorem utf8EncodeChar_not_ascii {c : Char} (hc : isAscii c = false) {byte : UInt8}
    (hbyte : byte ∈ String.utf8EncodeChar c) : 128 ≤ byte.toNat := by
  have hlarge : ¬c.val.toNat ≤ 127 := by
    have hnot : ¬c.toNat < 128 := of_decide_eq_false hc
    exact fun hle => hnot (Nat.lt_succ_of_le hle)
  have hofNat {n : ℕ} (hle : 128 ≤ n) (hlt : n < 256) : 128 ≤ (UInt8.ofNat n).toNat := by
    rwa [UInt8.toNat_ofNat', Nat.mod_eq_of_lt hlt]
  rw [String.utf8EncodeChar, if_neg hlarge] at hbyte
  split at hbyte
  · simp only [List.mem_cons, List.not_mem_nil, or_false] at hbyte
    rcases hbyte with rfl | rfl <;> exact hofNat (by omega) (by omega)
  · split at hbyte
    · simp only [List.mem_cons, List.not_mem_nil, or_false] at hbyte
      rcases hbyte with rfl | rfl | rfl <;> exact hofNat (by omega) (by omega)
    · simp only [List.mem_cons, List.not_mem_nil, or_false] at hbyte
      rcases hbyte with rfl | rfl | rfl | rfl <;> exact hofNat (by omega) (by omega)

/-- The character of a byte. -/
def byteChar (byte : UInt8) : Char := Char.ofNat byte.toNat

theorem isUnreserved_byteChar {safe : Char → Bool} {c : Char} (hc : isKept safe c = false) {byte : UInt8}
    (hbyte : byte ∈ String.utf8EncodeChar c) : isUnreserved (byteChar byte) = false := by
  cases hascii : isAscii c with
  | true =>
    rw [utf8EncodeChar_ascii hascii, List.mem_singleton] at hbyte
    have hlt : c.toNat < 128 := of_decide_eq_true hascii
    have hchar : byteChar byte = c := by
      rw [byteChar, hbyte, UInt8.toNat_ofNat', Nat.mod_eq_of_lt (by omega), Char.ofNat_toNat]
    rw [hchar, ← Bool.not_eq_true]
    intro h
    rw [isKept_of_isUnreserved h] at hc
    cases hc
  | false =>
    have hlarge := utf8EncodeChar_not_ascii hascii hbyte
    have hbound := byte.toNat_lt
    rw [← Bool.not_eq_true]
    intro h
    have hascii := isAscii_of_isUnreserved h
    rw [isAscii, decide_eq_true_eq, byteChar, Char.toNat_ofNat, if_pos (.inl (by omega))] at hascii
    omega

theorem toUpper_hexDigitUpper : ∀ n < 16, (hexDigitUpper n).toUpper = hexDigitUpper n := by decide

section Byte
variable {byte : UInt8}

theorem isHexDigit_byte : isHexDigit (hexDigitUpper (byte.toNat / 16)) = true ∧
    isHexDigit (hexDigitUpper (byte.toNat % 16)) = true := by
  have hbyte := byte.toNat_lt
  exact ⟨isHexDigit_hexDigitUpper _ (by omega), isHexDigit_hexDigitUpper _ (by omega)⟩

theorem escaped_byte : escaped (hexDigitUpper (byte.toNat / 16)) (hexDigitUpper (byte.toNat % 16)) =
    byteChar byte := by
  have hbyte := byte.toNat_lt
  rw [escaped, hexValue_hexDigitUpper _ (by omega), hexValue_hexDigitUpper _ (by omega), Nat.div_add_mod]
  rfl

theorem foldEscape_byte (h : isUnreserved (byteChar byte) = false) :
    foldEscape (hexDigitUpper (byte.toNat / 16)) (hexDigitUpper (byte.toNat % 16)) = percentByte byte := by
  have hbyte := byte.toNat_lt
  rw [foldEscape_of_reserved (by rwa [escaped_byte]), toUpper_hexDigitUpper _ (by omega),
    toUpper_hexDigitUpper _ (by omega)]
  rfl

end Byte

theorem foldEscape_append_eq {high low : Char} {a b : Text} :
    foldEscape high low ++ a = '%' :: high :: low :: b ↔ foldEscape high low = ['%', high, low] ∧ a = b := by
  constructor
  · intro heq
    cases h : isUnreserved (escaped high low) with
    | true =>
      rw [foldEscape_of_unreserved h] at heq
      exact absurd (List.cons.inj heq).1 (ne_percent_of_isUnreserved h)
    | false =>
      rw [foldEscape_of_reserved h] at heq ⊢
      obtain ⟨-, heq⟩ := List.cons.inj heq
      obtain ⟨hhigh, heq⟩ := List.cons.inj heq
      obtain ⟨hlow, heq⟩ := List.cons.inj heq
      exact ⟨by rw [hhigh, hlow], heq⟩
  · rintro ⟨heq, rfl⟩
    rw [heq]
    rfl

section Twice
variable {safe : Char → Bool} (hsafe : safe '%' = true)
include hsafe

theorem canonicalEscapes_escape {high low : Char} (hhigh : isHexDigit high = true)
    (hlow : isHexDigit low = true) (rest : Text) : canonicalEscapes safe ('%' :: high :: low :: rest) =
      foldEscape high low ++ canonicalEscapes safe rest := by
  rw [canonicalEscapes_eq hsafe, overEscapes_escape hhigh hlow, ← canonicalEscapes_eq hsafe]

theorem canonicalEscapes_stray {rest : Text} (h : startsHex rest = false) :
    canonicalEscapes safe ('%' :: rest) = '%' :: canonicalEscapes safe rest := by
  rw [canonicalEscapes_eq hsafe, overEscapes_stray h, ← canonicalEscapes_eq hsafe, quote_singleton,
    if_pos (isKept_percent_of_safe hsafe)]
  rfl

theorem canonicalEscapes_plain {c : Char} (hc : c ≠ '%') (rest : Text) :
    canonicalEscapes safe (c :: rest) = quote safe [c] ++ canonicalEscapes safe rest := by
  rw [canonicalEscapes_eq hsafe, overEscapes_plain hc, ← canonicalEscapes_eq hsafe]

theorem canonicalEscapes_percentBytes {bytes : List UInt8}
    (h : ∀ byte ∈ bytes, isUnreserved (byteChar byte) = false) (rest : Text) :
    canonicalEscapes safe (bytes.flatMap percentByte ++ rest) =
      bytes.flatMap percentByte ++ canonicalEscapes safe rest := by
  induction bytes with
  | nil => rfl
  | cons byte bytes ih =>
    rw [List.flatMap_cons, List.append_assoc, List.append_assoc,
      ← ih fun b hb => h b (List.mem_cons_of_mem _ hb)]
    refine (canonicalEscapes_escape hsafe isHexDigit_byte.1 isHexDigit_byte.2 _).trans ?_
    rw [foldEscape_byte (h byte (List.mem_cons_self ..))]
    rfl

/-- What is quoted is left as it is. -/
theorem canonicalEscapes_quote {c : Char} (hc : c ≠ '%') (rest : Text) :
    canonicalEscapes safe (quote safe [c] ++ rest) = quote safe [c] ++ canonicalEscapes safe rest := by
  rw [quote_singleton]
  cases hkept : isKept safe c with
  | true =>
    rw [if_pos rfl]
    refine (canonicalEscapes_plain hsafe hc rest).trans ?_
    rw [quote_singleton, if_pos hkept]
  | false =>
    rw [if_neg (by simp)]
    exact canonicalEscapes_percentBytes hsafe (fun byte hbyte => isUnreserved_byteChar hkept hbyte) rest

/-- Folding an escape leaves what a second folding does not change. -/
theorem canonicalEscapes_foldEscape {high low : Char} (hhigh : isHexDigit high = true)
    (hlow : isHexDigit low = true) (rest : Text) : canonicalEscapes safe (foldEscape high low ++ rest) =
      foldEscape high low ++ canonicalEscapes safe rest := by
  cases h : isUnreserved (escaped high low) with
  | true =>
    rw [foldEscape_of_unreserved h]
    refine (canonicalEscapes_plain hsafe (ne_percent_of_isUnreserved h) rest).trans ?_
    rw [quote_singleton, if_pos (isKept_of_isUnreserved h safe)]
  | false =>
    have hhigh' := hexDigit_of_isHexDigit hhigh
    have hlow' := hexDigit_of_isHexDigit hlow
    rw [foldEscape_of_reserved h]
    refine (canonicalEscapes_escape hsafe hhigh'.upper hlow'.upper rest).trans ?_
    rw [foldEscape_of_reserved (by rwa [escaped_toUpper hhigh hlow]), hhigh'.upper_upper,
      hlow'.upper_upper]

theorem canonicalEscapes_hex {c : Char} (hc : isHexDigit c = true) (rest : Text) :
    canonicalEscapes safe (c :: rest) = c :: canonicalEscapes safe rest := by
  rw [canonicalEscapes_plain hsafe (ne_percent_of_isHexDigit hc), quote_singleton,
    if_pos (isKept_of_isUnreserved (hexDigit_of_isHexDigit hc).unreserved safe)]
  rfl

/-- Folding again changes nothing exactly where no `%` has become the beginning of an escape to fold. -/
theorem canonicalEscapes_canonicalEscapes (text : Text) :
    canonicalEscapes safe (canonicalEscapes safe text) = canonicalEscapes safe text ↔ Stays text := by
  induction text using escapeInduction with
  | nil => exact iff_of_true rfl strays_nil
  | escape high low rest hhigh hlow ih =>
    rw [canonicalEscapes_escape hsafe hhigh hlow, canonicalEscapes_foldEscape hsafe hhigh hlow,
      List.append_cancel_left_eq, ih]
    exact ⟨fun h => h.escape hhigh hlow, fun h => h.tail.tail.tail⟩
  | stray rest hrest ih =>
    have hnext : startsHex (canonicalEscapes safe rest) = startsHex (foldEscapes rest) :=
      startsHex_quote safe _
    rw [canonicalEscapes_stray hsafe hrest]
    cases hstarts : startsHex (foldEscapes rest) with
    | false =>
      rw [canonicalEscapes_stray hsafe (hnext.trans hstarts), List.cons_inj_right, ih]
      exact ⟨fun h => h.cons fun _ _ => startsFolded_of_not_startsHex hstarts, fun h => h.tail⟩
    | true =>
      -- the `%` begins an escape of the first folding
      obtain ⟨high, low, folded, hfolded, hhigh, hlow⟩ := exists_of_startsHex hstarts
      have hkept {c : Char} (hc : isHexDigit c = true) : isKept safe c = true :=
        isKept_of_isUnreserved (hexDigit_of_isHexDigit hc).unreserved safe
      have hquote : canonicalEscapes safe rest = high :: low :: quote safe folded := by
        rw [canonicalEscapes, hfolded, quote_cons, if_pos (hkept hhigh), quote_cons, if_pos (hkept hlow)]
        rfl
      have htest : startsFolded (foldEscapes rest) = false ↔ foldEscape high low = ['%', high, low] := by
        rw [hfolded, startsFolded, hhigh, hlow, Bool.true_and, Bool.true_and, bne_eq_false_iff_eq]
      rw [hquote, canonicalEscapes_hex hsafe hhigh, canonicalEscapes_hex hsafe hlow,
        List.cons_inj_right, List.cons_inj_right] at ih
      rw [hquote, canonicalEscapes_escape hsafe hhigh hlow, foldEscape_append_eq, ih, ← htest]
      exact ⟨fun h => h.2.cons fun _ _ => h.1, fun h => ⟨h [] rest rfl hrest, h.tail⟩⟩
  | plain c rest hc ih =>
    rw [canonicalEscapes_plain hsafe hc, canonicalEscapes_quote hsafe hc, List.append_cancel_left_eq, ih]
    exact ⟨fun h => h.cons_plain hc, fun h => h.tail⟩

theorem isKept_of_mem_quote {text : Text} {c : Char} (hc : c ∈ quote safe text) : isKept safe c = true := by
  obtain ⟨d, -, hc⟩ := List.mem_flatMap.mp hc
  change c ∈ if isKept safe d then [d] else (String.utf8EncodeChar d).flatMap percentByte at hc
  split at hc
  · rename_i hd
    rwa [List.mem_singleton.mp hc]
  · obtain ⟨byte, -, hc⟩ := List.mem_flatMap.mp hc
    rcases mem_percentByte hc with hc | rfl
    · exact isKept_of_isUnreserved hc safe
    · exact isKept_percent_of_safe hsafe

theorem canonicalEscapes_of_kept {text : Text} (h : ∀ c ∈ text, isKept safe c = true) :
    canonicalEscapes safe text = foldEscapes text := by
  rw [canonicalEscapes_eq hsafe, foldEscapes_eq]
  induction text using escapeInduction with
  | nil => rfl
  | escape high low rest hhigh hlow ih =>
    rw [overEscapes_escape hhigh hlow, overEscapes_escape hhigh hlow, ih fun c hc => h c (by simp [hc])]
  | stray rest hrest ih =>
    rw [overEscapes_stray hrest, overEscapes_stray hrest, ih fun c hc => h c (by simp [hc]),
      quote_singleton, if_pos (isKept_percent_of_safe hsafe)]
  | plain c rest hc ih =>
    rw [overEscapes_plain hc, overEscapes_plain hc, ih fun d hd => h d (by simp [hd]), quote_singleton,
      if_pos (h c (by simp))]

end Twice

/-- Small letters count twice: folding makes a text lighter, or it changes nothing. -/
def weight (text : Text) : ℕ := (text.map fun c => if c.isLower then 2 else 1).sum

theorem weight_cons (c : Char) (rest : Text) :
    weight (c :: rest) = (if c.isLower then 2 else 1) + weight rest := rfl

theorem weight_append (a b : Text) : weight (a ++ b) = weight a + weight b := by
  rw [weight, List.map_append, List.sum_append]
  rfl

theorem weight_singleton (c : Char) : weight [c] = 1 ∨ weight [c] = 2 := by
  rw [weight_cons]
  split
  · exact .inr rfl
  · exact .inl rfl

theorem weight_toUpper {c : Char} (h : isHexDigit c = true) :
    weight [c.toUpper] ≤ weight [c] ∧ (weight [c.toUpper] = weight [c] → c.toUpper = c) := by
  have hall : ∀ n < 128, isHexDigit (Char.ofNat n) = true →
      weight [(Char.ofNat n).toUpper] ≤ weight [Char.ofNat n] ∧
        (weight [(Char.ofNat n).toUpper] = weight [Char.ofNat n] →
          (Char.ofNat n).toUpper = Char.ofNat n) := by decide
  exact ascii_forall (P := fun c => isHexDigit c = true → weight [c.toUpper] ≤ weight [c] ∧
    (weight [c.toUpper] = weight [c] → c.toUpper = c)) hall (isAscii_of_isHexDigit h) h

theorem weight_foldEscapes (text : Text) : weight (foldEscapes text) ≤ weight text ∧
    (weight (foldEscapes text) = weight text → foldEscapes text = text) := by
  rw [foldEscapes_eq]
  induction text using escapeInduction with
  | nil => exact ⟨le_rfl, fun _ => rfl⟩
  | escape high low rest hhigh hlow ih =>
    have hsplit : weight ('%' :: high :: low :: rest) =
        weight ['%'] + (weight [high] + (weight [low] + weight rest)) := by
      rw [← weight_append, ← weight_append, ← weight_append]
      rfl
    have hpercent : weight ['%'] = 1 := rfl
    rw [overEscapes_escape hhigh hlow, weight_append, hsplit]
    cases h : isUnreserved (escaped high low) with
    | true =>
      rw [foldEscape_of_unreserved h]
      have hone := weight_singleton (escaped high low)
      have hhigh := weight_singleton high
      have hlow := weight_singleton low
      exact ⟨by omega, fun heq => by omega⟩
    | false =>
      have hfold : weight (foldEscape high low) = weight ['%'] + (weight [high.toUpper] +
          weight [low.toUpper]) := by
        rw [foldEscape_of_reserved h, ← weight_append, ← weight_append]
        rfl
      obtain ⟨hhigh, hhigh'⟩ := weight_toUpper hhigh
      obtain ⟨hlow, hlow'⟩ := weight_toUpper hlow
      rw [hfold]
      refine ⟨by omega, fun heq => ?_⟩
      rw [foldEscape_of_reserved h, hhigh' (by omega), hlow' (by omega), ih.2 (by omega)]
      rfl
  | stray rest hrest ih =>
    rw [overEscapes_stray hrest, List.singleton_append, weight_cons, weight_cons]
    exact ⟨by omega, fun heq => by rw [ih.2 (by omega)]⟩
  | plain c rest hc ih =>
    rw [overEscapes_plain hc, List.singleton_append, weight_cons, weight_cons]
    exact ⟨by omega, fun heq => by rw [ih.2 (by omega)]⟩

/-! ## The key of a key -/

/-- Names that are in order as they are spelled are in order when they are folded. -/
def FoldsInOrder (parameters : List Text) : Prop :=
  ∀ a ∈ parameters, ∀ b ∈ parameters, parameterName a ≤ parameterName b →
    canonicalEscapes isQuerySafe (parameterName a) ≤ canonicalEscapes isQuerySafe (parameterName b)

/-- The parameters of the key of parameters. -/
def keyParameters (parameters : List Text) : List Text :=
  (sortParameters parameters).map (canonicalEscapes isQuerySafe)

section Parameters
variable {parameters : List Text}

theorem mem_keyParameters {key : Text} : key ∈ keyParameters parameters ↔
    ∃ pair ∈ parameters, canonicalEscapes isQuerySafe pair = key := by
  rw [keyParameters, List.mem_map]
  simp only [mem_sortParameters]

theorem sortParameters_perm (parameters : List Text) : (sortParameters parameters).Perm parameters :=
  List.perm_insertionSort _ _

/-- Parameters that are the same when they are sorted and folded are folded already. -/
theorem stays_of_keyParameters (h : keyParameters (keyParameters parameters) = keyParameters parameters) :
    ∀ pair ∈ parameters, Stays pair := by
  have hfold {key : Text} (hkey : key ∈ keyParameters parameters) :
      canonicalEscapes isQuerySafe key = foldEscapes key := by
    obtain ⟨pair, -, rfl⟩ := mem_keyParameters.mp hkey
    exact canonicalEscapes_of_kept (by decide) fun c hc => isKept_of_mem_quote (by decide) hc
  have hperm : ((keyParameters parameters).map (canonicalEscapes isQuerySafe)).Perm
      (keyParameters parameters) := by
    have hsorted := (sortParameters_perm (keyParameters parameters)).map (canonicalEscapes isQuerySafe)
    exact hsorted.symm.trans (.of_eq h)
  have hsum := (hperm.map weight).sum_eq
  rw [List.map_map] at hsum
  have hweight := StableSort.eq_of_sum_eq
    (fun key hkey => by rw [Function.comp_apply, hfold hkey]; exact (weight_foldEscapes key).1) hsum
  intro pair hpair
  have hkey := mem_keyParameters.mpr ⟨pair, hpair, rfl⟩
  rw [← canonicalEscapes_canonicalEscapes separates_ampersand.percent_safe, hfold hkey]
  refine (weight_foldEscapes _).2 ?_
  rw [← hfold hkey]
  exact hweight _ hkey

/-- Where all are folded already, sorting them again changes nothing if the folded names are in order. -/
theorem keyParameters_keyParameters (h : ∀ pair ∈ parameters, Stays pair) :
    keyParameters (keyParameters parameters) = keyParameters parameters ↔ FoldsInOrder parameters := by
  have hfixed : keyParameters (keyParameters parameters) = sortParameters (keyParameters parameters) := by
    have hall : ∀ key ∈ sortParameters (keyParameters parameters),
        canonicalEscapes isQuerySafe key = key := by
      intro key hkey
      obtain ⟨pair, hpair, rfl⟩ := mem_keyParameters.mp (mem_sortParameters.mp hkey)
      exact (canonicalEscapes_canonicalEscapes (by decide) pair).mpr (h pair hpair)
    exact (List.map_congr_left hall).trans (List.map_id _)
  have hsorted : (sortParameters parameters).Pairwise fun a b => parameterName a ≤ parameterName b :=
    List.pairwise_insertionSort _ _
  rw [hfixed]
  constructor
  · intro heq
    have hkeys := List.pairwise_insertionSort (fun a b => parameterName a ≤ parameterName b)
      (keyParameters parameters)
    rw [← sortParameters, heq, keyParameters, List.pairwise_map] at hkeys
    have hafter := hkeys.imp (S := fun a b => parameterName a ≤ parameterName b →
      canonicalEscapes isQuerySafe (parameterName a) ≤ canonicalEscapes isQuerySafe (parameterName b))
      fun hkey _ => by rwa [parameterName_key, parameterName_key] at hkey
    have hbefore := hsorted.imp (S := flip fun a b => parameterName a ≤ parameterName b →
      canonicalEscapes isQuerySafe (parameterName a) ≤ canonicalEscapes isQuerySafe (parameterName b))
      fun hab hba => by rw [le_antisymm hab hba]
    have hall := hafter.forall_of_forall_of_flip (fun a _ _ => le_rfl) hbefore
    exact fun a ha b hb => hall (mem_sortParameters.mpr ha) (mem_sortParameters.mpr hb)
  · intro horder
    refine List.Pairwise.insertionSort_eq ?_
    rw [keyParameters, List.pairwise_map]
    refine hsorted.imp_of_mem fun ha hb hab => ?_
    rw [parameterName_key, parameterName_key]
    exact horder _ (mem_sortParameters.mp ha) _ (mem_sortParameters.mp hb) hab

end Parameters

/-! ## Spellings -/

/-- What of a URL may be spelled in another way. -/
structure Spelling where
  path : Text
  parameters : List Text

def SplitResult.spelling (site : SplitResult) : Spelling := ⟨site.path, site.query.splitOn '&'⟩

namespace Spelling

/-- The URL of a spelling, on the site of another. -/
def parts (s : Spelling) (site : SplitResult) : SplitResult :=
  { site with path := s.path, query := ['&'].intercalate s.parameters, fragment := [] }

def key (s : Spelling) : Spelling := ⟨canonicalEscapes isPathSafe s.path, keyParameters s.parameters⟩

/-- A spelling of a normalized URL, or of what it is respelled to. -/
structure Sound (s : Spelling) : Prop where
  slash : s.path.head? = some '/'
  path : ∀ c ∈ s.path, c ≠ '?' ∧ c ≠ '#' ∧ isUnsafeByte c = false
  nonempty : s.parameters ≠ []
  parameters : ∀ pair ∈ s.parameters, ∀ c ∈ pair, c ≠ '&' ∧ c ≠ '#' ∧ isUnsafeByte c = false

theorem Sound.normal {s : Spelling} (h : s.Sound) : Normal s.path (['&'].intercalate s.parameters) := by
  refine ⟨h.slash, h.path, fun c hc => ?_⟩
  rcases mem_intercalate hc with rfl | ⟨pair, hpair, hc⟩
  · decide
  · exact (h.parameters pair hpair c hc).2

theorem Sound.splitOn {s : Spelling} (h : s.Sound) :
    (['&'].intercalate s.parameters).splitOn '&' = s.parameters :=
  List.splitOn_intercalate '&' (fun pair hpair hmem => (h.parameters pair hpair _ hmem).1 rfl) h.nonempty

theorem Sound.parts_key {s : Spelling} (h : s.Sound) (site : SplitResult) :
    (s.parts site).key = s.key.parts site := by
  have hquery : (s.parts site).key.query = ['&'].intercalate (keyParameters s.parameters) := by
    have hsplit : (s.parts site).key.query.splitOn '&' = keyParameters s.parameters := by
      rw [splitOn_key_query, parts, h.splitOn]
      rfl
    rw [← hsplit]
    exact (List.intercalate_splitOn '&').symm
  rw [SplitResult.key, SplitResult.mk.injEq]
  exact ⟨rfl, rfl, rfl, hquery, rfl⟩

theorem Sound.key {s : Spelling} (h : s.Sound) : s.key.Sound := by
  refine ⟨head_canonicalEscapes h.slash, fun c hc => ?_, fun hnil => ?_, fun pair hpair c hc => ?_⟩
  · exact (mem_canonicalEscapes (by decide) hc).elim (h.path c) plain_of_isUnreserved
  · exact sortParameters_ne_nil h.nonempty (List.map_eq_nil_iff.mp hnil)
  · obtain ⟨raw, hraw, rfl⟩ := mem_keyParameters.mp hpair
    refine ⟨?_, ?_⟩
    · rintro rfl
      exact separates_ampersand.not_mem (fun hmem => (h.parameters raw hraw _ hmem).1 rfl) hc
    · exact (mem_canonicalEscapes (by decide) hc).elim (fun hc => (h.parameters raw hraw c hc).2)
        fun hc => (plain_of_isUnreserved hc).2

theorem key_key_iff {s : Spelling} : s.key.key = s.key ↔ Stays s.path ∧
    (∀ pair ∈ s.parameters, Stays pair) ∧ FoldsInOrder s.parameters := by
  have hpath : s.key.key.path = s.key.path ↔ Stays s.path :=
    canonicalEscapes_canonicalEscapes (by decide) s.path
  rw [← hpath]
  constructor
  · intro heq
    have hquery : keyParameters (keyParameters s.parameters) = keyParameters s.parameters :=
      congrArg Spelling.parameters heq
    have hstays := stays_of_keyParameters hquery
    exact ⟨by rw [heq], hstays, (keyParameters_keyParameters hstays).mp hquery⟩
  · rintro ⟨heq, hstays, horder⟩
    exact congrArg₂ Spelling.mk heq ((keyParameters_keyParameters hstays).mpr horder)

section Site
variable {text url : Text} {site : SplitResult} (h : normalize u text = some url)
  (hs : urlsplit u url = .ok site)
include h hs

theorem sound_of_normalize : site.spelling.Sound := by
  have hnormal := normal_of_normalize h hs
  have hjoin : ['&'].intercalate (site.query.splitOn '&') = site.query := List.intercalate_splitOn '&'
  refine ⟨hnormal.slash, hnormal.path, List.splitOn_ne_nil '&' _, fun pair hpair c hc => ⟨?_, ?_⟩⟩
  · rintro rfl
    exact Splitting.not_mem_of_mem_splitOn hpair hc
  · refine hnormal.query c ?_
    rw [← hjoin]
    exact mem_intercalate_of_mem hc hpair

/-- A normalized URL is the URL of its spelling. -/
theorem urlunsplit_spelling : urlunsplit (site.spelling.parts site) = url := by
  obtain ⟨tail, -, hfragment, hurl, -⟩ := exists_tail h hs
  have hjoin : ['&'].intercalate (site.query.splitOn '&') = site.query := List.intercalate_splitOn '&'
  have hsite : site.spelling.parts site = site := by
    rw [parts, SplitResult.spelling, hjoin, ← hfragment]
  rw [hsite, hurl]

theorem urlsplit_parts {s : Spelling} (hsound : s.Sound) :
    urlsplit u (urlunsplit (s.parts site)) = .ok (s.parts site) := urlsplit_urlunsplit h hs hsound.normal

/-- The key of a URL is the URL of the key of its spelling. -/
theorem canonicalKey_parts {s : Spelling} (hsound : s.Sound) :
    canonicalKey u (urlunsplit (s.parts site)) = .ok (urlunsplit (s.key.parts site)) := by
  rw [canonicalKey_eq, urlsplit_parts h hs hsound, ← hsound.parts_key]
  rfl

theorem urlunsplit_parts_inj {s s' : Spelling} (hsound : s.Sound) (hsound' : s'.Sound) :
    urlunsplit (s.parts site) = urlunsplit (s'.parts site) ↔ s = s' := by
  refine ⟨fun heq => ?_, fun heq => by rw [heq]⟩
  have hparts := urlsplit_parts h hs hsound
  rw [heq, urlsplit_parts h hs hsound'] at hparts
  have hsame := Except.ok.inj hparts
  have hpath : s'.path = s.path := congrArg SplitResult.path hsame
  have hquery : ['&'].intercalate s'.parameters = ['&'].intercalate s.parameters :=
    congrArg SplitResult.query hsame
  have hparameters : s'.parameters = s.parameters := by
    rw [← hsound.splitOn, ← hquery, hsound'.splitOn]
  exact congrArg₂ Spelling.mk hpath.symm hparameters.symm

end Site

end Spelling

end UrlCrawler
