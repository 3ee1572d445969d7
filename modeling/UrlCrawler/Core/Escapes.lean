import UrlCrawler.Core.Unquote
import UrlCrawler.Core.Urls
import UrlCrawler.Library.Splitting

/-! # Escapes

A text with escapes is read from the left: an escape is taken whole, and a `%` that begins none stands for
itself. Folding, decoding and respelling all read a text that way.
-/
set_option autoImplicit false

namespace UrlCrawler

/-! ## Reading escapes -/

/-- The text goes on with two hexadecimal digits. -/
def startsHex : Text → Bool
  | high :: low :: _ => isHexDigit high && isHexDigit low
  | _ => false

/-- Every `%` begins an escape. -/
def WellEscaped (text : Text) : Prop :=
  ∀ before rest, text = before ++ '%' :: rest → startsHex rest = true

theorem isHexDigit_percent : isHexDigit '%' = false := by decide

/-- A text is empty, or it begins with an escape, with a stray `%` or with another character. -/
theorem escapeInduction {motive : Text → Prop} (nil : motive [])
    (escape : ∀ high low rest, isHexDigit high = true → isHexDigit low = true → motive rest →
      motive ('%' :: high :: low :: rest))
    (stray : ∀ rest, startsHex rest = false → motive rest → motive ('%' :: rest))
    (plain : ∀ c rest, c ≠ '%' → motive rest → motive (c :: rest)) (text : Text) : motive text := by
  induction hlength : text.length using Nat.strongRecOn generalizing text with
  | ind n ih =>
    subst hlength
    match text with
    | [] => exact nil
    | c :: rest =>
      have hrest : motive rest := ih rest.length (Nat.lt_succ_self _) rest rfl
      by_cases hc : c = '%'
      · subst hc
        cases hstarts : startsHex rest with
        | false => exact stray rest hstarts hrest
        | true =>
          match rest with
          | high :: low :: rest' =>
            rw [startsHex, Bool.and_eq_true] at hstarts
            have hlt : rest'.length < ('%' :: high :: low :: rest').length := by
              simp only [List.length_cons]
              omega
            exact escape high low rest' hstarts.1 hstarts.2 (ih _ hlt rest' rfl)
      · exact plain c rest hc hrest

section Over
variable {β : Type} (onEscape : Char → Char → List β) (onChar : Char → List β)

/-- What is made of a text, one escape or character at a time. -/
def overEscapes : Text → List β
  | '%' :: high :: low :: rest =>
    if isHexDigit high && isHexDigit low then onEscape high low ++ overEscapes rest
    else onChar '%' ++ overEscapes (high :: low :: rest)
  | c :: rest => onChar c ++ overEscapes rest
  | [] => []

variable {onEscape onChar}

theorem overEscapes_escape {high low : Char} (hhigh : isHexDigit high = true)
    (hlow : isHexDigit low = true) (rest : Text) :
    overEscapes onEscape onChar ('%' :: high :: low :: rest) =
      onEscape high low ++ overEscapes onEscape onChar rest := by
  rw [overEscapes, hhigh, hlow]
  rfl

theorem overEscapes_stray {rest : Text} (h : startsHex rest = false) :
    overEscapes onEscape onChar ('%' :: rest) = onChar '%' ++ overEscapes onEscape onChar rest := by
  match rest with
  | [] | [_] => rfl
  | high :: low :: rest =>
    rw [startsHex] at h
    rw [overEscapes, h]
    rfl

theorem overEscapes_plain {c : Char} (hc : c ≠ '%') (rest : Text) :
    overEscapes onEscape onChar (c :: rest) = onChar c ++ overEscapes onEscape onChar rest := by
  rw [overEscapes]
  intro _ _ _ h
  exact absurd h hc

theorem startsHex_append {sep : Char} (hsep : isHexDigit sep = false) {a : Text}
    (ha : startsHex a = false) (b : Text) : startsHex (a ++ sep :: b) = false := by
  match a with
  | [] =>
    cases b with
    | nil => rfl
    | cons c b => rw [List.nil_append, startsHex, hsep, Bool.false_and]
  | [c] => rw [List.singleton_append, startsHex, hsep, Bool.and_false]
  | c :: d :: a => exact ha

/-- A text is read up to a character that is no hexadecimal digit as if it ended there. -/
theorem overEscapes_append {sep : Char} (hsep : isHexDigit sep = false) (a b : Text) :
    overEscapes onEscape onChar (a ++ sep :: b) =
      overEscapes onEscape onChar a ++ overEscapes onEscape onChar (sep :: b) := by
  induction a using escapeInduction with
  | nil => rfl
  | escape high low rest hhigh hlow ih =>
    rw [overEscapes_escape hhigh hlow, List.append_assoc, ← ih]
    exact overEscapes_escape hhigh hlow _
  | stray rest hrest ih =>
    rw [overEscapes_stray hrest, List.append_assoc, ← ih]
    exact overEscapes_stray (startsHex_append hsep hrest b)
  | plain c rest hc ih =>
    rw [overEscapes_plain hc, List.append_assoc, ← ih]
    exact overEscapes_plain hc _

end Over

theorem foldEscapes_eq (text : Text) : foldEscapes text = overEscapes foldEscape (fun c => [c]) text := by
  induction text using escapeInduction with
  | nil => rfl
  | escape high low rest hhigh hlow ih =>
    rw [overEscapes_escape hhigh hlow, ← ih, foldEscapes, hhigh, hlow]
    rfl
  | stray rest hrest ih =>
    rw [overEscapes_stray hrest, ← ih]
    match rest with
    | [] | [_] => rfl
    | high :: low :: rest =>
      rw [startsHex] at hrest
      rw [foldEscapes, hrest]
      rfl
  | plain c rest hc ih =>
    rw [overEscapes_plain hc, ← ih, foldEscapes]
    · rfl
    · intro _ _ _ h
      exact absurd h hc

/-! ## Hexadecimal digits -/

theorem ascii_forall {P : Char → Prop} (h : ∀ n < 128, P (Char.ofNat n)) {c : Char}
    (hc : isAscii c = true) : P c := by
  have hchar := h c.toNat (of_decide_eq_true hc)
  rwa [Char.ofNat_toNat] at hchar

/-- What is used of a hexadecimal digit and its capital. -/
structure HexDigit (c : Char) : Prop where
  lt : hexValue c < 16
  unreserved : isUnreserved c = true
  upper_unreserved : isUnreserved c.toUpper = true
  upper : isHexDigit c.toUpper = true
  upper_value : hexValue c.toUpper = hexValue c
  upper_upper : c.toUpper.toUpper = c.toUpper

theorem hexDigit_of_isHexDigit {c : Char} (h : isHexDigit c = true) : HexDigit c := by
  have hall : ∀ n < 128, isHexDigit (Char.ofNat n) = true →
      hexValue (Char.ofNat n) < 16 ∧ isUnreserved (Char.ofNat n) = true ∧
        isUnreserved (Char.ofNat n).toUpper = true ∧ isHexDigit (Char.ofNat n).toUpper = true ∧
        hexValue (Char.ofNat n).toUpper = hexValue (Char.ofNat n) ∧
        (Char.ofNat n).toUpper.toUpper = (Char.ofNat n).toUpper := by decide
  obtain ⟨hlt, hplain, hupper, hhex, hvalue, hagain⟩ :=
    ascii_forall (P := fun c => isHexDigit c = true → hexValue c < 16 ∧ isUnreserved c = true ∧
      isUnreserved c.toUpper = true ∧ isHexDigit c.toUpper = true ∧ hexValue c.toUpper = hexValue c ∧
      c.toUpper.toUpper = c.toUpper) hall (isAscii_of_isHexDigit h) h
  exact ⟨hlt, hplain, hupper, hhex, hvalue, hagain⟩

theorem isKept_of_isUnreserved {c : Char} (h : isUnreserved c = true) (safe : Char → Bool) :
    isKept safe c = true := by
  simp only [isUnreserved, isKept, Bool.or_eq_true, decide_eq_true_eq, List.mem_cons,
    List.not_mem_nil, or_false] at h ⊢
  rcases h with h | h
  · exact .inl (.inl h)
  · exact .inl (.inr (by tauto))

theorem isAscii_of_isUnreserved {c : Char} (h : isUnreserved c = true) : isAscii c = true :=
  isAscii_of_isKept (isKept_of_isUnreserved h fun _ => false)

theorem ne_percent_of_isUnreserved {c : Char} (h : isUnreserved c = true) : c ≠ '%' := by
  rintro rfl
  exact absurd h (by decide)

theorem ne_percent_of_isHexDigit {c : Char} (h : isHexDigit c = true) : c ≠ '%' :=
  ne_percent_of_isUnreserved (hexDigit_of_isHexDigit h).unreserved

/-! ## Folding -/

/-- The character an escape stands for, if it is one of a single byte. -/
def escaped (high low : Char) : Char := Char.ofNat (16 * hexValue high + hexValue low)

theorem foldEscape_of_unreserved {high low : Char} (h : isUnreserved (escaped high low) = true) :
    foldEscape high low = [escaped high low] := if_pos h

theorem foldEscape_of_reserved {high low : Char} (h : isUnreserved (escaped high low) = false) :
    foldEscape high low = ['%', high.toUpper, low.toUpper] := if_neg (by simpa [escaped] using h)

theorem escaped_toUpper {high low : Char} (hhigh : isHexDigit high = true)
    (hlow : isHexDigit low = true) : escaped high.toUpper low.toUpper = escaped high low := by
  rw [escaped, escaped, (hexDigit_of_isHexDigit hhigh).upper_value,
    (hexDigit_of_isHexDigit hlow).upper_value]

theorem isKept_percent_of_safe {safe : Char → Bool} (h : safe '%' = true) : isKept safe '%' = true := by
  rw [isKept, h]
  rfl

theorem quote_append (safe : Char → Bool) (a b : Text) :
    quote safe (a ++ b) = quote safe a ++ quote safe b := List.flatMap_append

theorem quote_of_kept {safe : Char → Bool} {text : Text} (h : ∀ c ∈ text, isKept safe c = true) :
    quote safe text = text := by
  induction text with
  | nil => rfl
  | cons c rest ih =>
    rw [quote_cons, if_pos (h c (List.mem_cons_self ..)), ih fun d hd => h d (List.mem_cons_of_mem _ hd)]
    rfl

section Canonical
variable {safe : Char → Bool} (hsafe : safe '%' = true)
include hsafe

theorem isKept_of_mem_foldEscape {high low c : Char} (hhigh : isHexDigit high = true)
    (hlow : isHexDigit low = true) (hc : c ∈ foldEscape high low) : isKept safe c = true := by
  cases h : isUnreserved (escaped high low) with
  | true =>
    rw [foldEscape_of_unreserved h, List.mem_singleton] at hc
    rw [hc]
    exact isKept_of_isUnreserved h safe
  | false =>
    rw [foldEscape_of_reserved h] at hc
    simp only [List.mem_cons, List.not_mem_nil, or_false] at hc
    rcases hc with rfl | rfl | rfl
    · exact isKept_percent_of_safe hsafe
    · exact isKept_of_isUnreserved (hexDigit_of_isHexDigit hhigh).upper_unreserved safe
    · exact isKept_of_isUnreserved (hexDigit_of_isHexDigit hlow).upper_unreserved safe

/-- Folding and quoting read a text once. -/
theorem canonicalEscapes_eq (text : Text) : canonicalEscapes safe text =
    overEscapes foldEscape (fun c => quote safe [c]) text := by
  rw [canonicalEscapes, foldEscapes_eq]
  induction text using escapeInduction with
  | nil => rfl
  | escape high low rest hhigh hlow ih =>
    rw [overEscapes_escape hhigh hlow, overEscapes_escape hhigh hlow, quote_append, ih,
      quote_of_kept fun c hc => isKept_of_mem_foldEscape hsafe hhigh hlow hc]
  | stray rest hrest ih => rw [overEscapes_stray hrest, overEscapes_stray hrest, quote_append, ih]
  | plain c rest hc ih => rw [overEscapes_plain hc, overEscapes_plain hc, quote_append, ih]

end Canonical

/-! ## Decoding -/

/-- `unquote_to_bytes`. -/
def percentDecode (text : Text) : List UInt8 :=
  overEscapes (fun high low => [.ofNat (16 * hexValue high + hexValue low)]) String.utf8EncodeChar text

theorem percentDecode_escape {high low : Char} (hhigh : isHexDigit high = true)
    (hlow : isHexDigit low = true) (rest : Text) : percentDecode ('%' :: high :: low :: rest) =
      .ofNat (16 * hexValue high + hexValue low) :: percentDecode rest :=
  overEscapes_escape hhigh hlow rest

theorem percentDecode_stray {rest : Text} (h : startsHex rest = false) :
    percentDecode ('%' :: rest) = String.utf8EncodeChar '%' ++ percentDecode rest :=
  overEscapes_stray h

theorem percentDecode_plain {c : Char} (hc : c ≠ '%') (rest : Text) :
    percentDecode (c :: rest) = String.utf8EncodeChar c ++ percentDecode rest :=
  overEscapes_plain hc rest

/-- A test fails of what is behind each `%` that begins no escape, once the escapes there are folded. -/
def Strays (test : Text → Bool) (text : Text) : Prop :=
  ∀ before rest, text = before ++ '%' :: rest → startsHex rest = false → test (foldEscapes rest) = false

instance (test : Text → Bool) (text : Text) : Decidable (Strays test text) :=
  decidable_of_iff (∀ suffix ∈ text.tails, suffix.head? = some '%' → startsHex suffix.tail = false →
      test (foldEscapes suffix.tail) = false) <| by
    constructor
    · intro h before rest heq
      exact h ('%' :: rest) ((List.mem_tails _ _).mpr ⟨before, heq.symm⟩) rfl
    · rintro h suffix hsuffix hhead
      obtain ⟨before, heq⟩ := (List.mem_tails _ _).mp hsuffix
      obtain ⟨rest, rfl⟩ := List.head?_eq_some_iff.mp hhead
      exact h before rest heq.symm

section Strays
variable {test : Text → Bool}

theorem strays_nil : Strays test [] := by
  intro before rest heq
  exact absurd heq (by simp)

theorem Strays.tail {c : Char} {rest : Text} (h : Strays test (c :: rest)) : Strays test rest := by
  intro before rest' heq
  exact h (c :: before) rest' (by rw [heq]; rfl)

theorem Strays.cons {c : Char} {rest : Text} (h : Strays test rest)
    (hc : c = '%' → startsHex rest = false → test (foldEscapes rest) = false) :
    Strays test (c :: rest) := by
  intro before rest' heq hstarts
  cases before with
  | nil =>
    obtain ⟨rfl, rfl⟩ := List.cons.inj heq
    exact hc rfl hstarts
  | cons d before =>
    obtain ⟨-, rfl⟩ := List.cons.inj heq
    exact h before rest' rfl hstarts

theorem Strays.cons_plain {c : Char} {rest : Text} (h : Strays test rest) (hc : c ≠ '%') :
    Strays test (c :: rest) := h.cons fun he => absurd he hc

theorem Strays.escape {high low : Char} {rest : Text} (h : Strays test rest)
    (hhigh : isHexDigit high = true) (hlow : isHexDigit low = true) :
    Strays test ('%' :: high :: low :: rest) := by
  refine ((h.cons_plain (ne_percent_of_isHexDigit hlow)).cons_plain
    (ne_percent_of_isHexDigit hhigh)).cons fun _ hstarts => ?_
  rw [startsHex, hhigh, hlow] at hstarts
  cases hstarts

end Strays

/-- No `%` becomes the beginning of an escape when the escapes behind it are folded. -/
def Apart (text : Text) : Prop := Strays startsHex text

instance (text : Text) : Decidable (Apart text) := inferInstanceAs (Decidable (Strays startsHex text))

theorem Apart.append_left {sep : Char} (hsep : isHexDigit sep = false) {a b : Text}
    (h : Apart (a ++ sep :: b)) : Apart a := by
  intro before rest heq hstarts
  have hwhole := h before (rest ++ sep :: b) (by rw [heq, List.append_assoc]; rfl)
    (startsHex_append hsep hstarts b)
  rw [foldEscapes_eq, overEscapes_append hsep, ← foldEscapes_eq] at hwhole
  match hfold : foldEscapes rest with
  | [] | [_] => rfl
  | high :: low :: rest' =>
    rw [hfold] at hwhole
    exact hwhole

theorem Apart.before {sep : Char} (hsep : isHexDigit sep = false) {text : Text} (h : Apart text) :
    Apart (before sep text) := by
  by_cases hmem : sep ∈ text
  · obtain ⟨a, b, rfl, ha⟩ := List.eq_append_cons_of_mem hmem
    rw [before_append _ ha]
    exact h.append_left hsep
  · rwa [before_of_not_mem hmem]

theorem percentDecode_percentBytes (bytes : List UInt8) (rest : Text) :
    percentDecode (bytes.flatMap percentByte ++ rest) = bytes ++ percentDecode rest := by
  induction bytes with
  | nil => rfl
  | cons byte bytes ih =>
    have hbyte := byte.toNat_lt
    have hhigh : byte.toNat / 16 < 16 := by omega
    have hlow : byte.toNat % 16 < 16 := by omega
    rw [List.flatMap_cons, List.append_assoc]
    refine (percentDecode_escape (isHexDigit_hexDigitUpper _ hhigh) (isHexDigit_hexDigitUpper _ hlow)
      _).trans ?_
    rw [hexValue_hexDigitUpper _ hhigh, hexValue_hexDigitUpper _ hlow, Nat.div_add_mod,
      UInt8.ofNat_toNat]
    exact congrArg (byte :: ·) ih

theorem quote_singleton (safe : Char → Bool) (c : Char) :
    quote safe [c] = if isKept safe c then [c] else (String.utf8EncodeChar c).flatMap percentByte := by
  rw [quote_cons]
  exact List.append_nil _

theorem toNat_escaped {high low : Char} (hhigh : isHexDigit high = true) (hlow : isHexDigit low = true) :
    (escaped high low).toNat = 16 * hexValue high + hexValue low := by
  have hhigh := (hexDigit_of_isHexDigit hhigh).lt
  have hlow := (hexDigit_of_isHexDigit hlow).lt
  rw [escaped, Char.toNat_ofNat, if_pos]
  exact .inl (by omega)

theorem percentDecode_foldEscape {high low : Char} (hhigh : isHexDigit high = true)
    (hlow : isHexDigit low = true) (rest : Text) : percentDecode (foldEscape high low ++ rest) =
      .ofNat (16 * hexValue high + hexValue low) :: percentDecode rest := by
  cases h : isUnreserved (escaped high low) with
  | true =>
    rw [foldEscape_of_unreserved h]
    refine (percentDecode_plain (ne_percent_of_isUnreserved h) rest).trans ?_
    rw [utf8EncodeChar_ascii (isAscii_of_isUnreserved h), toNat_escaped hhigh hlow]
    rfl
  | false =>
    rw [foldEscape_of_reserved h]
    refine (percentDecode_escape (hexDigit_of_isHexDigit hhigh).upper (hexDigit_of_isHexDigit hlow).upper
      rest).trans ?_
    rw [(hexDigit_of_isHexDigit hhigh).upper_value, (hexDigit_of_isHexDigit hlow).upper_value]

theorem startsHex_percent (rest : Text) : startsHex ('%' :: rest) = false := by
  match rest with
  | [] => rfl
  | c :: rest => rw [startsHex, isHexDigit_percent, Bool.false_and]

theorem quote_cons_of_not_kept {safe : Char → Bool} {c : Char} (hc : isKept safe c = false) (rest : Text) :
    ∃ rest', quote safe (c :: rest) = '%' :: rest' := by
  rw [quote_cons, hc]
  obtain ⟨byte, bytes, hbytes⟩ := List.exists_cons_of_ne_nil (String.utf8EncodeChar_ne_nil (c := c))
  rw [hbytes]
  exact ⟨_, rfl⟩

theorem isHexDigit_of_not_kept {safe : Char → Bool} {c : Char} (hc : isKept safe c = false) :
    isHexDigit c = false := by
  by_contra h
  have hhex : isHexDigit c = true := by simpa using h
  rw [isKept_of_isUnreserved (hexDigit_of_isHexDigit hhex).unreserved safe] at hc
  cases hc

theorem startsHex_quote (safe : Char → Bool) (text : Text) : startsHex (quote safe text) = startsHex text := by
  match text with
  | [] => rfl
  | c :: rest =>
    cases hc : isKept safe c with
    | false =>
      obtain ⟨rest', hquote⟩ := quote_cons_of_not_kept hc rest
      rw [hquote, startsHex_percent]
      cases rest with
      | nil => rfl
      | cons d rest => rw [startsHex, isHexDigit_of_not_kept hc, Bool.false_and]
    | true =>
      rw [quote_cons, hc]
      match rest with
      | [] => rfl
      | d :: rest =>
        cases hd : isKept safe d with
        | false =>
          obtain ⟨rest', hquote⟩ := quote_cons_of_not_kept hd rest
          rw [hquote]
          show (isHexDigit c && isHexDigit '%') = (isHexDigit c && isHexDigit d)
          rw [isHexDigit_percent, isHexDigit_of_not_kept hd]
        | true =>
          rw [quote_cons, hd]
          rfl

/-- The key of a text is decoded to what the text is, if its stray `%` stay apart. -/
theorem percentDecode_canonicalEscapes {safe : Char → Bool} (hsafe : safe '%' = true) {text : Text}
    (h : Apart text) : percentDecode (canonicalEscapes safe text) = percentDecode text := by
  have hnext (rest : Text) : startsHex (canonicalEscapes safe rest) = startsHex (foldEscapes rest) :=
    startsHex_quote safe _
  rw [canonicalEscapes_eq hsafe]
  induction text using escapeInduction with
  | nil => rfl
  | escape high low rest hhigh hlow ih =>
    rw [overEscapes_escape hhigh hlow, percentDecode_foldEscape hhigh hlow, ih h.tail.tail.tail,
      percentDecode_escape hhigh hlow]
  | stray rest hrest ih =>
    have hstays := h [] rest rfl hrest
    rw [← hnext, canonicalEscapes_eq hsafe] at hstays
    rw [overEscapes_stray hrest, quote_singleton, if_pos (isKept_percent_of_safe hsafe),
      percentDecode_stray hrest, ← ih h.tail]
    exact percentDecode_stray hstays
  | plain c rest hc ih =>
    rw [overEscapes_plain hc, quote_singleton, percentDecode_plain hc, ← ih h.tail]
    split
    · exact percentDecode_plain hc _
    · exact percentDecode_percentBytes _ _

theorem length_percentDecode_hex {c : Char} (h : isHexDigit c = true) (rest : Text) :
    (percentDecode (c :: rest)).length = (percentDecode rest).length + 1 := by
  rw [percentDecode_plain (ne_percent_of_isHexDigit h), List.length_append,
    utf8EncodeChar_ascii (isAscii_of_isHexDigit h), List.length_singleton, Nat.add_comm]

theorem exists_of_startsHex {text : Text} (h : startsHex text = true) : ∃ high low rest,
    text = high :: low :: rest ∧ isHexDigit high = true ∧ isHexDigit low = true := by
  cases text with
  | nil => cases h
  | cons high rest =>
    cases rest with
    | nil => cases h
    | cons low rest =>
      rw [startsHex, Bool.and_eq_true] at h
      exact ⟨high, low, rest, rfl, h.1, h.2⟩

/-- Each `%` that becomes the beginning of an escape costs bytes. -/
theorem length_percentDecode_canonicalEscapes {safe : Char → Bool} (hsafe : safe '%' = true) (text : Text) :
    (percentDecode (canonicalEscapes safe text)).length ≤ (percentDecode text).length ∧
      ((percentDecode (canonicalEscapes safe text)).length = (percentDecode text).length →
        Apart text) := by
  rw [canonicalEscapes_eq hsafe]
  induction text using escapeInduction with
  | nil => exact ⟨le_rfl, fun _ => strays_nil⟩
  | escape high low rest hhigh hlow ih =>
    rw [overEscapes_escape hhigh hlow, percentDecode_foldEscape hhigh hlow,
      percentDecode_escape hhigh hlow, List.length_cons, List.length_cons]
    exact ⟨Nat.succ_le_succ ih.1, fun hlength => (ih.2 (Nat.succ.inj hlength)).escape hhigh hlow⟩
  | stray rest hrest ih =>
    have hnext : startsHex (foldEscapes rest) =
        startsHex (overEscapes foldEscape (fun c => quote safe [c]) rest) := by
      rw [← canonicalEscapes_eq hsafe, canonicalEscapes, startsHex_quote]
    have hpercent : (String.utf8EncodeChar '%').length = 1 := rfl
    rw [overEscapes_stray hrest, quote_singleton, if_pos (isKept_percent_of_safe hsafe),
      percentDecode_stray hrest, List.singleton_append, List.length_append, hpercent]
    cases hstarts : startsHex (overEscapes foldEscape (fun c => quote safe [c]) rest) with
    | false =>
      rw [percentDecode_stray hstarts, List.length_append, hpercent]
      exact ⟨by omega, fun hlength => (ih.2 (by omega)).cons fun _ _ => hnext.trans hstarts⟩
    | true =>
      -- the `%` and two characters become one byte
      obtain ⟨high, low, rest', hkey, hhigh, hlow⟩ := exists_of_startsHex hstarts
      rw [hkey, length_percentDecode_hex hhigh, length_percentDecode_hex hlow] at ih
      rw [hkey, percentDecode_escape hhigh hlow, List.length_cons]
      exact ⟨by omega, fun hlength => by omega⟩
  | plain c rest hc ih =>
    have hbytes : (percentDecode (quote safe [c] ++
        overEscapes foldEscape (fun c => quote safe [c]) rest)) = String.utf8EncodeChar c ++
          percentDecode (overEscapes foldEscape (fun c => quote safe [c]) rest) := by
      rw [quote_singleton]
      split
      · exact percentDecode_plain hc _
      · exact percentDecode_percentBytes _ _
    rw [overEscapes_plain hc, hbytes, percentDecode_plain hc, List.length_append, List.length_append]
    exact ⟨by omega, fun hlength => (ih.2 (by omega)).cons_plain hc⟩

/-! ## Separators -/

theorem mem_percentByte {byte : UInt8} {c : Char} (h : c ∈ percentByte byte) :
    isUnreserved c = true ∨ c = '%' := by
  have hdigit : ∀ n < 16, isUnreserved (hexDigitUpper n) = true := by decide
  have hbyte := byte.toNat_lt
  simp only [percentByte, List.mem_cons, List.not_mem_nil, or_false] at h
  rcases h with rfl | rfl | rfl
  · exact .inr rfl
  · exact .inl (hdigit _ (by omega))
  · exact .inl (hdigit _ (by omega))

section Separators
variable {safe : Char → Bool} (hsafe : safe '%' = true)
include hsafe

theorem mem_canonicalEscapes {text : Text} {c : Char} (hc : c ∈ canonicalEscapes safe text) :
    c ∈ text ∨ isUnreserved c = true ∨ c = '%' := by
  rw [canonicalEscapes_eq hsafe] at hc
  induction text using escapeInduction with
  | nil => cases hc
  | escape high low rest hhigh hlow ih =>
    rw [overEscapes_escape hhigh hlow] at hc
    rcases List.mem_append.mp hc with hc | hc
    · right
      cases h : isUnreserved (escaped high low) with
      | true =>
        rw [foldEscape_of_unreserved h] at hc
        rw [List.mem_singleton.mp hc]
        exact .inl h
      | false =>
        rw [foldEscape_of_reserved h] at hc
        simp only [List.mem_cons, List.not_mem_nil, or_false] at hc
        rcases hc with rfl | rfl | rfl
        · exact .inr rfl
        · exact .inl (hexDigit_of_isHexDigit hhigh).upper_unreserved
        · exact .inl (hexDigit_of_isHexDigit hlow).upper_unreserved
    · exact (ih hc).imp_left fun h => List.mem_cons_of_mem _ (List.mem_cons_of_mem _ (List.mem_cons_of_mem _ h))
  | stray rest hrest ih =>
    rw [overEscapes_stray hrest, quote_singleton, if_pos (isKept_percent_of_safe hsafe)] at hc
    rcases List.mem_append.mp hc with hc | hc
    · exact .inr (.inr (List.mem_singleton.mp hc))
    · exact (ih hc).imp_left (List.mem_cons_of_mem _)
  | plain d rest hd ih =>
    rw [overEscapes_plain hd, quote_singleton] at hc
    rcases List.mem_append.mp hc with hc | hc
    · split at hc
      · rw [List.mem_singleton.mp hc]
        exact .inl (List.mem_cons_self ..)
      · obtain ⟨byte, -, hc⟩ := List.mem_flatMap.mp hc
        exact .inr (mem_percentByte hc)
    · exact (ih hc).imp_left (List.mem_cons_of_mem _)

end Separators

/-- A character that stands for itself: neither a part of an escape nor folded or quoted. -/
structure Separates (safe : Char → Bool) (sep : Char) : Prop where
  percent_safe : safe '%' = true
  hex : isHexDigit sep = false
  percent : sep ≠ '%'
  unreserved : isUnreserved sep = false
  kept : isKept safe sep = true

theorem separates_slash : Separates isPathSafe '/' := by
  constructor <;> decide

theorem separates_ampersand : Separates isQuerySafe '&' := by
  constructor <;> decide

theorem separates_equals : Separates isQuerySafe '=' := by
  constructor <;> decide

namespace Separates
variable {safe : Char → Bool} {sep : Char} (h : Separates safe sep)
include h

theorem append (a b : Text) : canonicalEscapes safe (a ++ sep :: b) =
    canonicalEscapes safe a ++ sep :: canonicalEscapes safe b := by
  rw [canonicalEscapes_eq h.percent_safe, canonicalEscapes_eq h.percent_safe,
    canonicalEscapes_eq h.percent_safe, overEscapes_append h.hex, overEscapes_plain h.percent,
    quote_singleton, if_pos h.kept]
  rfl

theorem not_mem {text : Text} (ht : sep ∉ text) : sep ∉ canonicalEscapes safe text := by
  intro hc
  rcases mem_canonicalEscapes h.percent_safe hc with hc | hc | hc
  · exact ht hc
  · rw [h.unreserved] at hc
    cases hc
  · exact h.percent hc

theorem splitOn (text : Text) :
    (canonicalEscapes safe text).splitOn sep = (text.splitOn sep).map (canonicalEscapes safe) :=
  Splitting.splitOn_of_append h.append (fun _ => h.not_mem) text

theorem before (text : Text) :
    before sep (canonicalEscapes safe text) = canonicalEscapes safe (before sep text) := by
  by_cases hmem : sep ∈ text
  · obtain ⟨a, b, rfl, ha⟩ := List.eq_append_cons_of_mem hmem
    rw [h.append, before_append _ (h.not_mem ha), before_append _ ha]
  · rw [before_of_not_mem (h.not_mem hmem), before_of_not_mem hmem]

end Separates

end UrlCrawler
