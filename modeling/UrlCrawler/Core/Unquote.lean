import UrlCrawler.Core.Urllib
import Mathlib.Data.List.SplitBy

/-! # `unquote`

`urllib.parse.unquote(text)`: the escapes of every run of ASCII text are bytes of UTF-8, decoded with
`errors="replace"`. What `quote` writes, `unquote` reads back.
-/
set_option autoImplicit false

namespace UrlCrawler

/-! ## `bytes.decode("utf-8", "replace")` -/

/-- The character at the front of a text in UTF-8. -/
def utf8Char? (bytes : List UInt8) : Option Char := bytes.toByteArray.utf8DecodeChar? 0

def isContinuation (byte : UInt8) : Bool := 0x80 ≤ byte && byte ≤ 0xBF

/-- Whether a character of three or four bytes can begin like this. -/
def beginsLong (first second : UInt8) : Bool :=
  isContinuation second && 0xE0 ≤ first && first ≤ 0xF4 &&
    if first = 0xE0 then 0xA0 ≤ second
    else if first = 0xED then second ≤ 0x9F
    else if first = 0xF0 then 0x90 ≤ second
    else if first = 0xF4 then second ≤ 0x8F
    else true

/-- How many bytes of an ill-formed text one replacement character stands for: those that could have
begun a character, and at least one. -/
def illFormedLength : List UInt8 → ℕ
  | first :: second :: rest =>
    if !beginsLong first second then 1
    else if 0xF0 ≤ first && rest.head?.any isContinuation then 3 else 2
  | _ => 1

/-- `skip` says how many bytes belong to the last character. -/
def decodeReplacing (skip : ℕ) : List UInt8 → Text
  | [] => []
  | byte :: rest =>
    match skip with
    | skip + 1 => decodeReplacing skip rest
    | 0 =>
      match utf8Char? (byte :: rest) with
      | some c => c :: decodeReplacing (c.utf8Size - 1) rest
      | none => Char.ofNat 0xFFFD :: decodeReplacing (illFormedLength (byte :: rest) - 1) rest

/-! ## `unquote` -/

/-- `unquote_to_bytes` of ASCII text. -/
def unquoteToBytes : Text → List UInt8
  | '%' :: high :: low :: rest =>
    if isHexDigit high && isHexDigit low then
      .ofNat (16 * hexValue high + hexValue low) :: unquoteToBytes rest
    else .ofNat '%'.toNat :: unquoteToBytes (high :: low :: rest)
  | c :: rest => .ofNat c.toNat :: unquoteToBytes rest
  | [] => []

def unquote (text : Text) : Text :=
  if '%' ∉ text then text
  else
    (text.splitBy fun a b => isAscii a = isAscii b).flatMap fun run =>
      if run.all isAscii then decodeReplacing 0 (unquoteToBytes run) else run

example : unquote "/a%2Fb%%41%C3%A9é%F0%9F%".toList = "/a/b%Aéé�%".toList := by decide +kernel

/-! ## Reading back what is written -/

theorem decodeReplacing_append (a b : List UInt8) :
    decodeReplacing a.length (a ++ b) = decodeReplacing 0 b := by
  induction a with
  | nil => rfl
  | cons byte rest ih => exact ih

theorem utf8Char?_append (c : Char) (bytes : List UInt8) :
    utf8Char? (String.utf8EncodeChar c ++ bytes) = some c := by
  rw [utf8Char?, List.toByteArray_append]
  exact ByteArray.utf8DecodeChar?_utf8EncodeChar_append

theorem decodeReplacing_utf8 (text : Text) :
    decodeReplacing 0 (text.flatMap String.utf8EncodeChar) = text := by
  induction text with
  | nil => rfl
  | cons c rest ih =>
    rw [List.flatMap_cons]
    have hchar := utf8Char?_append c (rest.flatMap String.utf8EncodeChar)
    have hlength := String.length_utf8EncodeChar c
    cases hbytes : String.utf8EncodeChar c with
    | nil => exact absurd hbytes String.utf8EncodeChar_ne_nil
    | cons byte bytes =>
      rw [hbytes] at hchar hlength
      rw [List.cons_append] at hchar ⊢
      rw [decodeReplacing, hchar]
      dsimp only
      rw [← hlength, List.length_cons, Nat.add_sub_cancel, decodeReplacing_append, ih]

theorem isHexDigit_hexDigitUpper : ∀ n < 16, isHexDigit (hexDigitUpper n) = true := by decide

theorem hexValue_hexDigitUpper : ∀ n < 16, hexValue (hexDigitUpper n) = n := by decide

theorem unquoteToBytes_percentByte (byte : UInt8) (rest : Text) :
    unquoteToBytes (percentByte byte ++ rest) = byte :: unquoteToBytes rest := by
  have hbyte := byte.toNat_lt
  have hhigh : byte.toNat / 16 < 16 := by omega
  have hlow : byte.toNat % 16 < 16 := by omega
  show unquoteToBytes ('%' :: _ :: _ :: rest) = _
  rw [unquoteToBytes, isHexDigit_hexDigitUpper _ hhigh, isHexDigit_hexDigitUpper _ hlow,
    hexValue_hexDigitUpper _ hhigh, hexValue_hexDigitUpper _ hlow, Nat.div_add_mod, UInt8.ofNat_toNat]
  rfl

theorem unquoteToBytes_percentBytes (bytes : List UInt8) (rest : Text) :
    unquoteToBytes (bytes.flatMap percentByte ++ rest) = bytes ++ unquoteToBytes rest := by
  induction bytes with
  | nil => rfl
  | cons byte bytes ih =>
    rw [List.flatMap_cons, List.append_assoc, unquoteToBytes_percentByte, ih, List.cons_append]

theorem unquoteToBytes_cons {c : Char} (h : c ≠ '%') (rest : Text) :
    unquoteToBytes (c :: rest) = .ofNat c.toNat :: unquoteToBytes rest := by
  rw [unquoteToBytes]
  intro _ _ _ he
  exact absurd he h

theorem utf8EncodeChar_ascii {c : Char} (h : isAscii c = true) :
    String.utf8EncodeChar c = [.ofNat c.toNat] := by
  have hlt : c.toNat < 128 := of_decide_eq_true h
  have hsize : c.utf8Size = 1 := by
    rw [Char.utf8Size_eq_one_iff, UInt32.le_iff_toNat_le]
    exact Nat.le_of_lt_succ hlt
  exact String.utf8EncodeChar_eq_singleton hsize

/-- What `quote` leaves alone. -/
def isKept (safe : Char → Bool) (c : Char) : Bool :=
  c.isAlphanum || c ∈ ['_', '.', '-', '~'] || (isAscii c && safe c)

theorem quote_cons (safe : Char → Bool) (c : Char) (rest : Text) :
    quote safe (c :: rest) = (if isKept safe c then [c] else
      (String.utf8EncodeChar c).flatMap percentByte) ++ quote safe rest := rfl

theorem isAscii_of_isAlphanum {c : Char} (h : c.isAlphanum = true) : isAscii c = true := by
  have hle : c.toNat ≤ 122 := by
    delta Char.isAlphanum Char.isAlpha Char.isUpper Char.isLower Char.isDigit at h
    simp only [Bool.or_eq_true, Bool.and_eq_true, decide_eq_true_eq, ge_iff_le, UInt32.le_iff_toNat_le] at h
    rcases h with (⟨-, h⟩ | ⟨-, h⟩) | ⟨-, h⟩
    · exact h.trans (by decide)
    · exact h
    · exact h.trans (by decide)
  exact decide_eq_true (by omega)

theorem isAscii_of_isKept {safe : Char → Bool} {c : Char} (h : isKept safe c = true) :
    isAscii c = true := by
  simp only [isKept, Bool.or_eq_true, Bool.and_eq_true, decide_eq_true_eq] at h
  rcases h with (h | h) | ⟨h, -⟩
  · exact isAscii_of_isAlphanum h
  · simp only [List.mem_cons, List.not_mem_nil, or_false] at h
    rcases h with rfl | rfl | rfl | rfl <;> rfl
  · exact h

theorem isKept_percent {safe : Char → Bool} (h : safe '%' = false) : isKept safe '%' = false := by
  rw [isKept, h]
  rfl

theorem isAscii_hexDigitUpper : ∀ n < 16, isAscii (hexDigitUpper n) = true := by decide

theorem isAscii_of_mem_percentByte {byte : UInt8} {c : Char} (h : c ∈ percentByte byte) :
    isAscii c = true := by
  have hbyte := byte.toNat_lt
  simp only [percentByte, List.mem_cons, List.not_mem_nil, or_false] at h
  rcases h with rfl | rfl | rfl
  · rfl
  · exact isAscii_hexDigitUpper _ (by omega)
  · exact isAscii_hexDigitUpper _ (by omega)

theorem isAscii_of_mem_quote {safe : Char → Bool} {text : Text} {c : Char} (h : c ∈ quote safe text) :
    isAscii c = true := by
  obtain ⟨d, -, hc⟩ := List.mem_flatMap.mp h
  split at hc
  · rename_i hd
    rw [List.mem_singleton.mp hc]
    exact isAscii_of_isKept hd
  · obtain ⟨byte, -, hc⟩ := List.mem_flatMap.mp hc
    exact isAscii_of_mem_percentByte hc

theorem unquoteToBytes_quote {safe : Char → Bool} (hsafe : safe '%' = false) (text : Text) :
    unquoteToBytes (quote safe text) = text.flatMap String.utf8EncodeChar := by
  induction text with
  | nil => rfl
  | cons c rest ih =>
    rw [quote_cons, List.flatMap_cons]
    split
    · rename_i hc
      have hne : c ≠ '%' := by
        rintro rfl
        rw [isKept_percent hsafe] at hc
        cases hc
      rw [List.singleton_append, unquoteToBytes_cons hne, ih, utf8EncodeChar_ascii (isAscii_of_isKept hc),
        List.singleton_append]
    · rw [unquoteToBytes_percentBytes, ih]

theorem quote_eq_self {safe : Char → Bool} {text : Text} (h : '%' ∉ quote safe text) :
    quote safe text = text := by
  induction text with
  | nil => rfl
  | cons c rest ih =>
    rw [quote_cons] at h ⊢
    rw [List.mem_append, not_or] at h
    rw [ih h.2]
    split
    · rfl
    · rename_i hc
      rw [if_neg hc] at h
      refine absurd (List.mem_flatMap.mpr ?_) h.1
      obtain ⟨byte, hbyte⟩ := List.exists_mem_of_ne_nil _ (String.utf8EncodeChar_ne_nil (c := c))
      exact ⟨byte, hbyte, List.mem_cons_self ..⟩

theorem unquote_ascii {text : Text} (h : ∀ c ∈ text, isAscii c = true) (hpercent : '%' ∈ text) :
    unquote text = decodeReplacing 0 (unquoteToBytes text) := by
  have hrun : text.splitBy (fun a b => isAscii a = isAscii b) = [text] := by
    refine List.splitBy_of_isChain (List.ne_nil_of_mem hpercent) (List.Pairwise.isChain ?_)
    refine List.pairwise_of_forall_mem_list fun a ha b hb => ?_
    rw [h a ha, h b hb, decide_eq_true rfl]
  rw [unquote, if_neg (not_not.mpr hpercent), hrun, List.flatMap_singleton, if_pos]
  exact List.all_eq_true.mpr h

/-- `unquote(quote(text)) == text`. -/
theorem unquote_quote {safe : Char → Bool} (hsafe : safe '%' = false) (text : Text) :
    unquote (quote safe text) = text := by
  by_cases hpercent : '%' ∈ quote safe text
  · rw [unquote_ascii (fun c => isAscii_of_mem_quote) hpercent, unquoteToBytes_quote hsafe,
      decodeReplacing_utf8]
  · rw [unquote, if_pos hpercent, quote_eq_self hpercent]

end UrlCrawler
