import UrlCrawler.Core.Refolding
import Mathlib.Logic.Relation

/-! # Respellings

One page has many spellings: an unreserved character may be escaped, hexadecimal digits have two cases, other
characters are the escapes of their bytes, and parameters of different names may change places. The escapes
are folded only after the parameters are sorted by their names as they are spelled, so that the key of a page
depends on the spelling, unless the names of its parameters compare alike however they are spelled.
-/
set_option autoImplicit false

namespace UrlCrawler
variable {u : Unicode}

/-! ## A character spelled in another way -/

/-- Two spellings of one character. -/
inductive Spells : Text → Text → Prop
  | unreserved {high low : Char} (hhigh : isHexDigit high = true) (hlow : isHexDigit low = true)
      (h : isUnreserved (escaped high low) = true) : Spells [escaped high low] ['%', high, low]
  | hexCase {high low high' low' : Char} (hhigh : isHexDigit high = true) (hlow : isHexDigit low = true)
      (hhigh' : isHexDigit high' = true) (hlow' : isHexDigit low' = true)
      (hvalue : hexValue high = hexValue high') (hvalue' : hexValue low = hexValue low') :
      Spells ['%', high, low] ['%', high', low']
  | bytes {c : Char} (hc : isAscii c = false) : Spells [c] ((String.utf8EncodeChar c).flatMap percentByte)

/-- One character of a text, or one escape, is spelled in another way. -/
inductive Respells : Text → Text → Prop
  | forth {before x y after : Text} (hbefore : WellEscaped before) (hafter : WellEscaped after)
      (h : Spells x y) : Respells (before ++ (x ++ after)) (before ++ (y ++ after))
  | back {before x y after : Text} (hbefore : WellEscaped before) (hafter : WellEscaped after)
      (h : Spells x y) : Respells (before ++ (y ++ after)) (before ++ (x ++ after))

theorem WellEscaped.tail {c : Char} {rest : Text} (h : WellEscaped (c :: rest)) : WellEscaped rest := by
  intro before rest' heq
  exact h (c :: before) rest' (by rw [heq]; rfl)

theorem WellEscaped.apart {text : Text} (h : WellEscaped text) : Apart text := by
  intro before rest heq hstarts
  rw [h before rest heq] at hstarts
  cases hstarts

/-- A text is read from its beginning up to where a text that is well escaped ends. -/
theorem WellEscaped.overEscapes_append {β : Type} {onEscape : Char → Char → List β}
    {onChar : Char → List β} {a : Text} (ha : WellEscaped a) (b : Text) :
    overEscapes onEscape onChar (a ++ b) =
      overEscapes onEscape onChar a ++ overEscapes onEscape onChar b := by
  induction a using escapeInduction with
  | nil => rfl
  | escape high low rest hhigh hlow ih =>
    rw [overEscapes_escape hhigh hlow, List.append_assoc, ← ih ha.tail.tail.tail]
    exact overEscapes_escape hhigh hlow _
  | stray rest hrest ih =>
    rw [ha [] rest rfl] at hrest
    cases hrest
  | plain c rest hc ih =>
    rw [overEscapes_plain hc, List.append_assoc, ← ih ha.tail]
    exact overEscapes_plain hc _

theorem wellEscaped_nil : WellEscaped [] := by
  intro before rest heq
  exact absurd heq (by simp)

theorem WellEscaped.plain {c : Char} {rest : Text} (h : WellEscaped rest) (hc : c ≠ '%') :
    WellEscaped (c :: rest) := by
  intro before rest' heq
  cases before with
  | nil => exact absurd (List.cons.inj heq).1 hc
  | cons d before => exact h before rest' (List.cons.inj heq).2

theorem WellEscaped.escape {high low : Char} {rest : Text} (h : WellEscaped rest)
    (hhigh : isHexDigit high = true) (hlow : isHexDigit low = true) :
    WellEscaped ('%' :: high :: low :: rest) := by
  intro before rest' heq
  cases before with
  | nil =>
    rw [← (List.cons.inj heq).2, startsHex, hhigh, hlow]
    rfl
  | cons d before =>
    exact (h.plain (ne_percent_of_isHexDigit hlow)).plain (ne_percent_of_isHexDigit hhigh) before rest'
      (List.cons.inj heq).2

theorem WellEscaped.append {a b : Text} (ha : WellEscaped a) (hb : WellEscaped b) : WellEscaped (a ++ b) := by
  induction a using escapeInduction with
  | nil => exact hb
  | escape high low rest hhigh hlow ih => exact (ih ha.tail.tail.tail).escape hhigh hlow
  | stray rest hrest ih =>
    rw [ha [] rest rfl] at hrest
    cases hrest
  | plain c rest hc ih => exact (ih ha.tail).plain hc

theorem wellEscaped_percentBytes (bytes : List UInt8) : WellEscaped (bytes.flatMap percentByte) := by
  induction bytes with
  | nil => exact wellEscaped_nil
  | cons byte bytes ih => exact ih.escape isHexDigit_byte.1 isHexDigit_byte.2

theorem ne_percent_of_not_ascii {c : Char} (h : isAscii c = false) : c ≠ '%' := by
  rintro rfl
  cases h

theorem toUpper_eq_of_hexValue {c d : Char} (hc : isHexDigit c = true) (hd : isHexDigit d = true)
    (h : hexValue c = hexValue d) : c.toUpper = d.toUpper := by
  have hupper {c : Char} (hc : isHexDigit c = true) : c.toUpper = hexDigitUpper (hexValue c) := by
    have hall : ∀ n < 128, isHexDigit (Char.ofNat n) = true →
        (Char.ofNat n).toUpper = hexDigitUpper (hexValue (Char.ofNat n)) := by decide
    exact ascii_forall (P := fun c => isHexDigit c = true → c.toUpper = hexDigitUpper (hexValue c)) hall
      (isAscii_of_isHexDigit hc) hc
  rw [hupper hc, hupper hd, h]

theorem Spells.wellEscaped {x y : Text} (h : Spells x y) : WellEscaped x ∧ WellEscaped y := by
  cases h with
  | unreserved hhigh hlow h =>
    exact ⟨wellEscaped_nil.plain (ne_percent_of_isUnreserved h), wellEscaped_nil.escape hhigh hlow⟩
  | hexCase hhigh hlow hhigh' hlow' =>
    exact ⟨wellEscaped_nil.escape hhigh hlow, wellEscaped_nil.escape hhigh' hlow'⟩
  | bytes hc => exact ⟨wellEscaped_nil.plain (ne_percent_of_not_ascii hc), wellEscaped_percentBytes _⟩

theorem Spells.canonicalEscapes_eq {safe : Char → Bool} (hsafe : safe '%' = true) {x y : Text}
    (h : Spells x y) : canonicalEscapes safe x = canonicalEscapes safe y := by
  cases h with
  | unreserved hhigh hlow h =>
    rw [canonicalEscapes_plain hsafe (ne_percent_of_isUnreserved h), canonicalEscapes_escape hsafe hhigh hlow,
      quote_singleton, if_pos (isKept_of_isUnreserved h safe), foldEscape_of_unreserved h]
  | @hexCase high low high' low' hhigh hlow hhigh' hlow' hvalue hvalue' =>
    have hfold : foldEscape high low = foldEscape high' low' := by
      rw [foldEscape, foldEscape, hvalue, hvalue', toUpper_eq_of_hexValue hhigh hhigh' hvalue,
        toUpper_eq_of_hexValue hlow hlow' hvalue']
    rw [canonicalEscapes_escape hsafe hhigh hlow, canonicalEscapes_escape hsafe hhigh' hlow', hfold]
  | @bytes c hc =>
    have hkept : isKept safe c = false := by
      rw [← Bool.not_eq_true]
      intro hkept
      rw [isAscii_of_isKept hkept] at hc
      cases hc
    have hquote : quote safe [c] = (String.utf8EncodeChar c).flatMap percentByte := by
      rw [quote_singleton, hkept]
      rfl
    rw [← hquote]
    have htwice := canonicalEscapes_quote hsafe (ne_percent_of_not_ascii hc) []
    rw [List.append_nil] at htwice
    rw [htwice]
    exact canonicalEscapes_plain hsafe (ne_percent_of_not_ascii hc) []

theorem Spells.mem {x y : Text} (h : Spells x y) {c : Char} (hc : c ∈ x ∨ c ∈ y) :
    isUnreserved c = true ∨ c = '%' ∨ isAscii c = false := by
  have hhex {c : Char} (hc : isHexDigit c = true) : isUnreserved c = true :=
    (hexDigit_of_isHexDigit hc).unreserved
  cases h with
  | unreserved hhigh hlow h =>
    simp only [List.mem_cons, List.not_mem_nil, or_false] at hc
    rcases hc with rfl | rfl | rfl | rfl
    · exact .inl h
    · exact .inr (.inl rfl)
    · exact .inl (hhex hhigh)
    · exact .inl (hhex hlow)
  | hexCase hhigh hlow hhigh' hlow' =>
    simp only [List.mem_cons, List.not_mem_nil, or_false] at hc
    rcases hc with (rfl | rfl | rfl) | rfl | rfl | rfl
    · exact .inr (.inl rfl)
    · exact .inl (hhex hhigh)
    · exact .inl (hhex hlow)
    · exact .inr (.inl rfl)
    · exact .inl (hhex hhigh')
    · exact .inl (hhex hlow')
  | bytes hascii =>
    rcases hc with hc | hc
    · rw [List.mem_singleton.mp hc]
      exact .inr (.inr hascii)
    · obtain ⟨byte, -, hc⟩ := List.mem_flatMap.mp hc
      exact (mem_percentByte hc).imp_right .inl

/-! ## A text spelled in another way -/

/-- A text is spelled in another way, one character at a time. -/
def Respelled : Text → Text → Prop := Relation.ReflTransGen Respells

section Respells
variable {text text' : Text}

theorem Respells.wellEscaped (h : Respells text text') : WellEscaped text' := by
  cases h with
  | forth hbefore hafter h => exact hbefore.append (h.wellEscaped.2.append hafter)
  | back hbefore hafter h => exact hbefore.append (h.wellEscaped.1.append hafter)

theorem WellEscaped.canonicalEscapes_append {safe : Char → Bool} (hsafe : safe '%' = true) {a : Text}
    (ha : WellEscaped a) (b : Text) :
    canonicalEscapes safe (a ++ b) = canonicalEscapes safe a ++ canonicalEscapes safe b := by
  rw [canonicalEscapes_eq hsafe, ha.overEscapes_append, ← canonicalEscapes_eq hsafe,
    ← canonicalEscapes_eq hsafe]

theorem Respells.canonicalEscapes_eq {safe : Char → Bool} (hsafe : safe '%' = true)
    (h : Respells text text') : canonicalEscapes safe text' = canonicalEscapes safe text := by
  have hmiddle {before x y after : Text} (hbefore : WellEscaped before) (h : Spells x y) :
      canonicalEscapes safe (before ++ (x ++ after)) = canonicalEscapes safe (before ++ (y ++ after)) := by
    rw [hbefore.canonicalEscapes_append hsafe, hbefore.canonicalEscapes_append hsafe,
      h.wellEscaped.1.canonicalEscapes_append hsafe, h.wellEscaped.2.canonicalEscapes_append hsafe,
      h.canonicalEscapes_eq hsafe]
  cases h with
  | forth hbefore _ h => exact (hmiddle hbefore h).symm
  | back hbefore _ h => exact hmiddle hbefore h

theorem Respells.mem (h : Respells text text') {c : Char} (hc : c ∈ text') :
    c ∈ text ∨ isUnreserved c = true ∨ c = '%' ∨ isAscii c = false := by
  cases h with
  | forth _ _ h =>
    simp only [List.mem_append] at hc ⊢
    rcases hc with hc | hc | hc
    · exact .inl (.inl hc)
    · exact .inr (h.mem (.inr hc))
    · exact .inl (.inr (.inr hc))
  | back _ _ h =>
    simp only [List.mem_append] at hc ⊢
    rcases hc with hc | hc | hc
    · exact .inl (.inl hc)
    · exact .inr (h.mem (.inl hc))
    · exact .inl (.inr (.inr hc))

end Respells

namespace Respelled
variable {text text' : Text}

theorem wellEscaped (h : Respelled text text') (htext : WellEscaped text) : WellEscaped text' := by
  induction h with
  | refl => exact htext
  | tail _ hstep _ => exact hstep.wellEscaped

theorem canonicalEscapes_eq {safe : Char → Bool} (hsafe : safe '%' = true) (h : Respelled text text') :
    canonicalEscapes safe text' = canonicalEscapes safe text := by
  induction h with
  | refl => rfl
  | tail _ hstep ih => rw [hstep.canonicalEscapes_eq hsafe, ih]

/-- The name of a parameter that is spelled in another way is decoded to what it was. -/
theorem decodedName_eq (h : Respelled text text') (htext : WellEscaped text) :
    percentDecode (parameterName text') = percentDecode (parameterName text) := by
  have hdecode {pair : Text} (hpair : WellEscaped pair) :
      percentDecode (parameterName (canonicalEscapes isQuerySafe pair)) =
        percentDecode (parameterName pair) := by
    rw [parameterName_key]
    exact percentDecode_canonicalEscapes (by decide) (hpair.apart.before separates_equals.hex)
  rw [← hdecode htext, ← hdecode (h.wellEscaped htext), h.canonicalEscapes_eq (by decide)]

end Respelled

/-! ## A URL spelled in another way -/

namespace Spelling

/-- A character of the path or of a parameter is spelled in another way, or two parameters of different names
change places. The characters that separate parameters and their names are never spelled in another way. -/
inductive Step : Spelling → Spelling → Prop
  | path {path path' : Text} {parameters : List Text} (h : Respells path path') :
      Step ⟨path, parameters⟩ ⟨path', parameters⟩
  | parameter {path pair pair' : Text} {before after : List Text} (h : Respells pair pair') :
      Step ⟨path, before ++ pair :: after⟩ ⟨path, before ++ pair' :: after⟩
  | swap {path a b : Text} {before after : List Text}
      (h : percentDecode (parameterName a) ≠ percentDecode (parameterName b)) :
      Step ⟨path, before ++ a :: b :: after⟩ ⟨path, before ++ b :: a :: after⟩

/-- A spelling and another of the same URL. -/
def Steps : Spelling → Spelling → Prop := Relation.ReflTransGen Step

end Spelling

/-- Parameters of different keys compare by their names as they are spelled in the same way, however the two
are spelled. -/
def Rigid (parameters : List Text) : Prop :=
  parameters.Pairwise fun a b => canonicalEscapes isQuerySafe a ≠ canonicalEscapes isQuerySafe b →
    ∀ a' b', Respelled a a' → Respelled b b' →
      (parameterName a' ≤ parameterName b' ↔ parameterName a ≤ parameterName b)

section Parameters
variable {before after : List Text} {a a' b : Text}

theorem keyParameters_respelled (hrigid : Rigid (before ++ a :: after)) (h : Respelled a a') :
    keyParameters (before ++ a' :: after) = keyParameters (before ++ a :: after) := by
  obtain ⟨-, hafter, hbefore⟩ := List.pairwise_append.mp hrigid
  have hafter := (List.pairwise_cons.mp hafter).1
  refine (StableSort.map_eq_of_rel_iff (canonicalEscapes isQuerySafe) ?_ (fun b hb hne => ?_)
    fun b hb hne => ?_).symm
  · exact (h.canonicalEscapes_eq (by decide)).symm
  · exact (hbefore b hb a (List.mem_cons_self ..) hne b a' .refl h).symm
  · exact (hafter b hb hne.symm a' b h .refl).symm

theorem Rigid.respelled (hrigid : Rigid (before ++ a :: after)) (h : Respelled a a') :
    Rigid (before ++ a' :: after) := by
  have hkey : canonicalEscapes isQuerySafe a' = canonicalEscapes isQuerySafe a :=
    h.canonicalEscapes_eq (by decide)
  obtain ⟨hfirst, hrest, hbefore⟩ := List.pairwise_append.mp hrigid
  obtain ⟨hafter, hlast⟩ := List.pairwise_cons.mp hrest
  refine List.pairwise_append.mpr ⟨hfirst, List.pairwise_cons.mpr ⟨fun b hb hne c d hc hd => ?_, hlast⟩,
    fun b hb c hc => ?_⟩
  · rw [hkey] at hne
    have hrel := hafter b hb hne
    exact (hrel c d (h.trans hc) hd).trans (hrel a' b h .refl).symm
  · rcases List.mem_cons.mp hc with rfl | hc
    · intro hne d e hd he
      rw [hkey] at hne
      have hrel := hbefore b hb a (List.mem_cons_self ..) hne
      exact (hrel d e hd (h.trans he)).trans (hrel b _ .refl h).symm
    · exact hbefore b hb c (List.mem_cons_of_mem _ hc)

theorem keyParameters_swap (hne : percentDecode (parameterName a) ≠ percentDecode (parameterName b)) :
    keyParameters (before ++ b :: a :: after) = keyParameters (before ++ a :: b :: after) := by
  have hsort := StableSort.insertionSort_swap
    (r := fun a b : Text => parameterName a ≤ parameterName b)
    (fun h => hne (by rw [le_antisymm h.1 h.2])) before after
  exact congrArg (List.map (canonicalEscapes isQuerySafe)) hsort.symm

theorem Rigid.swap (hrigid : Rigid (before ++ a :: b :: after)) (ha : WellEscaped a) (hb : WellEscaped b)
    (hne : percentDecode (parameterName a) ≠ percentDecode (parameterName b)) :
    Rigid (before ++ b :: a :: after) := by
  obtain ⟨hfirst, hrest, hbefore⟩ := List.pairwise_append.mp hrigid
  obtain ⟨hafter, hlast⟩ := List.pairwise_cons.mp hrest
  obtain ⟨hafter', hlast⟩ := List.pairwise_cons.mp hlast
  refine List.pairwise_append.mpr ⟨hfirst, List.pairwise_cons.mpr ⟨fun c hc => ?_,
    List.pairwise_cons.mpr ⟨fun c hc => hafter c (List.mem_cons_of_mem _ hc), hlast⟩⟩, fun c hc d hd => ?_⟩
  · rcases List.mem_cons.mp hc with rfl | hc
    · -- names that are decoded to different ones are never the same
      intro hkey b' a' hb' ha'
      have hrel := hafter b (List.mem_cons_self ..) hkey.symm a' b' ha' hb'
      have hdiffer : parameterName a' ≠ parameterName b' := by
        intro heq
        rw [← ha'.decodedName_eq ha, ← hb'.decodedName_eq hb, heq] at hne
        exact hne rfl
      have hdiffer' : parameterName c ≠ parameterName b := fun heq => hne (by rw [heq])
      rw [← not_lt, ← not_lt, hdiffer.le_iff_lt.symm, hdiffer'.le_iff_lt.symm, hrel]
    · exact hafter' c hc
  · refine hbefore c hc d ?_
    simp only [List.mem_cons] at hd ⊢
    tauto

end Parameters

/-! ### What a respelling keeps -/

theorem plain_of_spelled {c : Char} (h : isUnreserved c = true ∨ c = '%' ∨ isAscii c = false) :
    c ≠ '/' ∧ c ≠ '?' ∧ c ≠ '&' ∧ c ≠ '#' ∧ isUnsafeByte c = false := by
  rcases h with h | rfl | h
  · have hall : ∀ n < 128, isUnreserved (Char.ofNat n) = true → Char.ofNat n ≠ '/' ∧ Char.ofNat n ≠ '?' ∧
        Char.ofNat n ≠ '&' ∧ Char.ofNat n ≠ '#' ∧ isUnsafeByte (Char.ofNat n) = false := by decide
    exact ascii_forall (P := fun c => isUnreserved c = true → c ≠ '/' ∧ c ≠ '?' ∧ c ≠ '&' ∧ c ≠ '#' ∧
      isUnsafeByte c = false) hall (isAscii_of_isUnreserved h) h
  · decide
  · have hne {d : Char} (hd : isAscii d = true) : c ≠ d := by
      rintro rfl
      rw [hd] at h
      cases h
    refine ⟨hne rfl, hne rfl, hne rfl, hne rfl, ?_⟩
    simp only [isUnsafeByte, Bool.or_eq_false_iff, decide_eq_false_iff_not]
    exact ⟨⟨hne rfl, hne rfl⟩, hne rfl⟩

theorem Spells.ne_nil {x y : Text} (h : Spells x y) : x ≠ [] ∧ y ≠ [] := by
  cases h with
  | unreserved => exact ⟨List.cons_ne_nil _ _, List.cons_ne_nil _ _⟩
  | hexCase => exact ⟨List.cons_ne_nil _ _, List.cons_ne_nil _ _⟩
  | bytes =>
    refine ⟨List.cons_ne_nil _ _, ?_⟩
    obtain ⟨byte, bytes, hbytes⟩ := List.exists_cons_of_ne_nil String.utf8EncodeChar_ne_nil
    rw [hbytes]
    exact List.cons_ne_nil _ _

theorem Respells.head {path path' : Text} (h : Respells path path') (hslash : path.head? = some '/') :
    path'.head? = some '/' := by
  have hmiddle {before x y after : Text} (hx : x ≠ [])
      (hplain : ∀ c ∈ x, isUnreserved c = true ∨ c = '%' ∨ isAscii c = false)
      (hslash : (before ++ (x ++ after)).head? = some '/') : (before ++ (y ++ after)).head? = some '/' := by
    cases before with
    | nil =>
      obtain ⟨c, rest, rfl⟩ := List.exists_cons_of_ne_nil hx
      have hc : c = '/' := Option.some.inj hslash
      exact absurd hc (plain_of_spelled (hplain c (List.mem_cons_self ..))).1
    | cons c before => exact hslash
  cases h with
  | forth _ _ h => exact hmiddle h.ne_nil.1 (fun c hc => h.mem (.inl hc)) hslash
  | back _ _ h => exact hmiddle h.ne_nil.2 (fun c hc => h.mem (.inr hc)) hslash

namespace Spelling

/-- Every `%` of a spelling begins an escape. -/
structure WellEscaped (s : Spelling) : Prop where
  path : UrlCrawler.WellEscaped s.path
  parameters : ∀ pair ∈ s.parameters, UrlCrawler.WellEscaped pair

theorem forall_mem_respelled {P : Text → Prop} {before after : List Text} {a a' : Text}
    (h : ∀ pair ∈ before ++ a :: after, P pair) (ha : P a → P a') :
    ∀ pair ∈ before ++ a' :: after, P pair := by
  intro pair hpair
  rcases List.mem_append.mp hpair with hmem | hmem
  · exact h pair (List.mem_append_left _ hmem)
  · rcases List.mem_cons.mp hmem with rfl | hmem
    · exact ha (h a (by simp))
    · exact h pair (by simp [hmem])

theorem mem_swap {before after : List Text} {a b pair : Text} (h : pair ∈ before ++ b :: a :: after) :
    pair ∈ before ++ a :: b :: after := by
  simp only [List.mem_append, List.mem_cons] at h ⊢
  tauto

section Step
variable {s s' : Spelling}

theorem Step.sound (h : Step s s') (hsound : s.Sound) : s'.Sound := by
  cases h with
  | path h =>
    refine ⟨h.head hsound.slash, fun c hc => ?_, hsound.nonempty, hsound.parameters⟩
    rcases h.mem hc with hc | hc
    · exact hsound.path c hc
    · exact ⟨(plain_of_spelled hc).2.1, (plain_of_spelled hc).2.2.2⟩
  | parameter h =>
    refine ⟨hsound.slash, hsound.path, by simp, forall_mem_respelled hsound.parameters ?_⟩
    intro hpair c hc
    rcases h.mem hc with hc | hc
    · exact hpair c hc
    · exact (plain_of_spelled hc).2.2
  | swap =>
    exact ⟨hsound.slash, hsound.path, by simp, fun pair hpair => hsound.parameters pair (mem_swap hpair)⟩

theorem Step.wellEscaped (h : Step s s') (hs : s.WellEscaped) : s'.WellEscaped := by
  cases h with
  | path h => exact ⟨h.wellEscaped, hs.parameters⟩
  | parameter h => exact ⟨hs.path, forall_mem_respelled hs.parameters fun _ => h.wellEscaped⟩
  | swap => exact ⟨hs.path, fun pair hpair => hs.parameters pair (mem_swap hpair)⟩

theorem Step.rigid (h : Step s s') (hs : s.WellEscaped) (hrigid : Rigid s.parameters) :
    Rigid s'.parameters := by
  cases h with
  | path => exact hrigid
  | parameter h => exact hrigid.respelled (.single h)
  | swap h => exact hrigid.swap (hs.parameters _ (by simp)) (hs.parameters _ (by simp)) h

theorem Step.key_eq (h : Step s s') (hrigid : Rigid s.parameters) : s'.key = s.key := by
  cases h with
  | path h => exact congrArg (Spelling.mk · _) (h.canonicalEscapes_eq (by decide))
  | parameter h => exact congrArg (Spelling.mk _) (keyParameters_respelled hrigid (.single h))
  | swap h => exact congrArg (Spelling.mk _) (keyParameters_swap h)

theorem Steps.sound (h : Steps s s') (hsound : s.Sound) : s'.Sound := by
  induction h with
  | refl => exact hsound
  | tail _ hstep ih => exact hstep.sound ih

/-- Rigid parameters keep their key, however a URL is spelled. -/
theorem Steps.key_eq (h : Steps s s') (hs : s.WellEscaped) (hrigid : Rigid s.parameters) :
    s'.key = s.key := by
  have hkept : s'.WellEscaped ∧ Rigid s'.parameters ∧ s'.key = s.key := by
    induction h with
    | refl => exact ⟨hs, hrigid, rfl⟩
    | tail _ hstep ih =>
      obtain ⟨hescaped, hrigid, hkey⟩ := ih
      exact ⟨hstep.wellEscaped hescaped, hstep.rigid hescaped hrigid, (hstep.key_eq hrigid).trans hkey⟩
  exact hkept.2.2

theorem steps_parameter {path pair pair' : Text} {before after : List Text} (h : Respelled pair pair') :
    Steps ⟨path, before ++ pair :: after⟩ ⟨path, before ++ pair' :: after⟩ := by
  induction h with
  | refl => exact .refl
  | tail _ hstep ih => exact ih.tail (.parameter hstep)

end Step

/-- A URL that has one key, however it is spelled, has rigid parameters. -/
theorem rigid_of_steps {s : Spelling} (h : ∀ s', Steps s s' → s'.key = s.key) : Rigid s.parameters := by
  rw [Rigid, List.pairwise_iff_forall_sublist]
  intro a b hsub hne a' b' ha hb
  obtain ⟨front, back, hsplit, hfront, hback⟩ := List.cons_sublist_iff.mp hsub
  obtain ⟨before, between, rfl⟩ := List.append_of_mem hfront
  obtain ⟨between', after, rfl⟩ := List.append_of_mem (List.singleton_sublist.mp hback)
  -- first one of the two is spelled in another way, then the other
  have hfirst : s = ⟨s.path, before ++ a :: (between ++ between' ++ b :: after)⟩ :=
    congrArg (Spelling.mk s.path) (by simpa using hsplit)
  have hsecond : before ++ a' :: (between ++ between' ++ b :: after) =
      (before ++ a' :: (between ++ between')) ++ b :: after := by simp
  have hstep : Steps s ⟨s.path, before ++ a' :: (between ++ between' ++ b :: after)⟩ := by
    have hsteps : Steps ⟨s.path, before ++ a :: (between ++ between' ++ b :: after)⟩
        ⟨s.path, before ++ a' :: (between ++ between' ++ b :: after)⟩ := steps_parameter ha
    rwa [← hfirst] at hsteps
  have hstep' : Steps s ⟨s.path, (before ++ a' :: (between ++ between')) ++ b' :: after⟩ := by
    refine hstep.trans ?_
    rw [hsecond]
    exact steps_parameter hb
  have hkey := congrArg Spelling.parameters (h _ hstep)
  have hkey' := congrArg Spelling.parameters (h _ hstep')
  have hfold : canonicalEscapes isQuerySafe a' = canonicalEscapes isQuerySafe a :=
    ha.canonicalEscapes_eq (by decide)
  have hfold' : canonicalEscapes isQuerySafe b' = canonicalEscapes isQuerySafe b :=
    hb.canonicalEscapes_eq (by decide)
  rw [hfirst] at hkey hkey'
  have hrel := (StableSort.rel_iff_of_map_eq (canonicalEscapes isQuerySafe) hfold.symm hkey.symm hne.symm).2
    (by simp)
  have hchange := hkey.trans hkey'.symm
  rw [hsecond] at hchange
  have hrel' := (StableSort.rel_iff_of_map_eq (canonicalEscapes isQuerySafe) hfold'.symm hchange
    (hfold ▸ hne)).1 (by simp)
  exact (hrel.trans hrel').symm

end Spelling

/-! ## The key of a page -/

theorem WellEscaped.right {a b : Text} (h : WellEscaped (a ++ b)) : WellEscaped b := by
  intro before rest heq
  exact h (a ++ before) rest (by rw [heq, List.append_assoc])

theorem WellEscaped.left {sep : Char} (hsep : isHexDigit sep = false) {a b : Text}
    (h : WellEscaped (a ++ sep :: b)) : WellEscaped a := by
  intro before rest heq
  have hstarts := h before (rest ++ sep :: b) (by rw [heq, List.append_assoc]; rfl)
  by_contra hnot
  rw [startsHex_append hsep (by simpa using hnot)] at hstarts
  cases hstarts

theorem WellEscaped.of_mem_intercalate {sep : Char} (hsep : isHexDigit sep = false) {pieces : List Text}
    (h : WellEscaped ([sep].intercalate pieces)) : ∀ piece ∈ pieces, WellEscaped piece := by
  induction pieces with
  | nil => nofun
  | cons first rest ih =>
    cases rest with
    | nil =>
      intro piece hpiece
      rw [List.mem_singleton.mp hpiece]
      simpa using h
    | cons next rest =>
      rw [List.intercalate_cons_cons, List.append_assoc] at h
      intro piece hpiece
      rcases List.mem_cons.mp hpiece with rfl | hpiece
      · exact h.left hsep
      · exact ih (h.right.right) piece hpiece

/-- What makes the key of a URL a canonical form: nothing is left to fold in it, sorting by folded names is
sorting by names, and names compare however they are spelled as they do. -/
structure Canonical (url : Text) (s : Spelling) : Prop where
  path : Stays s.path
  parameters : ∀ pair ∈ s.parameters, Stays pair
  order : FoldsInOrder s.parameters
  rigid : WellEscaped url → Rigid s.parameters

section Url
variable {text url : Text} {site : SplitResult} (h : normalize u text = some url)
  (hs : urlsplit u url = .ok site)
include h hs

theorem wellEscaped_spelling (hurl : WellEscaped url) : site.spelling.WellEscaped := by
  obtain ⟨tail, hpath, -, -, heq⟩ := exists_tail h hs
  have hlocation : WellEscaped (site.path ++ queryPart site.query) := by
    rw [heq, httpUrl] at hurl
    rw [hpath]
    exact hurl.right.tail.tail.tail.right
  have hquery : WellEscaped site.path ∧ WellEscaped site.query := by
    unfold queryPart at hlocation
    split at hlocation
    · rename_i hnil
      rw [hnil]
      exact ⟨by simpa using hlocation, wellEscaped_nil⟩
    · exact ⟨hlocation.left (by decide), hlocation.right.tail⟩
  have hampersand : isHexDigit '&' = false := by decide
  refine ⟨hquery.1, WellEscaped.of_mem_intercalate hampersand ?_⟩
  rw [SplitResult.spelling, List.intercalate_splitOn]
  exact hquery.2

/-- The key of a URL is a canonical form exactly where the URL is canonical. -/
theorem canonicalKey_canonical :
    ((canonicalKey u url).bind (canonicalKey u) = canonicalKey u url ∧
      (WellEscaped url → ∀ s, site.spelling.Steps s →
        canonicalKey u (urlunsplit (s.parts site)) = canonicalKey u url)) ↔
      Canonical url site.spelling := by
  have hsound := Spelling.sound_of_normalize h hs
  have hurl : canonicalKey u url = .ok (urlunsplit (site.spelling.key.parts site)) := by
    rw [← Spelling.canonicalKey_parts h hs hsound, Spelling.urlunsplit_spelling h hs]
  have hagain : (canonicalKey u url).bind (canonicalKey u) = canonicalKey u url ↔
      site.spelling.key.key = site.spelling.key := by
    rw [hurl]
    change canonicalKey u (urlunsplit (site.spelling.key.parts site)) = _ ↔ _
    rw [Spelling.canonicalKey_parts h hs hsound.key, Except.ok.injEq,
      Spelling.urlunsplit_parts_inj h hs hsound.key.key hsound.key]
  have hspelled {s : Spelling} (hsteps : site.spelling.Steps s) :
      canonicalKey u (urlunsplit (s.parts site)) = canonicalKey u url ↔ s.key = site.spelling.key := by
    rw [hurl, Spelling.canonicalKey_parts h hs (hsteps.sound hsound), Except.ok.injEq,
      Spelling.urlunsplit_parts_inj h hs (hsteps.sound hsound).key hsound.key]
  rw [hagain, Spelling.key_key_iff]
  constructor
  · rintro ⟨⟨hpath, hparameters, horder⟩, hkeys⟩
    refine ⟨hpath, hparameters, horder, fun hescaped => Spelling.rigid_of_steps fun s hsteps => ?_⟩
    exact (hspelled hsteps).mp (hkeys hescaped s hsteps)
  · intro hcanonical
    refine ⟨⟨hcanonical.path, hcanonical.parameters, hcanonical.order⟩, fun hescaped s hsteps => ?_⟩
    exact (hspelled hsteps).mpr (hsteps.key_eq (wellEscaped_spelling h hs hescaped)
      (hcanonical.rigid hescaped))

end Url

instance (text : Text) : Decidable (WellEscaped text) :=
  decidable_of_iff (∀ suffix ∈ text.tails, suffix.head? = some '%' → startsHex suffix.tail = true) <| by
    constructor
    · intro h before rest heq
      exact h ('%' :: rest) ((List.mem_tails _ _).mpr ⟨before, heq.symm⟩) rfl
    · rintro h suffix hsuffix hhead
      obtain ⟨before, heq⟩ := (List.mem_tails _ _).mp hsuffix
      obtain ⟨rest, rfl⟩ := List.head?_eq_some_iff.mp hhead
      exact h before rest heq.symm

/-- A URL with one parameter. -/
theorem canonicalKey_canonical_one :
    ((canonicalKey .ascii "http://h/%7e?a=1".toList).bind (canonicalKey .ascii) =
        canonicalKey .ascii "http://h/%7e?a=1".toList ∧
      (WellEscaped "http://h/%7e?a=1".toList →
        ∀ s, (SplitResult.spelling ⟨"http".toList, "h".toList, "/%7e".toList, "a=1".toList, []⟩).Steps s →
        canonicalKey .ascii (urlunsplit (s.parts ⟨"http".toList, "h".toList, "/%7e".toList,
          "a=1".toList, []⟩)) = canonicalKey .ascii "http://h/%7e?a=1".toList)) := by
  have h : normalize .ascii "http://h/%7e?a=1".toList = some "http://h/%7e?a=1".toList := by decide +kernel
  refine (canonicalKey_canonical h rfl).mpr ⟨by decide +kernel, by decide +kernel, ?_, fun _ => ?_⟩
  · unfold FoldsInOrder
    decide +kernel
  · exact List.pairwise_singleton _ _

/-- A `%` that is left alone gets the digits of an escape behind it; and of two parameters the one whose name
is escaped comes first. -/
theorem canonicalKey_respelled :
    (∃ url key, url = "http://h/%%341".toList ∧ normalize .ascii url = some url ∧
      canonicalKey .ascii url = .ok key ∧ canonicalKey .ascii key ≠ .ok key) ∧
    ∃ url site s, url = "http://h/?a=1&b=2".toList ∧ normalize .ascii url = some url ∧ WellEscaped url ∧
      urlsplit .ascii url = .ok site ∧ site.spelling.Steps s ∧
      urlunsplit (s.parts site) = "http://h/?a=1&%62=2".toList ∧
      canonicalKey .ascii (urlunsplit (s.parts site)) ≠ canonicalKey .ascii url := by
  constructor
  · refine ⟨_, "http://h/%41".toList, rfl, ?_, ?_, ?_⟩
    · decide +kernel
    · decide +kernel
    · decide +kernel
  · refine ⟨_, ⟨"http".toList, "h".toList, "/".toList, "a=1&b=2".toList, []⟩,
      ⟨"/".toList, ["a=1".toList, "%62=2".toList]⟩, rfl, ?_, ?_, rfl, .single ?_, ?_, ?_⟩
    · decide +kernel
    · decide +kernel
    · have hspells : Spells "b".toList "%62".toList :=
        @Spells.unreserved '6' '2' (by decide) (by decide) (by decide)
      have hrespells : Respells "b=2".toList "%62=2".toList :=
        @Respells.forth [] _ _ "=2".toList wellEscaped_nil (by decide +kernel) hspells
      exact @Spelling.Step.parameter _ _ _ ["a=1".toList] [] hrespells
    · decide +kernel
    · decide +kernel

end UrlCrawler
