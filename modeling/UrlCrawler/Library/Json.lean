import UrlCrawler.Library.Execution

/-! # JSON documents as text

A document is a tree; a number is kept as it is spelled. `dumps` writes a document on one line, with
`pad` after each comma and colon, and `loads` reads a text. What is written is read back
(`loads_dumps`) and has no control character in it (`printable_dumps`), whatever strings it holds.
-/
set_option autoImplicit false

namespace Json
open Execution

/-! ## Number literals -/

inductive NumberState
  | start | minus | zero | integer | point | fraction | exponent | sign | power
deriving DecidableEq

/-- One character of a number literal. -/
def NumberState.step (s : NumberState) (c : Char) : Option NumberState :=
  match s with
  | start =>
    if c = '-' then some minus else if c = '0' then some zero
    else if c.isDigit then some integer else none
  | minus => if c = '0' then some zero else if c.isDigit then some integer else none
  | zero =>
    if c = '.' then some point else if c = 'e' ∨ c = 'E' then some exponent else none
  | integer =>
    if c.isDigit then some integer else if c = '.' then some point
    else if c = 'e' ∨ c = 'E' then some exponent else none
  | point => if c.isDigit then some fraction else none
  | fraction =>
    if c.isDigit then some fraction else if c = 'e' ∨ c = 'E' then some exponent else none
  | exponent =>
    if c = '+' ∨ c = '-' then some sign else if c.isDigit then some power else none
  | sign | power => if c.isDigit then some power else none

def NumberState.accepts : NumberState → Bool
  | zero | integer | fraction | power => true
  | _ => false

def isNumber (literal : List Char) : Bool :=
  (run NumberState.step .start literal).any NumberState.accepts

/-- A character that a literal (a number, `true`, `false`, `null`) can go on with. -/
def isLiteralChar (c : Char) : Bool := c.isAlphanum || c = '-' || c = '+' || c = '.'

theorem NumberState.step_char {s s' : NumberState} {c : Char} (h : s.step c = some s') :
    isLiteralChar c = true ∧ c ∉ ['t', 'f', 'n'] := by
  have hc : c.isDigit = true ∨ c = '-' ∨ c = '+' ∨ c = '.' ∨ c = 'e' ∨ c = 'E' := by
    by_cases hzero : c = '0'
    · exact .inl (hzero ▸ rfl)
    · cases s <;> simp only [step] at h <;> grind
  obtain hdigit | rfl | rfl | rfl | rfl | rfl := hc
  · refine ⟨by simp [isLiteralChar, Char.isAlphanum, hdigit], fun hmem => ?_⟩
    simp only [List.mem_cons, List.not_mem_nil, or_false] at hmem
    obtain rfl | rfl | rfl := hmem <;> exact absurd hdigit (by decide)
  all_goals decide

theorem step_chars {s t : NumberState} {literal : List Char}
    (h : run NumberState.step s literal = some t) :
    ∀ c ∈ literal, isLiteralChar c = true ∧ c ∉ ['t', 'f', 'n'] := by
  induction literal generalizing s with
  | nil => exact fun c hc => absurd hc List.not_mem_nil
  | cons d literal ih =>
    obtain ⟨s', hd, hrest⟩ := run_cons_some _ h
    intro c hc
    obtain rfl | hc := List.mem_cons.mp hc
    · exact NumberState.step_char hd
    · exact ih hrest c hc

theorem isNumber_chars {literal : List Char} (h : isNumber literal = true) :
    ∀ c ∈ literal, isLiteralChar c = true ∧ c ∉ ['t', 'f', 'n'] := by
  obtain ⟨t, ht, -⟩ := (Option.any_eq_true _ _).mp h
  exact step_chars ht

theorem isNumber_ne_nil {literal : List Char} (h : isNumber literal = true) : literal ≠ [] := by
  intro hnil
  subst hnil
  cases h

/-- The digits of a number, with a sign before them or without. -/
theorem run_toDigits {s : NumberState} (hs : s = .start ∨ s = .minus) {n : ℕ} (hn : 0 < n) :
    run NumberState.step s (Nat.toDigits 10 n) = some .integer := by
  induction n using Nat.strong_induction_on with
  | _ n ih =>
    have hdigit : ∀ m < 10, (Nat.digitChar m).isDigit = true := fun m hm => by
      rw [Nat.isDigit_digitChar]
      exact decide_eq_true hm
    rw [Nat.toDigits_eq_if (by decide)]
    split
    · rename_i hlt
      have hzero : ¬Nat.digitChar n = '0' := fun h => by
        rw [Nat.digitChar_eq_zero] at h
        omega
      have hminus : ¬Nat.digitChar n = '-' := fun h => by
        have := hdigit n hlt
        rw [h] at this
        cases this
      obtain rfl | rfl := hs <;>
        simp [run, NumberState.step, hzero, hminus, hdigit n hlt]
    · rename_i hle
      rw [run_append, ih (n / 10) (by omega) (by omega)]
      simp [run, NumberState.step, hdigit (n % 10) (Nat.mod_lt _ (by decide))]

theorem isNumber_toDigits (n : ℕ) : isNumber (Nat.toDigits 10 n) = true := by
  unfold isNumber
  obtain rfl | hn := Nat.eq_zero_or_pos n
  · rfl
  · rw [run_toDigits (.inl rfl) hn]
    rfl

theorem isNumber_minus {n : ℕ} (hn : 0 < n) : isNumber ('-' :: Nat.toDigits 10 n) = true := by
  have hminus : NumberState.step .start '-' = some .minus := rfl
  unfold isNumber
  rw [run_cons _ hminus, run_toDigits (.inr rfl) hn]
  rfl

/-- A number as it is spelled. -/
structure Literal where
  chars : List Char
  number : isNumber chars = true
deriving DecidableEq

/-- `str(n)`. -/
def Literal.nat (n : ℕ) : Literal := ⟨Nat.toDigits 10 n, isNumber_toDigits n⟩

/-- `str(n)` of an integer. -/
def Literal.int : ℤ → Literal
  | .ofNat n => .nat n
  | .negSucc n => ⟨'-' :: Nat.toDigits 10 (n + 1), isNumber_minus n.succ_pos⟩

/-- The number that digits spell. -/
def Literal.toNat? (l : Literal) : Option ℕ :=
  if l.chars.all Char.isDigit then some (Nat.ofDigitChars 10 l.chars 0) else none

@[simp] theorem Literal.toNat?_nat (n : ℕ) : (Literal.nat n).toNat? = some n := by
  have hdigits : (Nat.toDigits 10 n).all Char.isDigit = true :=
    List.all_eq_true.mpr fun c hc => Nat.isDigit_of_mem_toDigits (by decide) (by decide) hc
  rw [toNat?, nat, if_pos hdigits, Nat.ofDigitChars_toDigits (by decide) (by decide)]

end Json

inductive Json
  | null
  | bool (b : Bool)
  | number (literal : Json.Literal)
  | string (text : List Char)
  | array (items : List Json)
  | object (fields : List (List Char × Json))

namespace Json

/-! ## Writing -/

/-- A character of a string. Only what has to be is escaped. -/
def escape (c : Char) : List Char :=
  if c = '"' then ['\\', '"']
  else if c = '\\' then ['\\', '\\']
  else if c = '\n' then ['\\', 'n']
  else if c = '\r' then ['\\', 'r']
  else if c = '\t' then ['\\', 't']
  else if c = '\x08' then ['\\', 'b']
  else if c = '\x0c' then ['\\', 'f']
  else if c.toNat < 32 then
    ['\\', 'u', '0', '0', Nat.digitChar (c.toNat / 16), Nat.digitChar (c.toNat % 16)]
  else [c]

def quoted (text : List Char) : List Char := '"' :: (text.flatMap escape ++ ['"'])

mutual

/-- The document on one line, with `pad` after each comma and each colon. -/
def dumps (pad : List Char) : Json → List Char
  | null => ['n', 'u', 'l', 'l']
  | bool true => ['t', 'r', 'u', 'e']
  | bool false => ['f', 'a', 'l', 's', 'e']
  | number literal => literal.chars
  | string text => quoted text
  | array [] => ['[', ']']
  | array (v :: vs) => '[' :: (dumps pad v ++ dumpsItems pad vs)
  | object [] => ['\x7b', '\x7d']
  | object ((k, v) :: fs) => '\x7b' :: (quoted k ++ ':' :: (pad ++ (dumps pad v ++ dumpsFields pad fs)))

/-- The further items of an array. -/
def dumpsItems (pad : List Char) : List Json → List Char
  | [] => [']']
  | v :: vs => ',' :: (pad ++ (dumps pad v ++ dumpsItems pad vs))

/-- The further fields of an object. -/
def dumpsFields (pad : List Char) : List (List Char × Json) → List Char
  | [] => ['\x7d']
  | (k, v) :: fs =>
    ',' :: (pad ++ (quoted k ++ ':' :: (pad ++ (dumps pad v ++ dumpsFields pad fs))))

end

/-! ## Reading -/

def isSpace (c : Char) : Bool := c = ' ' || c = '\t' || c = '\n' || c = '\r'

def skip (text : List Char) : List Char := text.dropWhile isSpace

def hexValue (c : Char) : Option ℕ :=
  if c.isDigit then some (c.toNat - 48)
  else if 'a' ≤ c ∧ c ≤ 'f' then some (c.toNat - 87)
  else if 'A' ≤ c ∧ c ≤ 'F' then some (c.toNat - 55)
  else none

/-- The character a `\u` escape stands for. A surrogate is none. -/
def unicodeEscape (a b c d : Char) : Option Char :=
  match hexValue a, hexValue b, hexValue c, hexValue d with
  | some a, some b, some c, some d =>
    let n := ((a * 16 + b) * 16 + c) * 16 + d
    if n.isValidChar then some (Char.ofNat n) else none
  | _, _, _, _ => none

/-- The character a letter after a backslash stands for. -/
def shortEscape (c : Char) : Option Char :=
  if c = '"' ∨ c = '\\' ∨ c = '/' then some c
  else if c = 'n' then some '\n'
  else if c = 'r' then some '\r'
  else if c = 't' then some '\t'
  else if c = 'b' then some '\x08'
  else if c = 'f' then some '\x0c'
  else none

/-- The rest of a string, up to its closing quote, and what follows it. -/
def readString : List Char → Option (List Char × List Char)
  | [] => none
  | c :: rest =>
    if c = '"' then some ([], rest)
    else if c = '\\' then
      match rest with
      | 'u' :: a :: b :: c :: d :: rest =>
        (unicodeEscape a b c d).bind fun e => (readString rest).map fun p => (e :: p.1, p.2)
      | c :: rest =>
        (shortEscape c).bind fun e => (readString rest).map fun p => (e :: p.1, p.2)
      | [] => none
    else if c.toNat < 32 then none
    else (readString rest).map fun p => (c :: p.1, p.2)

def literalValue (literal : List Char) : Option Json :=
  if literal = ['n', 'u', 'l', 'l'] then some null
  else if literal = ['t', 'r', 'u', 'e'] then some (bool true)
  else if literal = ['f', 'a', 'l', 's', 'e'] then some (bool false)
  else if h : isNumber literal = true then some (number ⟨literal, h⟩)
  else none

mutual

/-- The document that a text begins with, and what follows it. -/
def value : ℕ → List Char → Option (Json × List Char)
  | 0, _ => none
  | fuel + 1, text =>
    match text with
    | [] => none
    | c :: rest =>
      if c = '"' then (readString rest).map fun p => (string p.1, p.2)
      else if c = '[' then
        match skip rest with
        | ']' :: rest => some (array [], rest)
        | rest => (items fuel rest).map fun p => (array p.1, p.2)
      else if c = '\x7b' then
        match skip rest with
        | '\x7d' :: rest => some (object [], rest)
        | rest => (fields fuel rest).map fun p => (object p.1, p.2)
      else (literalValue (text.takeWhile isLiteralChar)).map fun v =>
        (v, text.dropWhile isLiteralChar)

/-- One item and those after it, up to the closing bracket. -/
def items : ℕ → List Char → Option (List Json × List Char)
  | 0, _ => none
  | fuel + 1, text =>
    (value fuel text).bind fun p =>
      match skip p.2 with
      | ',' :: rest => (items fuel (skip rest)).map fun q => (p.1 :: q.1, q.2)
      | ']' :: rest => some ([p.1], rest)
      | _ => none

/-- One field and those after it, up to the closing brace. -/
def fields : ℕ → List Char → Option (List (List Char × Json) × List Char)
  | 0, _ => none
  | fuel + 1, text =>
    match text with
    | '"' :: rest =>
      (readString rest).bind fun k =>
        match skip k.2 with
        | ':' :: rest =>
          (value fuel (skip rest)).bind fun p =>
            match skip p.2 with
            | ',' :: rest => (fields fuel (skip rest)).map fun q => ((k.1, p.1) :: q.1, q.2)
            | '\x7d' :: rest => some ([(k.1, p.1)], rest)
            | _ => none
        | _ => none
    | _ => none

end

/-- The document of a text that holds one document. -/
def loads (text : List Char) : Option Json :=
  match value text.length (skip text) with
  | some (v, rest) => if skip rest = [] then some v else none
  | none => none

/-! ## Looking into a document -/

def field (key : String) : Json → Option Json
  | object fields => fields.lookup key.toList
  | _ => none

/-- What `f` makes of the value under a key. -/
def get {α : Type} (key : String) (f : Json → Option α) (json : Json) : Option α :=
  (json.field key).bind f

def text? : Json → Option (List Char)
  | string text => some text
  | _ => none

def nat? : Json → Option ℕ
  | number literal => literal.toNat?
  | _ => none

/-- What stands for an optional value. -/
def ofOption {α : Type} (f : α → Json) : Option α → Json
  | none => null
  | some a => f a

def nullable {α : Type} (f : Json → Option α) : Json → Option (Option α)
  | null => some none
  | v => (f v).map some

def list? {α : Type} (f : Json → Option α) : Json → Option (List α)
  | array items => items.mapM f
  | _ => none

theorem mapM_map {α β : Type} {f : α → β} {g : β → Option α} (h : ∀ a, g (f a) = some a)
    (as : List α) : (as.map f).mapM g = some as := by
  induction as with
  | nil => rfl
  | cons a as ih =>
    rw [List.map_cons, List.mapM_cons, h, ih]
    rfl

theorem nullable_ofOption {α : Type} {f : α → Json} {g : Json → Option α}
    (h : ∀ a, g (f a) = some a) (hne : ∀ a, f a ≠ null) (o : Option α) :
    nullable g (ofOption f o) = some o := by
  cases o with
  | none => rfl
  | some a =>
    rw [ofOption]
    unfold nullable
    split
    · rename_i hnull
      exact absurd hnull (hne a)
    · rw [h]
      rfl

theorem list?_array {α : Type} {f : α → Json} {g : Json → Option α} (h : ∀ a, g (f a) = some a)
    (as : List α) : list? g (array (as.map f)) = some as :=
  mapM_map h as

/-! ## What is written is read back -/

theorem unicodeEscape_control {c : Char} (hc : c.toNat < 32) :
    unicodeEscape '0' '0' (Nat.digitChar (c.toNat / 16)) (Nat.digitChar (c.toNat % 16)) = some c := by
  have hcode : ∀ n < 32, unicodeEscape '0' '0' (Nat.digitChar (n / 16)) (Nat.digitChar (n % 16)) =
      some (Char.ofNat n) := by
    decide
  rw [hcode c.toNat hc, Char.ofNat_toNat]

theorem readString_escape (c : Char) (rest : List Char) :
    readString (escape c ++ rest) = (readString rest).map fun p => (c :: p.1, p.2) := by
  unfold escape
  split_ifs with hquote hbackslash hfeed hreturn htab hback hform hcontrol
  · subst hquote
    rfl
  · subst hbackslash
    rfl
  · subst hfeed
    rfl
  · subst hreturn
    rfl
  · subst htab
    rfl
  · subst hback
    rfl
  · subst hform
    rfl
  · simp [readString, unicodeEscape_control hcontrol]
  · rw [List.singleton_append, readString.eq_def]
    exact (if_neg hquote).trans ((if_neg hbackslash).trans (if_neg hcontrol))

theorem readString_quoted (text rest : List Char) :
    readString (text.flatMap escape ++ '"' :: rest) = some (text, rest) := by
  induction text with
  | nil =>
    rw [List.flatMap_nil, List.nil_append, readString.eq_def]
    rfl
  | cons c text ih =>
    rw [List.flatMap_cons, List.append_assoc, readString_escape, ih]
    rfl

theorem quoted_append (text rest : List Char) :
    quoted text ++ rest = '"' :: (text.flatMap escape ++ '"' :: rest) := by
  simp [quoted]

/-- No literal goes on at the beginning of this text. -/
def Ends (rest : List Char) : Prop := ∀ c, rest.head? = some c → isLiteralChar c = false

theorem ends_nil : Ends [] := by
  intro c hc
  cases hc

theorem ends_cons {c : Char} (h : isLiteralChar c = false) (rest : List Char) : Ends (c :: rest) := by
  intro d hd
  cases hd
  exact h

theorem value_literal {literal rest : List Char} (hne : literal ≠ [])
    (hchars : ∀ c ∈ literal, isLiteralChar c = true) (hrest : Ends rest) (fuel : ℕ) :
    value (fuel + 1) (literal ++ rest) = (literalValue literal).map fun v => (v, rest) := by
  have hstop : rest.takeWhile isLiteralChar = [] ∧ rest.dropWhile isLiteralChar = rest := by
    cases rest with
    | nil => exact ⟨rfl, rfl⟩
    | cons d rest => simp [hrest d rfl]
  have htake : (literal ++ rest).takeWhile isLiteralChar = literal := by
    rw [List.takeWhile_append_of_pos hchars, hstop.1, List.append_nil]
  have hdrop : (literal ++ rest).dropWhile isLiteralChar = rest := by
    rw [List.dropWhile_append_of_pos hchars, hstop.2]
  obtain ⟨c, tail, rfl⟩ := List.exists_cons_of_ne_nil hne
  have hother : ∀ d, isLiteralChar d = false → c ≠ d := by
    intro d hd hcd
    have hc := hchars c (List.mem_cons_self ..)
    rw [hcd, hd] at hc
    cases hc
  rw [List.cons_append] at htake hdrop ⊢
  rw [value, if_neg (hother _ rfl), if_neg (hother _ rfl), if_neg (hother _ rfl), htake, hdrop]

theorem literalValue_number (l : Literal) : literalValue l.chars = some (number l) := by
  have hword : ∀ c ∈ ['t', 'f', 'n'], ∀ tail, l.chars ≠ c :: tail := by
    intro c hc tail h
    exact (isNumber_chars l.number c (h ▸ List.mem_cons_self ..)).2 hc
  rw [literalValue, if_neg (hword _ (by decide) _), if_neg (hword _ (by decide) _),
    if_neg (hword _ (by decide) _), dif_pos l.number]

section
variable {pad : List Char}

/-- A document begins with neither a space nor a closing bracket. -/
theorem dumps_cons (pad : List Char) (v : Json) :
    ∃ c tail, dumps pad v = c :: tail ∧ isSpace c = false ∧ c ≠ ']' := by
  cases v with
  | null => exact ⟨_, _, rfl, rfl, by decide⟩
  | bool b => cases b <;> exact ⟨_, _, rfl, rfl, by decide⟩
  | number l =>
    obtain ⟨c, tail, h⟩ := List.exists_cons_of_ne_nil (isNumber_ne_nil l.number)
    have hc := (isNumber_chars l.number c (h ▸ List.mem_cons_self ..)).1
    refine ⟨c, tail, h, ?_, ?_⟩
    · cases hspace : isSpace c with
      | false => rfl
      | true =>
        simp only [isSpace, Bool.or_eq_true, decide_eq_true_eq] at hspace
        obtain ((rfl | rfl) | rfl) | rfl := hspace <;> cases hc
    · rintro rfl
      cases hc
  | string text => exact ⟨_, _, rfl, rfl, by decide⟩
  | array vs => cases vs <;> exact ⟨_, _, rfl, rfl, by decide⟩
  | object fs => cases fs <;> exact ⟨_, _, rfl, rfl, by decide⟩

theorem skip_cons {c : Char} (h : isSpace c = false) (rest : List Char) :
    skip (c :: rest) = c :: rest := by
  simp [skip, h]

variable (hpad : ∀ c ∈ pad, isSpace c = true)

include hpad in
theorem skip_pad {c : Char} (h : isSpace c = false) (rest : List Char) :
    skip (pad ++ c :: rest) = c :: rest := by
  rw [skip, List.dropWhile_append_of_pos hpad]
  exact skip_cons h rest

include hpad in
theorem skip_pad_dumps (v : Json) (rest : List Char) :
    skip (pad ++ (dumps pad v ++ rest)) = dumps pad v ++ rest := by
  obtain ⟨c, tail, h, hspace, -⟩ := dumps_cons pad v
  rw [h]
  exact skip_pad hpad hspace (tail ++ rest)

theorem skip_dumps (v : Json) (rest : List Char) :
    skip (dumps pad v ++ rest) = dumps pad v ++ rest := by
  obtain ⟨c, tail, h, hspace, -⟩ := dumps_cons pad v
  rw [h]
  exact skip_cons hspace (tail ++ rest)

variable (pad) in
/-- Whatever follows it, the document is read where it is written. -/
def Reads (v : Json) : Prop :=
  ∀ fuel rest, (dumps pad v).length ≤ fuel → Ends rest →
    value fuel (dumps pad v ++ rest) = some (v, rest)

variable (pad) in
def ReadsItems (v : Json) (vs : List Json) : Prop :=
  ∀ fuel rest, (dumps pad v ++ dumpsItems pad vs).length ≤ fuel →
    items fuel (dumps pad v ++ (dumpsItems pad vs ++ rest)) = some (v :: vs, rest)

variable (pad) in
def ReadsFields (k : List Char) (v : Json) (fs : List (List Char × Json)) : Prop :=
  ∀ fuel rest, (quoted k ++ ':' :: (pad ++ (dumps pad v ++ dumpsFields pad fs))).length ≤ fuel →
    fields fuel (quoted k ++ ':' :: (pad ++ (dumps pad v ++ (dumpsFields pad fs ++ rest)))) =
      some ((k, v) :: fs, rest)

theorem reads_literal {v : Json} {literal : List Char} (hd : dumps pad v = literal)
    (hne : literal ≠ []) (hchars : ∀ c ∈ literal, isLiteralChar c = true)
    (hv : literalValue literal = some v) : Reads pad v := by
  intro fuel rest hfuel hrest
  rw [hd] at hfuel ⊢
  cases fuel with
  | zero => exact absurd (List.length_eq_zero_iff.mp (Nat.le_zero.mp hfuel)) hne
  | succ fuel =>
    rw [value_literal hne hchars hrest, hv]
    rfl

theorem reads_string (text : List Char) : Reads pad (string text) := by
  intro fuel rest hfuel hrest
  cases fuel with
  | zero => cases hfuel
  | succ fuel =>
    rw [dumps, quoted_append, value, if_pos rfl, readString_quoted]
    rfl

theorem readsItems_nil {v : Json} (hv : Reads pad v) : ReadsItems pad v [] := by
  intro fuel rest hfuel
  rw [dumpsItems, List.length_append, List.length_singleton] at hfuel
  cases fuel with
  | zero => omega
  | succ fuel =>
    rw [dumpsItems, List.singleton_append, items,
      hv fuel (']' :: rest) (by omega) (ends_cons rfl rest), Option.bind_some,
      skip_cons rfl]
    rfl

include hpad in
theorem readsItems_cons {v w : Json} {ws : List Json} (hv : Reads pad v)
    (hw : ReadsItems pad w ws) : ReadsItems pad v (w :: ws) := by
  intro fuel rest hfuel
  simp only [dumpsItems, List.length_append, List.length_cons] at hfuel
  cases fuel with
  | zero => omega
  | succ fuel =>
    rw [dumpsItems, List.cons_append, List.append_assoc, List.append_assoc, items,
      hv fuel _ (by omega) (ends_cons rfl _), Option.bind_some, skip_cons rfl]
    simp only
    rw [skip_pad_dumps hpad, hw fuel rest (by rw [List.length_append]; omega)]
    rfl

theorem value_array {c : Char} (hspace : isSpace c = false) (hc : c ≠ ']') (fuel : ℕ)
    (rest : List Char) : value (fuel + 1) ('[' :: c :: rest) =
      (items fuel (c :: rest)).map fun p => (array p.1, p.2) := by
  rw [value, if_neg (by decide), if_pos rfl, skip_cons hspace]
  split
  · rename_i h
    exact absurd (List.cons.inj h).1 hc
  · rfl

theorem reads_array {v : Json} {vs : List Json} (h : ReadsItems pad v vs) :
    Reads pad (array (v :: vs)) := by
  intro fuel rest hfuel hrest
  rw [dumps, List.length_cons] at hfuel
  cases fuel with
  | zero => omega
  | succ fuel =>
    have hitems := h fuel rest (by omega)
    obtain ⟨c, tail, hdumps, hspace, hc⟩ := dumps_cons pad v
    rw [dumps, List.cons_append, List.append_assoc]
    rw [hdumps, List.cons_append] at hitems ⊢
    rw [value_array hspace hc, hitems]
    rfl

theorem reads_array_nil : Reads pad (array []) := by
  intro fuel rest hfuel hrest
  cases fuel with
  | zero => cases hfuel
  | succ fuel =>
    rw [dumps, List.cons_append, List.singleton_append, value, if_neg (by decide), if_pos rfl,
      skip_cons rfl]
    rfl

include hpad in
theorem readsFields_nil {k : List Char} {v : Json} (hv : Reads pad v) :
    ReadsFields pad k v [] := by
  intro fuel rest hfuel
  simp only [dumpsFields, List.length_append, List.length_cons] at hfuel
  cases fuel with
  | zero => omega
  | succ fuel =>
    rw [dumpsFields, List.singleton_append, quoted_append, fields, readString_quoted,
      Option.bind_some, skip_cons rfl]
    simp only
    rw [skip_pad_dumps hpad, hv fuel _ (by omega) (ends_cons rfl rest), Option.bind_some,
      skip_cons rfl]
    rfl

include hpad in
theorem readsFields_cons {k l : List Char} {v w : Json} {fs : List (List Char × Json)}
    (hv : Reads pad v) (hw : ReadsFields pad l w fs) : ReadsFields pad k v ((l, w) :: fs) := by
  intro fuel rest hfuel
  simp only [dumpsFields, List.length_append, List.length_cons] at hfuel
  cases fuel with
  | zero => omega
  | succ fuel =>
    have hquoted : ∀ tail, skip (pad ++ (quoted l ++ tail)) = quoted l ++ tail := by
      intro tail
      exact skip_pad hpad rfl _
    have hlater := hw fuel rest (by simp only [List.length_append, List.length_cons]; omega)
    rw [quoted_append, fields, readString_quoted, Option.bind_some, skip_cons rfl]
    simp only
    rw [skip_pad_dumps hpad, dumpsFields, List.cons_append,
      hv fuel _ (by omega) (ends_cons rfl _), Option.bind_some, skip_cons rfl]
    simp only [List.append_assoc, List.cons_append]
    rw [hquoted, hlater]
    rfl

theorem reads_object {k : List Char} {v : Json} {fs : List (List Char × Json)}
    (h : ReadsFields pad k v fs) : Reads pad (object ((k, v) :: fs)) := by
  intro fuel rest hfuel hrest
  rw [dumps, List.length_cons] at hfuel
  cases fuel with
  | zero => omega
  | succ fuel =>
    have hfields := h fuel rest (by omega)
    simp only [dumps, List.cons_append, List.append_assoc]
    rw [quoted_append] at hfields ⊢
    rw [value, if_neg (by decide), if_neg (by decide), if_pos rfl, skip_cons rfl]
    exact congrArg (Option.map fun p => (object p.1, p.2)) hfields

theorem reads_object_nil : Reads pad (object []) := by
  intro fuel rest hfuel hrest
  cases fuel with
  | zero => cases hfuel
  | succ fuel =>
    rw [dumps, List.cons_append, List.singleton_append, value, if_neg (by decide),
      if_neg (by decide), if_pos rfl, skip_cons rfl]
    rfl

mutual

theorem reads (hpad : ∀ c ∈ pad, isSpace c = true) : ∀ v : Json, Reads pad v
  | null => reads_literal rfl (List.cons_ne_nil _ _) (List.all_eq_true.mp rfl) rfl
  | bool true => reads_literal rfl (List.cons_ne_nil _ _) (List.all_eq_true.mp rfl) rfl
  | bool false => reads_literal rfl (List.cons_ne_nil _ _) (List.all_eq_true.mp rfl) rfl
  | number l => reads_literal rfl (isNumber_ne_nil l.number)
      (fun c hc => (isNumber_chars l.number c hc).1) (literalValue_number l)
  | string text => reads_string text
  | array [] => reads_array_nil
  | array (v :: vs) => reads_array (readsItems hpad (reads hpad v) vs)
  | object [] => reads_object_nil
  | object ((_, v) :: fs) => reads_object (readsFields hpad (reads hpad v) fs)

theorem readsItems (hpad : ∀ c ∈ pad, isSpace c = true) {v : Json} (hv : Reads pad v) :
    ∀ vs : List Json, ReadsItems pad v vs
  | [] => readsItems_nil hv
  | w :: ws => readsItems_cons hpad hv (readsItems hpad (reads hpad w) ws)

theorem readsFields (hpad : ∀ c ∈ pad, isSpace c = true) {k : List Char} {v : Json}
    (hv : Reads pad v) : ∀ fs : List (List Char × Json), ReadsFields pad k v fs
  | [] => readsFields_nil hpad hv
  | (_, w) :: fs => readsFields_cons hpad hv (readsFields hpad (reads hpad w) fs)

end

/-- A document that is written is read back. -/
theorem loads_dumps (hpad : ∀ c ∈ pad, isSpace c = true) (v : Json) :
    loads (dumps pad v) = some v := by
  have hskip : skip (dumps pad v ++ []) = dumps pad v ++ [] := skip_dumps v []
  have hread := reads hpad v (dumps pad v).length [] le_rfl ends_nil
  rw [List.append_nil] at hskip hread
  unfold loads
  rw [hskip, hread]
  rfl

end

/-! ## What is written is one line -/

def isPrintable (c : Char) : Bool := 32 ≤ c.toNat

theorem printable_of_literalChar {c : Char} (h : isLiteralChar c = true) : isPrintable c = true := by
  cases hc : isPrintable c with
  | true => rfl
  | false =>
    have hlow : c.toNat < 32 := Nat.lt_of_not_le (of_decide_eq_false hc)
    have hcontrol : ∀ n < 32, isLiteralChar (Char.ofNat n) = false := by decide
    rw [← Char.ofNat_toNat c, hcontrol c.toNat hlow] at h
    cases h

theorem printable_escape (c : Char) : (escape c).all isPrintable = true := by
  unfold escape
  split_ifs with _ _ _ _ _ _ _ hcontrol
  · rfl
  · rfl
  · rfl
  · rfl
  · rfl
  · rfl
  · rfl
  · have hcode : ∀ n < 32, ['\\', 'u', '0', '0', Nat.digitChar (n / 16),
        Nat.digitChar (n % 16)].all isPrintable = true := by
      decide
    exact hcode c.toNat hcontrol
  · simp [isPrintable, Nat.le_of_not_lt hcontrol]

theorem printable_quoted (text : List Char) : (quoted text).all isPrintable = true := by
  have hescape : (text.flatMap escape).all isPrintable = true := by
    rw [List.all_flatMap, List.all_eq_true]
    exact fun c _ => printable_escape c
  rw [quoted, List.all_cons, List.all_append, hescape]
  rfl

mutual

theorem printable_dumps {pad : List Char} (hpad : pad.all isPrintable = true) :
    ∀ v : Json, (dumps pad v).all isPrintable = true
  | null => rfl
  | bool true => rfl
  | bool false => rfl
  | number l => List.all_eq_true.mpr fun c hc =>
      printable_of_literalChar (isNumber_chars l.number c hc).1
  | string text => printable_quoted text
  | array [] => rfl
  | array (v :: vs) => by
      rw [dumps, List.all_cons, List.all_append, printable_dumps hpad v, printable_items hpad vs]
      rfl
  | object [] => rfl
  | object ((k, v) :: fs) => by
      rw [dumps, List.all_cons, List.all_append, List.all_cons, List.all_append, List.all_append,
        printable_quoted, hpad, printable_dumps hpad v, printable_fields hpad fs]
      rfl

theorem printable_items {pad : List Char} (hpad : pad.all isPrintable = true) :
    ∀ vs : List Json, (dumpsItems pad vs).all isPrintable = true
  | [] => rfl
  | v :: vs => by
      rw [dumpsItems, List.all_cons, List.all_append, List.all_append, hpad,
        printable_dumps hpad v, printable_items hpad vs]
      rfl

theorem printable_fields {pad : List Char} (hpad : pad.all isPrintable = true) :
    ∀ fs : List (List Char × Json), (dumpsFields pad fs).all isPrintable = true
  | [] => rfl
  | (k, v) :: fs => by
      rw [dumpsFields, List.all_cons, List.all_append, List.all_append, List.all_cons,
        List.all_append, List.all_append, hpad, printable_quoted, printable_dumps hpad v,
        printable_fields hpad fs]
      rfl

end

end Json
