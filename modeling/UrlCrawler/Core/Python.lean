import UrlCrawler.Core.Models
import Mathlib.Data.List.DropRight
import Mathlib.Data.List.TakeWhile

/-! # Python's strings and exceptions

What the crawler uses of `str` and of raised exceptions. The Unicode tables behind `lower`,
`unicodedata.normalize` and `repr` belong to the interpreter: `Unicode` takes them as a parameter,
with the facts about lower case that every version of the tables has. `Unicode.ascii` is a
small instance that agrees with them on ASCII text.
-/
set_option autoImplicit false

namespace UrlCrawler

/-! ## Exceptions -/

/-- An exception of the class `Exception`, by the name of its type and its text. A
`CancelledError` is not one of them. -/
structure Exn where
  type : String
  text : String
deriving DecidableEq, Repr

def Exn.valueError (text : Text) : Exn := ⟨"ValueError", String.ofList text⟩

/-- `isinstance(exc, BrokenPipeError)`. -/
def Exn.brokenPipe (e : Exn) : Bool := e.type = "BrokenPipeError"

/-- `f"{type(exc).__name__}: {exc}"`. -/
def Exn.format (e : Exn) : String := e.type ++ ": " ++ e.text

/-- A block that does not raise has run each of its steps. -/
theorem bind_eq_ok {ε α β : Type} {x : Except ε α} {f : α → Except ε β} {b : β} :
    (x >>= f) = .ok b ↔ ∃ a, x = .ok a ∧ f a = .ok b := by
  cases x with
  | error e => simp [bind, Except.bind]
  | ok a => simp [bind, Except.bind]

theorem map_eq_ok {ε α β : Type} {x : Except ε α} {f : α → β} {b : β} :
    x.map f = .ok b ↔ ∃ a, x = .ok a ∧ f a = b := by
  cases x with
  | error e => simp [Except.map]
  | ok a => simp [Except.map]

/-- `x` does not raise a `BrokenPipeError`. -/
def Quiet {α : Type} (x : Except Exn α) : Prop := ∀ e, x = .error e → e.brokenPipe = false

@[simp] theorem quiet_ok {α : Type} (a : α) : Quiet (.ok a) := by
  intro e h
  cases h

@[simp] theorem quiet_valueError {α : Type} (text : Text) :
    Quiet (.error (.valueError text) : Except Exn α) := by
  intro e h
  cases h
  rfl

theorem Quiet.bind {α β : Type} {x : Except Exn α} {f : α → Except Exn β} (hx : Quiet x)
    (hf : ∀ a, Quiet (f a)) : Quiet (x >>= f) := by
  cases x with
  | error e => exact fun e' h => hx e' (by cases h; rfl)
  | ok a => exact hf a

theorem Quiet.map {α β : Type} {x : Except Exn α} (hx : Quiet x) (f : α → β) : Quiet (x.map f) := by
  cases x with
  | error e => exact fun e' h => hx e' (by cases h; rfl)
  | ok a => exact quiet_ok (f a)

theorem Quiet.mapM {α β : Type} {f : α → Except Exn β} (hf : ∀ a, Quiet (f a)) :
    ∀ l : List α, Quiet (l.mapM f)
  | [] => quiet_ok []
  | a :: l => by
      rw [List.mapM_cons]
      exact (hf a).bind fun b => (Quiet.mapM hf l).bind fun bs => quiet_ok _

/-! ## Characters -/

def isAscii (c : Char) : Bool := c.toNat < 128

/-- `str.isspace` for one character. -/
def isSpace (c : Char) : Bool :=
  let n := c.toNat
  (0x09 ≤ n && n ≤ 0x0D) || (0x1C ≤ n && n ≤ 0x20) || n = 0x85 || n = 0xA0 || n = 0x1680 ||
    (0x2000 ≤ n && n ≤ 0x200A) || n = 0x2028 || n = 0x2029 || n = 0x202F || n = 0x205F ||
    n = 0x3000

/-- `_CONTROL_CHARACTER`: `[\x00-\x1f\x7f]`. -/
def isControl (c : Char) : Bool := c.toNat ≤ 0x1F || c.toNat = 0x7F

theorem isLower_iff (c : Char) : c.isLower = true ↔ 97 ≤ c.toNat ∧ c.toNat ≤ 122 := by
  have hrange : c.isLower = (decide (97 ≤ c.toNat) && decide (c.toNat ≤ 122)) := rfl
  rw [hrange, Bool.and_eq_true, decide_eq_true_eq, decide_eq_true_eq]

/-- `text.strip()`. -/
def strip (text : Text) : Text := (text.dropWhile isSpace).rdropWhile isSpace

/-! ## Cutting a string -/

/-- `text.partition(c)[0]`: all of the text when `c` is not in it. -/
def before (c : Char) (text : Text) : Text := text.takeWhile (· ≠ c)

/-- `text.partition(c)[2]`: empty when `c` is not in the text. -/
def after (c : Char) (text : Text) : Text := (text.dropWhile (· ≠ c)).tail

/-- `text.rpartition(c)[2]`: all of the text when `c` is not in it. -/
def afterLast (c : Char) (text : Text) : Text := text.rtakeWhile (· ≠ c)

theorem before_of_not_mem {c : Char} {text : Text} (h : c ∉ text) : before c text = text :=
  List.takeWhile_eq_self_iff.mpr fun x hx => by
    simpa using fun he : x = c => h (he ▸ hx)

theorem before_append {c : Char} {a : Text} (b : Text) (h : c ∉ a) :
    before c (a ++ c :: b) = a := by
  rw [before, List.takeWhile_append_of_pos fun x hx => by
    simpa using fun he : x = c => h (he ▸ hx)]
  simp

theorem after_append {c : Char} {a : Text} (b : Text) (h : c ∉ a) :
    after c (a ++ c :: b) = b := by
  rw [after, List.dropWhile_append_of_pos fun x hx => by
    simpa using fun he : x = c => h (he ▸ hx)]
  simp

theorem after_of_not_mem {c : Char} {text : Text} (h : c ∉ text) : after c text = [] := by
  have hnil : text.dropWhile (· ≠ c) = [] := by
    refine List.dropWhile_eq_nil_iff.mpr fun x hx => ?_
    simpa using fun he : x = c => h (he ▸ hx)
  rw [after, hnil, List.tail_nil]

theorem not_mem_before (c : Char) (text : Text) : c ∉ before c text := by
  intro h
  simpa using List.mem_takeWhile_imp h

theorem before_subset (c : Char) (text : Text) : before c text ⊆ text :=
  (List.takeWhile_prefix _).subset

theorem after_subset (c : Char) (text : Text) : after c text ⊆ text :=
  fun _ hx => (List.dropWhile_suffix _).subset (List.mem_of_mem_tail hx)

theorem before_append_after {c : Char} {text : Text} (h : c ∈ text) :
    text = before c text ++ c :: after c text := by
  have hne : text.dropWhile (· ≠ c) ≠ [] := by
    intro hnil
    have hall := List.dropWhile_eq_nil_iff.mp hnil c h
    simp at hall
  have hhead : (text.dropWhile (· ≠ c)).head hne = c := by
    simpa using List.head_dropWhile_not (· ≠ c) hne
  conv_lhs => rw [← List.takeWhile_append_dropWhile (p := (· ≠ c)) (l := text)]
  rw [← List.cons_head_tail hne, hhead]
  rfl

theorem afterLast_of_not_mem {c : Char} {text : Text} (h : c ∉ text) : afterLast c text = text :=
  List.rtakeWhile_eq_self_iff.mpr fun x hx => by
    simpa using fun he : x = c => h (he ▸ hx)

theorem not_mem_afterLast (c : Char) (text : Text) : c ∉ afterLast c text := by
  intro h
  simpa using List.mem_rtakeWhile_imp h

theorem afterLast_subset (c : Char) (text : Text) : afterLast c text ⊆ text :=
  (List.rtakeWhile_suffix _ _).subset

/-! ## Numbers -/

/-- `str(n)`. -/
def showNat (n : ℕ) : Text := Nat.toDigits 10 n

/-- `int(text)` of ASCII digits. -/
def readNat (text : Text) : ℕ := Nat.ofDigitChars 10 text 0

theorem readNat_showNat (n : ℕ) : readNat (showNat n) = n := Nat.ofDigitChars_ten_toDigits

theorem isDigit_of_mem_showNat {n : ℕ} {c : Char} (h : c ∈ showNat n) : c.isDigit = true :=
  Nat.isDigit_of_mem_toDigits (by norm_num) (by norm_num) h

theorem showNat_ne_nil (n : ℕ) : showNat n ≠ [] := Nat.toDigits_ne_nil

/-! ## Unicode -/

/-- What the interpreter's Unicode tables say. `toLower` is the full lower-case mapping of one
character, which is more than one character for some. -/
structure Unicode where
  toLower : Char → Text
  cased : Char → Bool
  caseIgnorable : Char → Bool
  nfkc : Text → Text
  repr : Text → Text
  toLower_ascii : ∀ c : Char, isAscii c → toLower c = [c.toLower]
  ascii_of_mem : ∀ c d : Char, d ∈ toLower c → isAscii d → d.isLower ∨ d = c
  toLower_idem : ∀ c d : Char, d ∈ toLower c → toLower d = [d]
  toLower_ne_nil : ∀ c : Char, toLower c ≠ []
  sigma_not_mem : ∀ c : Char, 'Σ' ∉ toLower c
  toLower_sigma : toLower 'σ' = ['σ'] ∧ toLower 'ς' = ['ς']

namespace Unicode

/-- The capital sigma at the end of a word lowers to another letter than elsewhere. -/
def lowerSigma (u : Unicode) (before after : Text) : Char :=
  if (before.dropWhile u.caseIgnorable).head?.any u.cased &&
      !(after.dropWhile u.caseIgnorable).head?.any u.cased then 'ς'
  else 'σ'

/-- `before` is what has been read, last character first. -/
def lowerFrom (u : Unicode) (before : Text) : Text → Text
  | [] => []
  | c :: after =>
    (if c = 'Σ' then [u.lowerSigma before after] else u.toLower c) ++
      u.lowerFrom (c :: before) after

/-- `text.lower()`. -/
def lower (u : Unicode) (text : Text) : Text := u.lowerFrom [] text

/-- A character that `lower` leaves alone. -/
def Fixed (u : Unicode) (c : Char) : Prop := u.toLower c = [c] ∧ c ≠ 'Σ'

variable {u : Unicode}

theorem fixed_sigma (before after : Text) : u.Fixed (u.lowerSigma before after) := by
  unfold lowerSigma
  split
  · exact ⟨u.toLower_sigma.2, by decide⟩
  · exact ⟨u.toLower_sigma.1, by decide⟩

theorem fixed_of_mem_lowerFrom {text : Text} : ∀ {before : Text} {d : Char},
    d ∈ u.lowerFrom before text → u.Fixed d := by
  induction text with
  | nil => intro before d h; cases h
  | cons c after ih =>
    intro before d h
    rcases List.mem_append.mp h with h | h
    · split at h
      · obtain rfl := List.mem_singleton.mp h
        exact fixed_sigma _ _
      · exact ⟨u.toLower_idem c d h, fun he => u.sigma_not_mem c (he ▸ h)⟩
    · exact ih h

/-- Lower case is lower case. -/
theorem fixed_of_mem_lower {text : Text} {d : Char} (h : d ∈ u.lower text) : u.Fixed d :=
  fixed_of_mem_lowerFrom h

theorem lowerFrom_of_fixed {text : Text} : ∀ {before : Text}, (∀ c ∈ text, u.Fixed c) →
    u.lowerFrom before text = text := by
  induction text with
  | nil => intro before _; rfl
  | cons c after ih =>
    intro before h
    obtain ⟨hc, hsigma⟩ := h c (List.mem_cons_self ..)
    rw [lowerFrom, if_neg hsigma, hc, ih fun d hd => h d (List.mem_cons_of_mem _ hd)]
    rfl

theorem lower_of_fixed {text : Text} (h : ∀ c ∈ text, u.Fixed c) : u.lower text = text :=
  lowerFrom_of_fixed h

theorem lower_lower (text : Text) : u.lower (u.lower text) = u.lower text :=
  lower_of_fixed fun _ => fixed_of_mem_lower

theorem lowerFrom_ne_nil {before text : Text} (h : text ≠ []) : u.lowerFrom before text ≠ [] := by
  cases text with
  | nil => exact absurd rfl h
  | cons c after =>
    rw [lowerFrom]
    split
    · exact List.cons_ne_nil _ _
    · exact List.append_ne_nil_of_left_ne_nil (u.toLower_ne_nil c) _

/-- A delimiter in the lower case of a text is in the text. -/
theorem mem_of_mem_lowerFrom {d : Char} (hascii : isAscii d = true) (hletter : d.isLower = false) :
    ∀ {text before : Text}, d ∈ u.lowerFrom before text → d ∈ text
  | [], _, h => by cases h
  | c :: after, before, h => by
    rcases List.mem_append.mp h with h | h
    · split at h
      · obtain rfl := List.mem_singleton.mp h
        unfold lowerSigma at hascii
        split at hascii <;> exact absurd hascii (by decide)
      · rcases u.ascii_of_mem c d h hascii with hl | rfl
        · simp [hletter] at hl
        · exact List.mem_cons_self ..
    · exact List.mem_cons_of_mem _ (mem_of_mem_lowerFrom hascii hletter h)

theorem mem_of_mem_lower {d : Char} (hascii : isAscii d = true) (hletter : d.isLower = false)
    {text : Text} (h : d ∈ u.lower text) : d ∈ text :=
  mem_of_mem_lowerFrom hascii hletter h

/-! ## ASCII -/

/-- The lower case of a text that begins in ASCII. -/
theorem lowerFrom_append {a : Text} : ∀ {context b : Text}, (∀ c ∈ a, isAscii c = true) →
    u.lowerFrom context (a ++ b) = a.map Char.toLower ++ u.lowerFrom (a.reverse ++ context) b := by
  induction a with
  | nil => intro context b _; rfl
  | cons c a ih =>
    intro context b h
    obtain ⟨hc, ha⟩ := List.forall_mem_cons.mp h
    have hsigma : c ≠ 'Σ' := by
      rintro rfl
      exact absurd hc (by decide)
    rw [List.cons_append, lowerFrom, if_neg hsigma, u.toLower_ascii c hc, ih ha,
      List.reverse_cons, List.append_assoc]
    rfl

theorem lower_append {a : Text} (h : ∀ c ∈ a, isAscii c = true) (b : Text) :
    u.lower (a ++ b) = a.map Char.toLower ++ u.lowerFrom a.reverse b := by
  rw [lower, lowerFrom_append h, List.append_nil]

theorem lower_ascii {text : Text} (h : ∀ c ∈ text, isAscii c = true) :
    u.lower text = text.map Char.toLower := by
  have happend := lower_append (u := u) h []
  rwa [List.append_nil, lowerFrom, List.append_nil] at happend

theorem toNat_toLower (c : Char) :
    c.toLower.toNat = if 65 ≤ c.toNat ∧ c.toNat ≤ 90 then c.toNat + 32 else c.toNat := by
  have hupper : (c.val ≥ 'A'.val ∧ c.val ≤ 'Z'.val) ↔ 65 ≤ c.toNat ∧ c.toNat ≤ 90 := Iff.rfl
  unfold Char.toLower
  split
  · rename_i h
    have hle : c.val.toNat ≤ 90 := (hupper.mp h).2
    rw [if_pos (hupper.mp h)]
    show (c.val + ('a'.val - 'A'.val)).toNat = c.val.toNat + 32
    rw [UInt32.toNat_add]
    show (c.val.toNat + 32) % 2 ^ 32 = _
    omega
  · rename_i h
    rw [if_neg fun h' => h (hupper.mpr h')]

theorem toLower_toLower (c : Char) : c.toLower.toLower = c.toLower := by
  apply Char.toNat_inj.mp
  rw [toNat_toLower c.toLower, if_neg]
  rw [toNat_toLower c]
  split <;> omega

theorem toLower_ne_sigma {c : Char} (h : c ≠ 'Σ') : c.toLower ≠ 'Σ' := by
  intro he
  have hn : c.toLower.toNat = 931 := congrArg Char.toNat he
  rw [toNat_toLower] at hn
  split at hn
  · omega
  · exact h (Char.toNat_inj.mp hn)

theorem isLower_or_eq_of_toLower (c : Char) : c.toLower.isLower = true ∨ c.toLower = c := by
  have hn := toNat_toLower c
  split at hn
  · left
    rw [isLower_iff]
    omega
  · exact .inr (Char.toNat_inj.mp hn)

/-- Tables that know the letters of ASCII and the three sigmas. -/
def ascii : Unicode where
  toLower c := if c = 'Σ' then ['σ'] else [c.toLower]
  cased c := c.isAlpha
  caseIgnorable c := c ∈ ['\'', '.', ':', '^', '`']
  nfkc text := text
  repr text := '\'' :: text ++ ['\'']
  toLower_ascii c h := by
    refine if_neg fun he => ?_
    rw [he] at h
    exact absurd h (by decide)
  ascii_of_mem c d h hd := by
    split at h
    · rw [List.mem_singleton.mp h] at hd
      exact absurd hd (by decide)
    · rw [List.mem_singleton.mp h]
      exact isLower_or_eq_of_toLower c
  toLower_idem c d h := by
    split at h
    · rw [List.mem_singleton.mp h]
      rfl
    · rename_i hc
      rw [List.mem_singleton.mp h, if_neg (toLower_ne_sigma hc), toLower_toLower]
  toLower_ne_nil c := by
    split <;> exact List.cons_ne_nil _ _
  sigma_not_mem c := by
    split
    · decide
    · rename_i hc
      simpa using (toLower_ne_sigma hc).symm
  toLower_sigma := by decide

end Unicode

end UrlCrawler
