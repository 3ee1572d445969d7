import UrlCrawler.Core.RobotsMatching
import UrlCrawler.Core.RobotsGroups
import UrlCrawler.Core.NormalForm

/-! # Escapes in a rule

A rule whose special characters are escaped should mean its path literally. Its escapes are folded before
it is compiled, so an escaped `*` is a star again, and an escaped `$` at the end an anchor.
-/
set_option autoImplicit false

namespace UrlCrawler

/-- `quote(path, safe="/")`: every character but unreserved ones and the slash is escaped. -/
def encoded (path : Text) : Text := quote (· = '/') path

def disallowLine (path : Text) : Text := "Disallow: ".toList ++ encoded path

theorem unquote_encoded (path : Text) : unquote (encoded path) = path := unquote_quote rfl path

theorem encoded_slash (path : Text) : encoded ('/' :: path) = '/' :: encoded path := rfl

/-! ## The characters of an encoded path -/

def isEncodedChar (c : Char) : Bool := c.isAlphanum || c ∈ ['_', '.', '-', '~', '/', '%']

theorem isEncodedChar_hexDigitUpper : ∀ n < 16, isEncodedChar (hexDigitUpper n) = true := by decide

theorem isEncodedChar_of_mem {path : Text} {c : Char} (h : c ∈ encoded path) :
    isEncodedChar c = true := by
  obtain ⟨d, -, hc⟩ := List.mem_flatMap.mp h
  split at hc
  · rename_i hd
    rw [List.mem_singleton.mp hc]
    simp only [Bool.or_eq_true, Bool.and_eq_true, decide_eq_true_eq, List.mem_cons, List.not_mem_nil,
      or_false] at hd
    simp only [isEncodedChar, Bool.or_eq_true, decide_eq_true_eq, List.mem_cons, List.not_mem_nil, or_false]
    tauto
  · obtain ⟨byte, -, hc⟩ := List.mem_flatMap.mp hc
    have hbyte := byte.toNat_lt
    simp only [percentByte, List.mem_cons, List.not_mem_nil, or_false] at hc
    rcases hc with rfl | rfl | rfl
    · rfl
    · exact isEncodedChar_hexDigitUpper _ (by omega)
    · exact isEncodedChar_hexDigitUpper _ (by omega)

theorem not_mem_encoded {c : Char} (hc : isEncodedChar c = false) (path : Text) : c ∉ encoded path := by
  intro h
  rw [isEncodedChar_of_mem h] at hc
  cases hc

theorem toNat_of_isEncodedChar {c : Char} (h : isEncodedChar c = true) :
    0x20 < c.toNat ∧ c.toNat < 0x7F := by
  rw [isEncodedChar, Bool.or_eq_true, decide_eq_true_eq] at h
  rcases h with h | h
  · simp only [Char.isAlphanum, Char.isAlpha, Char.isUpper, Char.isLower, Char.isDigit,
      Bool.or_eq_true, Bool.and_eq_true, decide_eq_true_eq, ge_iff_le, UInt32.le_iff_toNat_le] at h
    have hval : c.toNat = c.val.toNat := rfl
    have hA : 'A'.val.toNat = 65 := rfl
    have hZ : 'Z'.val.toNat = 90 := rfl
    have ha : 'a'.val.toNat = 97 := rfl
    have hz : 'z'.val.toNat = 122 := rfl
    have h0 : '0'.val.toNat = 48 := rfl
    have h9 : '9'.val.toNat = 57 := rfl
    omega
  · simp only [List.mem_cons, List.not_mem_nil, or_false] at h
    rcases h with rfl | rfl | rfl | rfl | rfl | rfl <;> decide

theorem isSpace_of_isEncodedChar {c : Char} (h : isEncodedChar c = true) : isSpace c = false := by
  obtain ⟨hlow, hhigh⟩ := toNat_of_isEncodedChar h
  simp only [isSpace, Bool.or_eq_false_iff, Bool.and_eq_false_iff, decide_eq_false_iff_not]
  omega

/-! ## The line of a rule -/

section Line
variable {δ : Type} (u : Unicode) (float : Floats δ)

theorem strip_of_forall {text : Text} (h : ∀ c ∈ text, isSpace c = false) : strip text = text := by
  have hstart : text.dropWhile isSpace = text := by
    cases text with
    | nil => rfl
    | cons c rest => rw [List.dropWhile_cons, h c (List.mem_cons_self ..)]; rfl
  rw [strip, hstart, List.rdropWhile_eq_self_iff]
  intro hne
  rw [h _ (List.getLast_mem hne)]
  exact Bool.false_ne_true

theorem strip_encoded (path : Text) : strip (' ' :: encoded path) = encoded path := by
  have hspace : strip (' ' :: encoded path) = strip (encoded path) := rfl
  rw [hspace, strip_of_forall fun c hc => isSpace_of_isEncodedChar (isEncodedChar_of_mem hc)]

theorem parseLine_disallow (path : Text) :
    parseLine u (disallowLine path) = some ("disallow".toList, encoded path) := by
  have hhash : '#' ∉ disallowLine path := by
    have hstart : '#' ∉ "Disallow: ".toList := by decide
    have hchar : isEncodedChar '#' = false := by decide
    intro hmem
    exact (List.mem_append.mp hmem).elim hstart (not_mem_encoded hchar path)
  have hline : disallowLine path = "Disallow".toList ++ ':' :: ' ' :: encoded path := rfl
  have hcolon : ':' ∈ disallowLine path := by
    rw [hline]
    exact List.mem_append_right _ (List.mem_cons_self ..)
  have hname : before ':' (disallowLine path) = "Disallow".toList := by
    rw [hline, before_append _ (by decide)]
  have hvalue : after ':' (disallowLine path) = ' ' :: encoded path := by
    rw [hline, after_append _ (by decide)]
  have hstrip : strip "Disallow".toList = "Disallow".toList := by decide
  have hascii : "Disallow".toList.all isAscii = true := by decide
  have hlower : u.lower "Disallow".toList = "disallow".toList := by
    rw [Unicode.lower_ascii (List.all_eq_true.mp hascii)]
    decide
  rw [parseLine, before_of_not_mem hhash, if_pos hcolon, hname, hvalue, hstrip, hlower, strip_encoded]

/-- The policy of a group of that one line. -/
theorem governed_disallow (path : Text) : governed (records u float [disallowLine path]) =
    RobotsTxt.ofRules [("disallow".toList, encoded path)] none := by
  have hrecord : recordOf u float (disallowLine path) =
      some (.rule (.new "disallow".toList (encoded path))) := by
    rw [recordOf, parseLine_disallow]
    rfl
  rw [records, List.filterMap_cons_some hrecord]
  rfl

end Line

/-! ## A URL for every path -/

def pathUrl (path : Text) : Text := httpUrl "http".toList ['h'] (encoded path)

theorem isUnsafeByte_of_isEncodedChar {c : Char} (h : isEncodedChar c = true) :
    isUnsafeByte c = false := by
  have hspace := isSpace_of_isEncodedChar h
  simp only [isUnsafeByte, Bool.or_eq_false_iff, decide_eq_false_iff_not]
  refine ⟨⟨?_, ?_⟩, ?_⟩ <;>
  · rintro rfl
    cases hspace

/-- Every text that begins with a slash is the target of a URL. -/
theorem targetPath_pathUrl (u : Unicode) (path : Text) :
    targetPath u (pathUrl path) = .ok ('/' :: path) := by
  have hclean : ∀ c ∈ pathUrl path, isUnsafeByte c = false := by
    have hstart : "http://h/".toList.all (fun c => !isUnsafeByte c) = true := by decide
    have hurl : pathUrl path = "http://h/".toList ++ encoded path := rfl
    intro c hc
    rw [hurl] at hc
    rcases List.mem_append.mp hc with hc | hc
    · simpa using List.all_eq_true.mp hstart c hc
    · exact isUnsafeByte_of_isEncodedChar (isEncodedChar_of_mem hc)
  have hnetloc : ∀ c ∈ ['h'], inNetloc c = true := fun c hc => by
    rw [List.mem_singleton.mp hc]
    rfl
  have hchars (c : Char) (hc : isEncodedChar c = false) : c ∉ '/' :: encoded path := by
    rw [← encoded_slash]
    exact not_mem_encoded hc ('/' :: path)
  have hsplit : urlsplit u (pathUrl path) = .ok
      { scheme := "http".toList, netloc := ['h'], path := '/' :: encoded path, query := [],
        fragment := [] } := by
    rw [pathUrl, urlsplit_httpUrl (List.mem_cons_self ..) hnetloc hclean,
      before_of_not_mem (hchars '#' (by decide)), after_of_not_mem (hchars '#' (by decide)),
      before_of_not_mem (hchars '?' (by decide)), after_of_not_mem (hchars '?' (by decide))]
    rfl
  rw [targetPath, hsplit, Except.map]
  dsimp only
  rw [← encoded_slash, unquote_encoded, if_pos rfl, if_neg (List.cons_ne_nil _ _)]

/-! ## The rule -/

theorem literalPath_slash (path : Text) : ∃ rest, literalPath ('/' :: path) = '/' :: rest := by
  unfold literalPath
  split
  · rename_i hend
    cases path with
    | nil => exact absurd hend (by decide)
    | cons c path => exact ⟨(c :: path).dropLast, rfl⟩
  · exact ⟨path, rfl⟩

/-- Without a star or an anchor a path stands for what begins with it. -/
theorem matches_literal {path target : Text} (hstar : '*' ∉ path) (hend : path.getLast? ≠ some '$') :
    reMatch (rulePattern path) target = true ↔ path <+: target := by
  have hanchored : anchored path = false := by simpa [anchored] using hend
  have hliteral : literalPath path = path := by rw [literalPath, hanchored]; rfl
  rw [reMatch_rulePattern, hliteral]
  constructor
  · rintro ⟨w, rest, rfl, hw, -⟩
    rw [hw.eq_of_not_mem hstar]
    exact List.prefix_append _ _
  · rintro ⟨rest, rfl⟩
    exact ⟨path, rest, rfl, Glob.matches_self hstar, fun h => by rw [hanchored] at h; cases h⟩

/-- With one it also stands for a shorter text. -/
theorem matches_shorter (path : Text) :
    reMatch (rulePattern path) ((literalPath path).filter (· ≠ '*')) = true :=
  reMatch_rulePattern.mpr
    ⟨_, [], (List.append_nil _).symm, Glob.matches_filter _, fun _ => .inl rfl⟩

theorem length_shorter {path : Text} (h : '*' ∈ path ∨ path.getLast? = some '$') :
    ((literalPath path).filter (· ≠ '*')).length < path.length := by
  by_cases hend : anchored path = true
  · have hliteral : literalPath path = path.dropLast := if_pos hend
    have hne : path ≠ [] := by
      rintro rfl
      cases hend
    have hfilter := List.length_filter_le (· ≠ '*') path.dropLast
    have hlength := List.length_pos_iff.mpr hne
    rw [List.length_dropLast] at hfilter
    rw [hliteral]
    omega
  · have hliteral : literalPath path = path := if_neg hend
    have hstar : '*' ∈ path := h.resolve_right fun hlast => hend (decide_eq_true hlast)
    rw [hliteral, List.length_filter_lt_length_iff_exists]
    exact ⟨'*', hstar, by decide⟩

/-- The group of the one line `Disallow: enc(p)` forbids exactly the URLs whose decoded path and query
begin with `p`, if `p` has no star and does not end in a `$`, and only then. -/
theorem disallow_literal {δ : Type} (u : Unicode) (float : Floats δ) (path : Text) :
    (∀ url target, targetPath u url = .ok target →
      ((governed (records u float [disallowLine ('/' :: path)])).allows u url = .ok false ↔
        '/' :: path <+: target)) ↔
      '*' ∉ '/' :: path ∧ ('/' :: path).getLast? ≠ some '$' := by
  have hallows {url target : Text} (htarget : targetPath u url = .ok target) :
      (governed (records u float [disallowLine ('/' :: path)])).allows u url = .ok false ↔
        reMatch (rulePattern ('/' :: path)) target = true := by
    have hdecision : (RobotsTxt.ofRules [("disallow".toList, encoded ('/' :: path))]
        (none : Option δ)).decide target = true ↔ ¬reMatch (rulePattern ('/' :: path)) target = true := by
      rw [decision_disallow, unquote_encoded]
      rw [unquote_encoded]
      exact List.cons_ne_nil _ _
    rw [governed_disallow, RobotsTxt.allows, htarget, Except.map, Except.ok.injEq, ← Bool.not_eq_true,
      hdecision, not_not]
  constructor
  · intro hall
    rw [← not_or]
    intro hspecial
    obtain ⟨rest, hrest⟩ := literalPath_slash path
    have hmatch := matches_shorter ('/' :: path)
    have hlength := length_shorter hspecial
    have hslash : ('/' :: rest).filter (· ≠ '*') = '/' :: rest.filter (· ≠ '*') := rfl
    rw [hrest, hslash] at hmatch hlength
    have htarget := targetPath_pathUrl u (rest.filter (· ≠ '*'))
    have hbegins := (hall _ _ htarget).mp ((hallows htarget).mpr hmatch)
    exact absurd hbegins.length_le (not_le.mpr hlength)
  · rintro ⟨hstar, hend⟩ url target htarget
    rw [hallows htarget, matches_literal hstar hend]

/-- A URL without a star is forbidden by a rule for a path with one. -/
theorem disallow_star :
    disallowLine "/a*b".toList = "Disallow: /a%2Ab".toList ∧
      targetPath .ascii "http://h/axb".toList = .ok "/axb".toList ∧
      (RobotsTxt.new .ascii digitFloats "User-agent: *\nDisallow: /a%2Ab\n".toList
        "bot/1.0".toList).allows .ascii "http://h/axb".toList = .ok false ∧
      ¬"/a*b".toList <+: "/axb".toList := by
  decide +kernel

end UrlCrawler
