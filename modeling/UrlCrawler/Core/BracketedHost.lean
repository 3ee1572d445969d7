import UrlCrawler.Core.NormalForm

/-! # IP literals in lower case

`urlsplit` checks what stands in the brackets of an authority: an IPv6 address, perhaps with a zone, or
an IPvFuture literal. `normalize` lowers that host, and the check still accepts it.
-/
set_option autoImplicit false

namespace UrlCrawler
variable {u : Unicode}

/-! ## Lower case of ASCII letters -/

theorem isDigit_toLower (c : Char) : c.toLower.isDigit = c.isDigit := by
  rw [Bool.eq_iff_iff, isDigit_iff, isDigit_iff, Unicode.toNat_toLower]
  split <;> omega

theorem isHexDigit_toLower (c : Char) : isHexDigit c.toLower = isHexDigit c := by
  rw [Bool.eq_iff_iff, isHexDigit_iff, isHexDigit_iff, Unicode.toNat_toLower]
  split <;> omega

theorem toLower_of_isDigit {c : Char} (h : c.isDigit = true) : c.toLower = c := by
  have hdigit := (isDigit_iff c).mp h
  apply Char.toNat_inj.mp
  rw [Unicode.toNat_toLower, if_neg (by omega)]

/-- Only letters come from letters. -/
theorem toLower_eq_iff {c d : Char} (hletter : d.isLower = false) (hfix : d.toLower = d) :
    c.toLower = d ↔ c = d := by
  constructor
  · intro h
    rcases Unicode.isLower_or_eq_of_toLower c with hlower | heq
    · rw [h, hletter] at hlower
      exact Bool.noConfusion hlower
    · exact heq.symm.trans h
  · rintro rfl
    exact hfix

theorem hexValue_toLower {c : Char} (h : isHexDigit c = true) : hexValue c.toLower = hexValue c := by
  have hrange := (isHexDigit_iff c).mp h
  have hle : ∀ a b : Char, a ≤ b ↔ a.toNat ≤ b.toNat := fun _ _ => Iff.rfl
  have ha : 'a'.toNat = 97 := rfl
  have hA : 'A'.toNat = 65 := rfl
  unfold hexValue
  simp only [isDigit_toLower, hle, ha, hA, isDigit_iff, Unicode.toNat_toLower]
  split_ifs <;> omega

/-! ## Addresses -/

theorem splitOn_map_toLower {d : Char} (hletter : d.isLower = false) (hfix : d.toLower = d)
    (text : Text) :
    (text.map Char.toLower).splitOn d = (text.splitOn d).map (List.map Char.toLower) := by
  induction text with
  | nil => rfl
  | cons c text ih =>
    rw [List.map_cons, List.splitOn_cons_eq_if_modifyHead, List.splitOn_cons_eq_if_modifyHead, ih]
    have hsame : (c.toLower == d) = (c == d) := by
      rw [Bool.eq_iff_iff, beq_iff_eq, beq_iff_eq, toLower_eq_iff hletter hfix]
    rw [hsame]
    split
    · rfl
    · cases text.splitOn d <;> rfl

theorem all_map_toLower {p : Char → Bool} (hp : ∀ c, p c.toLower = p c) (text : Text) :
    (text.map Char.toLower).all p = text.all p := by
  rw [List.all_map]
  congr 1
  funext c
  exact hp c

theorem map_toLower_of_fixed {text : Text} (h : ∀ c ∈ text, c.toLower = c) :
    text.map Char.toLower = text :=
  (List.map_congr_left h).trans (List.map_id text)

theorem parseOctet_map_toLower (octet : Text) :
    parseOctet (octet.map Char.toLower) = parseOctet octet := by
  cases hdigits : octet.all Char.isDigit with
  | true =>
    rw [map_toLower_of_fixed fun c hc => toLower_of_isDigit (List.all_eq_true.mp hdigits c hc)]
  | false =>
    simp [parseOctet, all_map_toLower isDigit_toLower, hdigits]

theorem ipv4Address_map_toLower (text : Text) :
    ipv4Address (text.map Char.toLower) = ipv4Address text := by
  rw [ipv4Address, splitOn_map_toLower (by decide) (by decide), List.mapM_map]
  congr 1
  congr 1
  funext octet
  exact parseOctet_map_toLower octet

theorem readHex_map_toLower {text : Text} (h : text.all isHexDigit = true) :
    readHex (text.map Char.toLower) = readHex text := by
  unfold readHex
  rw [List.foldl_map]
  refine List.foldl_ext _ _ _ fun n c hc => ?_
  rw [hexValue_toLower (List.all_eq_true.mp h c hc)]

theorem parseHextet_map_toLower (hextet : Text) :
    parseHextet (hextet.map Char.toLower) = parseHextet hextet := by
  cases hhex : hextet.all isHexDigit with
  | true =>
    simp [parseHextet, all_map_toLower isHexDigit_toLower, hhex, readHex_map_toLower hhex]
  | false =>
    simp [parseHextet, all_map_toLower isHexDigit_toLower, hhex]

theorem toLower_of_mem_toDigits {n : ℕ} : ∀ c ∈ Nat.toDigits 16 n, c.toLower = c := by
  induction n using Nat.strongRecOn with
  | ind n ih =>
    have hdigit : ∀ d < 16, d.digitChar.toLower = d.digitChar := by decide
    intro c hc
    rw [Nat.toDigits_eq_if (by norm_num)] at hc
    split at hc
    · rename_i hlt
      rw [List.mem_singleton.mp hc]
      exact hdigit n hlt
    · rename_i hge
      rcases List.mem_append.mp hc with hc | hc
      · exact ih (n / 16) (by omega) c hc
      · rw [List.mem_singleton.mp hc]
        exact hdigit _ (Nat.mod_lt _ (by norm_num))

theorem getLastD_map_toLower (parts : List Text) :
    (parts.map (List.map Char.toLower)).getLastD [] = (parts.getLastD []).map Char.toLower := by
  rw [List.getLastD_eq_getLast?, List.getLastD_eq_getLast?, List.getLast?_map]
  cases parts.getLast? <;> rfl

theorem headD_map_toLower (parts : List Text) :
    (parts.map (List.map Char.toLower)).headD [] = (parts.headD []).map Char.toLower := by
  cases parts <;> rfl

theorem mem_map_toLower {d : Char} (hletter : d.isLower = false) (hfix : d.toLower = d) {text : Text} :
    d ∈ text.map Char.toLower ↔ d ∈ text := by
  simp [toLower_eq_iff hletter hfix]

theorem ipv6Parts_map_toLower (text : Text) :
    ipv6Parts (text.map Char.toLower) =
      (ipv6Parts text).map fun parts => parts.map (List.map Char.toLower) := by
  have hdigits : ∀ n, (Nat.toDigits 16 n).map Char.toLower = Nat.toDigits 16 n := fun n =>
    map_toLower_of_fixed toLower_of_mem_toDigits
  simp only [ipv6Parts, splitOn_map_toLower (d := ':') (by decide) (by decide), List.length_map,
    getLastD_map_toLower, mem_map_toLower (d := '.') (by decide) (by decide),
    ipv4Address_map_toLower]
  split_ifs
  · rfl
  · cases ipv4Address ((text.splitOn ':').getLastD []) with
    | none => rfl
    | some n => simp [List.map_dropLast, hdigits]
  · rfl

/-- The hextets of an IPv6 address, zeros put in for the part that is skipped. -/
def hextetsOf (parts : List Text) : Option (List ℕ) :=
  if 9 < parts.length then none else
  let first := parts.headD []
  let last := parts.getLastD []
  let skips := (List.range parts.length).filter fun i =>
    0 < i && i + 1 < parts.length && parts[i]? = some []
  match skips with
  | [] => if parts.length = 8 && first ≠ [] && last ≠ [] then parts.mapM parseHextet else none
  | [skip] =>
    let hi := if first = [] then skip - 1 else skip
    let lo := parts.length - skip - if last = [] then 2 else 1
    if (first = [] && hi ≠ 0) || (last = [] && lo ≠ 0) || 8 ≤ hi + lo then none
    else do
      let high ← (parts.take hi).mapM parseHextet
      let low ← (parts.drop (parts.length - lo)).mapM parseHextet
      some (high ++ List.replicate (8 - (hi + lo)) 0 ++ low)
  | _ => none

/-- A text that a zone can follow. -/
def badZone (text : Text) : Bool :=
  '/' ∈ text || ('%' ∈ text && (after '%' text = [] || '%' ∈ after '%' text))

theorem isSome_ipv6Address (text : Text) : (ipv6Address text).isSome = true ↔
    badZone text = false ∧ ∃ parts, ipv6Parts (before '%' text) = some parts ∧
      (hextetsOf parts).isSome = true := by
  have hzone : ipv6Address text = if badZone text then none else
      (ipv6Parts (before '%' text)).bind fun parts =>
        (hextetsOf parts).map (List.foldl (fun n hextet => 65536 * n + hextet) 0) := by
    unfold ipv6Address badZone
    dsimp only
    split
    · rfl
    · cases ipv6Parts (before '%' text) with
      | none => rfl
      | some parts =>
        unfold hextetsOf
        simp only [Option.bind_eq_bind, Option.bind_some]
        split
        · rfl
        · generalize (List.range parts.length).filter _ = skips
          rcases skips with _ | ⟨skip, _ | ⟨next, skips⟩⟩
          · dsimp only
            rw [apply_ite (Option.map _), Option.map_eq_bind]
            rfl
          · dsimp only
            rw [apply_ite (Option.map _)]
            congr 1
            simp [Option.map_eq_bind, Option.bind_assoc]
          · rfl
  rw [hzone]
  cases badZone text with
  | true => simp
  | false => cases ipv6Parts (before '%' text) <;> simp

theorem hextetsOf_map_toLower (parts : List Text) :
    hextetsOf (parts.map (List.map Char.toLower)) = hextetsOf parts := by
  have hparse : ∀ l : List Text, (l.map (List.map Char.toLower)).mapM parseHextet =
      l.mapM parseHextet := by
    intro l
    rw [List.mapM_map]
    congr 1
    funext hextet
    exact parseHextet_map_toLower hextet
  have hempty : ∀ i : ℕ, ((parts.map (List.map Char.toLower))[i]? = some ([] : Text)) =
      (parts[i]? = some ([] : Text)) := by
    intro i
    simp
  simp only [hextetsOf, List.length_map, headD_map_toLower, getLastD_map_toLower, hparse, hempty,
    List.map_eq_nil_iff, ← List.map_take, ← List.map_drop, ne_eq]

theorem isSome_of_mapM {α β : Type} {f : α → Option β} {l : List α}
    (h : (l.mapM f).isSome = true) : ∀ a ∈ l, (f a).isSome = true := by
  induction l with
  | nil => simp
  | cons a l ih =>
    rw [List.mapM_cons] at h
    cases ha : f a with
    | none => simp [ha] at h
    | some b =>
      cases hl : l.mapM f with
      | none => simp [ha, hl] at h
      | some bs =>
        rw [hl] at ih
        rw [List.forall_mem_cons, ha]
        exact ⟨rfl, ih rfl⟩

/-- Every part of an IPv6 address is read, or stands empty beside the part that is skipped. -/
theorem parseHextet_of_hextetsOf {parts : List Text} (h : (hextetsOf parts).isSome = true) :
    ∀ part ∈ parts, part = [] ∨ (parseHextet part).isSome = true := by
  unfold hextetsOf at h
  dsimp only at h
  split at h
  · cases h
  generalize hskips : (List.range parts.length).filter _ = skips at h
  rcases skips with _ | ⟨skip, _ | ⟨next, skips⟩⟩
  · dsimp only at h
    split at h
    · exact fun part hpart => .inr (isSome_of_mapM h part hpart)
    · cases h
  · dsimp only at h
    generalize hhi : (if parts.headD [] = [] then skip - 1 else skip) = hi at h
    generalize hlo : (parts.length - skip - if parts.getLastD [] = [] then 2 else 1) = lo at h
    split at h
    · cases h
    rename_i hcond
    simp only [Bool.or_eq_true, Bool.and_eq_true, decide_eq_true_eq, not_or, not_and, ne_eq,
      not_not] at hcond
    obtain ⟨⟨hfirst, hlast⟩, -⟩ := hcond
    have hskip : skip ∈ [skip] := List.mem_singleton_self skip
    rw [← hskips, List.mem_filter] at hskip
    simp only [List.mem_range, Bool.and_eq_true, decide_eq_true_eq] at hskip
    obtain ⟨hlt, ⟨hpos, hinner⟩, hempty⟩ := hskip
    cases hhigh : (parts.take hi).mapM parseHextet with
    | none => simp [hhigh] at h
    | some high =>
      cases hlow : (parts.drop (parts.length - lo)).mapM parseHextet with
      | none => simp [hhigh, hlow] at h
      | some low =>
        intro part hpart
        obtain ⟨i, hi', rfl⟩ := List.mem_iff_getElem.mp hpart
        by_cases hhead : i < hi
        · have hmem : parts[i] ∈ parts.take hi := List.mem_take_iff_getElem.mpr ⟨i, by omega, rfl⟩
          exact .inr (isSome_of_mapM (by rw [hhigh]; rfl) _ hmem)
        by_cases htail : parts.length - lo ≤ i
        · have hmem : parts[i] ∈ parts.drop (parts.length - lo) := by
            rw [List.mem_drop_iff_getElem]
            refine ⟨i - (parts.length - lo), by omega, ?_⟩
            congr 1
            omega
          exact .inr (isSome_of_mapM (by rw [hlow]; rfl) _ hmem)
        -- what is left is the skipped part, and an empty first or last part beside it
        left
        have hedge : i = skip ∨ i = 0 ∧ parts.headD [] = [] ∨
            i + 1 = parts.length ∧ parts.getLastD [] = [] := by
          rcases lt_trichotomy i skip with hlt' | heq | hgt
          · split at hhi
            · rename_i hnil
              have hzero := hfirst hnil
              exact .inr (.inl ⟨by omega, hnil⟩)
            · omega
          · exact .inl heq
          · split at hlo
            · rename_i hnil
              have hzero := hlast hnil
              exact .inr (.inr ⟨by omega, hnil⟩)
            · omega
        rcases hedge with rfl | ⟨rfl, hnil⟩ | ⟨hlen, hnil⟩
        · rw [List.getElem?_eq_getElem hi'] at hempty
          exact Option.some.inj hempty
        · rw [List.headD_eq_head?_getD, List.head?_eq_getElem?, List.getElem?_eq_getElem hi'] at hnil
          exact hnil
        · have hlen' : parts.length - 1 = i := by omega
          rw [List.getLastD_eq_getLast?, List.getLast?_eq_getElem?, hlen',
            List.getElem?_eq_getElem hi'] at hnil
          exact hnil
  · cases h

theorem mem_of_ipv4Address {text : Text} (h : (ipv4Address text).isSome = true) {c : Char}
    (hc : c ∈ text) : c = '.' ∨ c.isDigit = true := by
  have hjoined : ['.'].intercalate (text.splitOn '.') = text := List.intercalate_splitOn '.'
  rw [← hjoined] at hc
  rcases mem_intercalate hc with hdot | ⟨octet, hoctet, hmem⟩
  · exact .inl hdot
  · right
    cases hall : (text.splitOn '.').mapM parseOctet with
    | none => simp [ipv4Address, hall] at h
    | some octets =>
      have hparsed := isSome_of_mapM (by rw [hall]; rfl) octet hoctet
      unfold parseOctet at hparsed
      split at hparsed
      · rename_i hgood
        simp only [Bool.and_eq_true] at hgood
        exact List.all_eq_true.mp hgood.1.1.1.2 c hmem
      · cases hparsed

theorem mem_of_parseHextet {hextet : Text} (h : (parseHextet hextet).isSome = true) {c : Char}
    (hc : c ∈ hextet) : isHexDigit c = true := by
  unfold parseHextet at h
  split at h
  · rename_i hgood
    simp only [Bool.and_eq_true] at hgood
    exact List.all_eq_true.mp hgood.1.2 c hc
  · cases h

theorem isHexDigit_of_isDigit {c : Char} (h : c.isDigit = true) : isHexDigit c = true := by
  rw [isHexDigit_iff]
  exact .inl ((isDigit_iff c).mp h)

/-- An IPv6 address is written in hexadecimal digits, colons and dots. -/
theorem mem_of_hextetsOf {text : Text} {parts : List Text} (hparts : ipv6Parts text = some parts)
    (h : (hextetsOf parts).isSome = true) {c : Char} (hc : c ∈ text) :
    c = ':' ∨ c = '.' ∨ isHexDigit c = true := by
  have hjoined : [':'].intercalate (text.splitOn ':') = text := List.intercalate_splitOn ':'
  rw [← hjoined] at hc
  rcases mem_intercalate hc with hcolon | ⟨piece, hpiece, hmem⟩
  · exact .inl hcolon
  right
  have hread : ∀ part ∈ parts, c ∈ part → isHexDigit c = true := by
    intro part hpart hmem
    rcases parseHextet_of_hextetsOf h part hpart with rfl | hparsed
    · cases hmem
    · exact mem_of_parseHextet hparsed hmem
  unfold ipv6Parts at hparts
  dsimp only at hparts
  split at hparts
  · cases hparts
  split at hparts
  · obtain ⟨n, hn, rfl⟩ := Option.map_eq_some_iff.mp hparts
    rw [← List.dropLast_append_getLast (List.splitOn_ne_nil ':' text)] at hpiece
    rcases List.mem_append.mp hpiece with hinit | hlast
    · exact .inr (hread piece (List.mem_append_left _ hinit) hmem)
    · rw [List.mem_singleton.mp hlast] at hmem
      have hlast' : (text.splitOn ':').getLastD [] =
          (text.splitOn ':').getLast (List.splitOn_ne_nil ':' text) := by
        rw [List.getLastD_eq_getLast?, List.getLast?_eq_some_getLast (List.splitOn_ne_nil ':' text)]
        rfl
      rw [hlast'] at hn
      exact (mem_of_ipv4Address (by rw [hn]; rfl) hmem).imp_right isHexDigit_of_isDigit
  · obtain rfl := Option.some.inj hparts
    exact .inr (hread piece hpiece hmem)

theorem isAscii_of_hextetsOf {text : Text} {parts : List Text} (hparts : ipv6Parts text = some parts)
    (h : (hextetsOf parts).isSome = true) {c : Char} (hc : c ∈ text) : isAscii c = true := by
  rcases mem_of_hextetsOf hparts h hc with rfl | rfl | hhex
  · decide
  · decide
  · exact isAscii_of_isHexDigit hhex

theorem colon_mem_of_ipv6Parts {text : Text} {parts : List Text}
    (h : ipv6Parts text = some parts) : ':' ∈ text := by
  by_contra hcolon
  have hone : (text.splitOn ':').length = 1 := by
    rw [List.splitOn_eq_singleton hcolon]
    rfl
  unfold ipv6Parts at h
  dsimp only at h
  rw [if_pos (by omega)] at h
  cases h

/-! ## What stands in brackets -/

theorem isIpvFuture_iff {text : Text} : isIpvFuture text = true ↔
    ∃ version body, text = 'v' :: (version ++ '.' :: body) ∧ version ≠ [] ∧
      (∀ c ∈ version, isHexDigit c = true) ∧ body ≠ [] ∧ '\n' ∉ body := by
  constructor
  · intro h
    unfold isIpvFuture at h
    split at h
    · rename_i rest
      split at h
      · rename_i first version c body hspan
        rw [List.span_eq_takeWhile_dropWhile, Prod.mk.injEq] at hspan
        refine ⟨first :: version, c :: body, ?_, List.cons_ne_nil _ _, fun d hd => ?_,
          List.cons_ne_nil _ _, fun hline => ?_⟩
        · rw [← hspan.1, ← hspan.2, List.takeWhile_append_dropWhile]
        · rw [← hspan.1] at hd
          exact List.mem_takeWhile_imp hd
        · simpa using List.all_eq_true.mp h _ hline
      · cases h
    · cases h
  · rintro ⟨version, body, rfl, hversion, hhex, hbody, hline⟩
    obtain ⟨first, version, rfl⟩ := List.exists_cons_of_ne_nil hversion
    obtain ⟨c, body, rfl⟩ := List.exists_cons_of_ne_nil hbody
    have hspan : (first :: version ++ '.' :: c :: body).span isHexDigit =
        (first :: version, '.' :: c :: body) := by
      rw [List.span_eq_takeWhile_dropWhile, List.takeWhile_append_of_pos hhex,
        List.dropWhile_append_of_pos hhex, List.takeWhile_cons_of_neg (by decide),
        List.dropWhile_cons_of_neg (by decide), List.append_nil]
    unfold isIpvFuture
    simp only [hspan]
    refine List.all_eq_true.mpr fun d hd => ?_
    rw [decide_eq_true_eq]
    rintro rfl
    exact hline hd

/-- The host of an authority as `normalize` writes it: lowered by `hostname` up to a zone, and then
as a whole. -/
def loweredHost (u : Unicode) (raw : Text) : Text :=
  u.lower (u.lower (before '%' raw) ++ raw.dropWhile (· ≠ '%'))

theorem isAscii_toLower {c : Char} (h : isAscii c = true) : isAscii c.toLower = true := by
  rw [isAscii, decide_eq_true_eq] at h ⊢
  rw [Unicode.toNat_toLower]
  split <;> omega

theorem forall_mem_map_toLower {a : Text} (h : ∀ c ∈ a, isAscii c = true) :
    ∀ c ∈ a.map Char.toLower, isAscii c = true := by
  intro c hc
  obtain ⟨d, hd, rfl⟩ := List.mem_map.mp hc
  exact isAscii_toLower (h d hd)

theorem map_toLower_map_toLower (a : Text) :
    (a.map Char.toLower).map Char.toLower = a.map Char.toLower := by
  rw [List.map_map]
  exact List.map_congr_left fun c _ => Unicode.toLower_toLower c

/-- A host that begins in ASCII does so in lower case. -/
theorem loweredHost_append {a : Text} (ha : ∀ c ∈ a, isAscii c = true) (hzone : '%' ∉ a) (b : Text) :
    ∃ b', loweredHost u (a ++ b) = a.map Char.toLower ++ b' ∧ (b' = [] ↔ b = []) ∧
      ∀ d, isAscii d = true → d.isLower = false → d ∈ b' → d ∈ b := by
  have hkeep : ∀ c ∈ a, (c ≠ '%') = true := by
    intro c hc
    simpa using fun he : c = '%' => hzone (he ▸ hc)
  have hbefore : before '%' (a ++ b) = a ++ before '%' b :=
    List.takeWhile_append_of_pos fun c hc => by simpa using hkeep c hc
  have hafter : (a ++ b).dropWhile (· ≠ '%') = b.dropWhile (· ≠ '%') :=
    List.dropWhile_append_of_pos fun c hc => by simpa using hkeep c hc
  refine ⟨u.lowerFrom (a.map Char.toLower).reverse
    (u.lowerFrom a.reverse (before '%' b) ++ b.dropWhile (· ≠ '%')), ?_, ?_, ?_⟩
  · rw [loweredHost, hbefore, hafter, Unicode.lower_append ha, List.append_assoc,
      Unicode.lower_append (forall_mem_map_toLower ha), map_toLower_map_toLower]
  · constructor
    · intro hnil
      by_contra hb
      refine Unicode.lowerFrom_ne_nil ?_ hnil
      intro hparts
      obtain ⟨hfront, hback⟩ := List.append_eq_nil_iff.mp hparts
      have hbefore' : before '%' b = [] := by
        by_contra hne
        exact Unicode.lowerFrom_ne_nil hne hfront
      apply hb
      rw [← List.takeWhile_append_dropWhile (p := (· ≠ '%')) (l := b), hback, List.append_nil]
      exact hbefore'
    · rintro rfl
      rfl
  · intro d hascii hletter hd
    rcases List.mem_append.mp (Unicode.mem_of_mem_lowerFrom hascii hletter hd) with hd | hd
    · exact before_subset '%' b (Unicode.mem_of_mem_lowerFrom hascii hletter hd)
    · exact (List.dropWhile_suffix _).subset hd

theorem isIpvFuture_loweredHost {raw : Text} (h : isIpvFuture raw = true) :
    isIpvFuture (loweredHost u raw) = true := by
  obtain ⟨version, body, rfl, hversion, hhex, hbody, hline⟩ := isIpvFuture_iff.mp h
  have hascii : ∀ c ∈ 'v' :: (version ++ ['.']), isAscii c = true := by
    intro c hc
    rcases List.mem_cons.mp hc with rfl | hc
    · decide
    rcases List.mem_append.mp hc with hc | hc
    · exact isAscii_of_isHexDigit (hhex c hc)
    · rw [List.mem_singleton.mp hc]
      decide
  have hzone : '%' ∉ 'v' :: (version ++ ['.']) := by
    intro hmem
    rcases List.mem_append.mp ((List.mem_cons.mp hmem).resolve_left (by decide)) with hc | hc
    · exact absurd (hhex '%' hc) (by decide)
    · exact absurd hc (by decide)
  obtain ⟨body', heq, hnil, hmem⟩ := loweredHost_append (u := u) hascii hzone body
  have hsplit : 'v' :: (version ++ '.' :: body) = ('v' :: (version ++ ['.'])) ++ body := by simp
  rw [hsplit, heq]
  refine isIpvFuture_iff.mpr ⟨version.map Char.toLower, body', ?_, ?_, ?_, ?_, ?_⟩
  · have hv : 'v'.toLower = 'v' := by decide
    have hdot : '.'.toLower = '.' := by decide
    simp [hv, hdot]
  · exact fun hmap => hversion (List.map_eq_nil_iff.mp hmap)
  · intro c hc
    obtain ⟨d, hd, rfl⟩ := List.mem_map.mp hc
    rw [isHexDigit_toLower]
    exact hhex d hd
  · exact fun hempty => hbody (hnil.mp hempty)
  · exact fun hmem' => hline (hmem '\n' (by decide) (by decide) hmem')

/-- Lowered, an IPv6 address keeps its digits, and its zone stays one. -/
theorem isSome_ipv6Address_loweredHost {raw : Text} (h : (ipv6Address raw).isSome = true) :
    (ipv6Address (loweredHost u raw)).isSome = true := by
  obtain ⟨hzone, parts, hparts, hhextets⟩ := (isSome_ipv6Address raw).mp h
  have hascii : ∀ c ∈ before '%' raw, isAscii c = true := fun c hc =>
    isAscii_of_hextetsOf hparts hhextets hc
  have hmark : '%' ∉ (before '%' raw).map Char.toLower := by
    rw [mem_map_toLower (by decide) (by decide)]
    exact not_mem_before '%' raw
  have hlow : ipv6Parts ((before '%' raw).map Char.toLower) =
      some (parts.map (List.map Char.toLower)) := by
    rw [ipv6Parts_map_toLower, hparts, Option.map_some]
  refine (isSome_ipv6Address _).mpr ?_
  have hslash : '/' ∉ raw := by
    intro hmem
    simp [badZone, hmem] at hzone
  have haddress : u.lower (before '%' raw) = (before '%' raw).map Char.toLower :=
    Unicode.lower_ascii hascii
  by_cases hpercent : '%' ∈ raw
  · have hscope : after '%' raw ≠ [] ∧ '%' ∉ after '%' raw := by
      simpa [badZone, hslash, hpercent] using hzone
    have hdrop : raw.dropWhile (· ≠ '%') = '%' :: after '%' raw := by
      have hraw := before_append_after hpercent
      rw [before] at hraw
      exact (List.append_cancel_left
        ((List.takeWhile_append_dropWhile (p := (· ≠ '%')) (l := raw)).trans hraw))
    have hstart : ∀ c ∈ (before '%' raw).map Char.toLower ++ ['%'], isAscii c = true := by
      intro c hc
      rcases List.mem_append.mp hc with hc | hc
      · exact forall_mem_map_toLower hascii c hc
      · rw [List.mem_singleton.mp hc]
        decide
    obtain ⟨scope, heq⟩ : ∃ scope, scope = u.lowerFrom
        ((before '%' raw).map Char.toLower ++ ['%']).reverse (after '%' raw) := ⟨_, rfl⟩
    have hlowered : loweredHost u raw = (before '%' raw).map Char.toLower ++ '%' :: scope := by
      have hpercent' : '%'.toLower = '%' := by decide
      rw [loweredHost, haddress, hdrop, List.append_cons, Unicode.lower_append hstart, ← heq,
        List.map_append, map_toLower_map_toLower, List.append_assoc]
      simp [hpercent']
    have hmem : ∀ d, isAscii d = true → d.isLower = false → d ∈ scope → d ∈ after '%' raw := by
      intro d hd hletter hmem
      rw [heq] at hmem
      exact Unicode.mem_of_mem_lowerFrom hd hletter hmem
    have hnonempty : scope ≠ [] := heq ▸ Unicode.lowerFrom_ne_nil hscope.1
    rw [hlowered, before_append _ hmark]
    refine ⟨?_, _, hlow, by rw [hextetsOf_map_toLower, hhextets]⟩
    have hslash' : '/' ∉ (before '%' raw).map Char.toLower ++ '%' :: scope := by
      rw [List.mem_append, mem_map_toLower (by decide) (by decide), List.mem_cons, not_or, not_or]
      exact ⟨fun hc => hslash (before_subset '%' raw hc), by decide,
        fun hc => hslash (after_subset '%' raw (hmem '/' (by decide) (by decide) hc))⟩
    have hpercent' : '%' ∉ scope := fun hc => hscope.2 (hmem '%' (by decide) (by decide) hc)
    simp [badZone, hslash', after_append _ hmark, hnonempty, hpercent']
  · have hwhole : before '%' raw = raw := before_of_not_mem hpercent
    have hdrop : raw.dropWhile (· ≠ '%') = [] := by
      refine List.dropWhile_eq_nil_iff.mpr fun c hc => ?_
      simpa using fun he : c = '%' => hpercent (he ▸ hc)
    rw [hwhole] at haddress hmark hlow hascii
    have hlowered : loweredHost u raw = raw.map Char.toLower := by
      rw [loweredHost, hwhole, hdrop, haddress, List.append_nil,
        Unicode.lower_ascii (forall_mem_map_toLower hascii), map_toLower_map_toLower]
    rw [hlowered, before_of_not_mem hmark]
    refine ⟨?_, _, hlow, by rw [hextetsOf_map_toLower, hhextets]⟩
    have hslash' : '/' ∉ raw.map Char.toLower := by
      rw [mem_map_toLower (by decide) (by decide)]
      exact hslash
    simp only [badZone, Bool.or_eq_false_iff, Bool.and_eq_false_iff, decide_eq_false_iff_not]
    exact ⟨hslash', .inl hmark⟩

/-- An IPv6 address is neither an IPv4 address nor an IPvFuture literal. -/
theorem ne_of_ipv6Address {text : Text} (h : (ipv6Address text).isSome = true) :
    text.head? ≠ some 'v' ∧ ipv4Address text = none := by
  obtain ⟨-, parts, hparts, hhextets⟩ := (isSome_ipv6Address text).mp h
  constructor
  · intro hhead
    obtain ⟨rest, rfl⟩ := List.head?_eq_some_iff.mp hhead
    have hmem : 'v' ∈ before '%' ('v' :: rest) := by
      rw [before, List.takeWhile_cons_of_pos (by decide)]
      exact List.mem_cons_self ..
    rcases mem_of_hextetsOf hparts hhextets hmem with hv | hv | hv <;> revert hv <;> decide
  · by_contra hsome
    have hcolon := before_subset '%' text (colon_mem_of_ipv6Parts hparts)
    rcases mem_of_ipv4Address (Option.isSome_iff_ne_none.mpr hsome) hcolon with hc | hc <;>
      revert hc <;> decide

/-- The check of what stands in brackets accepts its lower case. -/
theorem checkBracketedHost_loweredHost {raw : Text} (h : checkBracketedHost u raw = .ok ()) :
    checkBracketedHost u (loweredHost u raw) = .ok () := by
  unfold checkBracketedHost at h
  split at h
  · split at h
    · rename_i hfuture
      have hlowered := isIpvFuture_loweredHost (u := u) hfuture
      obtain ⟨version, body, heq, -⟩ := isIpvFuture_iff.mp hlowered
      rw [checkBracketedHost, if_pos (by rw [heq]; rfl), if_pos hlowered]
    · cases h
  · split at h
    · cases h
    · split at h
      · rename_i hsome
        have hlowered := isSome_ipv6Address_loweredHost (u := u) hsome
        obtain ⟨hhead, hipv4⟩ := ne_of_ipv6Address hlowered
        rw [checkBracketedHost, if_neg hhead, hipv4, if_neg (by decide), if_pos hlowered]
      · cases h

end UrlCrawler
