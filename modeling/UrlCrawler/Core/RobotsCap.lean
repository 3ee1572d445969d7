import UrlCrawler.Core.RobotsLoading
import UrlCrawler.Core.RobotsRecords

/-! # The size cap of a robots.txt

A file longer than `MAX_ROBOTS_BYTES` is cut at a byte. The cut may fall inside a character, and then nothing
can be read; or inside a line, and then the parser reads what is left of it.
-/
set_option autoImplicit false

namespace UrlCrawler

/-! ## Bytes -/

/-- The bytes of a text in UTF-8. -/
def utf8 (text : Text) : List UInt8 := text.flatMap String.utf8EncodeChar

theorem utf8_append (a b : Text) : utf8 (a ++ b) = utf8 a ++ utf8 b := List.flatMap_append

theorem toByteArray_ofList_utf8 (text : Text) :
    (String.ofList text).toByteArray = ⟨(utf8 text).toArray⟩ := by
  rw [String.toByteArray_ofList]
  exact ByteArray.ext List.data_toByteArray

theorem fromUTF8_eq_some_iff {bytes : List UInt8} {text : Text} :
    (String.fromUTF8? ⟨bytes.toArray⟩).map String.toList = some text ↔ bytes = utf8 text := by
  rw [Option.map_eq_some_iff]
  constructor
  · rintro ⟨s, hs, rfl⟩
    rw [String.fromUTF8?] at hs
    split at hs
    · have hbytes := congrArg String.toByteArray (Option.some.inj hs)
      rw [← String.ofList_toList (s := s), toByteArray_ofList_utf8] at hbytes
      exact congrArg (fun b => b.data.toList) hbytes
    · cases hs
  · rintro rfl
    refine ⟨String.ofList text, ?_, String.toList_ofList⟩
    rw [← toByteArray_ofList_utf8, String.fromUTF8?, dif_pos (String.ofList text).isValidUTF8]
    rfl

/-- Texts are read from their bytes one character after the other. -/
theorem prefix_of_utf8_prefix {kept text : Text} (h : utf8 kept <+: utf8 text) : kept <+: text := by
  induction kept generalizing text with
  | nil => exact List.nil_prefix
  | cons c kept ih =>
    obtain ⟨more, hmore⟩ := h
    rw [utf8, List.flatMap_cons, List.append_assoc] at hmore
    cases text with
    | nil =>
      have hnil := congrArg List.length hmore
      have hpos := List.length_pos_of_ne_nil (String.utf8EncodeChar_ne_nil (c := c))
      rw [List.length_append] at hnil
      simp only [utf8, List.flatMap_nil, List.length_nil] at hnil
      omega
    | cons d text =>
      rw [utf8, List.flatMap_cons] at hmore
      have hc := utf8Char?_append c (kept.flatMap String.utf8EncodeChar ++ more)
      have hd := utf8Char?_append d (text.flatMap String.utf8EncodeChar)
      rw [hmore, hd] at hc
      obtain rfl := Option.some.inj hc
      exact List.cons_prefix_cons.mpr ⟨rfl, ih ⟨more, List.append_cancel_left hmore⟩⟩

def byteOrderMark : List UInt8 := [0xEF, 0xBB, 0xBF]

theorem decodeRobots_eq_some_iff {body : List UInt8} {text : Text} : decodeRobots body = some text ↔
    (if body.take 3 = byteOrderMark then body.drop 3 else body) = utf8 text :=
  fromUTF8_eq_some_iff

/-- What can be read of a file cut behind its byte order mark is a beginning of the file. -/
theorem prefix_of_decodeRobots {file : List UInt8} {text kept : Text} {n : ℕ} (hn : 3 ≤ n)
    (hfile : decodeRobots file = some text) (hkept : decodeRobots (file.take n) = some kept) :
    kept <+: text := by
  rw [decodeRobots_eq_some_iff] at hfile hkept
  rw [List.take_take, Nat.min_eq_left hn] at hkept
  refine prefix_of_utf8_prefix ?_
  rw [← hfile, ← hkept]
  split
  · rw [List.drop_take]
    exact List.take_prefix _ _
  · exact List.take_prefix _ _

/-! ## A record more -/

section Records
variable {δ : Type}

/-- A rule, or a delay above 0. -/
def Record.isDirective : Record δ → Bool
  | .rule _ | .delay (some _) => true
  | _ => false

/-- The policy applies what the record says. -/
def RobotsTxt.Applies (robots : RobotsTxt δ) : Record δ → Prop
  | .rule rule => rule ∈ robots.rules
  | .delay (some delay) => robots.crawlDelay = some delay
  | _ => False

theorem isAgent_of_isDirective {r : Record δ} (h : r.isDirective = true) : r.isAgent = false := by
  cases r with
  | agent name => cases h
  | _ => rfl

theorem applies_add {r : Record δ} (h : r.isDirective = true) (robots : RobotsTxt δ) :
    (robots.add r).Applies r := by
  match r with
  | .rule rule => exact List.mem_append_right _ (List.mem_singleton_self rule)
  | .delay (some delay) => rfl

theorem add_eq_self {r : Record δ} (h : r.isDirective = false) (robots : RobotsTxt δ) :
    robots.add r = robots := by
  match r with
  | .agent _ | .delay none | .other => rfl

theorem mem_of_applies {rs : List (Record δ)} {r : Record δ} {robots : RobotsTxt δ}
    (h : (rs.foldl RobotsTxt.add robots).Applies r) : robots.Applies r ∨ r ∈ rs := by
  induction rs generalizing robots with
  | nil => exact .inl h
  | cons r' rest ih =>
    rcases ih h with h | h
    · match r, r' with
      | .rule rule, .rule rule' =>
        rcases List.mem_append.mp h with h | h
        · exact .inl h
        · rw [List.mem_singleton.mp h]
          exact .inr (List.mem_cons_self ..)
      | .delay (some delay), .delay (some delay') =>
        rw [Option.some.inj h]
        exact .inr (List.mem_cons_self ..)
      | .rule _, .agent _ | .rule _, .delay none | .rule _, .delay (some _) | .rule _, .other
      | .delay (some _), .agent _ | .delay (some _), .rule _ | .delay (some _), .delay none
      | .delay (some _), .other => exact .inl h
    · exact .inr (List.mem_cons_of_mem _ h)

theorem not_applies_empty (r : Record δ) : ¬(RobotsTxt.empty : RobotsTxt δ).Applies r := by
  match r with
  | .rule rule => exact List.not_mem_nil
  | .delay (some delay) => nofun
  | .agent _ | .delay none | .other => exact id

theorem mem_of_mem_groupLines {following : List (Record δ)} {r : Record δ} (h : r ∈ groupLines following) :
    r ∈ following :=
  ((List.takeWhile_sublist _).trans (List.dropWhile_sublist _)).subset h

/-- The group is the last one, as far as the file has been read. -/
def IsOpen (following : List (Record δ)) : Prop :=
  ∀ r ∈ following.dropWhile Record.isAgent, r.isAgent = false

theorem groupLines_concat {following : List (Record δ)} {r : Record δ} (hopen : IsOpen following)
    (hr : r.isAgent = false) : groupLines (following ++ [r]) = groupLines following ++ [r] := by
  have hkeep : ∀ r' ∈ following.dropWhile Record.isAgent ++ [r], (!r'.isAgent) = true := by
    intro r' hr'
    rcases List.mem_append.mp hr' with h | h
    · rw [hopen r' h]
      rfl
    · rw [List.mem_singleton.mp h, hr]
      rfl
  have hdrop : (following ++ [r]).dropWhile Record.isAgent =
      following.dropWhile Record.isAgent ++ [r] := by
    rw [List.dropWhile_append]
    split
    · rename_i hempty
      rw [List.isEmpty_iff.mp hempty, List.dropWhile_cons, hr]
      rfl
    · rfl
  rw [groupLines, groupLines, hdrop, List.takeWhile_eq_self_iff.mpr hkeep,
    List.takeWhile_eq_self_iff.mpr fun r' h => hkeep r' (List.mem_append_left _ h)]

theorem groupLines_concat_of_closed {following : List (Record δ)} (hclosed : ¬IsOpen following)
    (r : Record δ) : groupLines (following ++ [r]) = groupLines following := by
  simp only [IsOpen, not_forall] at hclosed
  obtain ⟨r', hr', hagent⟩ := hclosed
  have hne : (following.dropWhile Record.isAgent).isEmpty = false := by
    rw [List.isEmpty_eq_false_iff]
    exact List.ne_nil_of_mem hr'
  have hshort : ((following.dropWhile Record.isAgent).takeWhile fun r => !r.isAgent).length ≠
      (following.dropWhile Record.isAgent).length := by
    intro hlength
    have hall := (List.takeWhile_sublist _).eq_of_length hlength
    have hkept := List.takeWhile_eq_self_iff.mp hall r' hr'
    exact hagent (by simpa using hkept)
  rw [groupLines, groupLines, List.dropWhile_append, hne, if_neg Bool.false_ne_true, List.takeWhile_append,
    if_neg hshort]

theorem groupLines_concat_agent (following : List (Record δ)) (name : Text) :
    groupLines (following ++ [.agent name]) = groupLines following := by
  by_cases hopen : IsOpen following
  · have hdrop : (following ++ [Record.agent name]).dropWhile Record.isAgent =
        following.dropWhile Record.isAgent ++ [.agent name] ∨
        (following ++ [Record.agent name]).dropWhile Record.isAgent =
          following.dropWhile Record.isAgent := by
      rw [List.dropWhile_append]
      split
      · rename_i hempty
        rw [List.isEmpty_iff.mp hempty]
        exact .inr rfl
      · exact .inl rfl
    have hkeep : ∀ r ∈ following.dropWhile Record.isAgent, (!r.isAgent) = true := by
      intro r hr
      rw [hopen r hr]
      rfl
    rw [groupLines, groupLines]
    rcases hdrop with hdrop | hdrop
    · rw [hdrop, List.takeWhile_append_of_pos hkeep, List.takeWhile_eq_self_iff.mpr hkeep]
      exact List.append_nil _
    · rw [hdrop]
  · exact groupLines_concat_of_closed hopen _

theorem agentNames_concat {r : Record δ} (h : r.isAgent = false) (rs : List (Record δ)) :
    agentNames (rs ++ [r]) = agentNames rs := by
  rw [agentNames, List.filterMap_append]
  cases r with
  | agent name => cases h
  | _ => exact List.append_nil _

/-- An agent that decides among many decides among fewer. -/
theorem Deciding.of_subset {token name : Text} {names names' : List Text}
    (h : Deciding token names' name) (hsubset : names ⊆ names') (hmem : name ∈ names) :
    Deciding token names name := by
  obtain ⟨-, ⟨haddr, hmax⟩ | ⟨hstar, hnone⟩⟩ := h
  · exact ⟨hmem, .inl ⟨haddr, fun other hother => hmax other (hsubset hother)⟩⟩
  · exact ⟨hmem, .inr ⟨hstar, fun other hother => hnone other (hsubset hother)⟩⟩

/-- Our group is the last one. -/
def OursOpen (token : Text) (rs : List (Record δ)) : Prop :=
  ∃ name before following, Deciding token (agentNames rs) name ∧
    rs = before ++ .agent name :: following ∧ Record.agent name ∉ before ∧ IsOpen following

variable {u : Unicode} {float : Floats δ} {body body' userAgent : Text}

theorem new_congr (h : bodyRecords u float body' = bodyRecords u float body) (userAgent : Text) :
    RobotsTxt.new u float body' userAgent = RobotsTxt.new u float body userAgent := by
  rw [new_eq, new_eq, h]

theorem mem_of_applies_new {r : Record δ} (h : (RobotsTxt.new u float body userAgent).Applies r) :
    r ∈ bodyRecords u float body := by
  by_cases hdecides : ∃ name,
      Deciding (productToken u userAgent) (agentNames (bodyRecords u float body)) name
  · obtain ⟨name, hname⟩ := hdecides
    obtain ⟨before, following, hbody, hfirst⟩ := exists_first hname
    rw [new_of_deciding u float hbody hfirst hname] at h
    rw [hbody]
    refine List.mem_append_right _ (List.mem_cons_of_mem _ (mem_of_mem_groupLines ?_))
    exact (mem_of_applies h).resolve_left (not_applies_empty r)
  · rw [new_of_none u float fun name hname => hdecides ⟨name, hname⟩] at h
    exact absurd h (not_applies_empty r)

/-- A record of our group, at the end of the file. -/
theorem new_concat {r : Record δ} (hr : r.isAgent = false)
    (hbody : bodyRecords u float body' = bodyRecords u float body ++ [r])
    (hopen : OursOpen (productToken u userAgent) (bodyRecords u float body)) :
    RobotsTxt.new u float body' userAgent = (RobotsTxt.new u float body userAgent).add r := by
  obtain ⟨name, before, following, hname, hsplit, hfirst, hlast⟩ := hopen
  have hsplit' : bodyRecords u float body' = before ++ .agent name :: (following ++ [r]) := by
    rw [hbody, hsplit, List.append_assoc]
    rfl
  have hname' : Deciding (productToken u userAgent) (agentNames (bodyRecords u float body')) name := by
    rwa [hbody, agentNames_concat hr]
  rw [new_of_deciding u float hsplit' hfirst hname', new_of_deciding u float hsplit hfirst hname, governed,
    groupLines_concat hlast hr, List.foldl_append]
  rfl

/-- A record of another group, at the end of the file. -/
theorem new_concat_of_closed {r : Record δ} (hr : r.isAgent = false)
    (hbody : bodyRecords u float body' = bodyRecords u float body ++ [r])
    (hclosed : ¬OursOpen (productToken u userAgent) (bodyRecords u float body)) :
    RobotsTxt.new u float body' userAgent = RobotsTxt.new u float body userAgent := by
  have hnames : agentNames (bodyRecords u float body') = agentNames (bodyRecords u float body) := by
    rw [hbody, agentNames_concat hr]
  by_cases hdecides : ∃ name,
      Deciding (productToken u userAgent) (agentNames (bodyRecords u float body)) name
  · obtain ⟨name, hname⟩ := hdecides
    obtain ⟨before, following, hsplit, hfirst⟩ := exists_first hname
    have hsplit' : bodyRecords u float body' = before ++ .agent name :: (following ++ [r]) := by
      rw [hbody, hsplit, List.append_assoc]
      rfl
    have hlast : ¬IsOpen following := fun h => hclosed ⟨name, before, following, hname, hsplit, hfirst, h⟩
    rw [new_of_deciding u float hsplit' hfirst (hnames ▸ hname),
      new_of_deciding u float hsplit hfirst hname, governed, governed,
      groupLines_concat_of_closed hlast]
  · have hnone : ∀ name,
        ¬Deciding (productToken u userAgent) (agentNames (bodyRecords u float body)) name :=
      fun name hname => hdecides ⟨name, hname⟩
    rw [new_of_none u float hnone, new_of_none u float fun name hname => hnone name (hnames ▸ hname)]

/-- An agent at the end of the file has no rules yet. -/
theorem new_concat_agent {name : Text}
    (hbody : bodyRecords u float body' = bodyRecords u float body ++ [.agent name]) (userAgent : Text) :
    RobotsTxt.new u float body' userAgent = RobotsTxt.new u float body userAgent ∨
      RobotsTxt.new u float body' userAgent = .empty := by
  by_cases hdecides : ∃ name,
      Deciding (productToken u userAgent) (agentNames (bodyRecords u float body')) name
  · obtain ⟨name', hname'⟩ := hdecides
    obtain ⟨before, following, hsplit', hfirst⟩ := exists_first hname'
    rw [new_of_deciding u float hsplit' hfirst hname']
    rcases following.eq_nil_or_concat' with rfl | ⟨rest, r, rfl⟩
    · exact .inr rfl
    · left
      have hlast : bodyRecords u float body ++ [Record.agent name] =
          (before ++ .agent name' :: rest) ++ [r] := by
        rw [← hbody, hsplit', List.append_assoc]
        rfl
      obtain ⟨hsplit, hr⟩ := List.append_inj' hlast rfl
      obtain rfl := List.singleton_inj.mp hr
      have hname : Deciding (productToken u userAgent) (agentNames (bodyRecords u float body)) name' := by
        refine hname'.of_subset (fun other hother => ?_) ?_
        · rw [hbody, agentNames, List.filterMap_append]
          exact List.mem_append_left _ hother
        · rw [hsplit, agentNames, List.filterMap_append]
          exact List.mem_append_right _ (List.mem_cons_self ..)
      rw [new_of_deciding u float hsplit hfirst hname, governed, governed, groupLines_concat_agent]
  · exact .inr (new_of_none u float fun name hname => hdecides ⟨name, hname⟩)

end Records

/-! ## The file that is cut -/

section Cap
variable {σ δ : Type} (u : Unicode) (z : Zlib σ) (float : Floats δ) (site : RobotsSite)

/-- Request `n` is answered with the file, uncompressed and in any chunks. -/
def RobotsSite.ServesFile (start : Text) (n : ℕ) (url : Text) (file : List UInt8) : Prop :=
  Requested u site start n url ∧ ∃ r, site.client n url = .response r ∧ r.status = 200 ∧
    inflaterFor z u r.contentEncoding = .ok none ∧ r.chunks.flatten = file ∧ r.broken = none

/-- The policy that is loaded for a file is that of whole lines at its beginning. -/
structure DropsTrailingLines (file : List UInt8) (text userAgent : Text)
    (loaded : Except Exn (LoadedPolicy δ)) : Prop where
  lines : ∃ k, loaded =
    .ok (.robotsTxt (.new u float (joinLines ((splitlines text).take k)) userAgent))
  whole : file.length ≤ maxRobotsBytes → loaded = .ok (.robotsTxt (.new u float text userAgent))
  readable : loaded ≠ .ok .denyAll
  complete : ∀ robots, loaded = .ok (.robotsTxt robots) → ∀ r, robots.Applies r →
    ∃ line ∈ splitlines text, recordOf u float line = some r

/-- The cap leaves a text, and where the last line of it is a rule or a delay of our group, `agrees` says
so of the lines before it and the record. -/
def CapLeaves (agrees : List Text → Record δ → Prop) (file : List UInt8) (userAgent : Text) : Prop :=
  ∃ kept, decodeRobots (file.take maxRobotsBytes) = some kept ∧ ∀ lines last r,
    splitlines kept = lines ++ [last] → recordOf u float last = some r → r.isDirective = true →
      OursOpen (productToken u userAgent) (records u float lines) → agrees lines r

variable {u z float site}

theorem read_of_plain {r : RobotsResponse} (hplain : inflaterFor z u r.contentEncoding = .ok none)
    (hbroken : r.broken = none) :
    r.read u z = .ok (r.chunks.flatten.take maxRobotsBytes) := by
  have hread : readResponse z u r.contentEncoding maxRobotsBytes r.chunks =
      .ok (r.chunks.flatten.take maxRobotsBytes, decide (maxRobotsBytes < r.chunks.flatten.length)) := by
    rw [readResponse, hplain]
    exact readBounded_plain r.chunks
  rw [RobotsResponse.read, hread]
  cases decide (maxRobotsBytes < r.chunks.flatten.length) with
  | true => rfl
  | false =>
    dsimp only
    rw [hbroken]

/-- What is loaded is the policy of the text that the cap leaves, if it leaves one. -/
theorem loadRobots_of_servesFile {siteUrl start url : Text} {n : ℕ} {file : List UInt8}
    (hstart : robotsUrl u siteUrl = .ok start) (h : site.ServesFile u z start n url file)
    (userAgent : Text) : (loadRobots u z float site siteUrl userAgent).2 =
      match decodeRobots (file.take maxRobotsBytes) with
      | none => .ok .denyAll
      | some kept => .ok (.robotsTxt (.new u float kept userAgent)) := by
  obtain ⟨hrequested, r, hreply, hok, hplain, rfl, hbroken⟩ := h
  have hround : robotsRound u z url (.response r) = _ := round_ok hok
  rw [read_of_plain hplain hbroken] at hround
  dsimp only at hround
  cases hdecode : decodeRobots (r.chunks.flatten.take maxRobotsBytes) with
  | none =>
    rw [hdecode] at hround
    exact loadRobots_of_done hstart hrequested (hreply ▸ hround)
  | some kept =>
    rw [hdecode] at hround
    exact loadRobots_of_done hstart hrequested (hreply ▸ hround)

theorem bodyRecords_joinLines {lines : List Text} (h : ∀ line ∈ lines, IsLine line) :
    bodyRecords u float (joinLines lines) = records u float lines := by
  rw [bodyRecords, splitlines_joinLines h]

theorem isLine_of_mem_take {text line : Text} {k : ℕ} (h : line ∈ (splitlines text).take k) :
    IsLine line := isLine_of_mem_splitlines (List.mem_of_mem_take h)

theorem records_concat {lines : List Text} {last : Text} : records u float (lines ++ [last]) =
    records u float lines ++ (recordOf u float last).toList := by
  rw [records, List.filterMap_append, List.filterMap_cons]
  cases recordOf u float last <;> rfl

/-- The policy of a file that is cut in its last line is that of lines of the file, if that line is
read as the whole line is or is not a directive for us. -/
theorem new_of_cut {kept text userAgent : Text} (hbegins : kept <+: text)
    (hagrees : ∀ lines last r, splitlines kept = lines ++ [last] → recordOf u float last = some r →
      r.isDirective = true → OursOpen (productToken u userAgent) (records u float lines) →
      ∀ whole rest, splitlines text = lines ++ whole :: rest → recordOf u float whole = some r) :
    ∃ k, RobotsTxt.new u float kept userAgent =
      .new u float (joinLines ((splitlines text).take k)) userAgent := by
  by_cases hne : kept = []
  · subst hne
    exact ⟨0, rfl⟩
  obtain ⟨lines, last, whole, rest, hkept, htext, -⟩ := splitlines_prefix hbegins hne
  have hbefore : bodyRecords u float (joinLines ((splitlines text).take lines.length)) =
      records u float lines := by
    rw [bodyRecords_joinLines fun line => isLine_of_mem_take, htext, List.take_left]
  have hlast : bodyRecords u float kept =
      bodyRecords u float (joinLines ((splitlines text).take lines.length)) ++
        (recordOf u float last).toList := by
    rw [hbefore, bodyRecords, hkept, records_concat]
  cases hrecord : recordOf u float last with
  | none =>
    rw [hrecord, Option.toList_none, List.append_nil] at hlast
    exact ⟨lines.length, new_congr hlast userAgent⟩
  | some r =>
    rw [hrecord, Option.toList_some] at hlast
    cases hagent : r.isAgent with
    | true =>
      obtain ⟨name, rfl⟩ := exists_agent hagent
      rcases new_concat_agent hlast userAgent with hsame | hempty
      · exact ⟨lines.length, hsame⟩
      · exact ⟨0, hempty⟩
    | false =>
      by_cases hopen : OursOpen (productToken u userAgent) (records u float lines)
      · cases hdirective : r.isDirective with
        | true =>
          have hwhole := hagrees lines last r hkept hrecord hdirective hopen whole rest htext
          have htake : (splitlines text).take (lines.length + 1) = lines ++ [whole] := by
            rw [htext, List.take_length_add_append]
            rfl
          refine ⟨lines.length + 1, new_congr ?_ userAgent⟩
          rw [bodyRecords_joinLines fun line => isLine_of_mem_take, htake, records_concat, hwhole, hlast,
            hbefore, Option.toList_some]
        | false =>
          refine ⟨lines.length, ?_⟩
          rw [new_concat hagent hlast (hbefore ▸ hopen), add_eq_self hdirective]
      · exact ⟨lines.length, new_concat_of_closed hagent hlast (hbefore ▸ hopen)⟩

/-- What is applied of some lines of a file stands in one of its lines. -/
theorem exists_line_of_applies {text userAgent : Text} {k : ℕ} {r : Record δ}
    (h : (RobotsTxt.new u float (joinLines ((splitlines text).take k)) userAgent).Applies r) :
    ∃ line ∈ splitlines text, recordOf u float line = some r := by
  have hmem := mem_of_applies_new h
  rw [bodyRecords_joinLines fun line => isLine_of_mem_take] at hmem
  obtain ⟨line, hline, hrecord⟩ := List.mem_filterMap.mp hmem
  exact ⟨line, List.mem_of_mem_take hline, hrecord⟩

theorem dropsTrailingLines_of_capLeaves {siteUrl start url text userAgent : Text} {n : ℕ}
    {file : List UInt8} (hstart : robotsUrl u siteUrl = .ok start)
    (h : site.ServesFile u z start n url file) (hfile : decodeRobots file = some text)
    (hcap : CapLeaves u float (fun lines r => ∀ whole rest, splitlines text = lines ++ whole :: rest →
      recordOf u float whole = some r) file userAgent) :
    DropsTrailingLines u float file text userAgent (loadRobots u z float site siteUrl userAgent).2 := by
  obtain ⟨kept, hkept, hagrees⟩ := hcap
  have hbegins : kept <+: text := prefix_of_decodeRobots (by decide) hfile hkept
  obtain ⟨k, hk⟩ := new_of_cut hbegins hagrees
  have hloaded : (loadRobots u z float site siteUrl userAgent).2 =
      .ok (.robotsTxt (.new u float kept userAgent)) := by
    rw [loadRobots_of_servesFile hstart h, hkept]
  rw [hloaded]
  refine ⟨⟨k, by rw [hk]⟩, fun hle => ?_, nofun, fun robots hrobots r hr => ?_⟩
  · rw [List.take_of_length_le hle, hfile] at hkept
    rw [Option.some.inj hkept]
  · cases hrobots
    rw [hk] at hr
    exact exists_line_of_applies hr

theorem capLeaves_of_dropsTrailingLines {siteUrl start url text userAgent : Text} {n : ℕ}
    {file : List UInt8} (hstart : robotsUrl u siteUrl = .ok start)
    (h : site.ServesFile u z start n url file)
    (hdrops : DropsTrailingLines u float file text userAgent
      (loadRobots u z float site siteUrl userAgent).2) :
    CapLeaves u float (fun _ r => ∃ line ∈ splitlines text, recordOf u float line = some r) file
      userAgent := by
  rw [loadRobots_of_servesFile hstart h] at hdrops
  cases hkept : decodeRobots (file.take maxRobotsBytes) with
  | none =>
    rw [hkept] at hdrops
    exact absurd rfl hdrops.readable
  | some kept =>
    rw [hkept] at hdrops
    refine ⟨kept, hkept, fun lines last r hlines hrecord hdirective hopen => ?_⟩
    refine hdrops.complete _ rfl r ?_
    have hisLine : ∀ line ∈ lines, IsLine line := fun line hline =>
      isLine_of_mem_splitlines (hlines ▸ List.mem_append_left _ hline)
    have hlast : bodyRecords u float kept = bodyRecords u float (joinLines lines) ++ [r] := by
      rw [bodyRecords_joinLines hisLine, bodyRecords, hlines, records_concat, hrecord, Option.toList_some]
    rw [new_concat (isAgent_of_isDirective hdirective) hlast (by rwa [bodyRecords_joinLines hisLine])]
    exact applies_add hdirective _

/-- A file that fits is not cut. -/
theorem capLeaves_of_le {file : List UInt8} {text : Text} (hle : file.length ≤ maxRobotsBytes)
    (hfile : decodeRobots file = some text) (userAgent : Text) :
    CapLeaves u float (fun lines r => ∀ whole rest, splitlines text = lines ++ whole :: rest →
      recordOf u float whole = some r) file userAgent := by
  rw [← List.take_of_length_le hle] at hfile
  refine ⟨text, hfile, fun lines last r hlast hrecord _ _ whole rest hwhole => ?_⟩
  have hsame := List.append_cancel_left (hlast.symm.trans hwhole)
  rw [← (List.cons.inj hsame).1, hrecord]

/-- The cap drops trailing lines only, if it leaves a text whose last line, where it is a rule or a delay
for us, is read as the whole line is; and only if such a record stands in a line of the file. -/
theorem loadRobots_cap {siteUrl start url text : Text} {n : ℕ} {file : List UInt8}
    (hstart : robotsUrl u siteUrl = .ok start) (hserves : site.ServesFile u z start n url file)
    (hfile : decodeRobots file = some text) (userAgent : Text) :
    (CapLeaves u float (fun lines r => ∀ whole rest, splitlines text = lines ++ whole :: rest →
        recordOf u float whole = some r) file userAgent →
      DropsTrailingLines u float file text userAgent
        (loadRobots u z float site siteUrl userAgent).2) ∧
    (DropsTrailingLines u float file text userAgent
        (loadRobots u z float site siteUrl userAgent).2 →
      CapLeaves u float (fun _ r => ∃ line ∈ splitlines text, recordOf u float line = some r) file
        userAgent) :=
  ⟨dropsTrailingLines_of_capLeaves hstart hserves hfile, capLeaves_of_dropsTrailingLines hstart hserves⟩

end Cap

/-- A server with one file. -/
def fileSite (file : List UInt8) : RobotsSite where
  client _ _ := .response ⟨200, none, [], [file], none⟩

theorem servesFile_fileSite (file : List UInt8) : (fileSite file).ServesFile .ascii storedZlib
    "http://h/robots.txt".toList 0 "http://h/robots.txt".toList file :=
  ⟨⟨Nat.zero_le _, rfl, rfl⟩, _, rfl, rfl, rfl, List.append_nil file, rfl⟩

def shortFile : Text := "User-agent: *\nDisallow: /a\n".toList

theorem loadRobots_cap_short : DropsTrailingLines .ascii digitFloats (utf8 shortFile) shortFile
    "bot".toList (loadRobots .ascii storedZlib digitFloats (fileSite (utf8 shortFile))
      "http://h/".toList "bot".toList).2 := by
  have hfile : decodeRobots (utf8 shortFile) = some shortFile :=
    decodeRobots_eq_some_iff.mpr (by decide +kernel)
  exact (loadRobots_cap (by decide +kernel) (servesFile_fileSite _) hfile "bot".toList).1
    (capLeaves_of_le (by decide +kernel) hfile _)

/-! ## A cap inside a character -/

/-- A comment that ends in a character of two bytes. -/
def commentText (n : ℕ) : Text := List.replicate n '#' ++ ['é']

theorem utf8_replicate (n : ℕ) : utf8 (List.replicate n '#') = List.replicate n 0x23 := by
  induction n with
  | zero => rfl
  | succ n ih => exact congrArg (0x23 :: ·) ih

theorem utf8_commentText (n : ℕ) : utf8 (commentText n) = List.replicate n 0x23 ++ [0xC3, 0xA9] := by
  rw [commentText, utf8_append, utf8_replicate]
  rfl

theorem take_three (n : ℕ) (hn : 3 ≤ n) (rest : List UInt8) :
    (List.replicate n (0x23 : UInt8) ++ rest).take 3 ≠ byteOrderMark := by
  rw [List.take_append_of_le_length (by rwa [List.length_replicate]), List.take_replicate,
    Nat.min_eq_left hn]
  decide

theorem decodeRobots_commentText {n : ℕ} (hn : 3 ≤ n) :
    decodeRobots (utf8 (commentText n)) = some (commentText n) := by
  rw [decodeRobots_eq_some_iff, if_neg]
  rw [utf8_commentText]
  exact take_three n hn _

theorem decodeRobots_take_commentText {n : ℕ} (hn : 3 ≤ n) :
    decodeRobots ((utf8 (commentText n)).take (n + 1)) = none := by
  have htake : (utf8 (commentText n)).take (n + 1) = List.replicate n 0x23 ++ [0xC3] := by
    rw [utf8_commentText, List.take_append, List.length_replicate, List.take_of_length_le (by simp),
      Nat.add_sub_cancel_left]
    rfl
  cases hdecode : decodeRobots ((utf8 (commentText n)).take (n + 1)) with
  | none => rfl
  | some kept =>
    have hbegins : kept <+: commentText n :=
      prefix_of_decodeRobots (by omega) (decodeRobots_commentText hn) hdecode
    rw [decodeRobots_eq_some_iff, htake, if_neg (take_three n hn _)] at hdecode
    have hlength : n + 1 = (utf8 kept).length := by
      rw [← hdecode, List.length_append, List.length_replicate]
      rfl
    rw [commentText, List.prefix_concat_iff] at hbegins
    rcases hbegins with rfl | hbegins
    · rw [← commentText, utf8_commentText, List.length_append, List.length_replicate] at hlength
      simp at hlength
    · obtain ⟨hle, hkept⟩ := List.prefix_replicate_iff.mp hbegins
      rw [hkept, utf8_replicate, List.length_replicate] at hlength
      omega

/-- What a load makes of the comment, when the cap is behind the first byte of its last character. -/
theorem loadRobots_of_commentText {n : ℕ} (hn : 3 ≤ n) (hcap : maxRobotsBytes = n + 1) :
    (loadRobots .ascii storedZlib digitFloats (fileSite (utf8 (commentText n))) "http://h/".toList
      "bot".toList).2 = .ok .denyAll := by
  have hstart : robotsUrl .ascii "http://h/".toList = .ok "http://h/robots.txt".toList := by decide +kernel
  rw [loadRobots_of_servesFile hstart (servesFile_fileSite _), hcap, decodeRobots_take_commentText hn]

/-- The cap turns a file that allows everything into one that allows nothing. -/
theorem loadRobots_commentText :
    (fileSite (utf8 (commentText 511999))).ServesFile .ascii storedZlib "http://h/robots.txt".toList 0
        "http://h/robots.txt".toList (utf8 (commentText 511999)) ∧
      decodeRobots (utf8 (commentText 511999)) = some (commentText 511999) ∧
      (loadRobots .ascii storedZlib digitFloats (fileSite (utf8 (commentText 511999)))
        "http://h/".toList "bot".toList).2 = .ok .denyAll :=
  ⟨servesFile_fileSite _, decodeRobots_commentText (by decide),
    loadRobots_of_commentText (by decide) (by decide)⟩

end UrlCrawler
