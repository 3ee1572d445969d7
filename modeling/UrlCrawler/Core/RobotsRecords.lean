import UrlCrawler.Core.RobotsGroups
import UrlCrawler.Core.Lines

/-! # Several groups, and the records of others

A robots.txt may address one agent in several groups, and may hold records of fields that are not the
parser's. The crawler follows the first of the groups alone, and to its parser any field that is not a
user-agent ends the block of agents it stands in.
-/
set_option autoImplicit false

namespace UrlCrawler

section Records
variable {δ : Type}

/-- The records without those of other fields. -/
def ours (rs : List (Record δ)) : List (Record δ) := rs.filter Record.isOurs

theorem isOurs_of_isAgent {r : Record δ} (h : r.isAgent = true) : r.isOurs = true := by
  cases r with
  | agent name => rfl
  | _ => cases h

theorem agentNames_ours (rs : List (Record δ)) : agentNames (ours rs) = agentNames rs := by
  rw [agentNames, agentNames, ours, List.filterMap_filter]
  congr 1
  funext r
  cases r <;> rfl

/-! ## The group of a line -/

/-- What follows a user-agent line: more agents, the lines of the group, and another group or nothing. -/
theorem exists_groupLines (following : List (Record δ)) : ∃ agents rest,
    following = agents ++ (groupLines following ++ rest) ∧ (∀ r ∈ agents, r.isAgent = true) ∧
      (∀ r ∈ groupLines following, r.isAgent = false) ∧ ∀ r ∈ rest.head?, r.isAgent = true := by
  refine ⟨following.takeWhile Record.isAgent,
    (following.dropWhile Record.isAgent).dropWhile fun r => !r.isAgent, ?_,
    fun r hr => List.mem_takeWhile_imp hr, fun r hr => ?_, fun r hr => ?_⟩
  · rw [groupLines, List.takeWhile_append_dropWhile, List.takeWhile_append_dropWhile]
  · simpa using List.mem_takeWhile_imp hr
  · have hhead := List.head?_dropWhile_not (fun r : Record δ => !r.isAgent)
      (following.dropWhile Record.isAgent)
    rw [Option.mem_def.mp hr] at hhead
    simpa using hhead

theorem takeWhile_of_head? {rest : List (Record δ)} (hrest : ∀ r ∈ rest.head?, r.isAgent = true) :
    rest.takeWhile (fun r => !r.isAgent) = [] := by
  cases rest with
  | nil => rfl
  | cons r rest =>
    rw [List.takeWhile_cons, hrest r rfl]
    rfl

theorem groupLines_append {agents lines rest : List (Record δ)} (hagents : ∀ r ∈ agents, r.isAgent = true)
    (hlines : ∀ r ∈ lines, r.isAgent = false) (hrest : ∀ r ∈ rest.head?, r.isAgent = true)
    (hne : lines ≠ []) : groupLines (agents ++ (lines ++ rest)) = lines := by
  have hskip : (lines ++ rest).dropWhile Record.isAgent = lines ++ rest := by
    obtain ⟨r, lines', rfl⟩ := List.exists_cons_of_ne_nil hne
    rw [List.cons_append, List.dropWhile_cons, hlines r (List.mem_cons_self ..)]
    rfl
  have hkeep : ∀ r ∈ lines, (!r.isAgent) = true := fun r hr => by rw [hlines r hr]; rfl
  rw [groupLines, List.dropWhile_append_of_pos hagents, hskip, List.takeWhile_append_of_pos hkeep,
    takeWhile_of_head? hrest, List.append_nil]

theorem ours_of_agents {agents : List (Record δ)} (h : ∀ r ∈ agents, r.isAgent = true) :
    ours agents = agents :=
  List.filter_eq_self.mpr fun r hr => isOurs_of_isAgent (h r hr)

theorem head?_ours {rest : List (Record δ)} (h : ∀ r ∈ rest.head?, r.isAgent = true) :
    ∀ r ∈ (ours rest).head?, r.isAgent = true := by
  cases rest with
  | nil => exact h
  | cons r rest =>
    have hagent := h r rfl
    rw [ours, List.filter_cons_of_pos (isOurs_of_isAgent hagent)]
    exact h

/-- Records of other fields leave the lines of a group alone, or cut all of them off. -/
theorem groupLines_ours (following : List (Record δ)) :
    groupLines (ours following) = ours (groupLines following) ∨
      (ours (groupLines following) = [] ∧ ∃ name rest, ours following = .agent name :: rest) := by
  obtain ⟨agents, rest, hfollowing, hagents, hlines, hrest⟩ := exists_groupLines following
  have hours : ours following = agents ++ (ours (groupLines following) ++ ours rest) := by
    conv_lhs => rw [hfollowing]
    rw [ours, List.filter_append, List.filter_append, ← ours, ours_of_agents hagents]
    rfl
  by_cases hne : ours (groupLines following) = []
  · have hhead : ∀ r ∈ (ours following).head?, r.isAgent = true := by
      rw [hours, hne, List.nil_append]
      cases agents with
      | nil => exact head?_ours hrest
      | cons r agents => exact fun r' hr' => hagents r' (by cases hr'; exact List.mem_cons_self ..)
    cases hcons : ours following with
    | nil => exact .inl hne.symm
    | cons r rest' =>
      rw [hcons] at hhead
      cases r with
      | agent name => exact .inr ⟨hne, name, rest', rfl⟩
      | _ => cases hhead _ rfl
  · left
    rw [hours]
    exact groupLines_append hagents (fun r hr => hlines r (List.mem_of_mem_filter hr)) (head?_ours hrest)
      hne

theorem foldl_add_ours (rs : List (Record δ)) (robots : RobotsTxt δ) :
    rs.foldl RobotsTxt.add robots = (ours rs).foldl RobotsTxt.add robots := by
  induction rs generalizing robots with
  | nil => rfl
  | cons r rest ih =>
    cases r with
    | other => exact ih robots
    | _ => exact ih _

/-- To the policy of a group, records of other fields make no difference unless they come between two of
its agents; then nothing of it is left. -/
theorem governed_ours (following : List (Record δ)) :
    governed following = governed (ours following) ∨
      (governed following = .empty ∧ ∃ name rest, ours following = .agent name :: rest) := by
  rcases groupLines_ours following with h | ⟨hnil, hagent⟩
  · left
    rw [governed, governed, h, ← foldl_add_ours]
  · right
    refine ⟨?_, hagent⟩
    rw [governed, foldl_add_ours, hnil]
    rfl

/-! ## Several groups for one agent -/

/-- The rule stands in a group that names the agent, whatever records of other fields stand around it. -/
def InGroupOf (rs : List (Record δ)) (name : Text) (rule : Rule) : Prop :=
  ∃ before following, ours rs = before ++ .agent name :: following ∧
    .rule rule ∈ groupLines following

theorem mem_foldl_add {rs : List (Record δ)} {rule : Rule} : ∀ {robots : RobotsTxt δ},
    rule ∈ (rs.foldl RobotsTxt.add robots).rules ↔ rule ∈ robots.rules ∨ .rule rule ∈ rs := by
  induction rs with
  | nil => simp
  | cons r rest ih =>
    intro robots
    rw [List.foldl_cons, ih, List.mem_cons]
    cases r with
    | rule rule' => simp [RobotsTxt.add, or_assoc]
    | delay delay => cases delay <;> simp [RobotsTxt.add]
    | _ => simp [RobotsTxt.add]

theorem mem_governed {following : List (Record δ)} {rule : Rule} :
    rule ∈ (governed following).rules ↔ .rule rule ∈ groupLines following := by
  rw [governed, mem_foldl_add]
  exact or_iff_right List.not_mem_nil

theorem inGroupOf_of_mem {before following : List (Record δ)} {name : Text} {rule : Rule}
    (h : .rule rule ∈ groupLines following) :
    InGroupOf (before ++ .agent name :: following) name rule := by
  have hours : ours (before ++ .agent name :: following) =
      ours before ++ .agent name :: ours following := by
    rw [ours, List.filter_append, List.filter_cons_of_pos rfl]
    rfl
  have hrule : .rule rule ∈ ours (groupLines following) := List.mem_filter.mpr ⟨h, rfl⟩
  refine ⟨ours before, ours following, hours, ?_⟩
  rcases groupLines_ours following with hsame | ⟨hnil, -⟩
  · rwa [hsame]
  · rw [hnil] at hrule
    cases hrule

variable (u : Unicode) (float : Floats δ)

/-- The rules applied are those of all groups that name the agent that decides, and of no other group,
exactly where the first line that names it brings all of them. -/
theorem mem_rules_iff (body userAgent : Text) :
    (∀ rule, rule ∈ (RobotsTxt.new u float body userAgent).rules ↔
      ∃ name, Deciding (productToken u userAgent) (agentNames (bodyRecords u float body)) name ∧
        InGroupOf (bodyRecords u float body) name rule) ↔
      ∀ name before following,
        Deciding (productToken u userAgent) (agentNames (bodyRecords u float body)) name →
        bodyRecords u float body = before ++ .agent name :: following → Record.agent name ∉ before →
        ∀ rule, InGroupOf (bodyRecords u float body) name rule → .rule rule ∈ groupLines following := by
  constructor
  · intro hall name before following hname hbody hfirst rule hrule
    have happlied := (hall rule).mpr ⟨name, hname, hrule⟩
    rwa [new_of_deciding u float hbody hfirst hname, mem_governed] at happlied
  · intro hfirst rule
    by_cases hdecides : ∃ name,
        Deciding (productToken u userAgent) (agentNames (bodyRecords u float body)) name
    · obtain ⟨name, hname⟩ := hdecides
      obtain ⟨before, following, hbody, hnot⟩ := exists_first hname
      rw [new_of_deciding u float hbody hnot hname, mem_governed]
      constructor
      · intro hrule
        exact ⟨name, hname, hbody ▸ inGroupOf_of_mem hrule⟩
      · rintro ⟨name', hname', hrule⟩
        obtain rfl := deciding_unique hname hname'
        exact hfirst name before following hname hbody hnot rule hrule
    · rw [new_of_none u float fun name hname => hdecides ⟨name, hname⟩]
      refine iff_of_false List.not_mem_nil ?_
      rintro ⟨name, hname, -⟩
      exact hdecides ⟨name, hname⟩

end Records

/-! ## Records of other fields -/

section Others
variable {δ : Type}

/-- A line with a field of the parser's. -/
def isKnown (u : Unicode) (line : Text) : Bool :=
  (parseLine u line).any fun (name, _) =>
    name = "user-agent".toList ∨ name = "allow".toList ∨ name = "disallow".toList ∨
      name = "crawl-delay".toList

/-- Texts that come from each other by leaving out and putting in lines without a field of the
parser's. -/
def SameRecords (u : Unicode) (body body' : Text) : Prop :=
  (splitlines body).filter (isKnown u) = (splitlines body').filter (isKnown u)

/-- Policies that allow the same URLs at the same rate. -/
structure SamePolicy (u : Unicode) (robots robots' : RobotsTxt δ) : Prop where
  allows : ∀ url, robots.allows u url = robots'.allows u url
  crawlDelay : robots.crawlDelay = robots'.crawlDelay

theorem SamePolicy.symm {u : Unicode} {robots robots' : RobotsTxt δ} (h : SamePolicy u robots robots') :
    SamePolicy u robots' robots := ⟨fun url => (h.allows url).symm, h.crawlDelay.symm⟩

theorem SamePolicy.trans {u : Unicode} {a b c : RobotsTxt δ} (h : SamePolicy u a b)
    (h' : SamePolicy u b c) : SamePolicy u a c :=
  ⟨fun url => (h.allows url).trans (h'.allows url), h.crawlDelay.trans h'.crawlDelay⟩

theorem samePolicy_of_eq {u : Unicode} {a b : RobotsTxt δ} (h : a = b) : SamePolicy u a b := by
  subst h
  exact ⟨fun _ => rfl, rfl⟩

variable (u : Unicode) (float : Floats δ)

theorem filter_recordOf (line : Text) :
    (recordOf u float line).filter Record.isOurs =
      if isKnown u line then recordOf u float line else none := by
  rw [recordOf, isKnown]
  cases parseLine u line with
  | none => rfl
  | some field =>
    obtain ⟨name, value⟩ := field
    simp only [Option.map_some, Option.any_some]
    by_cases hagent : name = "user-agent".toList
    · subst hagent
      rfl
    · by_cases hrule : name = "allow".toList ∨ name = "disallow".toList
      · rw [if_neg hagent, if_pos hrule, if_pos]
        · rfl
        · rcases hrule with rfl | rfl <;> rfl
      · by_cases hdelay : name = "crawl-delay".toList
        · rw [if_neg hagent, if_neg hrule, if_pos hdelay, hdelay]
          rfl
        · rw [not_or] at hrule
          rw [if_neg hagent, if_neg (not_or.mpr hrule), if_neg hdelay, if_neg]
          · rfl
          · simp only [decide_eq_true_eq, hagent, hrule.1, hrule.2, hdelay, or_false, not_false_eq_true]

theorem ours_records (lines : List Text) :
    ours (records u float lines) = records u float (lines.filter (isKnown u)) := by
  rw [ours, records, records, List.filter_filterMap, List.filterMap_filter]
  congr 1
  funext line
  exact filter_recordOf u float line

theorem ours_bodyRecords {body body' : Text} (h : SameRecords u body body') :
    ours (bodyRecords u float body) = ours (bodyRecords u float body') := by
  rw [bodyRecords, bodyRecords, ours_records, ours_records, h]

theorem agentNames_of_same {body body' : Text} (h : SameRecords u body body') :
    agentNames (bodyRecords u float body) = agentNames (bodyRecords u float body') := by
  rw [← agentNames_ours, ours_bodyRecords u float h, agentNames_ours]

/-- In the file without the records of other fields: the first line that names the agent that decides is
the last of its block of agents, or its group allows everything and sets no delay. -/
def LastOfBlock (body userAgent : Text) : Prop :=
  ∀ name before following,
    Deciding (productToken u userAgent) (agentNames (bodyRecords u float body)) name →
    ours (bodyRecords u float body) = before ++ .agent name :: following → Record.agent name ∉ before →
      (∀ next rest, following ≠ .agent next :: rest) ∨ SamePolicy u (governed following) .empty

theorem first_unique {α : Type} {x : α} {before before' following following' : List α}
    (h : before ++ x :: following = before' ++ x :: following') (hx : x ∉ before) (hx' : x ∉ before') :
    before = before' ∧ following = following' := by
  induction before generalizing before' with
  | nil =>
    cases before' with
    | nil => exact ⟨rfl, (List.cons.inj h).2⟩
    | cons y before' =>
      obtain ⟨rfl, -⟩ := List.cons.inj h
      exact absurd (List.mem_cons_self ..) hx'
  | cons y before ih =>
    cases before' with
    | nil =>
      obtain ⟨rfl, -⟩ := List.cons.inj h
      exact absurd (List.mem_cons_self ..) hx
    | cons z before' =>
      obtain ⟨rfl, hrest⟩ := List.cons.inj h
      obtain ⟨rfl, rfl⟩ := ih hrest (fun hm => hx (List.mem_cons_of_mem _ hm))
        fun hm => hx' (List.mem_cons_of_mem _ hm)
      exact ⟨rfl, rfl⟩

/-- The policy of a file is the policy of its records alone, unless the agent that decides can be cut off
from its group. -/
theorem samePolicy_ours {body userAgent name : Text} {before following : List (Record δ)}
    (hname : Deciding (productToken u userAgent) (agentNames (bodyRecords u float body)) name)
    (hours : ours (bodyRecords u float body) = before ++ .agent name :: following)
    (hfirst : Record.agent name ∉ before)
    (hlast : (∀ next rest, following ≠ .agent next :: rest) ∨
      SamePolicy u (governed following) .empty) :
    SamePolicy u (RobotsTxt.new u float body userAgent) (governed following) := by
  obtain ⟨before', following', hbody, hfirst'⟩ := exists_first hname
  have hsplit : ours (bodyRecords u float body) = ours before' ++ .agent name :: ours following' := by
    rw [hbody, ours, List.filter_append, List.filter_cons_of_pos rfl]
    rfl
  have hfirst'' : Record.agent name ∉ ours before' := fun h => hfirst' (List.mem_of_mem_filter h)
  obtain ⟨rfl, rfl⟩ := first_unique (hsplit.symm.trans hours) hfirst'' hfirst
  rw [new_of_deciding u float hbody hfirst' hname]
  rcases governed_ours following' with hsame | ⟨hempty, next, rest, hnext⟩
  · exact samePolicy_of_eq hsame
  · rcases hlast with hlast | hlast
    · exact absurd hnext (hlast next rest)
    · rw [hempty]
      exact hlast.symm

theorem samePolicy_of_lastOfBlock {body userAgent : Text} (h : LastOfBlock u float body userAgent)
    {body' : Text} (hsame : SameRecords u body body') :
    SamePolicy u (RobotsTxt.new u float body userAgent) (RobotsTxt.new u float body' userAgent) := by
  have hours : ours (bodyRecords u float body) = ours (bodyRecords u float body') :=
    ours_bodyRecords u float hsame
  have hnames := agentNames_of_same u float hsame
  by_cases hdecides : ∃ name,
      Deciding (productToken u userAgent) (agentNames (bodyRecords u float body)) name
  · obtain ⟨name, hname⟩ := hdecides
    have hname' := hname
    rw [← agentNames_ours] at hname'
    obtain ⟨before, following, hsplit, hfirst⟩ := exists_first hname'
    have hlast := h name before following hname hsplit hfirst
    have hother := samePolicy_ours u float (hnames ▸ hname) (hours ▸ hsplit) hfirst hlast
    exact (samePolicy_ours u float hname hsplit hfirst hlast).trans hother.symm
  · have hnone : ∀ name,
        ¬Deciding (productToken u userAgent) (agentNames (bodyRecords u float body)) name :=
      fun name hname => hdecides ⟨name, hname⟩
    have hnone' := hnone
    rw [hnames] at hnone'
    exact samePolicy_of_eq
      ((new_of_none u float hnone).trans (new_of_none u float hnone').symm)

def sitemapLine : Text := "Sitemap:".toList

theorem parseLine_sitemap : parseLine u sitemapLine = some ("sitemap".toList, []) := by
  have hascii : "Sitemap".toList.all isAscii = true := by decide
  have hlower : u.lower "Sitemap".toList = "sitemap".toList :=
    Unicode.lower_ascii fun _ hc => List.all_eq_true.mp hascii _ hc
  have hfield : before '#' sitemapLine = sitemapLine := by decide
  have hname : strip (before ':' sitemapLine) = "Sitemap".toList := by decide
  have hvalue : strip (after ':' sitemapLine) = [] := by decide
  rw [parseLine, hfield, hname, hvalue, hlower]
  rfl

theorem isLine_sitemap : IsLine sitemapLine := by
  have hall : sitemapLine.all (fun c => !isLineBreak c) = true := by decide
  intro c hc
  simpa using List.all_eq_true.mp hall c hc

theorem recordOf_sitemap : recordOf u float sitemapLine = some .other := by
  rw [recordOf, parseLine_sitemap]
  rfl

theorem isKnown_sitemap : isKnown u sitemapLine = false := by
  rw [isKnown, parseLine_sitemap]
  rfl

/-- The lines of a file with a field of the parser's, up to the line of a record and after it. -/
theorem exists_lines {body : Text} {before following : List (Record δ)} {r : Record δ}
    (h : ours (bodyRecords u float body) = before ++ r :: following) : ∃ first second,
      (splitlines body).filter (isKnown u) = first ++ second ∧
        records u float first = before ++ [r] ∧ records u float second = following := by
  rw [bodyRecords, ours_records, records, List.filterMap_eq_append_iff] at h
  obtain ⟨first, second, hlines, hbefore, hsecond⟩ := h
  obtain ⟨skipped, line, second, rfl, hskipped, hline, hfollowing⟩ :=
    List.filterMap_eq_cons_iff.mp hsecond
  refine ⟨first ++ skipped ++ [line], second, ?_, ?_, hfollowing⟩
  · rw [hlines, List.append_assoc, List.append_assoc, List.singleton_append]
  · have hnone : skipped.filterMap (recordOf u float) = [] := List.filterMap_eq_nil_iff.mpr hskipped
    rw [records, List.filterMap_append, List.filterMap_append, hbefore, hnone, List.append_nil,
      List.filterMap_cons_some hline]
    rfl

/-- A file of the known lines of another, with others among them. -/
theorem sameRecords_joinLines {body : Text} {lines : List Text} (hlines : ∀ line ∈ lines, IsLine line)
    (h : lines.filter (isKnown u) = (splitlines body).filter (isKnown u)) :
    SameRecords u body (joinLines lines) := by
  rw [SameRecords, splitlines_joinLines hlines, h]

/-- A record of another field cuts the agent that decides off from its group, if it comes between them. -/
theorem lastOfBlock_of_same {body userAgent : Text}
    (hall : ∀ body', SameRecords u body body' →
      SamePolicy u (RobotsTxt.new u float body userAgent) (RobotsTxt.new u float body' userAgent)) :
    LastOfBlock u float body userAgent := by
  intro name before following hname hours hfirst
  by_cases hnext : ∃ next rest, following = .agent next :: rest
  · right
    obtain ⟨next, rest, hnext⟩ := hnext
    obtain ⟨first, second, hlines, hbefore, hfollowing⟩ := exists_lines u float hours
    have hline : ∀ line ∈ first ++ second, IsLine line := fun line hl =>
      isLine_of_mem_splitlines (List.mem_of_mem_filter (hlines ▸ hl))
    have hline' : ∀ line ∈ first ++ sitemapLine :: second, IsLine line := by
      intro line hl
      rcases List.mem_append.mp hl with hl | hl
      · exact hline line (List.mem_append_left _ hl)
      · rcases List.mem_cons.mp hl with rfl | hl
        · exact isLine_sitemap
        · exact hline line (List.mem_append_right _ hl)
    have hknown : (first ++ second).filter (isKnown u) = (splitlines body).filter (isKnown u) := by
      rw [← hlines, List.filter_filter]
      simp
    have hknown' : (first ++ sitemapLine :: second).filter (isKnown u) =
        (splitlines body).filter (isKnown u) := by
      rw [← hknown, List.filter_append, List.filter_append,
        List.filter_cons_of_neg (by rw [isKnown_sitemap]; exact Bool.false_ne_true)]
    have hwhole : SameRecords u body (joinLines (first ++ second)) := sameRecords_joinLines u hline hknown
    have hcut : SameRecords u body (joinLines (first ++ sitemapLine :: second)) :=
      sameRecords_joinLines u hline' hknown'
    have hrecords : bodyRecords u float (joinLines (first ++ second)) =
        before ++ .agent name :: following := by
      rw [bodyRecords, splitlines_joinLines hline, records, List.filterMap_append, ← records, ← records,
        hbefore, hfollowing, List.append_assoc, List.singleton_append]
    have hrecords' : bodyRecords u float (joinLines (first ++ sitemapLine :: second)) =
        before ++ .agent name :: .other :: following := by
      rw [bodyRecords, splitlines_joinLines hline', records, List.filterMap_append,
        List.filterMap_cons_some (recordOf_sitemap u float), ← records, ← records, hbefore, hfollowing,
        List.append_assoc, List.singleton_append]
    have hgoverned := new_of_deciding u float hrecords hfirst
      (agentNames_of_same u float hwhole ▸ hname)
    have hempty := new_of_deciding u float hrecords' hfirst
      (agentNames_of_same u float hcut ▸ hname)
    have hnothing : governed (Record.other :: following) = (.empty : RobotsTxt δ) := by
      rw [hnext]
      rfl
    have hsame := (hall _ hwhole).symm.trans (hall _ hcut)
    rwa [hgoverned, hempty, hnothing] at hsame
  · left
    rintro next rest rfl
    exact hnext ⟨next, rest, rfl⟩

/-- Lines without a field of the parser's can be put in and left out at will exactly where the agent that
decides cannot be cut off from its group, or has nothing to lose. -/
theorem samePolicy_iff (body userAgent : Text) :
    (∀ body', SameRecords u body body' →
      SamePolicy u (RobotsTxt.new u float body userAgent) (RobotsTxt.new u float body' userAgent)) ↔
      LastOfBlock u float body userAgent :=
  ⟨lastOfBlock_of_same u float, fun h _ => samePolicy_of_lastOfBlock u float h⟩

end Others

def twoGroups : Text := "User-agent: bot\nDisallow: /a\n\nUser-agent: bot\nDisallow: /b\n".toList

/-- Of two groups for one agent the second is dropped. -/
theorem rules_twoGroups :
    (RobotsTxt.new .ascii digitFloats twoGroups "bot/1.0".toList).rules =
        [.new "disallow".toList "/a".toList] ∧
      Deciding (productToken .ascii "bot/1.0".toList)
        (agentNames (bodyRecords .ascii digitFloats twoGroups)) "bot".toList ∧
      InGroupOf (bodyRecords .ascii digitFloats twoGroups) "bot".toList
        (.new "disallow".toList "/b".toList) := by
  refine ⟨by decide +kernel, by decide +kernel,
    [.agent "bot".toList, .rule (.new "disallow".toList "/a".toList)],
    [.rule (.new "disallow".toList "/b".toList)], by decide +kernel, by decide +kernel⟩

def twoAgents : Text := "User-agent: bot\nUser-agent: other\nDisallow: /\n".toList

def twoAgentsSitemap : Text :=
  "User-agent: bot\nSitemap: http://h/s.xml\nUser-agent: other\nDisallow: /\n".toList

/-- A Sitemap between two agents frees the first of them. -/
theorem allows_twoAgents :
    SameRecords .ascii twoAgents twoAgentsSitemap ∧
      (RobotsTxt.new .ascii digitFloats twoAgents "bot/1.0".toList).allows .ascii "http://h/".toList =
        .ok false ∧
      (RobotsTxt.new .ascii digitFloats twoAgentsSitemap "bot/1.0".toList).allows .ascii
        "http://h/".toList = .ok true := by
  refine ⟨?_, by decide +kernel, by decide +kernel⟩
  show (splitlines twoAgents).filter _ = (splitlines twoAgentsSitemap).filter _
  decide +kernel

end UrlCrawler
