import UrlCrawler.Core.RobotsTxt
import UrlCrawler.Library.Splitting

/-! # Which rule decides

The rules of a `RobotsTxt` as globs. A compiled rule is the glob of its path but for two things it takes
from regular expressions: its dot does not cross a line feed, and its `$` also matches before a last one.
A target has a line feed where the URL has a `%0A`.
-/
set_option autoImplicit false

namespace UrlCrawler

/-! ## A compiled rule -/

def ruleItem (c : Char) : RegexItem := if c = '*' then .anyRun else .literal c

theorem rulePattern_eq (path : Text) : rulePattern path =
    (literalPath path).map ruleItem ++ if anchored path then [.atEnd] else [] := by
  have hbody : [RegexItem.anyRun].intercalate (((literalPath path).splitOn '*').map reEscape) =
      (literalPath path).map ruleItem :=
    Splitting.intercalate_map_splitOn '*' RegexItem.anyRun RegexItem.literal (literalPath path)
  rw [rulePattern, hbody]
  split
  · rfl
  · rw [List.append_nil]

theorem reMatch_ruleItem (path : Text) (pattern : List RegexItem) :
    reMatch (path.map ruleItem ++ pattern) = Glob.accepts '*' (· ≠ '\n') (reMatch pattern) path := by
  induction path with
  | nil => rfl
  | cons c path ih =>
    rw [List.map_cons, List.cons_append, ruleItem, Glob.accepts]
    split
    · rw [reMatch, ih]
    · rw [reMatch, ih]

theorem reMatch_rulePattern {path target : Text} : reMatch (rulePattern path) target = true ↔
    ∃ w rest, target = w ++ rest ∧ Glob.Matches '*' (· ≠ '\n') (literalPath path) w ∧
      (anchored path = true → rest = [] ∨ rest = ['\n']) := by
  rw [rulePattern_eq, reMatch_ruleItem, Glob.accepts_iff]
  simp only [decide_eq_true_eq]
  refine exists_congr fun w => exists_congr fun rest => and_congr_right fun _ => and_congr_right fun _ => ?_
  split
  · rename_i h
    simp [reMatch, h]
  · rename_i h
    simp [reMatch, h]

/-! ## The reference -/

/-- A rule's path as a glob: a star is any run of characters, a final `$` the end of the target, and
without one a beginning of the target is enough. -/
def GlobMatches (path target : Text) : Prop :=
  ∃ w rest, target = w ++ rest ∧ Glob.Matches '*' (fun _ => True) (literalPath path) w ∧
    (anchored path = true → rest = [])

/-- The longest matching rule decides, an allowance breaking ties; a rule is its field name and path. -/
def Allowed (rules : List (Text × Text)) (target : Text) : Prop :=
  (∀ rule ∈ rules, ¬GlobMatches (unquote rule.2) target) ∨
    ∃ rule ∈ rules, GlobMatches (unquote rule.2) target ∧
      (∀ other ∈ rules, GlobMatches (unquote other.2) target →
        (unquote other.2).length ≤ (unquote rule.2).length) ∧
      (rule.1 = "allow".toList ∨ unquote rule.2 = [])

/-- The longest of the compiled rules that match decides. -/
theorem decision_iff {δ : Type} {robots : RobotsTxt δ} {target : Text} :
    robots.decide target = true ↔
      (∀ rule ∈ robots.rules, ¬reMatch rule.pattern target = true) ∨
        ∃ rule ∈ robots.rules, reMatch rule.pattern target = true ∧
          (∀ other ∈ robots.rules, reMatch other.pattern target = true → other.length ≤ rule.length) ∧
          rule.allowance = true := by
  rw [RobotsTxt.decide]
  split
  · rename_i hnone
    rw [List.max?_eq_none_iff, List.map_eq_nil_iff, List.filter_eq_nil_iff] at hnone
    exact iff_of_true rfl (.inl hnone)
  · rename_i longest hsome
    obtain ⟨hmem, hmax⟩ := List.max?_eq_some_iff.mp hsome
    obtain ⟨first, hfirst, rfl⟩ := List.mem_map.mp hmem
    obtain ⟨hrule, hmatch⟩ := List.mem_filter.mp hfirst
    have hle (other : Rule) (hother : other ∈ robots.rules) (hm : reMatch other.pattern target = true) :
        other.length ≤ first.length :=
      hmax _ (List.mem_map_of_mem (List.mem_filter.mpr ⟨hother, hm⟩))
    rw [List.any_eq_true]
    constructor
    · rintro ⟨rule, hmem', hdecides⟩
      obtain ⟨hlength, hallowance⟩ := Bool.and_eq_true_iff.mp hdecides
      obtain ⟨hin, hm⟩ := List.mem_filter.mp hmem'
      rw [← of_decide_eq_true hlength] at hle
      exact .inr ⟨rule, hin, hm, hle, hallowance⟩
    · rintro (hno | ⟨rule, hin, hm, hlongest, hallowance⟩)
      · exact absurd hmatch (hno first hrule)
      · refine ⟨rule, List.mem_filter.mpr ⟨hin, hm⟩, Bool.and_eq_true_iff.mpr ⟨?_, hallowance⟩⟩
        exact decide_eq_true (le_antisymm (hle rule hin hm) (hlongest first hrule hmatch))

/-- The policy of a list of rules, each a field name and a path. -/
def RobotsTxt.ofRules {δ : Type} (rules : List (Text × Text)) (crawlDelay : Option δ) : RobotsTxt δ where
  rules := rules.map fun (name, path) => .new name path
  crawlDelay := crawlDelay

/-- Where compiled rules are the globs of their paths, the decision is that of the globs. -/
theorem decision_iff_allowed {δ : Type} {rules : List (Text × Text)} {crawlDelay : Option δ}
    {target : Text} (h : ∀ path, reMatch (rulePattern path) target = true ↔ GlobMatches path target) :
    (RobotsTxt.ofRules rules crawlDelay).decide target = true ↔ Allowed rules target := by
  rw [decision_iff, Allowed]
  simp only [RobotsTxt.ofRules, List.mem_map, exists_exists_and_eq_and, forall_exists_index, and_imp,
    forall_apply_eq_imp_iff₂, Rule.new, h, Bool.or_eq_true, decide_eq_true_eq]

/-- The order of the rules makes no difference. -/
theorem decision_perm {δ : Type} {rules rules' : List (Text × Text)} {crawlDelay : Option δ}
    (h : rules.Perm rules') (target : Text) :
    (RobotsTxt.ofRules rules crawlDelay).decide target =
      (RobotsTxt.ofRules rules' crawlDelay).decide target := by
  rw [Bool.eq_iff_iff, decision_iff, decision_iff]
  simp only [RobotsTxt.ofRules, (h.map _).mem_iff]

/-! ## Targets with a line feed -/

/-- A target in which no dot meets a line feed and no `$` can take one for the end: it has none, or only
a last one after a literal `*`. -/
def Plain (target : Text) : Prop :=
  '\n' ∉ target ∨ ∃ text, target = text ++ ['\n'] ∧ '\n' ∉ text ∧ text.getLast? = some '*'

theorem ne_of_mem {c d : Char} {text : Text} (h : d ∉ text) (hc : c ∈ text) : c ≠ d := by
  rintro rfl
  exact h hc

theorem matches_plain {path target : Text} (h : Plain target) :
    reMatch (rulePattern path) target = true ↔ GlobMatches path target := by
  rw [reMatch_rulePattern, GlobMatches]
  rcases h with h | ⟨text, rfl, htext, hstar⟩
  · refine exists_congr fun w => exists_congr fun rest => and_congr_right fun htarget => ?_
    subst htarget
    rw [List.mem_append, not_or] at h
    refine and_congr ⟨fun hw => hw.mono fun _ _ => trivial, fun hw => ?_⟩ ?_
    · exact hw.of_word fun c hc => ne_of_mem h.1 hc
    · refine imp_congr_right fun _ => or_iff_left ?_
      rintro rfl
      exact h.2 (List.mem_singleton_self _)
  · constructor
    · rintro ⟨w, rest, htarget, hw, hrest⟩
      have hglob : Glob.Matches '*' (fun _ => True) (literalPath path) w := hw.mono fun _ _ => trivial
      by_cases hend : anchored path = true
      · rcases hrest hend with rfl | rfl
        · exact ⟨w, [], htarget, hglob, fun _ => rfl⟩
        · obtain ⟨rfl, -⟩ := List.append_inj' htarget rfl
          refine ⟨text ++ ['\n'], [], (List.append_nil _).symm, ?_, fun _ => rfl⟩
          exact hglob.append_of_getLast? hstar fun _ _ => trivial
      · exact ⟨w, rest, htarget, hglob, fun h => absurd h hend⟩
    · rintro ⟨w, rest, htarget, hw, hrest⟩
      rcases List.eq_nil_or_concat' rest with rfl | ⟨r, c, rfl⟩
      · -- the glob matches the whole target: the line feed at its end is left to the `$`
        rw [List.append_nil] at htarget
        subst htarget
        have hbefore : (text ++ ['\n']).dropLast = text := List.dropLast_concat
        rw [← hbefore] at htext
        rcases hw.of_dropLast fun c hc => ne_of_mem htext hc with hw | ⟨v, c, hconcat, -, hw⟩
        · exact ⟨_, [], (List.append_nil _).symm, hw, fun _ => .inl rfl⟩
        · obtain ⟨rfl, -⟩ := List.append_inj' hconcat rfl
          exact ⟨text, ['\n'], rfl, hw, fun _ => .inr rfl⟩
      · rw [← List.append_assoc] at htarget
        obtain ⟨rfl, hc⟩ := List.append_inj' htarget rfl
        rw [List.mem_append, not_or] at htext
        refine ⟨w, r ++ [c], ?_, hw.of_word fun c hc => ne_of_mem htext.1 hc, fun h => ?_⟩
        · rw [hc, List.append_assoc]
        · exact absurd (hrest h) (by simp)

/-! ## Rules that tell a compiled rule from its glob -/

/-- No escape of a hexadecimal digit pair is in the text. -/
theorem unquote_plain (c : Char) : unquote ['*', c, '$'] = ['*', c, '$'] := by
  by_cases hc : c = '%'
  · subst hc
    decide +kernel
  · rw [unquote, if_pos]
    simp [Ne.symm hc]

theorem matches_star {crosses : Char → Prop} {w : Text} :
    Glob.Matches '*' crosses ['*'] w ↔ ∀ c ∈ w, crosses c := by
  constructor
  · intro h
    cases h with
    | item hc _ => exact absurd rfl hc
    | run r hrun h =>
      cases h
      rwa [List.append_nil]
  · intro h
    rw [← List.append_nil w]
    exact .run w h .nil

theorem matches_star_item {crosses : Char → Prop} {c : Char} (hc : c ≠ '*') {w : Text} :
    Glob.Matches '*' crosses ['*', c] w ↔ ∃ r, w = r ++ [c] ∧ ∀ x ∈ r, crosses x := by
  constructor
  · intro h
    cases h with
    | item hc _ => exact absurd rfl hc
    | run r hrun h =>
      cases h with
      | item _ h =>
        cases h
        exact ⟨r, rfl, hrun⟩
      | run _ _ _ => exact absurd rfl hc
  · rintro ⟨r, rfl, hr⟩
    exact .run r hr (.item hc .nil)

/-- A dot does not meet a line feed that is followed by more. -/
theorem differs_star {text rest : Text} (hrest : rest ≠ []) :
    ¬(reMatch (rulePattern ['*', '$']) (text ++ '\n' :: rest) = true ↔
      GlobMatches ['*', '$'] (text ++ '\n' :: rest)) := by
  intro hiff
  have hglob : GlobMatches ['*', '$'] (text ++ '\n' :: rest) :=
    ⟨_, [], (List.append_nil _).symm, matches_star.mpr fun _ _ => trivial, fun _ => rfl⟩
  obtain ⟨w, after, htarget, hw, hafter⟩ := reMatch_rulePattern.mp (hiff.mpr hglob)
  have hfree : '\n' ∉ w := fun hmem => matches_star.mp hw _ hmem rfl
  rcases hafter rfl with rfl | rfl
  · rw [List.append_nil] at htarget
    exact hfree (htarget ▸ List.mem_append_right text (List.mem_cons_self ..))
  · obtain ⟨r, c, rfl⟩ := (List.eq_nil_or_concat' rest).resolve_left hrest
    rw [← List.cons_append, ← List.append_assoc] at htarget
    obtain ⟨rfl, -⟩ := List.append_inj' htarget rfl
    exact hfree (List.mem_append_right text (List.mem_cons_self ..))

/-- A `$` takes a last line feed for the end. -/
theorem differs_end {text : Text} {c : Char} (hc : c ≠ '*') (htext : '\n' ∉ text ++ [c]) :
    ¬(reMatch (rulePattern ['*', c, '$']) (text ++ [c] ++ ['\n']) = true ↔
      GlobMatches ['*', c, '$'] (text ++ [c] ++ ['\n'])) := by
  intro hiff
  have hmatch : reMatch (rulePattern ['*', c, '$']) (text ++ [c] ++ ['\n']) = true := by
    refine reMatch_rulePattern.mpr ⟨text ++ [c], ['\n'], rfl, ?_, fun _ => .inr rfl⟩
    refine (matches_star_item hc).mpr ⟨text, rfl, fun x hx => ?_⟩
    exact ne_of_mem htext (List.mem_append_left _ hx)
  obtain ⟨w, after, htarget, hw, hafter⟩ := hiff.mp hmatch
  obtain ⟨r, rfl, -⟩ := (matches_star_item hc).mp hw
  rw [hafter rfl, List.append_nil] at htarget
  obtain ⟨-, hlast⟩ := List.append_inj' htarget rfl
  exact htext (List.mem_append_right _ (hlast ▸ List.mem_singleton_self _))

/-- Where the target is not plain, the compiled form of some rule is not its glob. -/
theorem exists_rule_of_not_plain {target : Text} (h : ¬Plain target) :
    ∃ path, unquote path = path ∧ path ≠ [] ∧
      ¬(reMatch (rulePattern path) target = true ↔ GlobMatches path target) := by
  rw [Plain, not_or, not_not] at h
  obtain ⟨hmem, hend⟩ := h
  obtain ⟨text, rest, rfl, htext⟩ := List.eq_append_cons_of_mem hmem
  by_cases hrest : rest = []
  · subst hrest
    rcases List.eq_nil_or_concat' text with rfl | ⟨r, c, rfl⟩
    · refine ⟨['$'], by decide +kernel, List.cons_ne_nil _ _, fun hiff => ?_⟩
      obtain ⟨w, after, htarget, hw, hafter⟩ := hiff.mp (by decide +kernel)
      cases hw
      rw [hafter rfl] at htarget
      cases htarget
    · have hc : c ≠ '*' := by
        rintro rfl
        exact hend ⟨r ++ ['*'], rfl, htext, List.getLast?_concat⟩
      exact ⟨['*', c, '$'], unquote_plain c, List.cons_ne_nil _ _, differs_end hc htext⟩
  · exact ⟨['*', '$'], by decide +kernel, List.cons_ne_nil _ _, differs_star hrest⟩

/-! ## The decision -/

/-- One rule that forbids something forbids what it matches. -/
theorem decision_disallow {δ : Type} {path target : Text} {crawlDelay : Option δ}
    (hne : unquote path ≠ []) :
    (RobotsTxt.ofRules [("disallow".toList, path)] crawlDelay).decide target = true ↔
      ¬reMatch (rulePattern (unquote path)) target = true := by
  have hdisallow : "disallow".toList ≠ "allow".toList := by decide
  rw [decision_iff]
  simp [RobotsTxt.ofRules, Rule.new, hne]

theorem allowed_disallow {path target : Text} (hne : unquote path ≠ []) :
    Allowed [("disallow".toList, path)] target ↔ ¬GlobMatches (unquote path) target := by
  simp [Allowed, hne]

/-- `allows` is the longest-match decision over globs, for every list of rules, whatever their order,
exactly where the target of the URL is plain. -/
theorem allows_glob {δ : Type} (u : Unicode) (url : Text) (crawlDelay : Option δ) :
    (∀ rules : List (Text × Text),
      (∀ target, targetPath u url = .ok target → ∃ allowed,
        (RobotsTxt.ofRules rules crawlDelay).allows u url = .ok allowed ∧
          (allowed = true ↔ Allowed rules target)) ∧
      ∀ rules', rules.Perm rules' →
        (RobotsTxt.ofRules rules crawlDelay).allows u url =
          (RobotsTxt.ofRules rules' crawlDelay).allows u url) ↔
      ∀ target, targetPath u url = .ok target → Plain target := by
  constructor
  · intro hall target htarget
    by_contra hplain
    obtain ⟨path, hpath, hne, hdiffers⟩ := exists_rule_of_not_plain hplain
    have hne' : unquote path ≠ [] := by rwa [hpath]
    obtain ⟨allowed, hallows, hiff⟩ := (hall [("disallow".toList, path)]).1 target htarget
    rw [RobotsTxt.allows, htarget] at hallows
    obtain rfl := Except.ok.inj hallows
    rw [decision_disallow hne', allowed_disallow hne', hpath] at hiff
    exact hdiffers (not_iff_not.mp hiff)
  · intro hplain rules
    refine ⟨fun target htarget => ?_, fun rules' hperm => ?_⟩
    · refine ⟨(RobotsTxt.ofRules rules crawlDelay).decide target, ?_, ?_⟩
      · rw [RobotsTxt.allows, htarget]
        rfl
      · exact decision_iff_allowed fun path => matches_plain (hplain target htarget)
    · exact congrArg (fun decide => (targetPath u url).map decide) (funext (decision_perm hperm))

/-- An escaped line feed gets a URL past a rule with a star. -/
theorem allows_lineFeed :
    targetPath .ascii "http://h/a%0Ab".toList = .ok "/a\nb".toList ∧
      (RobotsTxt.ofRules [("disallow".toList, "/a*b".toList)] (none : Option ℕ)).allows .ascii
        "http://h/a%0Ab".toList = .ok true ∧
      ¬Allowed [("disallow".toList, "/a*b".toList)] "/a\nb".toList := by
  refine ⟨by decide +kernel, by decide +kernel, ?_⟩
  have hunquote : unquote "/a*b".toList = ['/', 'a', '*', 'b'] := by decide +kernel
  have hglob : GlobMatches (unquote "/a*b".toList) "/a\nb".toList := by
    rw [hunquote]
    refine ⟨['/', 'a', '\n', 'b'], [], by decide, ?_, nofun⟩
    exact .item (by decide) (.item (by decide) (.run ['\n'] (fun _ _ => trivial)
      (.item (by decide) .nil)))
  rw [allowed_disallow (by rw [hunquote]; exact List.cons_ne_nil _ _), not_not]
  exact hglob

end UrlCrawler
