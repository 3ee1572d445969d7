import UrlCrawler.Core.RobotsTxt

/-! # Which group is ours

What `_parse_groups` and `_select_group` come to, told from the lines of a robots.txt alone: the first line
that names the agent that decides, and the rules between the agents named with it and the next ones.
-/
set_option autoImplicit false

namespace UrlCrawler

/-! ## Records -/

/-- What a line with a field is to the parser. -/
inductive Record (δ : Type)
  | agent (name : Text)
  | rule (rule : Rule)
  | delay (delay : Option δ)
  | other
deriving DecidableEq

namespace Record
variable {δ : Type}

def isAgent : Record δ → Bool
  | .agent _ => true
  | _ => false

/-- A record of one of the four fields the parser knows. -/
def isOurs : Record δ → Bool
  | .other => false
  | _ => true

def agent? : Record δ → Option Text
  | .agent name => some name
  | _ => none

end Record

section Records
variable {δ : Type} (u : Unicode) (float : Floats δ)

def recordOf (line : Text) : Option (Record δ) :=
  (parseLine u line).map fun (name, value) =>
    if name = "user-agent".toList then .agent (u.lower value)
    else if name = "allow".toList ∨ name = "disallow".toList then .rule (.new name value)
    else if name = "crawl-delay".toList then .delay (readDelay float value)
    else .other

def records (lines : List Text) : List (Record δ) := lines.filterMap (recordOf u float)

/-- The loop of `_parse_groups`, for a record. -/
def Parsing.record (p : Parsing δ) : Record δ → Parsing δ
  | .agent name =>
    { groups := (if p.namingAgents then p.groups else p.groups ++ [{}]).modifyLast
        fun g => { g with agents := g.agents ++ [name] }
      namingAgents := true }
  | .rule rule =>
    { groups := p.groups.modifyLast fun g => { g with rules := g.rules ++ [rule] }
      namingAgents := false }
  | .delay (some delay) =>
    { groups := p.groups.modifyLast fun g => { g with crawlDelay := some delay }
      namingAgents := false }
  | .delay none | .other => { p with namingAgents := false }

theorem line_eq_record (p : Parsing δ) (line : Text) :
    p.line u float line = ((recordOf u float line).map p.record).getD p := by
  rw [Parsing.line, recordOf]
  cases parseLine u line with
  | none => rfl
  | some field =>
    obtain ⟨name, value⟩ := field
    rw [Option.map_some, Option.map_some, Option.getD_some]
    dsimp only [Parsing.field]
    split
    · rfl
    · by_cases hgroups : p.groups = []
      · rw [if_pos hgroups]
        split
        · rw [Parsing.record, hgroups]
          rfl
        · split
          · cases readDelay float value <;> rw [Parsing.record, hgroups]
            rfl
          · rw [Parsing.record, hgroups]
      · rw [if_neg hgroups]
        split
        · rfl
        · split
          · cases readDelay float value <;> rfl
          · rfl

theorem parseGroups_eq (lines : List Text) : parseGroups u float lines =
    ((records u float lines).foldl Parsing.record {}).groups := by
  have hloop : ∀ p : Parsing δ, lines.foldl (Parsing.line u float) p =
      (records u float lines).foldl Parsing.record p := by
    induction lines with
    | nil => exact fun p => rfl
    | cons line rest ih =>
      intro p
      have hcons : records u float (line :: rest) =
          (recordOf u float line).toList ++ records u float rest := by
        rw [records, List.filterMap_cons]
        cases recordOf u float line <;> rfl
      rw [List.foldl_cons, ih, line_eq_record, hcons, List.foldl_append]
      cases recordOf u float line <;> rfl
  exact congrArg Parsing.groups (hloop {})

end Records

/-! ## The group of a line -/

section Groups
variable {δ : Type}

def Group.policy (g : Group δ) : RobotsTxt δ where
  rules := g.rules
  crawlDelay := g.crawlDelay

def RobotsTxt.empty : RobotsTxt δ where
  rules := []
  crawlDelay := none

/-- What a record adds to the policy of its group. -/
def RobotsTxt.add (robots : RobotsTxt δ) : Record δ → RobotsTxt δ
  | .rule rule => { robots with rules := robots.rules ++ [rule] }
  | .delay (some delay) => { robots with crawlDelay := some delay }
  | _ => robots

/-- The rules of the group of a user-agent line, given the records that follow the line: what stands
between the agents named with it and the next agent. -/
def groupLines (following : List (Record δ)) : List (Record δ) :=
  (following.dropWhile Record.isAgent).takeWhile fun r => !r.isAgent

def governed (following : List (Record δ)) : RobotsTxt δ :=
  (groupLines following).foldl RobotsTxt.add .empty

/-- The agents of a file, each with the policy of its group. -/
def named : List (Record δ) → List (Text × RobotsTxt δ)
  | [] => []
  | .agent name :: rest => (name, governed rest) :: named rest
  | _ :: rest => named rest

/-- The agents of the groups, each with the policy of its group. -/
def listed (groups : List (Group δ)) : List (Text × RobotsTxt δ) :=
  groups.flatMap fun g => g.agents.map fun name => (name, g.policy)

theorem listed_append (groups groups' : List (Group δ)) :
    listed (groups ++ groups') = listed groups ++ listed groups' := List.flatMap_append

theorem listed_singleton (g : Group δ) :
    listed [g] = g.agents.map fun name => (name, g.policy) := List.flatMap_singleton _ _

/-- What is still to be read of the group that is open. -/
def openLines (namingAgents : Bool) (rest : List (Record δ)) : List (Record δ) :=
  if namingAgents then groupLines rest else rest.takeWhile fun r => !r.isAgent

theorem openLines_cons {r : Record δ} (h : r.isAgent = false) (namingAgents : Bool)
    (rest : List (Record δ)) : openLines namingAgents (r :: rest) = r :: openLines false rest := by
  have hskip : (r :: rest).dropWhile Record.isAgent = r :: rest := by
    rw [List.dropWhile_cons, h]
    rfl
  have htake : (r :: rest).takeWhile (fun r => !r.isAgent) = r :: rest.takeWhile fun r => !r.isAgent := by
    rw [List.takeWhile_cons, h]
    rfl
  cases namingAgents with
  | true => rw [openLines, if_pos rfl, groupLines, hskip, htake]; rfl
  | false => exact htake

theorem exists_agent {r : Record δ} (h : r.isAgent = true) : ∃ name, r = .agent name := by
  cases r with
  | agent name => exact ⟨name, rfl⟩
  | _ => cases h

/-- A record other than an agent goes to the open group and ends the naming of agents. -/
theorem record_open {r : Record δ} (h : r.isAgent = false) (groups : List (Group δ)) (g : Group δ)
    (namingAgents : Bool) : ∃ g' : Group δ, g'.agents = g.agents ∧ g'.policy = g.policy.add r ∧
      Parsing.record { groups := groups ++ [g], namingAgents } r =
        { groups := groups ++ [g'], namingAgents := false } := by
  cases r with
  | agent name => cases h
  | rule rule =>
    refine ⟨{ g with rules := g.rules ++ [rule] }, rfl, rfl, ?_⟩
    rw [Parsing.record, List.modifyLast_concat]
  | delay delay =>
    cases delay with
    | none => exact ⟨g, rfl, rfl, rfl⟩
    | some delay =>
      refine ⟨{ g with crawlDelay := some delay }, rfl, rfl, ?_⟩
      rw [Parsing.record, List.modifyLast_concat]
  | other => exact ⟨g, rfl, rfl, rfl⟩

theorem named_cons {r : Record δ} (h : r.isAgent = false) (rest : List (Record δ)) :
    named (r :: rest) = named rest := by
  cases r with
  | agent name => cases h
  | _ => rfl

/-- Reading on with an open group: it gets what stands before the next agent. No rule comes before the
last agent of a group. -/
theorem listed_foldl {rest : List (Record δ)} : ∀ (groups : List (Group δ)) (g : Group δ)
    (namingAgents : Bool), (namingAgents = true → g.policy = .empty) →
      listed (rest.foldl Parsing.record { groups := groups ++ [g], namingAgents }).groups =
        listed groups ++ g.agents.map (fun name =>
          (name, (openLines namingAgents rest).foldl RobotsTxt.add g.policy)) ++ named rest := by
  induction rest with
  | nil =>
    intro groups g namingAgents _
    rw [named, List.append_nil, List.foldl_nil, listed_append, listed_singleton]
    cases namingAgents <;> rfl
  | cons r rest ih =>
    intro groups g namingAgents hnaming
    rw [List.foldl_cons]
    cases hagent : r.isAgent with
    | false =>
      obtain ⟨g', hagents, hpolicy, hrecord⟩ := record_open hagent groups g namingAgents
      rw [hrecord, ih groups g' false nofun, hagents, hpolicy, openLines_cons hagent,
        named_cons hagent, List.foldl_cons]
    | true =>
      obtain ⟨name, rfl⟩ := exists_agent hagent
      cases namingAgents with
      | true =>
        have hopen : openLines true (.agent name :: rest) = openLines true rest := rfl
        have hgoverned : (openLines true rest).foldl RobotsTxt.add g.policy = governed rest := by
          rw [hnaming rfl]
          rfl
        have hrecord : Parsing.record { groups := groups ++ [g], namingAgents := true } (.agent name) =
            { groups := groups ++ [{ g with agents := g.agents ++ [name] }], namingAgents := true } := by
          rw [Parsing.record, if_pos rfl, List.modifyLast_concat]
        rw [hrecord, ih groups { g with agents := g.agents ++ [name] } true hnaming, hopen,
          List.map_append, named]
        dsimp only [Group.policy] at hgoverned ⊢
        rw [hgoverned]
        simp
      | false =>
        have hrecord : Parsing.record { groups := groups ++ [g], namingAgents := false } (.agent name) =
            { groups := (groups ++ [g]) ++ [{ agents := [name] }], namingAgents := true } := by
          rw [Parsing.record, if_neg Bool.false_ne_true, List.modifyLast_concat]
          rfl
        rw [hrecord, ih (groups ++ [g]) { agents := [name] } true fun _ => rfl, listed_append,
          listed_singleton, named, List.append_assoc]
        rfl

/-- The parser lists every agent of a file with the rules of its group. -/
theorem listed_records (rest : List (Record δ)) :
    listed (rest.foldl Parsing.record {}).groups = named rest := by
  induction rest with
  | nil => rfl
  | cons r rest ih =>
    rw [List.foldl_cons]
    cases hagent : r.isAgent with
    | false =>
      have hrecord : Parsing.record {} r = {} := by
        cases r with
        | agent name => cases hagent
        | rule rule => rfl
        | delay delay => cases delay <;> rfl
        | other => rfl
      rw [hrecord, ih, named_cons hagent]
    | true =>
      obtain ⟨name, rfl⟩ := exists_agent hagent
      exact listed_foldl [] { agents := [name] } true fun _ => rfl

end Groups

/-! ## The agent that decides -/

/-- An agent that is a beginning of our product token; case has been folded. -/
def Addresses (token name : Text) : Prop := name ≠ [] ∧ name ≠ ['*'] ∧ name <+: token

/-- The longest of the agents that address us, or the star where none does. -/
def Deciding (token : Text) (names : List Text) (name : Text) : Prop :=
  name ∈ names ∧
    ((Addresses token name ∧ ∀ other ∈ names, Addresses token other → other.length ≤ name.length) ∨
      (name = ['*'] ∧ ∀ other ∈ names, ¬Addresses token other))

instance (token name : Text) : Decidable (Addresses token name) :=
  inferInstanceAs (Decidable (_ ∧ _ ∧ _))

instance (token : Text) (names : List Text) (name : Text) : Decidable (Deciding token names name) :=
  inferInstanceAs (Decidable (_ ∧ (_ ∨ _)))

/-- Beginnings of one token that are as long are the same. -/
theorem deciding_unique {token : Text} {names : List Text} {name name' : Text}
    (h : Deciding token names name) (h' : Deciding token names name') : name = name' := by
  obtain ⟨hmem, ⟨haddr, hmax⟩ | ⟨rfl, hnone⟩⟩ := h
  · obtain ⟨hmem', ⟨haddr', hmax'⟩ | ⟨-, hnone'⟩⟩ := h'
    · have hlength := le_antisymm (hmax' name hmem haddr) (hmax name' hmem' haddr')
      exact (List.prefix_of_prefix_length_le haddr.2.2 haddr'.2.2 hlength.le).eq_of_length hlength
    · exact absurd haddr (hnone' name hmem)
  · obtain ⟨hmem', ⟨haddr', -⟩ | ⟨rfl, -⟩⟩ := h'
    · exact absurd haddr' (hnone name' hmem')
    · rfl

section Selection
variable {γ : Type} {token : Text}

variable (token) in
/-- The loops of `_select_group`, over the agents of all groups. -/
def selectFrom (pairs : List (Text × γ)) : Selection γ :=
  pairs.foldl (fun s (name, x) => s.agent token name x) {}

/-- What the loops have found: the best agent is the longest so far, and a group is the first that lists
its agent. -/
structure Selection.Holds (token : Text) (pairs : List (Text × γ)) (s : Selection γ) : Prop where
  best : ∀ x, s.best = some x → ∃ name, pairs.lookup name = some x ∧ Addresses token name ∧
    s.bestLength = name.length
  longest : ∀ p ∈ pairs, Addresses token p.1 → p.1.length ≤ s.bestLength
  unset : s.best = none → s.bestLength = 0
  wildcard : s.wildcard = pairs.lookup ['*']

theorem Selection.Holds.agent {pairs : List (Text × γ)} {s : Selection γ} (h : s.Holds token pairs)
    (name : Text) (x : γ) : (s.agent token name x).Holds token (pairs ++ [(name, x)]) := by
  have hkeep (name' : Text) (y : γ) (hy : pairs.lookup name' = some y) :
      (pairs ++ [(name, x)]).lookup name' = some y := by
    rw [List.lookup_append, hy, Option.some_or]
  unfold Selection.agent
  split
  · rename_i hstar
    subst hstar
    refine ⟨fun y hy => ?_, fun p hp haddr => ?_, h.unset, ?_⟩
    · obtain ⟨name', hlookup, hrest⟩ := h.best y hy
      exact ⟨name', hkeep name' y hlookup, hrest⟩
    · rcases List.mem_append.mp hp with hp | hp
      · exact h.longest p hp haddr
      · rw [List.mem_singleton.mp hp] at haddr
        exact absurd rfl haddr.2.1
    · rw [List.lookup_append, ← h.wildcard, List.lookup_cons_self]
  · rename_i hstar
    have hwildcard : s.wildcard = (pairs ++ [(name, x)]).lookup ['*'] := by
      have hnone : [(name, x)].lookup ['*'] = none := by
        refine List.lookup_eq_none_iff.mpr fun p hp => ?_
        rw [List.mem_singleton.mp hp, bne_iff_ne]
        exact Ne.symm hstar
      rw [List.lookup_append, ← h.wildcard, hnone, Option.or_none]
    split
    · rename_i hbetter
      obtain ⟨hne, hbeginning, hlonger⟩ := hbetter
      refine ⟨fun y hy => ?_, fun p hp haddr => ?_, nofun, hwildcard⟩
      · obtain rfl := Option.some.inj hy
        refine ⟨name, ?_, ⟨hne, hstar, hbeginning⟩, rfl⟩
        have hnew : pairs.lookup name = none := by
          refine List.lookup_eq_none_iff.mpr fun p hp => ?_
          rw [bne_iff_ne]
          rintro rfl
          exact absurd (h.longest p hp ⟨hne, hstar, hbeginning⟩) (not_le.mpr hlonger)
        rw [List.lookup_append, hnew, List.lookup_cons_self]
        rfl
      · rcases List.mem_append.mp hp with hp | hp
        · exact (h.longest p hp haddr).trans hlonger.le
        · rw [List.mem_singleton.mp hp]
    · rename_i hworse
      refine ⟨fun y hy => ?_, fun p hp haddr => ?_, h.unset, hwildcard⟩
      · obtain ⟨name', hlookup, hrest⟩ := h.best y hy
        exact ⟨name', hkeep name' y hlookup, hrest⟩
      · rcases List.mem_append.mp hp with hp | hp
        · exact h.longest p hp haddr
        · rw [List.mem_singleton.mp hp] at haddr ⊢
          exact not_lt.mp fun hlt => hworse ⟨haddr.1, haddr.2.2, hlt⟩

theorem holds_selectFrom (pairs : List (Text × γ)) : (selectFrom token pairs).Holds token pairs := by
  induction pairs using List.reverseRecOn with
  | nil => exact ⟨nofun, nofun, fun _ => rfl, rfl⟩
  | append_singleton pairs p ih =>
    rw [selectFrom, List.foldl_append]
    exact ih.agent p.1 p.2

theorem mem_of_lookup {pairs : List (Text × γ)} {name : Text} {x : γ}
    (h : pairs.lookup name = some x) : name ∈ pairs.map Prod.fst := by
  obtain ⟨before, after, rfl, -⟩ := List.lookup_eq_some_iff.mp h
  simp

/-- The best agent, where there is one, decides. -/
theorem Selection.Holds.deciding {pairs : List (Text × γ)} {s : Selection γ} (h : s.Holds token pairs)
    {x : γ} (hx : s.best = some x) :
    ∃ name, pairs.lookup name = some x ∧ Deciding token (pairs.map Prod.fst) name := by
  obtain ⟨name, hlookup, haddr, hlength⟩ := h.best x hx
  refine ⟨name, hlookup, mem_of_lookup hlookup, .inl ⟨haddr, fun other hother haddr' => ?_⟩⟩
  obtain ⟨p, hp, rfl⟩ := List.mem_map.mp hother
  exact hlength ▸ h.longest p hp haddr'

theorem Selection.Holds.not_addresses {pairs : List (Text × γ)} {s : Selection γ}
    (h : s.Holds token pairs) (hbest : s.best = none) :
    ∀ name ∈ pairs.map Prod.fst, ¬Addresses token name := by
  intro name hname haddr
  obtain ⟨p, hp, rfl⟩ := List.mem_map.mp hname
  have hlength := h.longest p hp haddr
  rw [h.unset hbest] at hlength
  exact haddr.1 (List.length_eq_zero_iff.mp (Nat.le_zero.mp hlength))

/-- The group chosen is the first that lists the agent that decides. -/
theorem chosen_of_deciding {pairs : List (Text × γ)} {name : Text}
    (h : Deciding token (pairs.map Prod.fst) name) :
    (selectFrom token pairs).best.or (selectFrom token pairs).wildcard = pairs.lookup name := by
  have hholds : (selectFrom token pairs).Holds token pairs := holds_selectFrom pairs
  cases hbest : (selectFrom token pairs).best with
  | some x =>
    obtain ⟨name', hlookup, hdeciding⟩ := hholds.deciding hbest
    rw [Option.some_or, deciding_unique h hdeciding, hlookup]
  | none =>
    obtain ⟨hmem, ⟨haddr, -⟩ | ⟨rfl, -⟩⟩ := h
    · exact absurd haddr (hholds.not_addresses hbest name hmem)
    · rw [Option.none_or, hholds.wildcard]

theorem chosen_of_none {pairs : List (Text × γ)}
    (h : ∀ name, ¬Deciding token (pairs.map Prod.fst) name) :
    (selectFrom token pairs).best.or (selectFrom token pairs).wildcard = none := by
  have hholds : (selectFrom token pairs).Holds token pairs := holds_selectFrom pairs
  cases hbest : (selectFrom token pairs).best with
  | some x =>
    obtain ⟨name, -, hdeciding⟩ := hholds.deciding hbest
    exact absurd hdeciding (h name)
  | none =>
    rw [Option.none_or, hholds.wildcard]
    by_contra hsome
    obtain ⟨x, hx⟩ := Option.ne_none_iff_exists'.mp hsome
    exact h ['*'] ⟨mem_of_lookup hx, .inr ⟨rfl, hholds.not_addresses hbest⟩⟩

/-! ## The policy of a file -/

def Selection.map {γ' : Type} (f : γ → γ') (s : Selection γ) : Selection γ' where
  best := s.best.map f
  bestLength := s.bestLength
  wildcard := s.wildcard.map f

theorem map_agent {γ' : Type} (f : γ → γ') (s : Selection γ) (name : Text) (x : γ) :
    (s.agent token name x).map f = (s.map f).agent token name (f x) := by
  unfold Selection.agent
  by_cases hstar : name = ['*']
  · rw [if_pos hstar, if_pos hstar, Selection.map, Selection.map, Option.map_or]
    rfl
  · rw [if_neg hstar, if_neg hstar]
    exact apply_ite (Selection.map f) _ _ _

end Selection

section Policy
variable {δ : Type}

theorem select_eq (u : Unicode) (groups : List (Group δ)) (userAgent : Text) :
    (selectGroup u groups userAgent).map Group.policy =
      (selectFrom (productToken u userAgent) (listed groups)).best.or
        (selectFrom (productToken u userAgent) (listed groups)).wildcard := by
  have hagents (g : Group δ) (s : Selection (Group δ)) :
      (g.agents.foldl (fun s name => s.agent (productToken u userAgent) name g) s).map Group.policy =
        (g.agents.map fun name => (name, g.policy)).foldl
          (fun s (name, x) => s.agent (productToken u userAgent) name x) (s.map Group.policy) := by
    induction g.agents generalizing s with
    | nil => rfl
    | cons name rest ih => rw [List.foldl_cons, ih, map_agent, List.map_cons, List.foldl_cons]
  have hgroups (s : Selection (Group δ)) :
      (groups.foldl (fun s g => g.agents.foldl
          (fun s name => s.agent (productToken u userAgent) name g) s) s).map Group.policy =
        (listed groups).foldl (fun s (name, x) => s.agent (productToken u userAgent) name x)
          (s.map Group.policy) := by
    induction groups generalizing s with
    | nil => rfl
    | cons g rest ih =>
      have hlisted : listed (g :: rest) = (g.agents.map fun name => (name, g.policy)) ++ listed rest :=
        List.flatMap_cons
      rw [List.foldl_cons, ih, hagents, hlisted, List.foldl_append]
  rw [selectGroup, Option.map_or]
  exact congrArg (fun s : Selection (RobotsTxt δ) => s.best.or s.wildcard) (hgroups {})

def agentNames (rs : List (Record δ)) : List Text := rs.filterMap Record.agent?

theorem named_fst (rs : List (Record δ)) : (named rs).map Prod.fst = agentNames rs := by
  induction rs with
  | nil => rfl
  | cons r rest ih =>
    cases r with
    | agent name => exact congrArg (name :: ·) ih
    | _ => exact ih

/-- The group of the first line that names an agent. -/
theorem lookup_named {before following : List (Record δ)} {name : Text}
    (h : Record.agent name ∉ before) :
    (named (before ++ .agent name :: following)).lookup name = some (governed following) := by
  induction before with
  | nil => exact List.lookup_cons_self
  | cons r before ih =>
    rw [List.mem_cons, not_or] at h
    cases r with
    | agent name' =>
      have hne : (name == name') = false := by
        rw [beq_eq_false_iff_ne]
        rintro rfl
        exact h.1 rfl
      rw [List.cons_append, named, List.lookup_cons, hne]
      exact ih h.2
    | _ => exact ih h.2

variable (u : Unicode) (float : Floats δ)

/-- The records of a body. -/
def bodyRecords (body : Text) : List (Record δ) := records u float (splitlines body)

theorem new_eq (body userAgent : Text) : RobotsTxt.new u float body userAgent =
    ((selectFrom (productToken u userAgent) (named (bodyRecords u float body))).best.or
      (selectFrom (productToken u userAgent) (named (bodyRecords u float body))).wildcard).getD
        .empty := by
  rw [bodyRecords, ← listed_records, ← parseGroups_eq, ← select_eq, RobotsTxt.new]
  cases selectGroup u (parseGroups u float (splitlines body)) userAgent <;> rfl

/-- The policy of a file is that of the group of the first line that names the agent that decides. -/
theorem new_of_deciding {body userAgent name : Text} {before following : List (Record δ)}
    (hbody : bodyRecords u float body = before ++ .agent name :: following)
    (hfirst : Record.agent name ∉ before)
    (hname : Deciding (productToken u userAgent) (agentNames (bodyRecords u float body)) name) :
    RobotsTxt.new u float body userAgent = governed following := by
  rw [← named_fst] at hname
  rw [new_eq, chosen_of_deciding hname, hbody, lookup_named hfirst, Option.getD_some]

theorem new_of_none {body userAgent : Text}
    (h : ∀ name, ¬Deciding (productToken u userAgent) (agentNames (bodyRecords u float body)) name) :
    RobotsTxt.new u float body userAgent = .empty := by
  rw [← named_fst] at h
  rw [new_eq, chosen_of_none h, Option.getD_none]

/-- Where an agent decides, there is a first line that names it. -/
theorem exists_first {token name : Text} {rs : List (Record δ)}
    (h : Deciding token (agentNames rs) name) : ∃ before following,
      rs = before ++ .agent name :: following ∧ Record.agent name ∉ before := by
  obtain ⟨r, hr, hname⟩ := List.mem_filterMap.mp h.1
  have hagent : r = .agent name := by
    cases r with
    | agent name' => exact congrArg Record.agent (Option.some.inj hname)
    | _ => cases hname
  exact List.eq_append_cons_of_mem (hagent ▸ hr)

end Policy

end UrlCrawler
