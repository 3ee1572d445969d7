import UrlCrawler.Core.Unquote
import UrlCrawler.Library.Glob
import Mathlib.Data.List.ModifyLast

/-! # The rules of a robots.txt

`RobotsTxt` of `url_crawler/robots.py`: a body is parsed into groups, one of them is ours, and the longest
of its rules that match a URL decides. `float` is a parameter: what a text reads as, and which values
are above 0.
-/
set_option autoImplicit false

namespace UrlCrawler

/-! ## `str.splitlines` -/

def isLineBreak (c : Char) : Bool :=
  c.toNat ∈ [0x0A, 0x0B, 0x0C, 0x0D, 0x1C, 0x1D, 0x1E, 0x85, 0x2028, 0x2029]

/-- `line` is what has been read of the line; a carriage return and a line feed are one break. -/
def splitlinesFrom (line : Text) : Text → List Text
  | [] => if line = [] then [] else [line]
  | '\r' :: '\n' :: rest => line :: splitlinesFrom [] rest
  | c :: rest =>
    if isLineBreak c then line :: splitlinesFrom [] rest else splitlinesFrom (line ++ [c]) rest

def splitlines (text : Text) : List Text := splitlinesFrom [] text

/-! ## Rules -/

/-- What a compiled rule is made of: an escaped character, `.*` and `$`. -/
inductive RegexItem
  | literal (c : Char)
  | anyRun
  | atEnd
deriving DecidableEq, Repr

/-- `re.escape`. -/
def reEscape (part : Text) : List RegexItem := part.map .literal

/-- `pattern.match(text)`, without flags: a dot is any character but a line feed, and a `$` also matches
before a line feed that ends the text. -/
def reMatch : List RegexItem → Text → Bool
  | [] => fun _ => true
  | .literal c :: pattern => Glob.acceptsItem c (reMatch pattern)
  | .anyRun :: pattern => Glob.acceptsRun (· ≠ '\n') (reMatch pattern)
  | .atEnd :: pattern => fun text => (text = [] || text = ['\n']) && reMatch pattern text

/-- `path.endswith("$")`. -/
def anchored (path : Text) : Bool := path.getLast? = some '$'

/-- `path.removesuffix("$")`. -/
def literalPath (path : Text) : Text := if anchored path then path.dropLast else path

/-- `_rule_pattern`. -/
def rulePattern (path : Text) : List RegexItem :=
  let body := [RegexItem.anyRun].intercalate (((literalPath path).splitOn '*').map reEscape)
  if anchored path then body ++ [.atEnd] else body

structure Rule where
  pattern : List RegexItem
  length : ℕ
  allowance : Bool
deriving DecidableEq, Repr

/-- `_rule`. -/
def Rule.new (name path : Text) : Rule :=
  let unquoted := unquote path
  { pattern := rulePattern unquoted
    length := unquoted.length
    allowance := name = "allow".toList || unquoted = [] }

/-! ## Groups -/

/-- Python's `float`: `float(text)`, or `none` where it raises, and `value > 0`. -/
structure Floats (δ : Type) where
  read : Text → Option δ
  positive : δ → Bool

/-- `float` on texts of digits. -/
def digitFloats : Floats ℕ where
  read text := if text ≠ [] && text.all Char.isDigit then some (readNat text) else none
  positive n := 0 < n

structure Group (δ : Type) where
  agents : List Text := []
  rules : List Rule := []
  crawlDelay : Option δ := none
deriving DecidableEq, Repr

section Parse
variable {δ : Type} (u : Unicode) (float : Floats δ)

/-- `_delay`. -/
def readDelay (value : Text) : Option δ := (float.read value).filter float.positive

/-- `_parse_line`. -/
def parseLine (line : Text) : Option (Text × Text) :=
  let field := before '#' line
  if ':' ∈ field then some (u.lower (strip (before ':' field)), strip (after ':' field)) else none

/-- The state of the loop of `_parse_groups`. -/
structure Parsing (δ : Type) where
  groups : List (Group δ) := []
  namingAgents : Bool := false

/-- The loop of `_parse_groups`, for a line with a field. -/
def Parsing.field (p : Parsing δ) (name value : Text) : Parsing δ :=
  if name = "user-agent".toList then
    let groups := if p.namingAgents then p.groups else p.groups ++ [{}]
    { groups := groups.modifyLast fun g => { g with agents := g.agents ++ [u.lower value] }
      namingAgents := true }
  else if p.groups = [] then { p with namingAgents := false }
  else if name = "allow".toList ∨ name = "disallow".toList then
    { groups := p.groups.modifyLast fun g => { g with rules := g.rules ++ [.new name value] }
      namingAgents := false }
  else if name = "crawl-delay".toList then
    match readDelay float value with
    | some delay =>
      { groups := p.groups.modifyLast fun g => { g with crawlDelay := some delay }
        namingAgents := false }
    | none => { p with namingAgents := false }
  else { p with namingAgents := false }

def Parsing.line (p : Parsing δ) (line : Text) : Parsing δ :=
  match parseLine u line with
  | none => p
  | some (name, value) => p.field u float name value

/-- `_parse_groups`. -/
def parseGroups (lines : List Text) : List (Group δ) :=
  (lines.foldl (Parsing.line u float) {}).groups

end Parse

/-! ## Our group -/

/-- The state of the loops of `_select_group`. -/
structure Selection (γ : Type) where
  best : Option γ := none
  bestLength : ℕ := 0
  wildcard : Option γ := none

/-- The inner loop, for an agent of a group. -/
def Selection.agent {γ : Type} (token : Text) (s : Selection γ) (agent : Text) (group : γ) :
    Selection γ :=
  if agent = ['*'] then { s with wildcard := s.wildcard.or (some group) }
  else if agent ≠ [] ∧ agent <+: token ∧ s.bestLength < agent.length then
    { s with best := some group, bestLength := agent.length }
  else s

/-- `user_agent.split("/")[0].strip().lower()`. -/
def productToken (u : Unicode) (userAgent : Text) : Text := u.lower (strip (before '/' userAgent))

/-- `_select_group`. -/
def selectGroup {δ : Type} (u : Unicode) (groups : List (Group δ)) (userAgent : Text) :
    Option (Group δ) :=
  let token := productToken u userAgent
  let s : Selection (Group δ) := groups.foldl
    (fun s group => group.agents.foldl (fun s agent => s.agent token agent group) s) {}
  s.best.or s.wildcard

/-! ## The policy -/

/-- `_target_path`. -/
def targetPath (u : Unicode) (url : Text) : Except Exn Text :=
  (urlsplit u url).map fun parts =>
    let path := if unquote parts.path = [] then ['/'] else unquote parts.path
    if parts.query = [] then path else path ++ '?' :: unquote parts.query

structure RobotsTxt (δ : Type) where
  rules : List Rule
  crawlDelay : Option δ
deriving DecidableEq, Repr

namespace RobotsTxt
variable {δ : Type}

def new (u : Unicode) (float : Floats δ) (body userAgent : Text) : RobotsTxt δ :=
  let group := selectGroup u (parseGroups u float (splitlines body)) userAgent
  { rules := (group.map Group.rules).getD [], crawlDelay := group.bind Group.crawlDelay }

/-- The decision of `allows`, for the path and query of a URL. -/
def decide (robots : RobotsTxt δ) (target : Text) : Bool :=
  let matched := robots.rules.filter fun rule => reMatch rule.pattern target
  match (matched.map Rule.length).max? with
  | none => true
  | some longest => matched.any fun rule => rule.length = longest && rule.allowance

def allows (u : Unicode) (robots : RobotsTxt δ) (url : Text) : Except Exn Bool :=
  (targetPath u url).map robots.decide

end RobotsTxt

end UrlCrawler
