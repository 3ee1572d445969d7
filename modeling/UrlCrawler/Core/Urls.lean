import UrlCrawler.Core.Urllib
import Mathlib

/-! # URLs

`url_crawler/urls.py`: the normal form a URL is requested and printed in, the stricter key pages are
told apart by, and the scope of a crawl.
-/
set_option autoImplicit false

namespace UrlCrawler

def maxUrlLength : ℕ := 2048

def allowedSchemes : List Text := ["http".toList, "https".toList]

/-- `DEFAULT_PORTS`. -/
def defaultPort (scheme : Text) : ℕ := if scheme = "http".toList then 80 else 443

def isUnreserved (c : Char) : Bool := c.isAlphanum || c ∈ ['-', '.', '_', '~']

/-- `_PATH_SAFE`. -/
def isPathSafe (c : Char) : Bool := c ∈ "/%:@!$&'()*+,;=".toList

/-- `_QUERY_SAFE`. -/
def isQuerySafe (c : Char) : Bool := isPathSafe c || c = '?'

/-! ## The normal form -/

/-- The authority of a normalized URL: credentials go, and the port its scheme implies. -/
def authority (scheme host : Text) (port : Option ℕ) : Text :=
  let authority := if ':' ∈ host then '[' :: host ++ [']'] else host
  match port with
  | none => authority
  | some port => if port = defaultPort scheme then authority else authority ++ ':' :: showNat port

/-- The loop of `_remove_dot_segments`; `rest = []` says that the segment is the last one. -/
def removeDots (output : List Text) : List Text → List Text
  | [] => output
  | segment :: rest =>
    if segment ≠ ".".toList && segment ≠ "..".toList then removeDots (output ++ [segment]) rest
    else
      let output :=
        if segment = "..".toList && 1 < output.length then output.dropLast else output
      removeDots (if rest = [] then output ++ [[]] else output) rest

/-- `_remove_dot_segments`. -/
def removeDotSegments (path : Text) : Text :=
  let joined := ['/'].intercalate (removeDots [] (path.splitOn '/'))
  if joined = [] then ['/'] else joined

/-- The normalized URL of the given parts, unless it is too long. -/
def normalizeParts (u : Unicode) (parts : SplitResult) (port : Option ℕ) : Option Text :=
  let scheme := u.lower parts.scheme
  let host := u.lower ((parts.hostname u).getD [])
  if !allowedSchemes.contains scheme then none
  else if host = [] || host.any isSpace then none
  else
    let path := removeDotSegments (if parts.path = [] then ['/'] else parts.path)
    let normalized := urlunsplit
      { scheme, netloc := authority scheme host port, path, query := parts.query, fragment := [] }
    if normalized.length ≤ maxUrlLength then some normalized else none

/-- The canonical request form of a URL, or `none` if it is not a crawlable http(s) URL. -/
def normalize (u : Unicode) (url : Text) : Option Text :=
  let text := strip url
  if text.any isControl then none
  else
    match urlsplit u text with
    | .error _ => none
    | .ok parts =>
      match parts.port u with
      | .error _ => none
      | .ok port => normalizeParts u parts port

/-- `text.partition(sep)[0]`, if `sep` is in the text. -/
def beforeText (sep : Text) : Text → Option Text
  | [] => if sep = [] then some [] else none
  | c :: rest => if sep <+: c :: rest then some [] else (beforeText sep rest).map (c :: ·)

/-- `prepare_seed`: a seed without a scheme is an https one. -/
def prepareSeed (u : Unicode) (url : Text) : Except Exn Text :=
  match beforeText "://".toList url with
  | none => .ok ("https://".toList ++ url)
  | some scheme =>
    if allowedSchemes.contains (u.lower scheme) then .ok url
    else .error (.valueError ("unsupported URL scheme ".toList ++ u.repr (u.lower scheme) ++
      ": use http:// or https://".toList))

/-- `resolve_href`; `urljoin` raises on a malformed authority. -/
def resolveHref (u : Unicode) (href baseUrl : Text) : Except Exn (Option Text) :=
  (urljoin u baseUrl (strip href)).map (normalize u)

/-! ## The dedup key -/

/-- The part of a parameter that parameters are sorted by. -/
def parameterName (pair : Text) : Text := before '=' pair

/-- `_sorted_query`: by name, parameters of one name in their given order. -/
def sortedQuery (query : Text) : Text :=
  ['&'].intercalate
    ((query.splitOn '&').insertionSort fun a b => parameterName a ≤ parameterName b)

/-- `_fold_escape`. -/
def foldEscape (high low : Char) : Text :=
  let character := Char.ofNat (16 * hexValue high + hexValue low)
  if isUnreserved character then [character] else ['%', high.toUpper, low.toUpper]

/-- `_PERCENT_ESCAPE.sub(_fold_escape, text)`. -/
def foldEscapes : Text → Text
  | '%' :: high :: low :: rest =>
    if isHexDigit high && isHexDigit low then foldEscape high low ++ foldEscapes rest
    else '%' :: foldEscapes (high :: low :: rest)
  | c :: rest => c :: foldEscapes rest
  | [] => []

/-- `_canonical_escapes`. -/
def canonicalEscapes (safe : Char → Bool) (text : Text) : Text := quote safe (foldEscapes text)

/-- The identity of a page: escapes folded and query parameters sorted. -/
def canonicalKey (u : Unicode) (url : Text) : Except Exn Text :=
  (urlsplit u url).map fun parts =>
    urlunsplit
      { parts with
        path := canonicalEscapes isPathSafe parts.path
        query := canonicalEscapes isQuerySafe (sortedQuery parts.query)
        fragment := [] }

/-! ## Scope -/

structure HostScope where
  host : Text
  port : Option ℕ
deriving DecidableEq, Repr

def HostScope.fromUrl (u : Unicode) (url : Text) : Except Exn HostScope := do
  let parts ← urlsplit u url
  let port ← parts.port u
  return { host := u.lower ((parts.hostname u).getD []), port }

def HostScope.allows (u : Unicode) (scope : HostScope) (url : Text) : Except Exn Bool :=
  match normalize u url with
  | none => .ok false
  | some normalized => (HostScope.fromUrl u normalized).map (· = scope)

end UrlCrawler
