import UrlCrawler.Core.Python

/-! # `urllib.parse`

The functions of the standard library the crawler takes URLs apart and puts them together with, as
CPython 3.12 has them. A `ValueError` is an `Except.error`.
-/
set_option autoImplicit false

namespace UrlCrawler

def usesRelative : List Text :=
  ["", "ftp", "http", "gopher", "nntp", "imap", "wais", "file", "https", "shttp", "mms", "prospero",
    "rtsp", "rtsps", "rtspu", "sftp", "svn", "svn+ssh", "ws", "wss"].map String.toList

def usesNetloc : List Text :=
  ["", "ftp", "http", "gopher", "nntp", "telnet", "imap", "wais", "file", "mms", "https", "shttp",
    "snews", "prospero", "rtsp", "rtsps", "rtspu", "rsync", "svn", "svn+ssh", "sftp", "nfs", "git",
    "git+ssh", "ws", "wss"].map String.toList

def usesParams : List Text :=
  ["", "ftp", "hdl", "prospero", "http", "imap", "https", "shttp", "rtsp", "rtsps", "rtspu", "sip",
    "sips", "mms", "sftp", "tel"].map String.toList

def isSchemeChar (c : Char) : Bool := c.isAlphanum || c = '+' || c = '-' || c = '.'

/-- `_WHATWG_C0_CONTROL_OR_SPACE`. -/
def isC0OrSpace (c : Char) : Bool := c.toNat ≤ 0x20

/-- `_UNSAFE_URL_BYTES_TO_REMOVE`. -/
def isUnsafeByte (c : Char) : Bool := c = '\t' || c = '\r' || c = '\n'

/-! ## `ipaddress` -/

def isHexDigit (c : Char) : Bool :=
  c.isDigit || ('a' ≤ c && c ≤ 'f') || ('A' ≤ c && c ≤ 'F')

/-- The value of a hexadecimal digit. -/
def hexValue (c : Char) : ℕ :=
  if c.isDigit then c.toNat - '0'.toNat
  else if 'a' ≤ c then c.toNat - 'a'.toNat + 10 else c.toNat - 'A'.toNat + 10

theorem isDigit_iff (c : Char) : c.isDigit = true ↔ 48 ≤ c.toNat ∧ c.toNat ≤ 57 := by
  have h0 : '0'.toNat = 48 := rfl
  have h9 : '9'.toNat = 57 := rfl
  rw [Char.isDigit_iff_toNat, h0, h9]

theorem isHexDigit_iff (c : Char) : isHexDigit c = true ↔
    (48 ≤ c.toNat ∧ c.toNat ≤ 57) ∨ (97 ≤ c.toNat ∧ c.toNat ≤ 102) ∨
      (65 ≤ c.toNat ∧ c.toNat ≤ 70) := by
  have hle : ∀ a b : Char, a ≤ b ↔ a.toNat ≤ b.toNat := fun _ _ => Iff.rfl
  have ha : 'a'.toNat = 97 := rfl
  have hf : 'f'.toNat = 102 := rfl
  have hA : 'A'.toNat = 65 := rfl
  have hF : 'F'.toNat = 70 := rfl
  simp only [isHexDigit, Bool.or_eq_true, Bool.and_eq_true, decide_eq_true_eq, hle, isDigit_iff]
  omega

theorem isAscii_of_isHexDigit {c : Char} (h : isHexDigit c = true) : isAscii c = true := by
  have hrange := (isHexDigit_iff c).mp h
  rw [isAscii, decide_eq_true_eq]
  omega

/-- `int(text, 16)` of hexadecimal digits. -/
def readHex (text : Text) : ℕ := text.foldl (fun n c => 16 * n + hexValue c) 0

/-- `IPv4Address._parse_octet`. -/
def parseOctet (octet : Text) : Option ℕ :=
  if octet ≠ [] && octet.all Char.isDigit && octet.length ≤ 3 &&
      (octet = ['0'] || octet.head? ≠ some '0') && readNat octet ≤ 255 then some (readNat octet)
  else none

/-- `IPv4Address`, as its number. -/
def ipv4Address (text : Text) : Option ℕ := do
  let octets ← (text.splitOn '.').mapM parseOctet
  if octets.length = 4 then some (octets.foldl (fun n octet => 256 * n + octet) 0) else none

/-- `IPv6Address._parse_hextet`. -/
def parseHextet (hextet : Text) : Option ℕ :=
  if hextet ≠ [] && hextet.all isHexDigit && hextet.length ≤ 4 then some (readHex hextet) else none

/-- The parts of an IPv6 address, an IPv4-style suffix turned into two hextets. -/
def ipv6Parts (text : Text) : Option (List Text) :=
  let parts := text.splitOn ':'
  let last := parts.getLastD []
  if parts.length < 3 then none
  else if '.' ∈ last then
    (ipv4Address last).map fun n =>
      parts.dropLast ++ [n / 65536, n % 65536].map fun n => Nat.toDigits 16 n
  else some parts

/-- `IPv6Address`, as its number. -/
def ipv6Address (text : Text) : Option ℕ := do
  let address := before '%' text
  let scope := after '%' text
  if '/' ∈ text || ('%' ∈ text && (scope = [] || '%' ∈ scope)) then none else
  let parts ← ipv6Parts address
  if 9 < parts.length then none else
  let first := parts.headD []
  let last := parts.getLastD []
  let skips := (List.range parts.length).filter fun i =>
    0 < i && i + 1 < parts.length && parts[i]? = some []
  let hextets ← match skips with
    | [] =>
      if parts.length = 8 && first ≠ [] && last ≠ [] then parts.mapM parseHextet else none
    | [skip] =>
      let hi := if first = [] then skip - 1 else skip
      let lo := parts.length - skip - if last = [] then 2 else 1
      if (first = [] && hi ≠ 0) || (last = [] && lo ≠ 0) || 8 ≤ hi + lo then none
      else do
        let high ← (parts.take hi).mapM parseHextet
        let low ← (parts.drop (parts.length - lo)).mapM parseHextet
        some (high ++ List.replicate (8 - (hi + lo)) 0 ++ low)
    | _ => none
  some (hextets.foldl (fun n hextet => 65536 * n + hextet) 0)

/-! ## `urlsplit` -/

structure SplitResult where
  scheme : Text
  netloc : Text
  path : Text
  query : Text
  fragment : Text
deriving DecidableEq, Repr

/-- The regular expression `\Av[a-fA-F0-9]+\..+\Z`. -/
def isIpvFuture (hostname : Text) : Bool :=
  match hostname with
  | 'v' :: rest =>
    match rest.span isHexDigit with
    | (_ :: _, '.' :: c :: rest) => (c :: rest).all (· ≠ '\n')
    | _ => false
  | _ => false

/-- `_check_bracketed_host`. -/
def checkBracketedHost (u : Unicode) (hostname : Text) : Except Exn Unit :=
  if hostname.head? = some 'v' then
    if isIpvFuture hostname then .ok ()
    else .error (.valueError "IPvFuture address is invalid".toList)
  else if (ipv4Address hostname).isSome then
    .error (.valueError "An IPv4 address cannot be in brackets".toList)
  else if (ipv6Address hostname).isSome then .ok ()
  else .error (.valueError
    (u.repr hostname ++ " does not appear to be an IPv4 or IPv6 address".toList))

def invalidIpv6Url : Exn := .valueError "Invalid IPv6 URL".toList

/-- `_check_bracketed_netloc`. -/
def checkBracketedNetloc (u : Unicode) (netloc : Text) : Except Exn Unit :=
  let hostnameAndPort := afterLast '@' netloc
  if '[' ∈ hostnameAndPort then
    let bracketed := after '[' hostnameAndPort
    let port := after ']' bracketed
    if before '[' hostnameAndPort ≠ [] then .error invalidIpv6Url
    else if port ≠ [] && port.head? ≠ some ':' then .error invalidIpv6Url
    else checkBracketedHost u (before ']' bracketed)
  else checkBracketedHost u (before ':' hostnameAndPort)

/-- The bracket checks `urlsplit` makes on an authority. -/
def checkBrackets (u : Unicode) (netloc : Text) : Except Exn Unit :=
  if '[' ∈ netloc ∧ ']' ∈ netloc then checkBracketedNetloc u netloc
  else if '[' ∈ netloc ∨ ']' ∈ netloc then .error invalidIpv6Url
  else .ok ()

/-- `_checknetloc`. -/
def checkNetloc (u : Unicode) (netloc : Text) : Except Exn Unit :=
  if netloc.all isAscii then .ok ()
  else
    let n := netloc.filter fun c => c ∉ ['@', ':', '#', '?']
    if u.nfkc n = n then .ok ()
    else if (u.nfkc n).any fun c => c ∈ ['/', '?', '#', '@', ':'] then
      .error (.valueError ("netloc '".toList ++ netloc ++
        "' contains invalid characters under NFKC normalization".toList))
    else .ok ()

/-- The scheme a URL begins with, lowered, and what follows its colon. -/
def splitScheme (u : Unicode) (scheme url : Text) : Text × Text :=
  if ':' ∈ url && (before ':' url).head?.any Char.isAlpha && (before ':' url).all isSchemeChar then
    (u.lower (before ':' url), after ':' url)
  else (scheme, url)

/-- `_splitnetloc`: an authority ends at the first of `/`, `?` and `#`. -/
def inNetloc (c : Char) : Bool := c ∉ ['/', '?', '#']

/-- The authority of a URL that goes on with `//`, checked, and what follows it. -/
def splitNetloc (u : Unicode) (url : Text) : Except Exn (Text × Text) :=
  match url with
  | '/' :: '/' :: rest => do
    checkBrackets u (rest.takeWhile inNetloc)
    return (rest.takeWhile inNetloc, rest.dropWhile inNetloc)
  | _ => .ok ([], url)

def urlsplit (u : Unicode) (url : Text) (scheme : Text := []) : Except Exn SplitResult := do
  let url := (url.dropWhile isC0OrSpace).filter fun c => !isUnsafeByte c
  let scheme := ((scheme.dropWhile isC0OrSpace).rdropWhile isC0OrSpace).filter fun c =>
    !isUnsafeByte c
  let (scheme, url) := splitScheme u scheme url
  let (netloc, url) ← splitNetloc u url
  let fragment := after '#' url
  let url := before '#' url
  checkNetloc u netloc
  return { scheme, netloc, path := before '?' url, query := after '?' url, fragment }

namespace SplitResult

/-- `_hostinfo`. -/
def hostinfo (parts : SplitResult) : Text × Option Text :=
  let hostinfo := afterLast '@' parts.netloc
  let (hostname, port) :=
    if '[' ∈ hostinfo then
      let bracketed := after '[' hostinfo
      (before ']' bracketed, after ':' (after ']' bracketed))
    else (before ':' hostinfo, after ':' hostinfo)
  (hostname, if port = [] then none else some port)

/-- The host, lowered but for an IPv6 zone. -/
def hostname (u : Unicode) (parts : SplitResult) : Option Text :=
  let hostname := parts.hostinfo.1
  if hostname = [] then none
  else some (u.lower (before '%' hostname) ++ hostname.dropWhile (· ≠ '%'))

/-- The longest text of digits that `int` reads. -/
def maxIntDigits : ℕ := 4300

def port (u : Unicode) (parts : SplitResult) : Except Exn (Option ℕ) :=
  match parts.hostinfo.2 with
  | none => .ok none
  | some port =>
    if !port.all Char.isDigit then
      .error (.valueError ("Port could not be cast to integer value as ".toList ++ u.repr port))
    else if maxIntDigits < port.length then
      .error (.valueError
        ("Exceeds the limit (4300 digits) for integer string conversion: value has ".toList ++
          showNat port.length ++
          " digits; use sys.set_int_max_str_digits() to increase the limit".toList))
    else if readNat port ≤ 65535 then .ok (some (readNat port))
    else .error (.valueError "Port out of range 0-65535".toList)

end SplitResult

/-! ## `urlunsplit` and `urljoin` -/

/-- The authority and path of a URL. -/
def joinNetloc (scheme netloc path : Text) : Text :=
  if netloc ≠ [] then
    "//".toList ++ netloc ++ (if path = [] || path.head? = some '/' then path else '/' :: path)
  else if path.take 2 = ['/', '/'] then '/' :: '/' :: path
  else if scheme ≠ [] && scheme ∈ usesNetloc && (path = [] || path.head? = some '/') then
    '/' :: '/' :: path
  else path

def urlunsplit (parts : SplitResult) : Text :=
  (if parts.scheme = [] then [] else parts.scheme ++ [':']) ++
    joinNetloc parts.scheme parts.netloc parts.path ++
    (if parts.query = [] then [] else '?' :: parts.query) ++
    (if parts.fragment = [] then [] else '#' :: parts.fragment)

/-- `_splitparams`: the parameters of the last segment of a path. -/
def splitParams (scheme path : Text) : Text × Text :=
  let last := afterLast '/' path
  if scheme ∈ usesParams && ';' ∈ last then
    (path.take (path.length - last.length) ++ before ';' last, after ';' last)
  else (path, [])

/-- `urlunparse`. -/
def urlunparse (parts : SplitResult) (params : Text) : Text :=
  urlunsplit
    { parts with path := if params = [] then parts.path else parts.path ++ ';' :: params }

/-- Resolve the dots of a list of segments; a `..` with nothing before it is dropped. -/
def resolveDots (segments : List Text) : List Text :=
  let resolved := segments.foldl (fun resolved segment =>
    if segment = "..".toList then resolved.dropLast
    else if segment = ".".toList then resolved
    else resolved ++ [segment]) []
  let last := segments.getLastD []
  if last = ".".toList || last = "..".toList then resolved ++ [[]] else resolved

/-- The segments a relative path is resolved to against a base path. -/
def joinSegments (base path : Text) : List Text :=
  if path.head? = some '/' then path.splitOn '/'
  else
    let baseParts := base.splitOn '/'
    let baseParts := if baseParts.getLastD [] = [] then baseParts else baseParts.dropLast
    let segments := baseParts ++ path.splitOn '/'
    -- the slice assignment `segments[1:-1] = filter(None, segments[1:-1])`
    segments.take 1 ++ ((segments.drop 1).dropLast.filter (· ≠ [])) ++
      (segments.drop 1).drop (segments.length - 2)

def urljoin (u : Unicode) (base url : Text) : Except Exn Text := do
  if base = [] then return url
  if url = [] then return base
  let b ← urlsplit u base
  let (bpath, bparams) := splitParams b.scheme b.path
  let parts ← urlsplit u url b.scheme
  let (path, params) := splitParams parts.scheme parts.path
  if parts.scheme ≠ b.scheme || parts.scheme ∉ usesRelative then return url
  if parts.scheme ∈ usesNetloc && parts.netloc ≠ [] then
    return urlunparse { parts with path } params
  let netloc := if parts.scheme ∈ usesNetloc then b.netloc else parts.netloc
  if path = [] && params = [] then
    return urlunparse
      { parts with
        netloc
        path := bpath
        query := if parts.query = [] then b.query else parts.query } bparams
  let resolved := ['/'].intercalate (resolveDots (joinSegments bpath path))
  return urlunparse { parts with netloc, path := if resolved = [] then ['/'] else resolved } params

/-! ## `quote` -/

def hexDigitUpper (n : ℕ) : Char := "0123456789ABCDEF".toList.getD n '0'

/-- `'%{:02X}'.format(byte)`. -/
def percentByte (byte : UInt8) : Text :=
  ['%', hexDigitUpper (byte.toNat / 16), hexDigitUpper (byte.toNat % 16)]

/-- `quote(text, safe)`: what is neither unreserved nor safe becomes the escapes of its UTF-8
bytes. -/
def quote (safe : Char → Bool) (text : Text) : Text :=
  text.flatMap fun c =>
    if c.isAlphanum || c ∈ ['_', '.', '-', '~'] || (isAscii c && safe c) then [c]
    else (String.utf8EncodeChar c).flatMap percentByte

/-! ## What is raised -/

section Quiet
variable (u : Unicode)

theorem checkBracketedHost_quiet (hostname : Text) : Quiet (checkBracketedHost u hostname) := by
  unfold checkBracketedHost
  repeat' split
  all_goals simp

theorem checkBrackets_quiet (netloc : Text) : Quiet (checkBrackets u netloc) := by
  unfold checkBrackets checkBracketedNetloc
  dsimp only
  repeat' split
  all_goals first | exact checkBracketedHost_quiet u _ | simp [invalidIpv6Url]

theorem checkNetloc_quiet (netloc : Text) : Quiet (checkNetloc u netloc) := by
  unfold checkNetloc
  dsimp only
  repeat' split
  all_goals simp

theorem splitNetloc_quiet (url : Text) : Quiet (splitNetloc u url) := by
  unfold splitNetloc
  split
  · exact (checkBrackets_quiet u _).bind fun _ => quiet_ok _
  · exact quiet_ok _

theorem urlsplit_quiet (url scheme : Text) : Quiet (urlsplit u url scheme) :=
  (splitNetloc_quiet u _).bind fun _ => (checkNetloc_quiet u _).bind fun _ => quiet_ok _

theorem urljoin_quiet (base url : Text) : Quiet (urljoin u base url) := by
  unfold urljoin
  split
  · exact quiet_ok _
  · split
    · exact quiet_ok _
    · refine (urlsplit_quiet u _ _).bind fun b => (urlsplit_quiet u _ _).bind fun parts => ?_
      dsimp only
      repeat' split
      all_goals exact quiet_ok _

end Quiet

end UrlCrawler
