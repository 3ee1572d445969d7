import UrlCrawler.Core.Urls

/-! # The host guard

`url_crawler_service/hostcheck.py`: why a seed must not be crawled from the service. The resolver
belongs to the operating system and is a parameter; what `ipaddress` says of an address is CPython's.
-/
set_option autoImplicit false

namespace UrlCrawler

/-! ## `ipaddress` -/

inductive IpAddress
  | v4 (ip : ℕ)
  | v6 (ip : ℕ)
deriving DecidableEq, Repr

/-- `ip_address`; `none` for its `ValueError`. -/
def ipAddress (text : Text) : Option IpAddress :=
  match ipv4Address text with
  | some ip => some (.v4 ip)
  | none => (ipv6Address text).map .v6

/-- A network, as its address and the number of host bits. -/
structure Network where
  address : ℕ
  hostBits : ℕ

def Network.contains (network : Network) (ip : ℕ) : Bool :=
  ip >>> network.hostBits = network.address >>> network.hostBits

def ipv4Network (octets : List ℕ) (length : ℕ) : Network where
  address := (octets ++ List.replicate (4 - octets.length) 0).foldl (256 * · + ·) 0
  hostBits := 32 - length

def ipv6Network (hextets : List ℕ) (length : ℕ) : Network where
  address := (hextets ++ List.replicate (8 - hextets.length) 0).foldl (65536 * · + ·) 0
  hostBits := 128 - length

def ipv4PrivateNetworks : List Network :=
  [ipv4Network [0] 8, ipv4Network [10] 8, ipv4Network [127] 8, ipv4Network [169, 254] 16,
    ipv4Network [172, 16] 12, ipv4Network [192, 0, 0] 24, ipv4Network [192, 0, 0, 170] 31,
    ipv4Network [192, 0, 2] 24, ipv4Network [192, 168] 16, ipv4Network [198, 18] 15,
    ipv4Network [198, 51, 100] 24, ipv4Network [203, 0, 113] 24, ipv4Network [240] 4,
    ipv4Network [255, 255, 255, 255] 32]

def ipv4PrivateExceptions : List Network :=
  [ipv4Network [192, 0, 0, 9] 32, ipv4Network [192, 0, 0, 10] 32]

def ipv6PrivateNetworks : List Network :=
  [ipv6Network [0, 0, 0, 0, 0, 0, 0, 1] 128, ipv6Network [] 128,
    ipv6Network [0, 0, 0, 0, 0, 0xffff] 96, ipv6Network [0x64, 0xff9b, 1] 48,
    ipv6Network [0x100] 64, ipv6Network [0x2001] 23, ipv6Network [0x2001, 0xdb8] 32,
    ipv6Network [0x2002] 16, ipv6Network [0xfc00] 7, ipv6Network [0xfe80] 10]

def ipv6PrivateExceptions : List Network :=
  [ipv6Network [0x2001, 1, 0, 0, 0, 0, 0, 1] 128, ipv6Network [0x2001, 1, 0, 0, 0, 0, 0, 2] 128,
    ipv6Network [0x2001, 3] 32, ipv6Network [0x2001, 4, 0x112] 48, ipv6Network [0x2001, 0x20] 28,
    ipv6Network [0x2001, 0x30] 28]

def ipv6ReservedNetworks : List Network :=
  [ipv6Network [0] 8, ipv6Network [0x100] 8, ipv6Network [0x200] 7, ipv6Network [0x400] 6,
    ipv6Network [0x800] 5, ipv6Network [0x1000] 4, ipv6Network [0x4000] 3, ipv6Network [0x6000] 3,
    ipv6Network [0x8000] 3, ipv6Network [0xa000] 3, ipv6Network [0xc000] 3, ipv6Network [0xe000] 4,
    ipv6Network [0xf000] 5, ipv6Network [0xf800] 6, ipv6Network [0xfe00] 9]

namespace IpAddress

def isLoopback : IpAddress → Bool
  | v4 ip => (ipv4Network [127] 8).contains ip
  | v6 ip => ip = 1

def ipv4IsPrivate (ip : ℕ) : Bool :=
  ipv4PrivateNetworks.any (·.contains ip) && ipv4PrivateExceptions.all (!·.contains ip)

/-- An IPv6 address that maps an IPv4 one is as private as that. -/
def isPrivate : IpAddress → Bool
  | v4 ip => ipv4IsPrivate ip
  | v6 ip =>
    if ip >>> 32 = 0xffff then ipv4IsPrivate (ip % 2 ^ 32)
    else ipv6PrivateNetworks.any (·.contains ip) && ipv6PrivateExceptions.all (!·.contains ip)

def isLinkLocal : IpAddress → Bool
  | v4 ip => (ipv4Network [169, 254] 16).contains ip
  | v6 ip => (ipv6Network [0xfe80] 10).contains ip

def isMulticast : IpAddress → Bool
  | v4 ip => (ipv4Network [224] 4).contains ip
  | v6 ip => (ipv6Network [0xff00] 8).contains ip

def isReserved : IpAddress → Bool
  | v4 ip => (ipv4Network [240] 4).contains ip
  | v6 ip => ipv6ReservedNetworks.any (·.contains ip)

def isUnspecified : IpAddress → Bool
  | v4 ip => ip = 0
  | v6 ip => ip = 0

def isGlobal : IpAddress → Bool
  | v4 ip => !(ipv4Network [100, 64] 10).contains ip && !ipv4IsPrivate ip
  | v6 ip => !(v6 ip).isPrivate

end IpAddress

/-- `_is_private`. -/
def isPrivateAddress (address : IpAddress) : Bool :=
  address.isLoopback || address.isPrivate || address.isLinkLocal || address.isMulticast ||
    address.isReserved || address.isUnspecified || !address.isGlobal

/-! ## The guard -/

/-- What comes of asking the system for the addresses of a host. -/
inductive Lookup
  | addresses (found : List Text)
  | osError
  | unicodeError (text : String)
deriving DecidableEq, Repr

def localSuffixes : List Text := [".localhost".toList, ".local".toList, ".internal".toList]

def isLocalHost (host : Text) : Bool :=
  host = "localhost".toList || localSuffixes.any (·.isSuffixOf host)

def unresolvable : Text := "host does not resolve".toList

/-- `resolve_host`: the addresses of a host, without their zones. -/
def resolveHost (getaddrinfo : Text → Lookup) (host : Text) : Lookup :=
  match getaddrinfo host with
  | .addresses found => .addresses (found.map (before '%'))
  | other => other

/-- `host.rstrip(".")`. -/
def bareHost (host : Text) : Text := host.rdropWhile (· = '.')

/-- The verdict on a host that is no literal: the first address that is private, or not one. -/
def lookupReason : Lookup → Except Exn (Option Text)
  | .osError => .ok (some unresolvable)
  | .unicodeError text => .error ⟨"UnicodeError", text⟩
  | .addresses [] => .ok (some unresolvable)
  | .addresses found => .ok ((found.find? fun address =>
      (ipAddress address).all isPrivateAddress).map fun address =>
        "host resolves to a private address (".toList ++ address ++ [')'])

/-- `private_host_reason`: why a seed must not be crawled, or `none` when it is safe. -/
def privateHostReason (u : Unicode) (getaddrinfo : Text → Lookup) (url : Text) :
    Except Exn (Option Text) :=
  (urlsplit u url).bind fun parts =>
    let host := bareHost ((parts.hostname u).getD [])
    if host = [] then .ok (some "the URL has no host".toList)
    else if isLocalHost host then .ok (some (host ++ " is a local hostname".toList))
    else
      match ipAddress host with
      | some literal =>
        .ok (if isPrivateAddress literal then some (host ++ " is a private address".toList) else none)
      | none => lookupReason (resolveHost getaddrinfo host)

/-- The guard has to ask the system about a host that is neither local nor a literal. -/
def asksFor (host : Text) : Bool :=
  host ≠ [] && !isLocalHost host && (ipAddress host).isNone

example : privateHostReason .ascii (fun _ => .addresses ["10.0.0.5".toList])
    "http://example.com./".toList =
      .ok (some "host resolves to a private address (10.0.0.5)".toList) := by
  decide +kernel

end UrlCrawler
