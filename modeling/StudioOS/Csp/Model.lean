import Mathlib.Algebra.Ring.Nat
import StudioOS.Library.Text
import StudioOS.Library.Words

/-!
# Csp — Model

The server origin of the desktop application: `validate` reduces an address
to an origin, and `csp_with_connect_origin` adds the origin to the
`connect-src` directive of the policy of the webview. The `url` crate is a
parameter; an accepted host has none of the forbidden domain code points.

The last part reads a policy as a browser does.
-/

namespace StudioOS.Csp

open Words

abbrev Text := List Char

/-- Decided character by character of the text, not by trying every `Char`. -/
scoped instance (p : Char → Prop) [DecidablePred p] (text : Text) :
    Decidable (∀ c ∈ text, p c) :=
  List.decidableBAll p text

/-- `char::is_whitespace`. -/
def isWhitespace (c : Char) : Bool :=
  let n := c.toNat
  (9 ≤ n && n ≤ 13) || n == 32 || n == 0x85 || n == 0xa0 || n == 0x1680 ||
    (0x2000 ≤ n && n ≤ 0x200a) || n == 0x2028 || n == 0x2029 || n == 0x202f || n == 0x205f ||
    n == 0x3000

/-- `char::is_control`. -/
def isControl (c : Char) : Bool :=
  let n := c.toNat
  n ≤ 0x1f || (0x7f ≤ n && n ≤ 0x9f)

/-- A forbidden domain code point. -/
def isForbidden (c : Char) : Bool :=
  c.toNat ≤ 0x20 || c.toNat == 0x7f ||
    c ∈ ['#', '/', ':', '<', '>', '?', '@', '[', '\\', ']', '^', '|', '%']

/-- What the `url` crate accepts as a domain. -/
structure Domain where
  text : Text
  nonempty : text ≠ []
  ascii : ∀ c ∈ text, c.toNat < 128 ∧ c.isUpper = false
  allowed : ∀ c ∈ text, isForbidden c = false

/-- An IPv6 address as it is written between the brackets. -/
structure Ipv6Addr where
  text : Text
  digits : ∀ c ∈ text, (c.isDigit || c ∈ ['a', 'b', 'c', 'd', 'e', 'f', ':']) = true

inductive Host where
  | domain (domain : Domain)
  | ipv4 (octets : Fin 256 × Fin 256 × Fin 256 × Fin 256)
  | ipv6 (address : Ipv6Addr)

/-- `Url`, as far as the validation reads it. The port of the scheme itself
is `None`. -/
structure Url where
  scheme : Text
  username : Text
  password : Option Text
  host : Option Host
  port : Option Nat
  path : Text
  query : Option Text
  fragment : Option Text

inductive OriginError where
  | empty
  | tooLong
  | invalid
  | unsupportedScheme
  | credentialsNotAllowed
  | notAnOrigin
  | insecureScheme
  | desktopOrigin

def maxLen : Nat := 2048

def decimal (n : Nat) : Text := Nat.toDigits 10 n

def Host.serialization : Host → Text
  | .domain name => name.text
  | .ipv4 (a, b, c, d) => ['.'].intercalate [decimal a, decimal b, decimal c, decimal d]
  | .ipv6 address => '[' :: address.text ++ [']']

/-- `url.origin().ascii_serialization()` of an `http` or `https` address. -/
def originSerialization (scheme : Text) (host : Host) (port : Option Nat) : Text :=
  scheme ++ "://".toList ++ host.serialization ++
    match port with
    | none => []
    | some port => ':' :: decimal port

def isLocalDevHost : Option Host → Bool
  | some (.domain domain) => domain.text.map Char.toLower = "localhost".toList
  | some (.ipv4 octets) => octets = (127, 0, 0, 1)
  | _ => false

def isDesktopOriginHost : Option Host → Bool
  | some (.domain domain) =>
    (domain.text.rdropWhile (· = '.')).map Char.toLower ∈
      ["tauri.localhost".toList, "ipc.localhost".toList, "tauri".toList]
  | _ => false

/-- What is outside this part of the program. -/
structure Env where
  /-- `Url::parse`. -/
  parse : Text → Option Url

def Env.validateWithPolicy (env : Env) (raw : Text) (allowRemoteHttp : Bool) :
    Except OriginError Text :=
  let trimmed := trim isWhitespace raw
  if trimmed = [] then .error .empty
  else if maxLen < (trimmed.map Char.utf8Size).sum then .error .tooLong
  else if (trimmed.any fun c => isWhitespace c || isControl c || c == '*') = true then
    .error .invalid
  else
    match env.parse trimmed with
    | none => .error .invalid
    | some url =>
      if url.scheme ≠ "http".toList ∧ url.scheme ≠ "https".toList then
        .error .unsupportedScheme
      else if url.username ≠ [] ∨ url.password.isSome then .error .credentialsNotAllowed
      else
        match url.host with
        | none => .error .invalid
        | some host =>
          if (url.path ≠ ['/'] ∧ url.path ≠ []) ∨ url.query.isSome ∨ url.fragment.isSome then
            .error .notAnOrigin
          else if isDesktopOriginHost url.host = true then .error .desktopOrigin
          else if url.scheme = "http".toList ∧ isLocalDevHost url.host = false ∧
              allowRemoteHttp = false then .error .insecureScheme
          else .ok (originSerialization url.scheme host url.port)

def Env.validate (env : Env) (raw : Text) : Except OriginError Text :=
  env.validateWithPolicy raw false

def connectSrc : Text := "connect-src".toList

def selfSource : Text := "'self'".toList

/-- The directives as the code splits them. -/
def segments (csp : Text) : List Text :=
  ((csp.splitOn ';').map (trim isWhitespace)).filter fun d => !d.isEmpty

/-- The name is `connect-src`. -/
def isConnectSrc (directive : Text) : Bool :=
  (words isWhitespace directive).head? = some connectSrc

/-- The directive with the origin among its sources. -/
def withOrigin (origin directive : Text) : Text :=
  if isConnectSrc directive = true then
    if origin ∈ words isWhitespace directive then directive else directive ++ ' ' :: origin
  else directive

def cspWithConnectOrigin (csp origin : Text) : Text :=
  let directives := (segments csp).map (withOrigin origin)
  let found := (segments csp).any isConnectSrc
  let directives :=
    if found = true then directives
    else directives ++ [connectSrc ++ ' ' :: (selfSource ++ ' ' :: origin)]
  "; ".toList.intercalate directives

/-- White space of a policy: tab, line feed, form feed, return and blank. -/
def isCspSpace (c : Char) : Bool := c ∈ ['\t', '\n', '\x0c', '\r', ' ']

/-- A character of a policy: white space, or a visible one. -/
def isCspChar (c : Char) : Bool := isCspSpace c || (0x21 ≤ c.toNat && c.toNat ≤ 0x7e)

/-- The name of a directive, without regard to case. -/
def nameKey (directive : List Text) : Text := (directive.headD []).map Char.toLower

/-- Of the directives with one name the first one. -/
def firsts : List (List Text) → List (List Text)
  | [] => []
  | directive :: rest =>
    directive :: (firsts rest).filter fun other => nameKey other ≠ nameKey directive

/-- The directives, each with its name and its sources. -/
def readDirectives (csp : Text) : List (List Text) :=
  ((csp.splitOn ';').map (words isCspSpace)).filter fun directive => !directive.isEmpty

/-- The policy: names, in lower case, with sources. -/
def readPolicy (csp : Text) : List (Text × List Text) :=
  (firsts (readDirectives csp)).map fun directive => (nameKey directive, directive.tail)

end StudioOS.Csp
