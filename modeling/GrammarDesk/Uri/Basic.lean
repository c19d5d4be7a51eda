import GrammarDesk.Text.Basic

/-! URIs: what can be wrong with one, and how characters that may not stand in a
part of it are encoded there, byte by byte. -/
namespace GrammarDesk

/-- A URI in its normal form; it names a document. -/
abbrev Uri := String

inductive UriError where
  /-- A text without a scheme is not a URI of its own. -/
  | relative
  | emptyHost
  | portNumber
  | address4
  | address6
  | domain
  /-- A character that no host has. -/
  | hostCharacter
deriving DecidableEq, Repr, Inhabited

namespace UriError

def message : UriError → String
  | relative => "relative URL without a base"
  | emptyHost => "empty host"
  | portNumber => "invalid port number"
  | address4 => "invalid IPv4 address"
  | address6 => "invalid IPv6 address"
  | domain => "invalid international domain name"
  | hostCharacter => "invalid domain character"

end UriError

namespace Uri

/-- Schemes with hosts known to all, where a backslash is as good as a slash. -/
inductive Family where
  | file
  | web
  | other
deriving DecidableEq, Repr, Inhabited

namespace Family

def ofScheme (scheme : Text) : Family :=
  if scheme = "file".toList then file
  else if ["http", "https", "ws", "wss", "ftp"].contains (String.ofList scheme) then web
  else other

def isSlash (family : Family) (c : Char) : Bool := c == '/' || (c == '\\' && family != other)

end Family

def defaultPort? (scheme : Text) : Option Nat :=
  match String.ofList scheme with
  | "http" | "ws" => some 80
  | "https" | "wss" => some 443
  | "ftp" => some 21
  | _ => none

/-- Parts of a URI that keep different characters as they are. -/
inductive Part where
  | opaquePath
  | path
  | query (family : Family)
  | fragment
  | user
deriving DecidableEq, Repr

/-- The printable ASCII characters that a part encodes. -/
def Part.encodes : Part → List Char
  | opaquePath => []
  | fragment => [' ', '"', '<', '>', '\x60']
  | path => [' ', '"', '<', '>', '\x60', '#', '?', '\x7b', '\x7d']
  | query .other => [' ', '"', '#', '<', '>']
  | query _ => [' ', '"', '#', '<', '>', '\'']
  | user =>
    [' ', '"', '<', '>', '\x60', '#', '?', '\x7b', '\x7d', '/', ':', ';', '=', '@', '[', '\\',
      ']', '^', '|']

def hexDigit (n : Nat) : Char := (Nat.digitChar n).toUpper

def encodeByte (byte : UInt8) : Text :=
  ['%', hexDigit (byte.toNat / 16), hexDigit (byte.toNat % 16)]

/-- Controls and all beyond ASCII are encoded in every part. -/
def encodeChar (part : Part) (c : Char) : Text :=
  if c.toNat < 0x20 || 0x7E < c.toNat || part.encodes.contains c then
    (String.utf8EncodeChar c).flatMap encodeByte
  else [c]

def encode (part : Part) (text : Text) : Text := text.flatMap (encodeChar part)

def hexValue? (c : Char) : Option Nat :=
  if c.isDigit then some (c.toNat - '0'.toNat)
  else if 'a' ≤ c ∧ c ≤ 'f' then some (c.toNat - 'a'.toNat + 10)
  else if 'A' ≤ c ∧ c ≤ 'F' then some (c.toNat - 'A'.toNat + 10)
  else none

/-- The bytes of a text, those that are encoded decoded. -/
def decode : Text → List UInt8
  | '%' :: high :: low :: rest =>
    match hexValue? high, hexValue? low with
    | some a, some b => UInt8.ofNat (16 * a + b) :: decode rest
    | _, _ => String.utf8EncodeChar '%' ++ decode (high :: low :: rest)
  | c :: rest => String.utf8EncodeChar c ++ decode rest
  | [] => []

end Uri
end GrammarDesk
