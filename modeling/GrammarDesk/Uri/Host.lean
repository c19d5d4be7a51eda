import GrammarDesk.Uri.Basic
import GrammarDesk.Uri.Domain

/-! Hosts: names of domains, and addresses of 32 and of 128 bits. -/
namespace GrammarDesk.Uri

inductive Host where
  | name (text : Text)
  | address4 (value : Nat)
  /-- Eight groups of 16 bits. -/
  | address6 (groups : List Nat)
deriving DecidableEq, Repr, Inhabited

namespace Host

def number? (base : Nat) (digits : Text) : Option Nat :=
  if digits.isEmpty then none
  else digits.foldlM (fun sum c => do
    let value ← hexValue? c
    if value < base then some (base * sum + value) else none) 0

/-- A part of an address in decimal, octal or hexadecimal notation; the latter
two may lack their digits. -/
def part? : Text → Option Nat
  | '0' :: 'x' :: digits | '0' :: 'X' :: digits =>
    if digits.isEmpty then some 0 else number? 16 digits
  | ['0'] => some 0
  | '0' :: digits => number? 8 digits
  | digits => number? 10 digits

/-- The parts between dots, less an empty one at the end. -/
def parts (text : Text) : List Text :=
  let parts := Domain.labels text
  if 1 < parts.length ∧ parts.getLast? = some [] then parts.dropLast else parts

/-- A name whose last part is a number is an address. -/
def endsInNumber (text : Text) : Bool :=
  match (parts text).getLast? with
  | some last => (!last.isEmpty && last.all Char.isDigit) || (part? last).isSome
  | none => false

/-- An address of up to four parts, of which the last fills what is left. -/
def address4? (text : Text) : Option Nat := do
  let numbers ← (parts text).mapM part?
  let last ← numbers.getLast?
  let bytes := numbers.dropLast
  let room := Nat.pow 256 (4 - bytes.length)
  if bytes.length ≤ 3 ∧ bytes.all (· ≤ 255) ∧ last < room then
    some (bytes.foldl (fun value byte => 256 * value + byte) 0 * room + last)
  else none

/-- Four bytes in plain decimal notation, as the last two groups. -/
def dotted? (text : Text) : Option (List Nat) := do
  let bytes ← (Domain.labels text).mapM fun digits => do
    let value ← number? 10 digits
    if value ≤ 255 ∧ digits.length = (Nat.toDigits 10 value).length then some value else none
  match bytes with
  | [a, b, c, d] => some [256 * a + b, 256 * c + d]
  | _ => none

def group? (text : Text) : Option (List Nat) :=
  if text.contains '.' then dotted? text
  else if text.length ≤ 4 then (number? 16 text).map fun value => [value]
  else none

/-- The groups between colons. Only the last may be in dotted notation. -/
def groups? (text : Text) (mayBeDotted : Bool) : Option (List Nat) :=
  if text.isEmpty then some []
  else
    let parts := text.splitOnP (· == ':')
    if parts.dropLast.any (·.contains '.') || (!mayBeDotted && text.contains '.') then none
    else (parts.mapM group?).map List.flatten

/-- The texts before and after the first two colons in a row. -/
def splitAtGap : Text → Option (Text × Text)
  | ':' :: ':' :: rest => some ([], rest)
  | c :: rest => (splitAtGap rest).map fun (before, after) => (c :: before, after)
  | [] => none

/-- An address in brackets, without them. A gap stands for groups of zero. -/
def address6? (text : Text) : Option (List Nat) := do
  match splitAtGap text with
  | none =>
    let groups ← groups? text true
    if groups.length = 8 then some groups else none
  | some (before, after) =>
    let before ← groups? before false
    let after ← groups? after true
    let length := before.length + after.length
    if length ≤ 7 then some (before ++ List.replicate (8 - length) 0 ++ after) else none

def zeros (groups : List Nat) : Nat := (groups.takeWhile (· == 0)).length

def longestGap (groups : List Nat) : Nat × Nat :=
  (List.range groups.length).foldl (fun best index =>
    let length := zeros (groups.drop index)
    if best.2 < length then (index, length) else best) (0, 0)

def groupsText (groups : List Nat) : Text :=
  ((groups.map (Nat.toDigits 16)).intersperse [':']).flatten

/-- A run of two or more zero groups is written as a gap. -/
def address6Text (groups : List Nat) : Text :=
  let (place, length) := longestGap groups
  if length < 2 then groupsText groups
  else groupsText (groups.take place) ++ ':' :: ':' :: groupsText (groups.drop (place + length))

def text : Host → Text
  | name text => text
  | address4 value =>
    let byte (place : Nat) : Text := Nat.toDigits 10 (value / Nat.pow 256 place % 256)
    byte 3 ++ '.' :: byte 2 ++ '.' :: byte 1 ++ '.' :: byte 0
  | address6 groups => '[' :: address6Text groups ++ [']']

def bracketed? (text : Text) : Except UriError Host :=
  match text.getLast?, address6? text.dropLast with
  | some ']', some groups => .ok (address6 groups)
  | _, _ => .error .address6

def ofText (text : Text) : Except UriError Host :=
  match text with
  | '[' :: rest => bracketed? rest
  | text =>
    let decoded := (String.fromUTF8? ⟨(decode text).toArray⟩).bind fun name =>
      Domain.ascii? name.toList
    match decoded with
    | none => .error .domain
    | some [] => .error .emptyHost
    | some domain =>
      if endsInNumber domain then
        match address4? domain with
        | some value => .ok (address4 value)
        | none => .error .address4
      else .ok (name domain)

/-- Characters that no host has, of whatever scheme. -/
def isForbidden (c : Char) : Bool := c == '\x00' || " #/:<>?@[\\]^|\t\n\r".toList.contains c

def ofOther (text : Text) : Except UriError Host :=
  match text with
  | '[' :: rest => bracketed? rest
  | text =>
    if text.any isForbidden then .error .hostCharacter
    else .ok (.name (encode .opaquePath text))

end Host
end GrammarDesk.Uri
