import GrammarDesk.Config.Toml.Line

/-! TOML values without parts: truth values, numbers, dates and times. Dates and
times become text in one form, whichever way they are written. -/
namespace GrammarDesk.Toml

/-- Digits of a base with single underscores between them. -/
def digits? (isDigit : Char → Bool) (text : Text) : Option Text :=
  let marks := text.filter (· != '_')
  let spaced := (text.zip text.tail).all fun (a, b) => !(a == '_' && b == '_')
  if marks.isEmpty || !marks.all isDigit || text.head? == some '_' || text.getLast? == some '_' ||
    !spaced then none else some marks

def digitValue (c : Char) : Nat :=
  if c.isDigit then c.toNat - '0'.toNat else c.toLower.toNat - 'a'.toNat + 10

/-- A whole number of a base, if it fits into 64 bits with a sign. -/
def whole? (base : Nat) (negative : Bool) (digits : Text) : Option Scalar :=
  let value := digits.foldl (fun value c => base * value + digitValue c) 0
  if negative then if value ≤ 9223372036854775808 then some (.int (-value)) else none
  else if value ≤ 9223372036854775807 then some (.int value) else none

def isHex (c : Char) : Bool := c.isDigit || ('a' ≤ c && c ≤ 'f') || ('A' ≤ c && c ≤ 'F')

def decimal? (text : Text) : Option Text := do
  let digits ← digits? Char.isDigit text
  match digits with
  | '0' :: _ :: _ => none
  | digits => return digits

def sign : Text → Bool × Text
  | '-' :: rest => (true, rest)
  | '+' :: rest => (false, rest)
  | text => (false, text)

/-- A number that double precision can hold; none is infinite but below all
others. -/
def decimalScalar? (number : Decimal) : Option Scalar :=
  match Double.ofDecimal? number with
  | some value => some (.real value)
  | none => if number.negative then some (.infinite true) else none

def real? (negative : Bool) (text : Text) : Option Scalar := do
  let mantissa := text.takeWhile fun c => c != 'e' && c != 'E'
  let exponent ← match text.dropWhile fun c => c != 'e' && c != 'E' with
    | [] => some 0
    | _ :: rest =>
      let (below, digits) := sign rest
      let digits ← digits? Char.isDigit digits
      let value : Int := Text.digitsValue digits
      some (if below then -value else value)
  let whole ← decimal? (mantissa.takeWhile (· != '.'))
  match mantissa.dropWhile (· != '.') with
  | [] =>
    if text.length = mantissa.length then none
    else decimalScalar? ⟨negative, Text.digitsValue whole, exponent⟩
  | _ :: fraction =>
    let fraction ← digits? Char.isDigit fraction
    decimalScalar? ⟨negative, Text.digitsValue (whole ++ fraction), exponent - fraction.length⟩

def number? (text : Text) : Option Scalar :=
  match text with
  | '0' :: 'x' :: digits => digits? isHex digits >>= whole? 16 false
  | '0' :: 'o' :: digits => digits? (fun c => '0' ≤ c && c ≤ '7') digits >>= whole? 8 false
  | '0' :: 'b' :: digits => digits? (fun c => c == '0' || c == '1') digits >>= whole? 2 false
  | text =>
    let (negative, rest) := sign text
    if rest = ['i', 'n', 'f'] then some (.infinite negative)
    else if rest = ['n', 'a', 'n'] then some .notANumber
    else match decimal? rest with
      | some digits => whole? 10 negative digits
      | none => real? negative rest

/-- A number of exactly `count` digits within bounds, at the front. -/
def digitGroup (count low high : Nat) : Reader Nat := fun text =>
  let digits := text.take count
  let value := Text.digitsValue digits
  if digits.length = count ∧ digits.all Char.isDigit ∧ low ≤ value ∧ value ≤ high then
    some (value, text.drop count)
  else none

def literally (c : Char) : Reader Unit
  | d :: rest => if c = d then some ((), rest) else none
  | [] => none

def daysIn (year month : Nat) : Nat :=
  if month = 2 then
    if year % 4 = 0 ∧ (year % 100 ≠ 0 ∨ year % 400 = 0) then 29 else 28
  else if [4, 6, 9, 11].contains month then 30 else 31

def date? : Reader Text := fun text => do
  let (year, rest) ← digitGroup 4 0 9999 text
  let (_, rest) ← literally '-' rest
  let (month, rest) ← digitGroup 2 1 12 rest
  let (_, rest) ← literally '-' rest
  let (_, rest) ← digitGroup 2 1 (daysIn year month) rest
  return (text.take 10, rest)

/-- Parts of a second, of which nine digits count and no zeros at the end. -/
def partsOfSecond (digits : Text) : Text :=
  match ((digits.take 9).reverse.dropWhile (· == '0')).reverse with
  | [] => []
  | kept => '.' :: kept

def time? : Reader Text := fun text => do
  let (_, rest) ← digitGroup 2 0 23 text
  let (_, rest) ← literally ':' rest
  let (_, rest) ← digitGroup 2 0 59 rest
  let (_, rest) ← literally ':' rest
  let (_, rest) ← digitGroup 2 0 60 rest
  match rest with
  | '.' :: rest =>
    let digits := rest.takeWhile Char.isDigit
    if digits.isEmpty then none
    else some (text.take 8 ++ partsOfSecond digits, rest.dropWhile Char.isDigit)
  | rest => some (text.take 8, rest)

/-- An offset from universal time, if there is one. None is below zero by
nothing. -/
def zone? : Reader Text
  | 'Z' :: rest | 'z' :: rest => some (['Z'], rest)
  | '+' :: rest => offset '+' rest
  | '-' :: rest => offset '-' rest
  | text => some ([], text)
where
  offset (sign : Char) : Reader Text := fun text => do
    let (hours, rest) ← digitGroup 2 0 23 text
    let (_, rest) ← literally ':' rest
    let (minutes, rest) ← digitGroup 2 0 59 rest
    let sign := if hours = 0 ∧ minutes = 0 then '+' else sign
    return (sign :: text.take 5, rest)

/-- A date, a time, or both with an optional offset, kept as text. -/
def moment? (text : Text) : Option (Scalar × Text) := do
  let (moment, rest) ← match date? text with
    | some (date, c :: after) =>
      if c = 'T' ∨ c = 't' ∨ (c = ' ' ∧ (time? after).isSome) then do
        let (time, rest) ← time? after
        let (zone, rest) ← zone? rest
        some (date ++ 'T' :: time ++ zone, rest)
      else some (date, c :: after)
    | some (date, []) => some (date, [])
    | none => time? text
  return (.text moment, rest)

def inWord (c : Char) : Bool := c.isAlphanum || c == '+' || c == '-' || c == '_' || c == '.'

/-- A value that is no string and has no parts. -/
def scalar? (text : Text) : Option (Scalar × Text) :=
  match moment? text with
  | some found => some found
  | none =>
    let word := text.takeWhile inWord
    let rest := text.dropWhile inWord
    if word = "true".toList then some (.bool true, rest)
    else if word = "false".toList then some (.bool false, rest)
    else (number? word).map (·, rest)

end GrammarDesk.Toml
