/-! Decimal numbers and how they are written. -/
namespace GrammarDesk

/-- `digits * 10 ^ exponent` with a sign of its own, so there are two zeros. -/
structure Decimal where
  negative : Bool
  digits : Nat
  exponent : Int
deriving DecidableEq, Repr, Inhabited

namespace Decimal

def characters (number : Decimal) : List Char := Nat.toDigits 10 number.digits

/-- How many digits stand before the point; if negative, how many zeros after
it. -/
def magnitude (number : Decimal) : Int := number.characters.length + number.exponent

def sign (number : Decimal) : String := if number.negative then "-" else ""

/-- Positional notation that always shows a point. -/
def positional (number : Decimal) : String :=
  let digits := number.characters
  if number.digits = 0 then number.sign ++ "0.0"
  else if 0 ≤ number.exponent then
    number.sign ++ String.ofList (digits ++ List.replicate number.exponent.toNat '0') ++ ".0"
  else
    let places := number.exponent.natAbs
    let padded := List.replicate (places + 1 - digits.length) '0' ++ digits
    let whole := padded.take (padded.length - places)
    let fraction := padded.drop (padded.length - places)
    number.sign ++ String.ofList whole ++ "." ++ String.ofList fraction

def scientific (number : Decimal) : String :=
  let power := toString (number.magnitude - 1)
  match number.characters with
  | [] => ""
  | [digit] => number.sign ++ String.ofList [digit] ++ "e" ++ power
  | digit :: digits => number.sign ++ String.ofList (digit :: '.' :: digits) ++ "e" ++ power

end Decimal
end GrammarDesk
