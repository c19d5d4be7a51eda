import GrammarDesk.Text.Basic

/-! Labels beyond ASCII in letters, digits and hyphens: first the ASCII
characters, then the others by code point, each as its distance from the one
before in digits of base 36. How many digits a distance takes adapts to the
distances so far. -/
namespace GrammarDesk.Uri.Punycode

def digit (n : Nat) : Char := if n < 26 then Char.ofNat (97 + n) else Char.ofNat (22 + n)

def value? (c : Char) : Option Nat :=
  if c.isDigit then some (c.toNat - 22)
  else if c.isLower then some (c.toNat - 97)
  else if c.isUpper then some (c.toNat - 65)
  else none

/-- A digit below this at place `k` is the last of its number. -/
def threshold (bias k : Nat) : Nat := min 26 (max 1 (k - bias))

theorem threshold_pos (bias k : Nat) : 0 < threshold bias k := by
  simp only [threshold]
  omega

theorem threshold_le (bias k : Nat) : threshold bias k ≤ 26 := Nat.min_le_left _ _

def settle (delta k : Nat) : Nat :=
  if 455 < delta then settle (delta / 35) (k + 36) else k + 36 * delta / (delta + 38)
termination_by delta
decreasing_by exact Nat.div_lt_self (by omega) (by omega)

/-- The bias after a distance, of `count` characters so far. -/
def adapt (delta count : Nat) (isFirst : Bool) : Nat :=
  let delta := if isFirst then delta / 700 else delta / 2
  settle (delta + delta / count) 0

def digits (bias k distance : Nat) : Text :=
  let low := threshold bias k
  if distance < low then [digit distance]
  else digit (low + (distance - low) % (36 - low)) ::
    digits bias (k + 36) ((distance - low) / (36 - low))
termination_by distance
decreasing_by
  have := threshold_pos bias k
  have := threshold_le bias k
  calc (distance - threshold bias k) / (36 - threshold bias k)
      ≤ distance - threshold bias k := Nat.div_le_self _ _
    _ < distance := by omega

structure Progress where
  written : Text := []
  delta : Nat := 0
  bias : Nat := 72
  handled : Nat

/-- Passes a character of the label on the way to code point `point`. -/
def Progress.pass (basic point : Nat) (progress : Progress) (c : Char) : Progress :=
  if c.toNat < point then { progress with delta := progress.delta + 1 }
  else if c.toNat = point then
    { written := progress.written ++ digits progress.bias 36 progress.delta
      delta := 0
      bias := adapt progress.delta (progress.handled + 1) (progress.handled = basic)
      handled := progress.handled + 1 }
  else progress

/-- Handles code points in ascending order, from `next` on. -/
def encodePoints (label : Text) (basic : Nat) : List Nat → Nat → Progress → Progress
  | [], _, progress => progress
  | point :: points, next, progress =>
    let delta := progress.delta + (point - next) * (progress.handled + 1)
    let progress := label.foldl (Progress.pass basic point) { progress with delta }
    encodePoints label basic points (point + 1) { progress with delta := progress.delta + 1 }

def isBasic (c : Char) : Bool := c.toNat < 128

def encode (label : Text) : Text :=
  let basic := label.filter isBasic
  let others := (label.filter fun c => !isBasic c).map Char.toNat
  let points := (others.mergeSort fun a b => decide (a ≤ b)).eraseDups
  let start : Progress := { handled := basic.length }
  basic ++ (if basic.isEmpty then [] else ['-']) ++
    (encodePoints label basic.length points 128 start).written

def distance? (bias : Nat) : Nat → Nat → Nat → Text → Option (Nat × Text)
  | _, _, _, [] => none
  | k, weight, sum, c :: rest => do
    let value ← value? c
    let low := threshold bias k
    let sum := sum + value * weight
    if value < low then some (sum, rest)
    else distance? bias (k + 36) (weight * (36 - low)) sum rest

/-- Puts characters into a label; each takes a digit, so `fuel` of their number
is enough. -/
def decodePoints : Nat → Text → Nat → Nat → Nat → Text → Option Text
  | 0, label, _, _, _, rest => if rest.isEmpty then some label else none
  | fuel + 1, label, point, place, bias, rest =>
    if rest.isEmpty then some label
    else do
      let (distance, rest) ← distance? bias 36 1 0 rest
      let count := label.length + 1
      let total := place + distance
      let point := point + total / count
      let place := total % count
      if point.isValidChar then
        decodePoints fuel (label.take place ++ Char.ofNat point :: label.drop place) point
          (place + 1) (adapt distance count (label.all isBasic)) rest
      else none

def decode? (text : Text) : Option Text :=
  let digits := (text.reverse.takeWhile (· != '-')).reverse
  let basic := text.take (text.length - digits.length - 1)
  if basic.all isBasic then decodePoints digits.length basic 128 0 72 digits else none

end GrammarDesk.Uri.Punycode
