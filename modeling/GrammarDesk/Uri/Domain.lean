import GrammarDesk.Text.Marked
import GrammarDesk.Uri.Punycode

/-! Names of domains. Capitals and other forms of a letter or dot stand for the
plain one, and labels beyond ASCII are written in ASCII, where `xn--` marks
them. -/
namespace GrammarDesk.Uri.Domain

/-- Capitals beyond ASCII, of Latin, Greek, Cyrillic and Armenian: from the
first to the second in steps of the third, their small letters as far on as the
fourth says. -/
def capitals : List (Nat × Nat × Nat × Nat) :=
  [(0xC0, 0xD6, 1, 32), (0xD8, 0xDE, 1, 32), (0x100, 0x12E, 2, 1), (0x134, 0x136, 2, 1),
    (0x139, 0x13D, 2, 1), (0x141, 0x147, 2, 1), (0x14A, 0x176, 2, 1), (0x179, 0x17D, 2, 1),
    (0x1A0, 0x1A4, 2, 1), (0x1CD, 0x1DB, 2, 1), (0x1DE, 0x1EE, 2, 1), (0x1F8, 0x21E, 2, 1),
    (0x222, 0x232, 2, 1), (0x246, 0x24E, 2, 1), (0x370, 0x372, 2, 1), (0x386, 0x386, 1, 38),
    (0x388, 0x38A, 1, 37), (0x38C, 0x38C, 1, 64), (0x38E, 0x38F, 1, 63), (0x391, 0x3A1, 1, 32),
    (0x3A3, 0x3AB, 1, 32), (0x3D8, 0x3EE, 2, 1), (0x400, 0x40F, 1, 80), (0x410, 0x42F, 1, 32),
    (0x460, 0x480, 2, 1), (0x48A, 0x4BE, 2, 1), (0x4C1, 0x4CD, 2, 1), (0x4D0, 0x52E, 2, 1),
    (0x531, 0x556, 1, 48), (0x1E00, 0x1E94, 2, 1), (0x1EA0, 0x1EFE, 2, 1)]

/-- Characters that a name may hold and that say nothing. -/
def ignored : List (Nat × Nat) :=
  [(0xAD, 0xAD), (0x34F, 0x34F), (0x115F, 0x1160), (0x17B4, 0x17B5), (0x180B, 0x180F),
    (0x200B, 0x200B), (0x2060, 0x2064), (0x206A, 0x206F), (0x3164, 0x3164), (0xFE00, 0xFE0F),
    (0xFEFF, 0xFEFF), (0xFFA0, 0xFFA0), (0xE0100, 0xE01EF)]

/-- Characters beyond ASCII that no name holds. -/
def refused : List (Nat × Nat) :=
  [(0x80, 0x9F), (0x200C, 0x200F), (0x2028, 0x202E), (0x2066, 0x2069), (0xE000, 0xF8FF),
    (0xFDD0, 0xFDEF), (0xFFF0, 0xFFFF), (0xE0000, 0x10FFFF)]

def isIn (ranges : List (Nat × Nat)) (c : Char) : Bool :=
  ranges.any fun (low, high) => low ≤ c.toNat && c.toNat ≤ high

def fold (c : Char) : Text :=
  let n := c.toNat
  if n < 0x80 then [c.toLower]
  else if isIn ignored c then []
  else if n = 0x3002 ∨ n = 0xFF0E ∨ n = 0xFF61 then ['.']
  else if n = 0xA0 ∨ 0x2000 ≤ n ∧ n ≤ 0x200A ∨ n = 0x202F ∨ n = 0x205F ∨ n = 0x3000 then [' ']
  else if 0xFF01 ≤ n ∧ n ≤ 0xFF5E then [(Char.ofNat (n - 0xFEE0)).toLower]
  else if n = 0x178 then [Char.ofNat 0xFF]
  else if n = 0x1E9E then [Char.ofNat 0xDF]
  else
    match capitals.find? fun (low, high, step, _) => low ≤ n && n ≤ high && (n - low) % step == 0 with
    | some (_, _, _, up) => [Char.ofNat (n + up)]
    | none => [c]

/-- ASCII characters that no name holds: controls, blanks and what has a
meaning in a URI. -/
def isForbidden (c : Char) : Bool :=
  c.toNat ≤ 0x20 || c.toNat == 0x7F || "%#/:<>?@[\\]^|".toList.contains c

/-- Labels beyond ASCII begin with no mark. -/
def isLabel (label : Text) : Bool :=
  !(label.head?.any Text.unmarked) && label.all fun c => !isIn refused c

def marker : Text := "xn--".toList

/-- The ASCII form of a label. A label that claims to be in that form must be
the form of some label. -/
def label? (label : Text) : Option Text :=
  if !label.all Punycode.isBasic then
    if isLabel label then some (marker ++ Punycode.encode label) else none
  else if marker.isPrefixOf label then do
    let decoded ← Punycode.decode? (label.drop marker.length)
    if isLabel decoded ∧ decoded.flatMap fold = decoded ∧ !decoded.all Punycode.isBasic then
      some label
    else none
  else some label

def labels (name : Text) : List Text := name.splitOnP (· == '.')

def ascii? (name : Text) : Option Text := do
  let folded := name.flatMap fold
  let labels ← (labels folded).mapM label?
  let ascii := (labels.intersperse ['.']).flatten
  if ascii.any isForbidden then none else some ascii

end GrammarDesk.Uri.Domain
