import GrammarDesk.Text.Basic

/-! White space is the Unicode property `White_Space`. -/
namespace GrammarDesk.Text

/-- The inclusive code point ranges of the property. -/
def blankRanges : List (Nat × Nat) :=
  [(0x09, 0x0D), (0x20, 0x20), (0x85, 0x85), (0xA0, 0xA0), (0x1680, 0x1680), (0x2000, 0x200A),
    (0x2028, 0x2029), (0x202F, 0x202F), (0x205F, 0x205F), (0x3000, 0x3000)]

def blank (c : Char) : Bool :=
  blankRanges.any fun (low, high) => low ≤ c.toNat && c.toNat ≤ high

/-- A text of nothing but white space; the empty text is one. -/
def isBlank (s : Text) : Bool := s.all blank

def trimStart (s : Text) : Text := s.dropWhile blank

def trim (s : Text) : Text := (trimStart (trimStart s).reverse).reverse

theorem length_trimStart_le (s : Text) : (trimStart s).length ≤ s.length :=
  (List.dropWhile_suffix blank).length_le

/-- The runs between blank characters, empty ones included. -/
def pieces : Text → List Text
  | [] => [[]]
  | c :: cs => if blank c then [] :: pieces cs else (pieces cs).modifyHead (c :: ·)

/-- The maximal runs of characters that are not blank. -/
def words (s : Text) : List Text := (pieces s).filter (!·.isEmpty)

end GrammarDesk.Text
