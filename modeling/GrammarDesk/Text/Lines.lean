import GrammarDesk.Text.Basic

/-! Two coordinate systems for a place in a text: lines with UTF-16 columns
counted from zero, for editors, and lines with character columns counted from
one, for people. -/
namespace GrammarDesk

/-- A zero-based line and a column in UTF-16 code units. -/
structure Place where
  line : Nat
  column : Nat
deriving DecidableEq, Repr, Inhabited

namespace Place

/-- Editors number lines and columns in 32 bits. -/
def limit : Nat := 4294967296

def wrap (place : Place) : Place := ⟨place.line % limit, place.column % limit⟩

end Place

namespace Text

def units (c : Char) : Nat := if c.toNat < 0x10000 then 1 else 2

def units16 : Text → Nat
  | [] => 0
  | c :: cs => units c + units16 cs

/-- The line and column, both from one, of a byte offset. An offset that is no
character boundary of the text stands for its end. -/
def lineColumn (s : Text) (offset : Nat) : Nat × Nat :=
  let before := match splitAtByte offset s with
    | some (before, _) => before
    | none => s
  (before.count '\n' + 1, (before.reverse.takeWhile (· ≠ '\n')).length + 1)

end Text

/-- A text with the byte offsets at which its lines start, in order. -/
structure LineTable where
  text : Text
  starts : List Nat

namespace LineTable

def startsAfter : Nat → Text → List Nat
  | _, [] => []
  | offset, c :: cs =>
    let next := offset + c.utf8Size
    if c = '\n' then next :: startsAfter next cs else startsAfter next cs

def ofText (text : Text) : LineTable := ⟨text, 0 :: startsAfter 0 text⟩

/-- The line of a byte offset and the units in front of it there. Inside a character it
is the place of that character, past the end the place of the end. -/
def locate (table : LineTable) (offset : Nat) : Place :=
  let boundary := Text.floorBoundary offset table.text
  let passed := table.starts.takeWhile (· ≤ boundary)
  let start := passed.getLastD 0
  let before := (Text.slice? table.text ⟨start, boundary⟩).getD []
  ⟨passed.length - 1, Text.units16 before⟩

def place (table : LineTable) (offset : Nat) : Place := (table.locate offset).wrap

/-- Bytes to go until the line ends or `column` units are passed, `passed` of
them already. -/
def advance (column : Nat) : Nat → Text → Nat
  | _, [] => 0
  | passed, c :: cs =>
    if c = '\n' ∨ column ≤ passed then 0
    else c.utf8Size + advance column (passed + Text.units c) cs

/-- The byte offset of a place. A column past the end of its line stands for
the end of the line, a line past the last for the end of the text. -/
def offset (table : LineTable) (place : Place) : Nat :=
  match table.starts[place.line]? with
  | some start => start + advance place.column 0 (Text.dropBytes start table.text)
  | none => Text.width table.text

def range (table : LineTable) (span : Span) : Place × Place :=
  (table.place span.start, table.place span.stop)

end LineTable
end GrammarDesk
