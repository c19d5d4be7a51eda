/-! A text is the list of its Unicode scalars. Places in a text are counted in
UTF-8 bytes, so every offset that the library hands out is a sum of widths. -/
namespace GrammarDesk

abbrev Text := List Char

/-- A half-open range of byte offsets. -/
structure Span where
  start : Nat
  stop : Nat
deriving DecidableEq, Repr, Inhabited

namespace Text

def width : Text → Nat
  | [] => 0
  | c :: cs => c.utf8Size + width cs

@[simp] theorem width_nil : width [] = 0 := rfl

@[simp] theorem width_cons (c : Char) (cs : Text) : width (c :: cs) = c.utf8Size + width cs := rfl

theorem width_append (s t : Text) : width (s ++ t) = width s + width t := by
  induction s with
  | nil => simp
  | cons c s ih => simp [ih, Nat.add_assoc]

/-- The two parts around byte offset `n`; nothing if `n` lies inside a
character or past the end. -/
def splitAtByte : Nat → Text → Option (Text × Text)
  | 0, s => some ([], s)
  | _ + 1, [] => none
  | n + 1, c :: cs =>
    if c.utf8Size ≤ n + 1 then
      (splitAtByte (n + 1 - c.utf8Size) cs).map fun (before, after) => (c :: before, after)
    else none

/-- What follows the first character boundary at or after byte offset `n`. -/
def dropBytes : Nat → Text → Text
  | 0, s => s
  | _ + 1, [] => []
  | n + 1, c :: cs => dropBytes (n + 1 - c.utf8Size) cs

/-- The last character boundary at or before byte offset `n`. -/
def floorBoundary : Nat → Text → Nat
  | _, [] => 0
  | n, c :: cs => if c.utf8Size ≤ n then c.utf8Size + floorBoundary (n - c.utf8Size) cs else 0

/-- The characters of a span; nothing if it runs backwards, past the end or
cuts a character. -/
def slice? (s : Text) (span : Span) : Option Text :=
  if span.start ≤ span.stop then do
    let (_, rest) ← splitAtByte span.start s
    let (taken, _) ← splitAtByte (span.stop - span.start) rest
    return taken
  else none

/-- Byte offset of the first occurrence of `needle`. -/
def find? (needle : Text) : Text → Option Nat
  | [] => if needle.isEmpty then some 0 else none
  | c :: cs =>
    if needle.isPrefixOf (c :: cs) then some 0
    else (find? needle cs).map (c.utf8Size + ·)

def digitsValue (digits : Text) : Nat :=
  digits.foldl (fun value c => 10 * value + (c.toNat - '0'.toNat)) 0

/-- The order of code points, which is also the order of the UTF-8 bytes. -/
def atMost : Text → Text → Bool
  | [], _ => true
  | _ :: _, [] => false
  | a :: as, b :: bs =>
    if a.toNat < b.toNat then true
    else if b.toNat < a.toNat then false
    else atMost as bs

def join (separator : Text) (parts : List Text) : Text :=
  (parts.intersperse separator).flatten

end Text
end GrammarDesk
