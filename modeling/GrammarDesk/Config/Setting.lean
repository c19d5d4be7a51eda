import GrammarDesk.Number.Double
import GrammarDesk.Text.Basic

/-! Layered settings. A setting is a scalar, a list or a table of settings; keys
do not tell upper from lower case. Assigning a table merges it into what is
there, and assigning anything else replaces it. -/
namespace GrammarDesk

inductive Scalar where
  | null
  | bool (value : Bool)
  | int (value : Int)
  | real (value : Double)
  | infinite (negative : Bool)
  | notANumber
  | text (value : Text)
deriving DecidableEq, Repr, Inhabited

namespace Scalar

def ofDecimal (number : Decimal) : Scalar :=
  match Double.ofDecimal? number with
  | some value => real value
  | none => infinite number.negative

end Scalar

/-- Each setting knows the file that it comes from. What was made on the way to
another setting comes from none. -/
inductive Setting where
  | scalar (value : Scalar) (origin : Option String)
  | list (items : List Setting) (origin : Option String)
  | table (entries : List (Text × Setting)) (origin : Option String)
deriving Repr, Inhabited

/-- One step of the path to a setting. Negative indices count from the end. -/
inductive PathStep where
  | key (name : Text)
  | index (position : Int)
deriving DecidableEq, Repr, Inhabited

namespace Setting

def foldCase (key : Text) : Text := key.map Char.toLower

/-- The entries of a table; anything else has none. -/
def entries : Setting → List (Text × Setting)
  | table entries _ => entries
  | _ => []

/-- The origin of a table; what becomes a table has none. -/
def tableOrigin : Setting → Option String
  | table _ origin => origin
  | _ => none

def items : Setting → List Setting
  | list items _ => items
  | _ => []

def listOrigin : Setting → Option String
  | list _ origin => origin
  | _ => none

def get? (setting : Setting) (key : Text) : Option Setting :=
  setting.entries.lookup (foldCase key)

def put (setting : Setting) (key : Text) (value : Setting) : Setting :=
  let key := foldCase key
  let entries := setting.entries
  if (entries.lookup key).isSome then
    table (entries.map fun entry => if entry.1 = key then (key, value) else entry)
      setting.tableOrigin
  else table (entries ++ [(key, value)]) setting.tableOrigin

mutual

/-- What stands under a key after an assignment to it. -/
def merge (old : Option Setting) : Setting → Setting
  | table entries _ => mergeAll (old.getD (table [] none)) entries
  | new => new

def mergeAll (base : Setting) : List (Text × Setting) → Setting
  | [] => base
  | (key, value) :: rest => mergeAll (base.put key (merge (base.get? key) value)) rest

end

def place (position : Int) (length : Nat) : Nat :=
  if position < 0 then length - position.natAbs else position.toNat

/-- Assigns along a path. What is no table or list on the way becomes one, and
lists are filled up with nothing. -/
def assign (setting : Setting) (value : Setting) : List PathStep → Setting
  | [] => value
  | [.key name] => setting.put name (merge (setting.get? name) value)
  | .key name :: path =>
    setting.put name (assign ((setting.get? name).getD (scalar .null none)) value path)
  | .index position :: path =>
    let items := setting.items
    let place := place position items.length
    let items := items ++ List.replicate (place + 1 - items.length) (scalar .null none)
    let inner := items[place]?.getD (scalar .null none)
    list (items.set place (assign inner value path)) setting.listOrigin

end Setting

namespace PathStep

/-- Letters, digits, spaces, underscores and hyphens, all ASCII. -/
def inName (c : Char) : Bool := c.isAlphanum || c == ' ' || c == '_' || c == '-'

/-- Indices are numbers of 64 bits with a sign. -/
def isIndex (position : Int) : Bool :=
  -9223372036854775808 ≤ position && position ≤ 9223372036854775807

/-- Digits with an optional minus, and spaces or tabs around them. -/
def index? (text : Text) : Option Int :=
  let padding (c : Char) : Bool := c == ' ' || c == '\t'
  let trimmed := ((text.dropWhile padding).reverse.dropWhile padding).reverse
  let number (digits : Text) : Option Nat :=
    if !digits.isEmpty && digits.all Char.isDigit then some digits.digitsValue else none
  let position? := match trimmed with
    | '-' :: digits => (number digits).map fun n => -(n : Int)
    | digits => (number digits).map Int.ofNat
  position?.filter isIndex

/-- The steps after a name: dots with names, and indices in brackets. Each step
takes a character, so `fuel` of the text's length is enough. -/
def steps? : Nat → Text → Option (List PathStep)
  | _, [] => some []
  | fuel + 1, '.' :: rest => do
    let name := rest.takeWhile inName
    if name.isEmpty then none
    else return key name :: (← steps? fuel (rest.dropWhile inName))
  | fuel + 1, '[' :: rest => do
    let position ← index? (rest.takeWhile (· != ']'))
    match rest.dropWhile (· != ']') with
    | ']' :: rest => return index position :: (← steps? fuel rest)
    | _ => none
  | _, _ => none

/-- Reads a dotted path such as `live.delay`. -/
def parse? (text : Text) : Option (List PathStep) := steps? (text.length + 1) ('.' :: text)

end PathStep
end GrammarDesk
