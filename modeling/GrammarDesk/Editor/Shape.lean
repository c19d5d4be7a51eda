import GrammarDesk.Json
import GrammarDesk.Uri.Parse

/-! What a message has to look like. Reading a value by its shape tells what is
wrong with it, or gives it in one form: records with their fields by name, and
URIs in their normal form. -/
namespace GrammarDesk

inductive Shape where
  | any
  | truth
  /-- A whole number within bounds; the name is that of its type. -/
  | whole (name : String) (low high : Int)
  | number
  | text
  | uri
  | word (words : List String)
  /-- May be null, and may be left out by name. -/
  | optional (inner : Shape)
  /-- May be left out by name and by place. -/
  | defaulted (inner : Shape)
  | list (inner : Shape)
  /-- An object with any keys. -/
  | keyed (inner : Shape)
  /-- An object with these fields, or an array of them in this order. -/
  | record (name : String) (fields : List (String × Shape))
  /-- An object with these fields and, beside them, those of other shapes. -/
  | joined (name : String) (fields : List (String × Shape)) (parts : List Shape)
  /-- The first of these that fits. -/
  | choice (name : String) (choices : List Shape)
deriving Repr, Inhabited

inductive Mismatch where
  | type (found : Json) (expected : String)
  | value (found : Json) (expected : String)
  | length (count : Nat) (expected : String)
  | missing (field : String)
  | word (found : String) (words : List String)
  | choice (name : String)
  | uri (error : UriError) (text : String)
deriving Repr, Inhabited

namespace Mismatch

def describe : Json → String
  | .null => "null"
  | .bool b => s!"boolean \x60{b}\x60"
  | .int n => s!"integer \x60{n}\x60"
  | .real x => "floating point \x60" ++ Json.number x ++ "\x60"
  | .str s => "string " ++ Text.quoted s.toList
  | .arr _ => "sequence"
  | .obj _ => "map"

def describeWords (words : List String) : String :=
  let words := words.map fun word => s!"\x60{word}\x60"
  match words with
  | [one] => one
  | [one, other] => s!"{one} or {other}"
  | words => "one of " ++ ", ".intercalate words

def message : Mismatch → String
  | type found expected => "invalid type: " ++ describe found ++ ", expected " ++ expected
  | value found expected => "invalid value: " ++ describe found ++ ", expected " ++ expected
  | length count expected => s!"invalid length {count}, expected {expected}"
  | missing field => s!"missing field \x60{field}\x60"
  | word found words =>
    s!"unknown variant \x60{found}\x60, expected " ++ describeWords words
  | choice name => s!"data did not match any variant of untagged enum {name}"
  | uri error text => error.message ++ ": " ++ Text.quoted text.toList

end Mismatch

namespace Shape

/-- What became of a field: read, or left out where that is allowed or not. -/
inductive Field where
  | read (result : Except Mismatch Json)
  | absent (allowed : Bool)

def isLenient : Shape → Bool
  | optional _ | defaulted _ => true
  | _ => false

def isDefaulted : Shape → Bool
  | defaulted _ => true
  | _ => false

def plural (count : Nat) : String := if count = 1 then "1 element" else s!"{count} elements"

/-- The fields of an object. Of several that do not fit the least key tells, and
all of them before any that is missing. -/
def gather (fields : List (String × Field)) : Except Mismatch (List (String × Json)) :=
  let wrong := fields.filterMap fun
    | (key, .read (.error e)) => some (key, e)
    | _ => none
  match wrong with
  | first :: others =>
    .error (others.foldl (fun least next => if next.1 < least.1 then next else least) first).2
  | [] =>
    match fields.find? fun field => field.2 matches .absent false with
    | some (key, _) => .error (.missing key)
    | none => .ok <| fields.filterMap fun
      | (key, .read (.ok value)) => some (key, value)
      | _ => none

mutual

/-- Reads a value by its shape. Fields that stand beside those of other shapes
are `buffered`, which shows in what is said of arrays that are too long. -/
def read (buffered : Bool) : Shape → Json → Except Mismatch Json
  | any, found => .ok found
  | truth, .bool value => .ok (.bool value)
  | truth, found => .error (.type found "a boolean")
  | whole name low high, found =>
    match found with
    | .int value =>
      if low ≤ value ∧ value ≤ high then .ok found else .error (.value found name)
    | _ => .error (.type found name)
  | number, found =>
    match found with
    | .int _ | .real _ => .ok found
    | _ => .error (.type found "f32")
  | text, .str value => .ok (.str value)
  | text, found => .error (.type found "a string")
  | uri, .str value =>
    match Uri.parse value with
    | .ok normal => .ok (.str normal)
    | .error e => .error (.uri e value)
  | uri, found => .error (.type found "a string representing an URL")
  | word words, found =>
    match found with
    | .str value => if words.contains value then .ok found else .error (.word value words)
    | _ => .error (.type found "string or map")
  | optional _, .null => .ok .null
  | optional inner, found => read buffered inner found
  | defaulted inner, found => read buffered inner found
  | list inner, .arr items => do
    return .arr (← items.mapM fun item => read buffered inner item)
  | list _, found => .error (.type found "a sequence")
  | keyed inner, .obj fields => do
    return .obj (← fields.mapM fun (key, found) => do return (key, ← read buffered inner found))
  | keyed _, found => .error (.type found "a map")
  | record name fields, found =>
    match found with
    | .obj given => do return .obj (← gather (readFields buffered fields given))
    | .arr items => do
      let expected := s!"struct {name} with {plural fields.length}"
      let read ← readItems buffered expected 0 fields items
      if items.length ≤ fields.length then return .obj read
      else throw <| .length items.length <|
        if buffered then s!"{plural fields.length} in sequence" else "fewer elements in array"
    | _ => .error (.type found s!"struct {name}")
  | joined name fields parts, found =>
    match found with
    | .obj given => do
      let own ← gather (readFields buffered fields given)
      let others := given.filter fun (key, _) => (fields.lookup key).isNone
      return .obj (own ++ (← readParts others parts))
    | _ => .error (.type found s!"struct {name}")
  | choice name choices, found =>
    match readFirst choices found with
    | some value => .ok value
    | none => .error (.choice name)

def readFields (buffered : Bool) : List (String × Shape) → List (String × Json) →
    List (String × Field)
  | [], _ => []
  | (key, shape) :: fields, given =>
    let field : Field := match given.lookup key with
      | some found => .read (read buffered shape found)
      | none => .absent shape.isLenient
    (key, field) :: readFields buffered fields given

/-- Fields by place, from place `index` on. -/
def readItems (buffered : Bool) (expected : String) (index : Nat) :
    List (String × Shape) → List Json → Except Mismatch (List (String × Json))
  | [], _ => .ok []
  | (_, shape) :: fields, [] =>
    if shape.isDefaulted then readItems buffered expected (index + 1) fields []
    else .error (.length index expected)
  | (key, shape) :: fields, found :: items => do
    let value ← read buffered shape found
    return (key, value) :: (← readItems buffered expected (index + 1) fields items)

def readParts (given : List (String × Json)) :
    List Shape → Except Mismatch (List (String × Json))
  | [] => .ok []
  | part :: parts => do
    let fields ← readPart given part
    return fields ++ (← readParts given parts)

def readPart (given : List (String × Json)) : Shape → Except Mismatch (List (String × Json))
  | record _ fields => gather (readFields true fields given)
  | keyed inner => given.mapM fun (key, found) => do return (key, ← read true inner found)
  | _ => .ok []

def readFirst : List Shape → Json → Option Json
  | [], _ => none
  | shape :: shapes, found =>
    match read true shape found with
    | .ok value => some value
    | .error _ => readFirst shapes found

end

end Shape
end GrammarDesk
