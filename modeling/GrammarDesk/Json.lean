import GrammarDesk.Number.Double
import GrammarDesk.Text.Quoted

/-! JSON values, and their printed forms on one line and over several. -/
namespace GrammarDesk

inductive Json where
  | null
  | bool (value : Bool)
  | int (value : Int)
  | real (value : Double)
  | str (value : String)
  | arr (items : List Json)
  | obj (fields : List (String × Json))
deriving Repr, Inhabited

namespace Json

def nat (n : Nat) : Json := int n

def field? : Json → String → Option Json
  | obj fields, key => fields.lookup key
  | _, _ => none

def str? : Json → Option String
  | str value => some value
  | _ => none

def int? : Json → Option Int
  | int value => some value
  | _ => none

def arr? : Json → Option (List Json)
  | arr items => some items
  | _ => none

/-- The fewest digits, positional where at most 16 digits or four zeros stand
on one side of the point. -/
def number (value : Double) : String :=
  let digits := value.shortest fun below => below % 2 = 1
  if -4 ≤ digits.magnitude ∧ digits.magnitude ≤ 16 then digits.positional else digits.scientific

def escaped (c : Char) : String :=
  match c with
  | '"' => "\\\""
  | '\\' => "\\\\"
  | '\n' => "\\n"
  | '\r' => "\\r"
  | '\t' => "\\t"
  | '\x08' => "\\b"
  | '\x0c' => "\\f"
  | c =>
    if c.toNat < 0x20 then "\\u00" ++ (if c.toNat < 0x10 then "0" else "") ++ Text.hex c.toNat
    else c.toString

def string (s : String) : String := "\"" ++ String.join (s.toList.map escaped) ++ "\""

def newline (depth : Nat) : String := "\n" ++ String.ofList (List.replicate (2 * depth) ' ')

mutual

def compact : Json → String
  | null => "null"
  | bool value => if value then "true" else "false"
  | int value => toString value
  | real value => number value
  | str value => string value
  | arr items => "[" ++ ",".intercalate (compactItems items) ++ "]"
  | obj fields => "\x7b" ++ ",".intercalate (compactFields fields) ++ "\x7d"

def compactItems : List Json → List String
  | [] => []
  | item :: items => compact item :: compactItems items

def compactFields : List (String × Json) → List String
  | [] => []
  | (key, value) :: fields => (string key ++ ":" ++ compact value) :: compactFields fields

end

mutual

/-- Two spaces per level; nothing stands between the brackets of an empty value. -/
def pretty (depth : Nat) : Json → String
  | null => "null"
  | bool value => if value then "true" else "false"
  | int value => toString value
  | real value => number value
  | str value => string value
  | arr [] => "[]"
  | arr (item :: items) =>
    "[" ++ newline (depth + 1) ++ pretty (depth + 1) item ++ prettyItems (depth + 1) items ++
      newline depth ++ "]"
  | obj [] => "\x7b\x7d"
  | obj ((key, value) :: fields) =>
    "\x7b" ++ newline (depth + 1) ++ string key ++ ": " ++ pretty (depth + 1) value ++
      prettyFields (depth + 1) fields ++ newline depth ++ "\x7d"

def prettyItems (depth : Nat) : List Json → String
  | [] => ""
  | item :: items => "," ++ newline depth ++ pretty depth item ++ prettyItems depth items

def prettyFields (depth : Nat) : List (String × Json) → String
  | [] => ""
  | (key, value) :: fields =>
    "," ++ newline depth ++ string key ++ ": " ++ pretty depth value ++ prettyFields depth fields

end

end Json
end GrammarDesk
