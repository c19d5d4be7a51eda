import GrammarDesk.Text.Basic

/-! Kinds of grammar tokens. A parser is handed bare texts, so the kind of a
token can be told again from its characters alone. -/
namespace GrammarDesk

inductive Kind where
  | name | literal | special | integer
  | defining | comma | bar | terminator | minus | star | plus
  | openBrace | closeBrace | openSquare | closeSquare | openParen | closeParen
  | invalid
deriving DecidableEq, Repr, Inhabited

namespace Kind

def label : Kind → String
  | name => "meta-identifier"
  | literal => "terminal-string"
  | special => "special-sequence"
  | integer => "integer"
  | defining => "defining"
  | comma => "concatenate"
  | bar => "definition-separator"
  | terminator => "terminator"
  | minus => "except"
  | star => "repetition"
  | plus => "plus"
  | openBrace => "start-repeat"
  | closeBrace => "end-repeat"
  | openSquare => "start-option"
  | closeSquare => "end-option"
  | openParen => "start-group"
  | closeParen => "end-group"
  | invalid => "invalid"

def ofSymbol? : Char → Option Kind
  | '=' => some defining
  | ',' => some comma
  | '|' => some bar
  | ';' => some terminator
  | '.' => some terminator
  | '-' => some minus
  | '*' => some star
  | '+' => some plus
  | '\x7b' => some openBrace
  | '\x7d' => some closeBrace
  | '[' => some openSquare
  | ']' => some closeSquare
  | '(' => some openParen
  | ')' => some closeParen
  | _ => none

def startsName (c : Char) : Bool := c.isAlpha || c == '_'

def continuesName (c : Char) : Bool := c.isAlphanum || c == '_'

/-- A literal opens with either quote and closes with the same one. -/
def isQuote (c : Char) : Bool := c == '"' || c == '\''

def classify : Text → Kind
  | [] => invalid
  | c :: cs =>
    match cs, ofSymbol? c with
    | [], some kind => kind
    | _, _ =>
      if isQuote c && cs.getLast? == some c then literal
      else if c == '?' && cs.getLast? == some '?' then special
      else if (c :: cs).all Char.isDigit then integer
      else if startsName c && cs.all continuesName then name
      else invalid

/-- Kinds that carry no text of their own. -/
def isDelimiter : Kind → Bool
  | name | literal | special | integer | invalid => false
  | _ => true

end Kind
end GrammarDesk
