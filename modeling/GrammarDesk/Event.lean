import GrammarDesk.Token.Kind

/-! Parse events. A reader reports each token that it consumes and each rule
that it finishes, in document order; listeners hear the nodes they ask for. -/
namespace GrammarDesk

/-- A recognized construct: the tokens from `first` up to `stop`. -/
structure Event where
  node : String
  result : Text
  first : Nat
  stop : Nat
deriving DecidableEq, Repr, Inhabited

namespace Event

def ruleNode : String := "syntax rule"
def nameNode : String := "meta identifier"
def definingNode : String := "defining symbol"
def terminatorNode : String := "terminator symbol"
def literalNode : String := "terminal string"
def specialNode : String := "special sequence"

/-- The node that a consumed token of a kind is reported as. Invalid tokens
are never consumed. -/
def tokenNode : Kind → String
  | .name => nameNode
  | .literal => literalNode
  | .special => specialNode
  | .integer => "integer"
  | .defining => definingNode
  | .comma => "concatenate symbol"
  | .bar => "definition separator symbol"
  | .terminator => terminatorNode
  | .minus => "except symbol"
  | .star | .plus => "repetition symbol"
  | .openBrace => "start repeat symbol"
  | .closeBrace => "end repeat symbol"
  | .openSquare => "start option symbol"
  | .closeSquare => "end option symbol"
  | .openParen => "start group symbol"
  | .closeParen => "end group symbol"
  | .invalid => "invalid"

def ofToken (text : Text) (index : Nat) : Event :=
  ⟨tokenNode (Kind.classify text), text, index, index + 1⟩

def ofRule (tokens : List Text) (stop : Nat) : Event :=
  ⟨ruleNode, Text.join [' '] tokens, stop - tokens.length, stop⟩

end Event

/-- The node names that each listener asked for, in order of registration. -/
structure Listeners where
  wanted : List (List String) := []

namespace Listeners

def assign (listeners : Listeners) (nodes : List String) : Listeners :=
  ⟨listeners.wanted ++ [nodes]⟩

def isEmpty (listeners : Listeners) : Bool := listeners.wanted.isEmpty

def wants (listeners : Listeners) (node : String) : Bool :=
  listeners.wanted.any (·.contains node)

def hearers (listeners : Listeners) (event : Event) : List Nat :=
  (listeners.wanted.zipIdx.filter (·.1.contains event.node)).map (·.2)

def deliver (listeners : Listeners) (events : List Event) : List (Nat × Event) :=
  events.flatMap fun event => (listeners.hearers event).map (·, event)

end Listeners
end GrammarDesk
