import GrammarDesk.Grammar.Reading

/-! Definitions and references, told apart by the order of events alone: a name
before the defining symbol defines, a name after it refers. -/
namespace GrammarDesk

inductive SymbolKind where
  | definition | reference | literal | special
deriving DecidableEq, Repr, Inhabited

def SymbolKind.label : SymbolKind → String
  | definition => "definition"
  | reference => "reference"
  | literal => "terminal-string"
  | special => "special-sequence"

/-- A name or literal and the tokens it covers. -/
structure Symbol where
  name : Text
  first : Nat
  stop : Nat
  kind : SymbolKind
deriving DecidableEq, Repr, Inhabited

/-- The side of the defining symbol that the events have reached. -/
inductive Side where
  | defining | referring
deriving DecidableEq, Repr, Inhabited

structure Symbols where
  side : Side := .defining
  definitions : List Symbol := []
  references : List Symbol := []
  literals : List Symbol := []
deriving Repr, Inhabited

namespace Symbols

def nodes : List String :=
  [Event.nameNode, Event.definingNode, Event.terminatorNode, Event.literalNode, Event.specialNode]

def observe (symbols : Symbols) (event : Event) : Symbols :=
  let symbol (kind : SymbolKind) : Symbol := ⟨event.result, event.first, event.stop, kind⟩
  if event.node = Event.nameNode then
    match symbols.side with
    | .defining => { symbols with definitions := symbols.definitions ++ [symbol .definition] }
    | .referring => { symbols with references := symbols.references ++ [symbol .reference] }
  else if event.node = Event.definingNode then { symbols with side := .referring }
  else if event.node = Event.terminatorNode then { symbols with side := .defining }
  else if event.node = Event.literalNode then
    { symbols with literals := symbols.literals ++ [symbol .literal] }
  else if event.node = Event.specialNode then
    { symbols with literals := symbols.literals ++ [symbol .special] }
  else symbols

def ofEvents (events : List Event) : Symbols := events.foldl observe {}

def ofText (source : Text) : Symbols := ofEvents (Reading.ofText source).events

def isDefined (symbols : Symbols) (name : Text) : Bool :=
  symbols.definitions.any (·.name = name)

/-- References to names that are defined nowhere. -/
def undefinedReferences (symbols : Symbols) : List Symbol :=
  symbols.references.filter (!symbols.isDefined ·.name)

end Symbols
end GrammarDesk
