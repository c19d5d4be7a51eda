import GrammarDesk.Match.Search
import GrammarDesk.Sample.Cutter

/-! Parsers for sample texts. Live matching needs no more of a parser than how
it cuts a sample and how far it gets; a compiled grammar is one. -/
namespace GrammarDesk

structure SampleParser where
  cut : Text → List Text
  parse : Text → Except GrammarError Outcome

/-- A grammar ready to be run on samples. Its tokens are cut by its own
literals. -/
structure GrammarParser where
  grammar : Grammar
  program : Program
  cutter : Cutter

namespace GrammarParser

def ofGrammar (grammar : Grammar) : Except GrammarError GrammarParser := do
  let program ← Program.ofGrammar grammar
  return ⟨grammar, program, Cutter.ofLiterals grammar.terminals⟩

/-- A grammar that stops its reader has no parser. -/
def ofTokens (tokens : List Text) : Except GrammarError GrammarParser :=
  let reading := Reading.ofTokens tokens
  match reading.outcome with
  | .complete => ofGrammar reading.grammar
  | .haltedAt index => throw (.unexpected index (tokens[index]?.getD []))

def ofText (source : Text) : Except GrammarError GrammarParser :=
  ofTokens (Token.texts source false)

def outcome (parser : GrammarParser) (sample : Text) : Outcome :=
  parser.program.outcome (parser.cutter.cut sample)

def toSampleParser (parser : GrammarParser) : SampleParser where
  cut := parser.cutter.cut
  parse sample := .ok (parser.outcome sample)

end GrammarParser
end GrammarDesk
