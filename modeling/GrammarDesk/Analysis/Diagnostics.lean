import GrammarDesk.Analysis.Issues
import GrammarDesk.Analysis.Offsets
import GrammarDesk.Analysis.Symbols

/-! Diagnostics of a grammar text: the token that stopped the reader, the
issues, the undefined references and a mark for each definition. -/
namespace GrammarDesk

inductive DiagnosticCode where
  | syntaxError
  | issue (kind : IssueKind)
  | undefinedSymbol
  | definition
deriving DecidableEq, Repr, Inhabited

namespace DiagnosticCode

def label : DiagnosticCode → String
  | syntaxError => "syntax-error"
  | issue kind => kind.label
  | undefinedSymbol => "undefined-symbol"
  | definition => "definition"

def severity : DiagnosticCode → Severity
  | syntaxError | undefinedSymbol => .error
  | issue kind => kind.severity
  | definition => .info

end DiagnosticCode

structure Diagnostic where
  span : Span
  code : DiagnosticCode
  message : String
deriving DecidableEq, Repr, Inhabited

namespace Diagnostic

def source : String := "ebnf"

def severity (diagnostic : Diagnostic) : Severity := diagnostic.code.severity

end Diagnostic

/-- What an analysis may cost. A longer text gets no diagnostics at all. -/
structure Limits where
  maxChars : Nat := 100000
  /-- In milliseconds. A pass takes longer than nothing and less than any
  other budget. -/
  timeBudget : Nat := 1000
deriving DecidableEq, Repr, Inhabited

namespace Limits

def overBudget (limits : Limits) : Bool := limits.timeBudget == 0

end Limits

namespace Diagnostic

def syntaxError? (tokens : List Text) (offsets : Offsets) (outcome : Outcome) :
    Option Diagnostic := do
  let index ← outcome.halt?
  let span ← offsets.span? index
  let token ← tokens[index]?
  return ⟨span, .syntaxError, s!"syntax error: unexpected token '{String.ofList token}'"⟩

def issues (tokens : List Text) (offsets : Offsets) : List Diagnostic :=
  (Issue.find tokens).filterMap fun issue =>
    (offsets.span? issue.index).map fun span => ⟨span, .issue issue.kind, issue.message⟩

def undefinedSymbols (offsets : Offsets) (symbols : Symbols) : List Diagnostic :=
  symbols.undefinedReferences.filterMap fun symbol =>
    (offsets.covering? symbol.first symbol.stop).map fun span =>
      ⟨span, .undefinedSymbol, s!"undefined symbol: '{String.ofList symbol.name}'"⟩

def definitions (offsets : Offsets) (symbols : Symbols) : List Diagnostic :=
  symbols.definitions.filterMap fun symbol =>
    (offsets.covering? symbol.first symbol.stop).map fun span =>
      ⟨span, .definition, s!"definition: '{String.ofList symbol.name}'"⟩

/-- All diagnostics, grouped by kind. A pass over its time budget leaves out
the last two groups. -/
def analyze (limits : Limits) (text : Text) : List Diagnostic :=
  if limits.maxChars < text.length then []
  else
    let tokens := Token.texts text false
    let offsets := Offsets.ofTokens text tokens
    let reading := Reading.ofTokens tokens
    let symbols := Symbols.ofEvents reading.events
    let stop := syntaxError? tokens offsets reading.outcome
    let found := stop.toList ++ issues tokens offsets
    if limits.overBudget then found
    else found ++ undefinedSymbols offsets symbols ++ definitions offsets symbols

/-- In document order; diagnostics that start together keep theirs. -/
def sorted (diagnostics : List Diagnostic) : List Diagnostic :=
  diagnostics.mergeSort fun a b => decide (a.span.start ≤ b.span.start)

end Diagnostic
end GrammarDesk
