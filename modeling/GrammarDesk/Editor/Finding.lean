import GrammarDesk.Analysis.Completion
import GrammarDesk.Analysis.Diagnostics
import GrammarDesk.Json

/-! Diagnostics and completions as an editor takes them: with places instead of
byte offsets, in document order, and in their wire form. -/
namespace GrammarDesk

structure Finding where
  start : Place
  stop : Place
  code : DiagnosticCode
  message : String
deriving DecidableEq, Repr, Inhabited

namespace Finding

def ofDiagnostic (table : LineTable) (diagnostic : Diagnostic) : Finding :=
  let (start, stop) := table.range diagnostic.span
  ⟨start, stop, diagnostic.code, diagnostic.message⟩

def collect (limits : Limits) (text : Text) : List Finding :=
  (Diagnostic.sorted (Diagnostic.analyze limits text)).map (ofDiagnostic (LineTable.ofText text))

/-- Errors come first in an editor's count of severities. -/
def severityNumber : Severity → Nat
  | .error => 1
  | .warning => 2
  | .info => 3

def placeJson (place : Place) : Json :=
  .obj [("line", .nat place.line), ("character", .nat place.column)]

def toJson (finding : Finding) : Json :=
  .obj [
    ("range", .obj [("start", placeJson finding.start), ("end", placeJson finding.stop)]),
    ("severity", .nat (severityNumber finding.code.severity)),
    ("code", .str finding.code.label),
    ("source", .str Diagnostic.source),
    ("message", .str finding.message)]

end Finding

namespace Completion

/-- An offered name is marked as a reference. -/
def referenceKind : Nat := 18

def itemJson (name : Text) : Json :=
  .obj [("label", .str (String.ofList name)), ("kind", .nat referenceKind),
    ("detail", .str detail)]

end Completion
end GrammarDesk
