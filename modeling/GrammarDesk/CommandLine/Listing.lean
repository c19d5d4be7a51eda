import GrammarDesk.Analysis.Diagnostics
import GrammarDesk.Live.Wire
import GrammarDesk.Text.Lines

/-! What the commands print: listings with lines and columns from one, and the
same findings as JSON. -/
namespace GrammarDesk.Listing

def position (text : Text) (offset : Nat) : String :=
  let (line, column) := text.lineColumn offset
  s!"{line}:{column}"

def count (severity : Severity) (diagnostics : List Diagnostic) : Nat :=
  diagnostics.countP (·.severity = severity)

/-- One line for each diagnostic, then how many errors and warnings there are. -/
def diagnostics (path : String) (text : Text) (diagnostics : List Diagnostic) : String :=
  let line (d : Diagnostic) : String :=
    s!"{path}:{position text d.span.start}: {d.severity.label}[{d.code.label}]: {d.message}\n"
  String.join (diagnostics.map line) ++
    s!"{count .error diagnostics} error(s), {count .warning diagnostics} warning(s)\n"

/-- One line for each segment with the text that it covers, or nothing where it
covers none. -/
def report (sample : Text) (report : Report) : String :=
  let line (segment : Segment) : String :=
    let label := if segment.matched then "matched" else "unmatched"
    let excerpt := ((sample.slice? segment.span).getD []).quoted
    s!"{label} {segment.span.start}..{segment.span.stop} {excerpt}\n"
  if report.isEmpty then "nothing to match\n" else String.join (report.segments.map line)

def symbols (text : Text) (offsets : Offsets) (symbols : Symbols) : String :=
  let found := (symbols.definitions ++ symbols.references ++ symbols.literals).mergeSort
    fun a b => decide (a.first ≤ b.first)
  let line (symbol : Symbol) : String :=
    match offsets.span? symbol.first with
    | some span =>
      s!"{position text span.start} {symbol.kind.label} {String.ofList symbol.name}\n"
    | none => ""
  String.join (found.map line)

def tokens (text : Text) (tokens : List Token) : String :=
  let line (token : Token) : String :=
    s!"{position text token.span.start} {token.kind.label} {String.ofList token.text}\n"
  String.join (tokens.map line)

def diagnosticsJson (diagnostics : List Diagnostic) : Json :=
  .arr <| diagnostics.map fun d => .obj [
    ("span", .obj [("start", .nat d.span.start), ("end", .nat d.span.stop)]),
    ("severity", .str d.severity.label),
    ("message", .str d.message),
    ("code", .str d.code.label),
    ("source", .str Diagnostic.source)]

end GrammarDesk.Listing
