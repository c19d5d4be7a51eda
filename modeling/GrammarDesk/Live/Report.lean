import GrammarDesk.Sample.Parser

/-! Reports of a match pass over a sample: one matched segment for each token
that was confirmed, then at most one unmatched segment up to the end. -/
namespace GrammarDesk

structure Segment where
  span : Span
  matched : Bool
deriving DecidableEq, Repr, Inhabited

structure Report where
  segments : List Segment := []
deriving DecidableEq, Repr, Inhabited

namespace Report

def failed (sample : Text) : Report := ⟨[⟨⟨0, sample.width⟩, false⟩]⟩

def matched (report : Report) : List Segment := report.segments.filter (·.matched)

def unmatched (report : Report) : List Segment := report.segments.filter (!·.matched)

def isEmpty (report : Report) : Bool := report.segments.isEmpty

/-- From the start of the first matched segment to the end of the last. -/
def extent? (report : Report) : Option Span := do
  let first ← report.matched.head?
  let last ← report.matched.getLast?
  return ⟨first.span.start, last.span.stop⟩

/-- The segments of tokens that stand one after the other in `text`, which
starts at byte `offset`, with only white space before each. It stops at the
first token that does not. -/
def confirm (offset : Nat) (text : Text) : List Text → List Segment
  | [] => []
  | token :: tokens =>
    let rest := Text.trimStart text
    let start := offset + (text.width - rest.width)
    if !token.isEmpty && token.isPrefixOf rest then
      let stop := start + token.width
      ⟨⟨start, stop⟩, true⟩ :: confirm stop (rest.drop token.length) tokens
    else []

/-- Runs a parser on a sample. Of a halted match only the tokens before the
halt are confirmed, and what follows them is unmatched. -/
def ofParser (parser : SampleParser) (sample : Text) : Report :=
  if sample.isBlank then {}
  else match parser.parse sample with
    | .error _ => failed sample
    | .ok outcome =>
      let tokens := parser.cut sample
      match outcome with
      | .complete => ⟨confirm 0 sample tokens⟩
      | .haltedAt index =>
        let segments := confirm 0 sample (tokens.take index)
        let stop := (segments.getLast?.map (·.span.stop)).getD 0
        if stop < sample.width then ⟨segments ++ [⟨⟨stop, sample.width⟩, false⟩]⟩
        else ⟨segments⟩

/-- Matches a sample against a grammar text. Nothing is reported while either
is blank, and a grammar that does not compile matches nothing. -/
def compute (source sample : Text) : Report :=
  if source.isBlank || sample.isBlank then {}
  else match GrammarParser.ofText source with
    | .ok parser => ofParser parser.toSampleParser sample
    | .error _ => failed sample

end Report
end GrammarDesk
