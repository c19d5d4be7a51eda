import GrammarDesk.Text.Basic

/-! Finding the tokens of a list again in their text. Each token is looked for
from the end of the tokens before it, then anywhere, and stands at the cursor
if it is nowhere; so every token gets a span, if not always the right one. -/
namespace GrammarDesk

structure Offsets where
  spans : List Span
deriving DecidableEq, Repr, Inhabited

namespace Offsets

def locate (text : Text) (cursor : Nat) (token : Text) : Nat :=
  if token.isEmpty then cursor
  else match Text.find? token (text.dropBytes cursor) with
    | some ahead => cursor + ahead
    | none => (Text.find? token text).getD cursor

/-- The span of a token; it never leaves the text or cuts a character. -/
def spanOf (text : Text) (cursor : Nat) (token : Text) : Span :=
  let start := locate text cursor token
  ⟨start, text.floorBoundary (start + token.width)⟩

def spansFrom (text : Text) (cursor : Nat) : List Text → List Span
  | [] => []
  | token :: tokens =>
    let span := spanOf text cursor token
    span :: spansFrom text (max cursor span.stop) tokens

def ofTokens (text : Text) (tokens : List Text) : Offsets := ⟨spansFrom text 0 tokens⟩

def span? (offsets : Offsets) (index : Nat) : Option Span := offsets.spans[index]?

/-- From the start of token `first` to the end of the token before `stop`,
which may lie past the last token. -/
def covering? (offsets : Offsets) (first stop : Nat) : Option Span := do
  let stop := min stop offsets.spans.length
  if first < stop then
    let front ← offsets.span? first
    let back ← offsets.span? (stop - 1)
    return ⟨front.start, max back.stop front.start⟩
  else none

end Offsets
end GrammarDesk
