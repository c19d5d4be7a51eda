import GrammarDesk.Analysis.Symbols
import GrammarDesk.Text.Lines

/-! Completion of rule names. Every name of a grammar is offered that properly
extends the word before the cursor. -/
namespace GrammarDesk

/-- A word that follows a character of several bytes has no text of its own:
it would start inside that character. -/
inductive CompletionError where
  | insideCharacter
deriving DecidableEq, Repr

namespace Completion

def detail : String := "EBNF definition"

/-- All names, defined or referred to, in order and each once. -/
def names (source : Text) : List Text :=
  let symbols := Symbols.ofText source
  ((symbols.definitions ++ symbols.references).map (·.name)).eraseDups.mergeSort Text.atMost

/-- The names that begin with a word and are longer. -/
def candidates (source word : Text) : List Text :=
  (names source).filter fun name => word.isPrefixOf name && name != word

/-- The word that ends a text, which starts one byte after the character
before it. -/
def lastWord (text : Text) : Except CompletionError Text :=
  let word := (text.reverse.takeWhile Kind.continuesName).reverse
  match text.reverse.dropWhile Kind.continuesName with
  | [] => .ok word
  | c :: _ => if c.utf8Size = 1 then .ok word else .error .insideCharacter

def atPlace (text : Text) (place : Place) : Except CompletionError (List Text) := do
  let offset := (LineTable.ofText text).offset place
  let before := match text.splitAtByte offset with
    | some (before, _) => before
    | none => text
  return candidates text (← lastWord before)

end Completion
end GrammarDesk
