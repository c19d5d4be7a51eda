/-! How far a parser got through its tokens. -/
namespace GrammarDesk

/-- Input that merely runs out is complete; a halt names the first token that
could not be consumed. -/
inductive Outcome where
  | complete
  | haltedAt (index : Nat)
deriving DecidableEq, Repr, Inhabited

namespace Outcome

/-- The integer convention: every negative value is complete. -/
def ofInt : Int → Outcome
  | .ofNat index => haltedAt index
  | .negSucc _ => complete

def toInt : Outcome → Int
  | complete => -1
  | haltedAt index => index

def halt? : Outcome → Option Nat
  | complete => none
  | haltedAt index => some index

def isComplete (outcome : Outcome) : Bool := outcome.halt?.isNone

def describe : Outcome → String
  | complete => "complete"
  | haltedAt index => s!"halted at token {index}"

end Outcome
end GrammarDesk
