import GrammarDesk.Text.Basic

/-! Suspicious constructs, found in the token texts alone.

    unreachable alternative   a repetition in braces, then a bar and more
    empty loop                an empty literal in braces
    redundant alternative     one token in square brackets, then a bar and the same token
    invalid repetition        a group, then a star or plus

Issues are grouped by check in this order, and within a check they ascend. -/
namespace GrammarDesk

inductive Severity where
  | info | warning | error
deriving DecidableEq, Repr, Inhabited

def Severity.label : Severity → String
  | info => "info"
  | warning => "warning"
  | error => "error"

inductive IssueKind where
  | unreachableAlternative | emptyLoop | redundantAlternative | invalidRepetition
deriving DecidableEq, Repr, Inhabited

def IssueKind.severity : IssueKind → Severity
  | unreachableAlternative | redundantAlternative => .warning
  | emptyLoop | invalidRepetition => .error

def IssueKind.label : IssueKind → String
  | unreachableAlternative => "unreachable-alternative"
  | emptyLoop => "empty-loop"
  | redundantAlternative => "redundant-alternative"
  | invalidRepetition => "invalid-repetition"

structure Issue where
  index : Nat
  kind : IssueKind
  message : String
deriving DecidableEq, Repr, Inhabited

namespace Issue

/-- How many tokens to pass before the one that leaves what was entered, not
counting pairs in between. -/
def passes (enter leave : Text) : Nat → List Text → Option Nat
  | _, [] => none
  | depth, token :: tokens =>
    if token = enter then (passes enter leave (depth + 1) tokens).map (· + 1)
    else if token = leave then
      match depth with
      | 0 => some 0
      | depth + 1 => (passes enter leave depth tokens).map (· + 1)
    else (passes enter leave depth tokens).map (· + 1)

def closing? (tokens : List Text) (opener closer : Text) (index : Nat) : Option Nat :=
  (passes opener closer 0 (tokens.drop (index + 1))).map (index + 1 + ·)

def opening? (tokens : List Text) (opener closer : Text) (index : Nat) : Option Nat :=
  let before := tokens.take index
  (passes closer opener 0 before.reverse).map (before.length - 1 - ·)

def positions (tokens : List Text) (wanted : Text) : List Nat :=
  (tokens.zipIdx.filter (·.1 = wanted)).map (·.2)

def unreachableAlternatives (tokens : List Text) : List Issue :=
  (positions tokens ['\x7b']).filterMap fun index => do
    let close ← closing? tokens ['\x7b'] ['\x7d'] index
    if tokens[close + 1]? = some ['|'] ∧ close + 2 < tokens.length then
      return ⟨close + 2, .unreachableAlternative,
        "unreachable alternative: '\x7b ... \x7d' already matches the empty input"⟩
    else none

def isEmptyLiteral (token : Text) : Bool := token == ['"', '"'] || token == ['\'', '\'']

def emptyLoops (tokens : List Text) : List Issue :=
  (positions tokens ['\x7b']).filterMap fun index => do
    let body ← tokens[index + 1]?
    if isEmptyLiteral body ∧ tokens[index + 2]? = some ['\x7d'] then
      return ⟨index, .emptyLoop,
        s!"empty loop: '\x7b {String.ofList body} \x7d' repeats an empty literal forever"⟩
    else none

/-- Tokens that end an alternative of one token. -/
def endsAlternative (token : Text) : Bool :=
  [[';'], ['.'], ['|'], [')'], [']'], ['\x7d']].contains token

def redundantAlternatives (tokens : List Text) : List Issue :=
  (positions tokens ['[']).filterMap fun index => do
    let close ← closing? tokens ['['] [']'] index
    let inner ← tokens[index + 1]?
    let candidate ← tokens[close + 2]?
    let single := tokens[close + 3]?.all endsAlternative
    if close = index + 2 ∧ tokens[close + 1]? = some ['|'] ∧ single ∧ candidate = inner then
      let text := String.ofList candidate
      return ⟨close + 2, .redundantAlternative,
        s!"redundant alternative: '[ {text} ]' already covers '{text}'"⟩
    else none

def invalidRepetitions (tokens : List Text) : List Issue :=
  (positions tokens [')']).filterMap fun index =>
    let next := tokens[index + 1]?
    if (next = some ['*'] ∨ next = some ['+']) ∧ (opening? tokens ['('] [')'] index).isSome then
      some ⟨index, .invalidRepetition,
        "invalid repetition: '*' and '+' are not allowed on a grouped expression"⟩
    else none

def find (tokens : List Text) : List Issue :=
  unreachableAlternatives tokens ++ emptyLoops tokens ++ redundantAlternatives tokens ++
    invalidRepetitions tokens

end Issue
end GrammarDesk
