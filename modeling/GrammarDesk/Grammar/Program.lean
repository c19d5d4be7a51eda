import GrammarDesk.Grammar.Reading

/-! Compiled grammars. References become rule indices, and rules of one name
are merged: each of their definitions is one alternative. -/
namespace GrammarDesk

inductive GrammarError where
  | noRules
  | unexpected (index : Nat) (token : Text)
  | undefinedRule (name : Text)
deriving DecidableEq, Repr

namespace GrammarError

def message : GrammarError → String
  | noRules => "grammar defines no rules"
  | unexpected index token =>
    s!"grammar syntax error at token {index}: unexpected '{String.ofList token}'"
  | undefinedRule name => s!"rule '{String.ofList name}' is referenced but never defined"

end GrammarError

inductive Node (rules : Nat) where
  | alternation (items : List (Node rules))
  | sequence (items : List (Node rules))
  | optional (inner : Node rules)
  | repeated (inner : Node rules)
  | oneOrMore (inner : Node rules)
  | times (count : Nat) (inner : Node rules)
  | except (kept dropped : Node rules)
  | terminal (literal : Text)
  | rule (index : Fin rules)
  | anyToken
  | empty

instance : Inhabited (Node rules) := ⟨.empty⟩

namespace Node

mutual

def ofPhrase (names : List Text) : Phrase → Except GrammarError (Node names.length)
  | .alternation items => do return alternation (← ofPhrases names items)
  | .sequence items => do return sequence (← ofPhrases names items)
  | .optional inner => do return optional (← ofPhrase names inner)
  | .repeated inner | .zeroOrMore inner => do return repeated (← ofPhrase names inner)
  | .oneOrMore inner => do return oneOrMore (← ofPhrase names inner)
  | .times count inner => do return times count (← ofPhrase names inner)
  | .except kept dropped => do return except (← ofPhrase names kept) (← ofPhrase names dropped)
  | .terminal literal => return terminal literal
  | .reference name =>
    match names.finIdxOf? name with
    | some index => return rule index
    | none => throw (.undefinedRule name)
  | .special _ => return anyToken
  | .empty => return empty

def ofPhrases (names : List Text) : List Phrase → Except GrammarError (List (Node names.length))
  | [] => return []
  | item :: items => do return (← ofPhrase names item) :: (← ofPhrases names items)

end

/-- One definition stands for itself, several are alternatives. -/
def merge : List (Node rules) → Node rules
  | [definition] => definition
  | definitions => alternation definitions

end Node

/-- Rule names in order of first definition, with one body each. The first
rule is the start rule. -/
structure Program where
  names : List Text
  bodies : Vector (Node names.length) names.length
  start : 0 < names.length

namespace Program

def body (program : Program) (index : Fin program.names.length) : Node program.names.length :=
  program.bodies.get index

def startRule (program : Program) : Fin program.names.length := ⟨0, program.start⟩

def startName (program : Program) : Text := program.names[program.startRule]

def definitions (names : List Text) :
    List Rule → Except GrammarError (List (Text × Node names.length))
  | [] => return []
  | rule :: rules => do
    let body ← Node.ofPhrase names rule.body
    return (rule.name, body) :: (← definitions names rules)

def ofGrammar (grammar : Grammar) : Except GrammarError Program :=
  let names := (grammar.rules.map Rule.name).eraseDups
  if start : 0 < names.length then do
    let found ← definitions names grammar.rules
    let bodies := Vector.ofFn fun index =>
      Node.merge ((found.filter (·.1 = names[index])).map (·.2))
    return { names, bodies, start }
  else throw .noRules

end Program
end GrammarDesk
