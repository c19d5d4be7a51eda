import GrammarDesk.Text.Basic

/-! Grammars as written: the right-hand sides of rules, in document order. -/
namespace GrammarDesk

/-- The right-hand side of a rule. Repetition has two spellings, brackets and
a postfix star; both mean zero or more. -/
inductive Phrase where
  | alternation (items : List Phrase)
  | sequence (items : List Phrase)
  | optional (inner : Phrase)
  | repeated (inner : Phrase)
  | times (count : Nat) (inner : Phrase)
  | except (kept dropped : Phrase)
  | zeroOrMore (inner : Phrase)
  | oneOrMore (inner : Phrase)
  | terminal (literal : Text)
  | reference (name : Text)
  | special (text : Text)
  | empty
deriving Repr, Inhabited

namespace Phrase

mutual

def terminals : Phrase → List Text
  | alternation items | sequence items => terminalsAll items
  | optional inner | repeated inner | times _ inner | zeroOrMore inner | oneOrMore inner =>
    terminals inner
  | except kept dropped => terminals kept ++ terminals dropped
  | terminal literal => [literal]
  | reference _ | special _ | empty => []

def terminalsAll : List Phrase → List Text
  | [] => []
  | item :: items => terminals item ++ terminalsAll items

end

end Phrase

structure Rule where
  name : Text
  body : Phrase
deriving Repr, Inhabited

/-- Rules in document order. The first one is the start rule. -/
structure Grammar where
  rules : List Rule
deriving Repr, Inhabited

namespace Grammar

def rule? (grammar : Grammar) (name : Text) : Option Rule :=
  grammar.rules.find? (·.name = name)

def terminals (grammar : Grammar) : List Text :=
  grammar.rules.flatMap (·.body.terminals)

end Grammar
end GrammarDesk
