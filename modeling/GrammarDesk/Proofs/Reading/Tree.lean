import GrammarDesk.Grammar.Reading

/-! The grammar of grammars, as derivation trees: one type for each production,
one constructor for each of its forms. A tree has the tokens it derives and the
phrase it stands for. Lists of terms and of definitions grow at their end. -/
namespace GrammarDesk

namespace Kind

/-- The text of a symbol; a terminator has a second one. -/
def symbol : Kind → Text
  | defining => ['=']
  | comma => [',']
  | bar => ['|']
  | terminator => [';']
  | minus => ['-']
  | star => ['*']
  | plus => ['+']
  | openBrace => ['\x7b']
  | closeBrace => ['\x7d']
  | openSquare => ['[']
  | closeSquare => [']']
  | openParen => ['(']
  | closeParen => [')']
  | name | literal | special | integer | invalid => []

@[simp] theorem classify_symbol {kind : Kind} (delimiter : kind.isDelimiter) :
    classify kind.symbol = kind := by
  cases kind <;> first | rfl | contradiction

theorem eq_symbol_of_ofSymbol? {c : Char} {kind : Kind} (symbol : ofSymbol? c = some kind)
    (unique : kind ≠ terminator) : [c] = kind.symbol := by
  unfold ofSymbol? at symbol
  split at symbol <;> cases symbol <;> first | rfl | exact absurd rfl unique

theorem ofSymbol?_of_isDelimiter {text : Text} (delimiter : (classify text).isDelimiter) :
    ∃ c, text = [c] ∧ ofSymbol? c = some (classify text) := by
  cases text with
  | nil => cases delimiter
  | cons c cs =>
    simp only [classify] at delimiter ⊢
    split
    · rename_i kind symbol
      exact ⟨c, rfl, symbol⟩
    · -- A text of any other shape is no symbol.
      rename_i other
      split at delimiter
      · exact absurd ‹ofSymbol? c = some _› (other _ rfl)
      · iterate 4 (split at delimiter; · cases delimiter)
        cases delimiter

theorem eq_symbol {text : Text} {kind : Kind} (classified : classify text = kind)
    (delimiter : kind.isDelimiter) (unique : kind ≠ terminator) : text = kind.symbol := by
  subst classified
  obtain ⟨c, rfl, symbol⟩ := ofSymbol?_of_isDelimiter delimiter
  exact eq_symbol_of_ofSymbol? symbol unique

/-- Kinds that may stand right after a primary made of no token. -/
def followsNothing : Kind → Bool
  | comma | bar | terminator | closeSquare | closeBrace | closeParen => true
  | _ => false

end Kind

namespace Bracket

def opening : Bracket → Kind
  | square => .openSquare
  | brace => .openBrace
  | paren => .openParen

theorem eq_opening {kind : Kind} {bracket : Bracket} (opens : ofOpening? kind = some bracket) :
    kind = bracket.opening := by
  unfold ofOpening? at opens
  split at opens <;> cases opens <;> rfl

@[simp] theorem isDelimiter_opening (bracket : Bracket) : bracket.opening.isDelimiter := by
  cases bracket <;> rfl

@[simp] theorem isDelimiter_closing (bracket : Bracket) : bracket.closing.isDelimiter := by
  cases bracket <;> rfl

@[simp] theorem followsNothing_closing (bracket : Bracket) :
    bracket.closing.followsNothing := by
  cases bracket <;> rfl

end Bracket

namespace Parse

inductive Mark where
  | star | plus

mutual

inductive Primary where
  | bracketed (bracket : Bracket) (inner : Definitions)
  | name (text : Text)
  | literal (text : Text)
  | special (text : Text)
  | nothing

inductive Factor where
  | mk (count : Option Text) (primary : Primary) (mark : Option Mark)

inductive Term where
  | plain (factor : Factor)
  | except (kept dropped : Factor)

inductive Definition where
  | one (term : Term)
  | snoc (earlier : Definition) (term : Term)

inductive Definitions where
  | one (definition : Definition)
  | snoc (earlier : Definitions) (definition : Definition)

end

structure SyntaxRule where
  name : Text
  definitions : Definitions
  stop : Text

namespace Mark

def kind : Mark → Kind
  | star => .star
  | plus => .plus

def phrase : Mark → Phrase → Phrase
  | star, inner => .zeroOrMore inner
  | plus, inner => .oneOrMore inner

end Mark

/-! Tokens from left to right. -/

def countTokens : Option Text → List Text
  | none => []
  | some count => [count, Kind.star.symbol]

def markTokens : Option Mark → List Text
  | none => []
  | some mark => [mark.kind.symbol]

mutual

def Primary.tokens : Primary → List Text
  | .bracketed bracket inner =>
    bracket.opening.symbol :: (inner.tokens ++ [bracket.closing.symbol])
  | .name text | .literal text | .special text => [text]
  | .nothing => []

def Factor.tokens : Factor → List Text
  | .mk count primary mark => countTokens count ++ primary.tokens ++ markTokens mark

def Term.tokens : Term → List Text
  | .plain factor => factor.tokens
  | .except kept dropped => kept.tokens ++ Kind.minus.symbol :: dropped.tokens

def Definition.tokens : Definition → List Text
  | .one term => term.tokens
  | .snoc earlier term => earlier.tokens ++ Kind.comma.symbol :: term.tokens

def Definitions.tokens : Definitions → List Text
  | .one definition => definition.tokens
  | .snoc earlier definition => earlier.tokens ++ Kind.bar.symbol :: definition.tokens

end

def SyntaxRule.tokens (rule : SyntaxRule) : List Text :=
  rule.name :: Kind.defining.symbol :: (rule.definitions.tokens ++ [rule.stop])

/-! Phrases. Groups leave no trace, and a list of one item is that item. -/

def numbered : Option Text → Phrase → Phrase
  | none, inner => inner
  | some count, inner => .times (Text.digitsValue count) inner

def marked : Option Mark → Phrase → Phrase
  | none, inner => inner
  | some mark, inner => mark.phrase inner

mutual

def Primary.phrase : Primary → Phrase
  | .bracketed .square inner => .optional inner.phrase
  | .bracketed .brace inner => .repeated inner.phrase
  | .bracketed .paren inner => inner.phrase
  | .name text => .reference text
  | .literal text => .terminal (Text.unquote text)
  | .special text => .special (Text.trim (Text.unquote text))
  | .nothing => .empty

def Factor.phrase : Factor → Phrase
  | .mk count primary mark => marked mark (numbered count primary.phrase)

def Term.phrase : Term → Phrase
  | .plain factor => factor.phrase
  | .except kept dropped => .except kept.phrase dropped.phrase

def Definition.phrase : Definition → Phrase
  | .one term => term.phrase
  | .snoc earlier term => .sequence (earlier.phrases ++ [term.phrase])

def Definition.phrases : Definition → List Phrase
  | .one term => [term.phrase]
  | .snoc earlier term => earlier.phrases ++ [term.phrase]

def Definitions.phrase : Definitions → Phrase
  | .one definition => definition.phrase
  | .snoc earlier definition => .alternation (earlier.phrases ++ [definition.phrase])

def Definitions.phrases : Definitions → List Phrase
  | .one definition => [definition.phrase]
  | .snoc earlier definition => earlier.phrases ++ [definition.phrase]

end

def SyntaxRule.rule (rule : SyntaxRule) : Rule := ⟨rule.name, rule.definitions.phrase⟩

/-! Which trees are derivations: leaves have their kinds, and three limits
hold. Brackets nest at most `maxNesting` deep, counts are at most `maxCount`,
and a primary made of no token has the right kind of token after it. `opened`
brackets stand open around a tree, and a token of kind `next` follows it. -/

def CountAllowed : Option Text → Prop
  | none => True
  | some count => Kind.classify count = .integer ∧ Text.digitsValue count ≤ maxCount

def afterPrimary (next : Kind) : Option Mark → Kind
  | none => next
  | some mark => mark.kind

mutual

def Primary.Allowed (opened : Nat) (next : Kind) : Primary → Prop
  | .bracketed bracket inner => opened < maxNesting ∧ inner.Allowed (opened + 1) bracket.closing
  | .name text => Kind.classify text = .name
  | .literal text => Kind.classify text = .literal
  | .special text => Kind.classify text = .special
  | .nothing => next.followsNothing

def Factor.Allowed (opened : Nat) (next : Kind) : Factor → Prop
  | .mk count primary mark =>
    CountAllowed count ∧ primary.Allowed opened (afterPrimary next mark)

def Term.Allowed (opened : Nat) (next : Kind) : Term → Prop
  | .plain factor => factor.Allowed opened next
  | .except kept dropped => kept.Allowed opened .minus ∧ dropped.Allowed opened next

def Definition.Allowed (opened : Nat) (next : Kind) : Definition → Prop
  | .one term => term.Allowed opened next
  | .snoc earlier term => earlier.Allowed opened .comma ∧ term.Allowed opened next

def Definitions.Allowed (opened : Nat) (next : Kind) : Definitions → Prop
  | .one definition => definition.Allowed opened next
  | .snoc earlier definition => earlier.Allowed opened .bar ∧ definition.Allowed opened next

end

def SyntaxRule.Allowed (rule : SyntaxRule) : Prop :=
  Kind.classify rule.name = .name ∧ rule.definitions.Allowed 0 .terminator ∧
    Kind.classify rule.stop = .terminator

end Parse

@[ext] structure Derivation (tokens : List Text) where
  rules : List Parse.SyntaxRule
  allowed : ∀ rule ∈ rules, rule.Allowed
  tokens_eq : rules.flatMap Parse.SyntaxRule.tokens = tokens

def Derivation.grammar {tokens : List Text} (derivation : Derivation tokens) : Grammar :=
  ⟨derivation.rules.map Parse.SyntaxRule.rule⟩

def Sentence (tokens : List Text) : Prop := Nonempty (Derivation tokens)

def BeginsSentence (tokens : List Text) : Prop := ∃ rest, Sentence (tokens ++ rest)

example : Sentence [['a'], ['='], ['b'], ['.']] :=
  ⟨[⟨['a'], .one (.one (.plain (.mk none (.name ['b']) none))), ['.']⟩],
    List.forall_mem_singleton.mpr ⟨rfl, ⟨trivial, rfl⟩, rfl⟩, rfl⟩

end GrammarDesk
