import GrammarDesk.Event
import GrammarDesk.Grammar.Basic
import GrammarDesk.Outcome
import GrammarDesk.Text.Blank
import GrammarDesk.Token.Lexer

/-! Reading a grammar. The reader is a pushdown machine: each token either
moves it on or stops it for good, and its state holds the rule under
construction, with one suspended list for every open bracket.

    syntax      = { rule };
    rule        = name, "=", definitions, (";" | ".");
    definitions = definition, { "|", definition };
    definition  = term, { ",", term };
    term        = factor, [ "-", factor ];
    factor      = [ integer, "*" ], primary, [ "*" | "+" ];
    primary     = "[", definitions, "]" | "{", definitions, "}" | "(", definitions, ")"
                | name | literal | special | nothing;

Nothing may stand only before a comma, a bar, a terminator, a closing bracket
or the end. Input that runs out is no error, and a last rule that needs only
its terminator is kept. -/
namespace GrammarDesk

inductive Bracket where
  | square | brace | paren
deriving DecidableEq, Repr, Inhabited

namespace Bracket

def ofOpening? : Kind → Option Bracket
  | .openSquare => some square
  | .openBrace => some brace
  | .openParen => some paren
  | _ => none

def closing : Bracket → Kind
  | square => .closeSquare
  | brace => .closeBrace
  | paren => .closeParen

/-- What a bracketed list means. Groups leave no trace. -/
def wrap : Bracket → Phrase → Phrase
  | square, inner => .optional inner
  | brace, inner => .repeated inner
  | paren, inner => inner

end Bracket

/-- A list of definitions under construction, newest parts first: finished
definitions, finished terms of the current one, and the left side of an
exception whose right side is being read. -/
structure Draft where
  definitions : List Phrase := []
  terms : List Phrase := []
  kept : Option Phrase := none

namespace Draft

/-- A single item stands for itself. -/
def collapse (wrap : List Phrase → Phrase) : List Phrase → Phrase
  | [item] => item
  | items => wrap items

/-- The current term, if `factor` ends it. -/
def term (draft : Draft) (factor : Phrase) : Phrase :=
  match draft.kept with
  | none => factor
  | some kept => .except kept factor

def definition (draft : Draft) (factor : Phrase) : Phrase :=
  collapse .sequence (draft.term factor :: draft.terms).reverse

def phrase (draft : Draft) (factor : Phrase) : Phrase :=
  collapse .alternation (draft.definition factor :: draft.definitions).reverse

end Draft

/-- A count that precedes a primary multiplies it. -/
def counted : Option Nat → Phrase → Phrase
  | none, primary => primary
  | some count, primary => .times count primary

inductive Need where
  /-- An optional count, then a primary. -/
  | factor
  /-- The star after a count. -/
  | star (count : Nat)
  | primary (count : Option Nat)
  /-- A postfix star or plus, or what follows a factor. -/
  | suffix (factor : Phrase)
  /-- What follows a factor. -/
  | link (factor : Phrase)

/-- The list around an open bracket. -/
structure Frame where
  bracket : Bracket
  count : Option Nat
  draft : Draft

/-- A rule under construction, innermost list first. -/
structure Body where
  name : Text
  outer : List Frame := []
  draft : Draft := {}
  need : Need := .factor

inductive ReaderState where
  | rule
  /-- The defining symbol must follow the name of the rule. -/
  | defining (name : Text)
  | body (body : Body)

inductive Move where
  | on (state : ReaderState)
  | finished (rule : Rule)
  | refused
  /-- A count too large to be one: it is reported, but not passed. -/
  | overflow

/-- Most brackets that may be open at once. -/
def maxNesting : Nat := 256

def maxCount : Nat := 4294967295

namespace Text

/-- Drops the first and the last character; a text of one character is
nothing but a delimiter. -/
def unquote (text : Text) : Text := text.tail.dropLast

end Text

namespace Body

/-- A token after a complete factor. -/
def link (body : Body) (factor : Phrase) (kind : Kind) : Move :=
  let draft := body.draft
  match kind with
  | .minus =>
    if draft.kept.isNone then
      .on (.body { body with draft := { draft with kept := some factor }, need := .factor })
    else .refused
  | .comma =>
    let terms := draft.term factor :: draft.terms
    .on (.body { body with draft := { draft with terms, kept := none }, need := .factor })
  | .bar =>
    let definitions := draft.definition factor :: draft.definitions
    .on (.body { body with draft := { definitions }, need := .factor })
  | .terminator =>
    if body.outer.isEmpty then .finished ⟨body.name, draft.phrase factor⟩ else .refused
  | kind =>
    match body.outer with
    | [] => .refused
    | frame :: outer =>
      if kind = frame.bracket.closing then
        let primary := frame.bracket.wrap (draft.phrase factor)
        .on (.body { body with
          outer, draft := frame.draft, need := .suffix (counted frame.count primary) })
      else .refused

def suffix (body : Body) (factor : Phrase) (kind : Kind) : Move :=
  match kind with
  | .star => .on (.body { body with need := .link (.zeroOrMore factor) })
  | .plus => .on (.body { body with need := .link (.oneOrMore factor) })
  | kind => body.link factor kind

def primary (body : Body) (count : Option Nat) (kind : Kind) (text : Text) : Move :=
  let took (primary : Phrase) : Move :=
    .on (.body { body with need := .suffix (counted count primary) })
  match kind with
  | .name => took (.reference text)
  | .literal => took (.terminal (Text.unquote text))
  | .special => took (.special (Text.trim (Text.unquote text)))
  | .comma | .bar | .terminator | .closeSquare | .closeBrace | .closeParen =>
    body.link (counted count .empty) kind
  | kind =>
    match Bracket.ofOpening? kind with
    | some bracket =>
      if body.outer.length < maxNesting then
        .on (.body { name := body.name, outer := ⟨bracket, count, body.draft⟩ :: body.outer })
      else .refused
    | none => .refused

def advance (body : Body) (kind : Kind) (text : Text) : Move :=
  match body.need with
  | .factor =>
    if kind = .integer then
      let count := Text.digitsValue text
      if count ≤ maxCount then .on (.body { body with need := .star count }) else .overflow
    else body.primary none kind text
  | .star count =>
    if kind = .star then .on (.body { body with need := .primary (some count) }) else .refused
  | .primary count => body.primary count kind text
  | .suffix factor => body.suffix factor kind
  | .link factor => body.link factor kind

/-- The factor that the end of input supplies. -/
def lastFactor? (body : Body) : Option Phrase :=
  match body.need with
  | .factor => some .empty
  | .star _ => none
  | .primary count => some (counted count .empty)
  | .suffix factor | .link factor => some factor

end Body

namespace ReaderState

def advance (state : ReaderState) (text : Text) : Move :=
  let kind := Kind.classify text
  match state with
  | rule => if kind = .name then .on (defining text) else .refused
  | defining name => if kind = .defining then .on (body { name }) else .refused
  | body b => b.advance kind text

/-- The rule that needs only its terminator, at the end of input. -/
def pending? : ReaderState → Option Rule
  | rule | defining _ => none
  | body b =>
    if b.outer.isEmpty then b.lastFactor?.map fun factor => ⟨b.name, b.draft.phrase factor⟩
    else none

end ReaderState

structure Reading where
  outcome : Outcome
  rules : List Rule
  events : List Event

namespace Reading

/-- Reads on in `state` at token `index`; `passed` are the tokens of the
current rule, newest first. -/
def readFrom (state : ReaderState) (index : Nat) (passed : List Text) : List Text → Reading
  | [] =>
    match state.pending? with
    | some rule => ⟨.complete, [rule], [.ofRule passed.reverse index]⟩
    | none => ⟨.complete, [], []⟩
  | token :: tokens =>
    let report := Event.ofToken token index
    match state.advance token with
    | .on next =>
      let reading := readFrom next (index + 1) (token :: passed) tokens
      { reading with events := report :: reading.events }
    | .finished rule =>
      let reading := readFrom .rule (index + 1) [] tokens
      let done := Event.ofRule (token :: passed).reverse (index + 1)
      { reading with rules := rule :: reading.rules, events := report :: done :: reading.events }
    | .refused => ⟨.haltedAt index, [], []⟩
    | .overflow => ⟨.haltedAt index, [], [report]⟩

def ofTokens (tokens : List Text) : Reading := readFrom .rule 0 [] tokens

def ofText (source : Text) : Reading := ofTokens (Token.texts source false)

def grammar (reading : Reading) : Grammar := ⟨reading.rules⟩

end Reading
end GrammarDesk
