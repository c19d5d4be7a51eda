import GrammarDesk.Proofs.Token.Kinds

/-! Reading literals that were changed. A change that keeps what is a literal and what is
not sends every state of the reader to the one it would be in after the unchanged tokens,
with the terminals of its phrases changed. So the same tokens are refused, and the rules
differ in their terminals alone. -/
namespace GrammarDesk

section

variable (change : Text → Text)

namespace Phrase

mutual

def mapTerminals : Phrase → Phrase
  | alternation items => .alternation (mapTerminalsAll items)
  | sequence items => .sequence (mapTerminalsAll items)
  | optional inner => .optional (mapTerminals inner)
  | repeated inner => .repeated (mapTerminals inner)
  | times count inner => .times count (mapTerminals inner)
  | except kept dropped => .except (mapTerminals kept) (mapTerminals dropped)
  | zeroOrMore inner => .zeroOrMore (mapTerminals inner)
  | oneOrMore inner => .oneOrMore (mapTerminals inner)
  | terminal literal => .terminal (change literal)
  | reference name => .reference name
  | special text => .special text
  | empty => .empty

def mapTerminalsAll : List Phrase → List Phrase
  | [] => []
  | item :: items => mapTerminals item :: mapTerminalsAll items

end

theorem mapTerminalsAll_eq (items : List Phrase) :
    mapTerminalsAll change items = items.map (mapTerminals change) := by
  induction items with
  | nil => rfl
  | cons item items ih => rw [mapTerminalsAll, ih, List.map_cons]

end Phrase

/-! The terminals in a state of the reader. -/

def Rule.mapTerminals (rule : Rule) : Rule := ⟨rule.name, rule.body.mapTerminals change⟩

def Draft.mapTerminals (draft : Draft) : Draft where
  definitions := draft.definitions.map (Phrase.mapTerminals change)
  terms := draft.terms.map (Phrase.mapTerminals change)
  kept := draft.kept.map (Phrase.mapTerminals change)

def Frame.mapTerminals (frame : Frame) : Frame :=
  ⟨frame.bracket, frame.count, frame.draft.mapTerminals change⟩

def Need.mapTerminals : Need → Need
  | .factor => .factor
  | .star count => .star count
  | .primary count => .primary count
  | .suffix ended => .suffix (ended.mapTerminals change)
  | .link ended => .link (ended.mapTerminals change)

def Body.mapTerminals (body : Body) : Body where
  name := body.name
  outer := body.outer.map (Frame.mapTerminals change)
  draft := body.draft.mapTerminals change
  need := body.need.mapTerminals change

def ReaderState.mapTerminals : ReaderState → ReaderState
  | .rule => .rule
  | .defining name => .defining name
  | .body inside => .body (inside.mapTerminals change)

def Move.mapTerminals : Move → Move
  | .on state => .on (state.mapTerminals change)
  | .finished rule => .finished (rule.mapTerminals change)
  | .refused => .refused
  | .overflow => .overflow

/-- A change of tokens that changes what stands between the quotes of literals, and
nothing else. -/
structure Requotes (token : Text → Text) : Prop where
  kind : ∀ text, Kind.classify (token text) = Kind.classify text
  literal : ∀ text, Kind.classify text = .literal →
    Text.unquote (token text) = change (Text.unquote text)
  other : ∀ text, Kind.classify text ≠ .literal → token text = text

end

variable {change : Text → Text}

theorem Text.requotes_squeeze : Requotes unblank squeeze where
  kind := classify_squeeze
  literal _ := unquote_squeeze
  other _ := squeeze_of_ne

theorem Bracket.wrap_mapTerminals (bracket : Bracket) (inner : Phrase) :
    bracket.wrap (inner.mapTerminals change) = (bracket.wrap inner).mapTerminals change := by
  cases bracket <;> rfl

theorem counted_mapTerminals (count : Option Nat) (primary : Phrase) :
    counted count (primary.mapTerminals change) = (counted count primary).mapTerminals change := by
  cases count <;> rfl

namespace Draft

theorem collapse_mapTerminals {wrap : List Phrase → Phrase}
    (wraps : ∀ items, wrap (items.map (Phrase.mapTerminals change)) =
      (wrap items).mapTerminals change) (items : List Phrase) :
    collapse wrap (items.map (Phrase.mapTerminals change)) =
      (collapse wrap items).mapTerminals change := by
  match items with
  | [] => exact wraps []
  | [item] => rfl
  | first :: second :: items => exact wraps (first :: second :: items)

variable (draft : Draft) (factor : Phrase)

theorem term_mapTerminals : (draft.mapTerminals change).term (factor.mapTerminals change) =
    (draft.term factor).mapTerminals change := by
  obtain ⟨definitions, terms, kept⟩ := draft
  cases kept <;> rfl

theorem definition_mapTerminals :
    (draft.mapTerminals change).definition (factor.mapTerminals change) =
      (draft.definition factor).mapTerminals change := by
  have wraps (items : List Phrase) : Phrase.sequence (items.map (Phrase.mapTerminals change)) =
      (Phrase.sequence items).mapTerminals change := by
    rw [Phrase.mapTerminals, Phrase.mapTerminalsAll_eq]
  rw [definition, term_mapTerminals, mapTerminals, ← List.map_cons, ← List.map_reverse,
    collapse_mapTerminals wraps, definition]

theorem phrase_mapTerminals : (draft.mapTerminals change).phrase (factor.mapTerminals change) =
    (draft.phrase factor).mapTerminals change := by
  have wraps (items : List Phrase) : Phrase.alternation (items.map (Phrase.mapTerminals change)) =
      (Phrase.alternation items).mapTerminals change := by
    rw [Phrase.mapTerminals, Phrase.mapTerminalsAll_eq]
  rw [phrase, definition_mapTerminals, mapTerminals, ← List.map_cons, ← List.map_reverse,
    collapse_mapTerminals wraps, phrase]

end Draft

namespace Body

variable (body : Body) (factor : Phrase) (kind : Kind)

theorem link_mapTerminals : (body.mapTerminals change).link (factor.mapTerminals change) kind =
    (body.link factor kind).mapTerminals change := by
  obtain ⟨name, outer, draft, need⟩ := body
  unfold link
  dsimp only
  -- A minus, a comma, a bar, a terminator, and what can only be a closing bracket.
  split
  case h_1 =>
    obtain ⟨definitions, terms, kept⟩ := draft
    cases kept <;> rfl
  case h_2 =>
    simp only [mapTerminals, Draft.term_mapTerminals]
    rfl
  case h_3 =>
    simp only [mapTerminals, Draft.definition_mapTerminals]
    rfl
  case h_4 =>
    cases outer with
    | nil =>
      simp only [mapTerminals, Draft.phrase_mapTerminals]
      rfl
    | cons => rfl
  case h_5 =>
    cases outer with
    | nil => rfl
    | cons frame outer =>
      obtain ⟨bracket, count, around⟩ := frame
      simp only [mapTerminals, List.map_cons, Frame.mapTerminals, Draft.phrase_mapTerminals,
        Bracket.wrap_mapTerminals, counted_mapTerminals]
      split <;> rfl

theorem suffix_mapTerminals : (body.mapTerminals change).suffix (factor.mapTerminals change) kind =
    (body.suffix factor kind).mapTerminals change := by
  unfold suffix
  split
  · rfl
  · rfl
  · exact link_mapTerminals body factor _

variable {token : Text → Text} (text : Text)

theorem primary_mapTerminals (requotes : Requotes change token) (count : Option Nat) :
    (body.mapTerminals change).primary count (Kind.classify text) (token text) =
      (body.primary count (Kind.classify text) text).mapTerminals change := by
  by_cases literal : Kind.classify text = .literal
  · simp only [primary, literal, requotes.literal text literal]
    cases count <;> rfl
  rw [requotes.other text literal]
  have missing (kind : Kind) : (body.mapTerminals change).link (counted count .empty) kind =
      (body.link (counted count .empty) kind).mapTerminals change := by
    rw [← link_mapTerminals, ← counted_mapTerminals]
    rfl
  unfold primary
  dsimp only
  split
  case h_1 | h_3 => cases count <;> rfl
  case h_2 kind => exact absurd kind literal
  case h_10 =>
    split
    · simp only [mapTerminals, List.length_map]
      split <;> rfl
    · rfl
  all_goals exact missing _

theorem advance_mapTerminals (requotes : Requotes change token) :
    (body.mapTerminals change).advance (Kind.classify text) (token text) =
      (body.advance (Kind.classify text) text).mapTerminals change := by
  obtain ⟨name, outer, draft, need⟩ := body
  cases need with
  | factor =>
    simp only [advance, mapTerminals, Need.mapTerminals]
    by_cases count : Kind.classify text = .integer
    · have other : Kind.classify text ≠ .literal := by simp [count]
      rw [if_pos count, if_pos count, requotes.other text other]
      split <;> rfl
    · rw [if_neg count, if_neg count]
      exact primary_mapTerminals ⟨name, outer, draft, .factor⟩ text requotes none
  | star count =>
    simp only [advance, mapTerminals, Need.mapTerminals]
    split <;> rfl
  | primary count =>
    exact primary_mapTerminals ⟨name, outer, draft, .primary count⟩ text requotes count
  | suffix ended => exact suffix_mapTerminals ⟨name, outer, draft, .suffix ended⟩ ended _
  | link ended => exact link_mapTerminals ⟨name, outer, draft, .link ended⟩ ended _

theorem lastFactor?_mapTerminals : (body.mapTerminals change).lastFactor? =
    body.lastFactor?.map (Phrase.mapTerminals change) := by
  obtain ⟨name, outer, draft, need⟩ := body
  cases need with
  | factor | star | suffix | link => rfl
  | primary count => exact congrArg some (counted_mapTerminals count .empty)

theorem pending?_mapTerminals : (ReaderState.body (body.mapTerminals change)).pending? =
    (ReaderState.body body).pending?.map (Rule.mapTerminals change) := by
  have outermost : (body.mapTerminals change).outer.isEmpty = body.outer.isEmpty :=
    List.isEmpty_map
  simp only [ReaderState.pending?, lastFactor?_mapTerminals, outermost]
  split
  · cases body.lastFactor? with
    | none => rfl
    | some factor =>
      exact congrArg (fun phrase => some (Rule.mk body.name phrase))
        (body.draft.phrase_mapTerminals factor)
  · rfl

end Body

namespace ReaderState

variable {token : Text → Text} (state : ReaderState)

theorem advance_mapTerminals (requotes : Requotes change token) (text : Text) :
    (state.mapTerminals change).advance (token text) =
      (state.advance text).mapTerminals change := by
  cases state with
  | rule =>
    by_cases name : Kind.classify text = .name
    · have other : Kind.classify text ≠ .literal := by simp [name]
      simp only [advance, mapTerminals, requotes.other text other, if_pos name]
      rfl
    · simp only [advance, mapTerminals, requotes.kind, if_neg name]
      rfl
  | defining name =>
    simp only [advance, mapTerminals, requotes.kind]
    split <;> rfl
  | body inside =>
    simp only [advance, mapTerminals, requotes.kind]
    exact inside.advance_mapTerminals text requotes

theorem pending?_mapTerminals : (state.mapTerminals change).pending? =
    state.pending?.map (Rule.mapTerminals change) := by
  cases state with
  | rule | defining => rfl
  | body inside => exact inside.pending?_mapTerminals

end ReaderState

namespace Reading

variable {token : Text → Text}

theorem readFrom_requoted (requotes : Requotes change token) (state : ReaderState)
    (tokens : List Text) (index : Nat) (passed passed' : List Text) :
    let changed := readFrom (state.mapTerminals change) index passed' (tokens.map token)
    let reading := readFrom state index passed tokens
    changed.outcome = reading.outcome ∧
      changed.rules = reading.rules.map (Rule.mapTerminals change) := by
  induction tokens generalizing state index passed passed' with
  | nil =>
    simp only [List.map_nil, readFrom, state.pending?_mapTerminals]
    cases state.pending? <;> exact ⟨rfl, rfl⟩
  | cons text tokens ih =>
    simp only [List.map_cons, readFrom, state.advance_mapTerminals requotes]
    cases state.advance text with
    | on next => exact ih next (index + 1) (text :: passed) (token text :: passed')
    | finished rule =>
      obtain ⟨outcome, rules⟩ := ih .rule (index + 1) [] []
      exact ⟨outcome, congrArg (rule.mapTerminals change :: ·) rules⟩
    | refused | overflow => exact ⟨rfl, rfl⟩

theorem ofTokens_requoted (requotes : Requotes change token) (tokens : List Text) :
    (ofTokens (tokens.map token)).outcome = (ofTokens tokens).outcome ∧
      (ofTokens (tokens.map token)).rules =
        (ofTokens tokens).rules.map (Rule.mapTerminals change) :=
  readFrom_requoted requotes .rule tokens 0 [] []

/-- The kind of each token can be told from its text, squeezed or not, and so the texts
tell what kinds were lexed. Squeezed texts are read as far, to the same rules with the
blank characters of their terminals dropped. -/
theorem ofTokens_lexed (source : Text) :
    (∀ squeezed, (∀ token ∈ Token.tokens source squeezed, Kind.classify token.text = token.kind) ∧
      (Token.texts source squeezed).map Kind.classify = (Token.lex source).map Token.kind) ∧
    (ofTokens (Token.texts source true)).outcome = (ofText source).outcome ∧
      (ofTokens (Token.texts source true)).rules =
        (ofText source).rules.map (Rule.mapTerminals Text.unblank) := by
  refine ⟨fun squeezed => ⟨Token.classify_of_mem_tokens source squeezed, ?_⟩, ?_⟩
  · exact Token.classify_texts source squeezed
  · rw [Token.texts_squeezed]
    exact ofTokens_requoted Text.requotes_squeeze (Token.texts source false)

end Reading

end GrammarDesk
