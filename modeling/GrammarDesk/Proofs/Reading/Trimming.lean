import GrammarDesk.Proofs.Grammar.Trimming
import GrammarDesk.Proofs.Reading.Sentence

/-! Reading on from alike states. Whatever tokens come, readers that hold alike
phrases take them alike and are left with alike rules; and so do readers that
differ in what stands since the last alternative ended, if the next token ends
an alternative too. -/
namespace GrammarDesk

/-- All alternatives of the list, if `factor` ends it. -/
def Draft.alternatives (draft : Draft) (factor : Phrase) : List Phrase :=
  (draft.definition factor :: draft.definitions).reverse

section Like

variable (names : List Text)

structure Draft.Like (draft other : Draft) : Prop where
  definitions : Phrase.AnyLike names draft.definitions.reverse other.definitions.reverse
  terms : List.Forall₂ (Phrase.Like names) draft.terms other.terms
  kept : Option.Rel (Phrase.Like names) draft.kept other.kept

structure Frame.Like (frame other : Frame) : Prop where
  bracket : frame.bracket = other.bracket
  count : frame.count = other.count
  draft : frame.draft.Like names other.draft

inductive Need.Like : Need → Need → Prop where
  | factor : Need.Like .factor .factor
  | star : Need.Like (.star count) (.star count)
  | primary : Need.Like (.primary count) (.primary count)
  | suffix : Phrase.Like names ended ended' → Need.Like (.suffix ended) (.suffix ended')
  | link : Phrase.Like names ended ended' → Need.Like (.link ended) (.link ended')

structure Body.Like (body other : Body) : Prop where
  name : body.name = other.name
  outer : List.Forall₂ (Frame.Like names) body.outer other.outer
  draft : body.draft.Like names other.draft
  need : body.need.Like names other.need

inductive ReaderState.Like : ReaderState → ReaderState → Prop where
  | rule : ReaderState.Like .rule .rule
  | defining : ReaderState.Like (.defining name) (.defining name)
  | body : Body.Like names inside inside' → ReaderState.Like (.body inside) (.body inside')

inductive Move.Like : Move → Move → Prop where
  | on : ReaderState.Like names state state' → Move.Like (.on state) (.on state')
  | finished : Rule.Like names rule rule' → Move.Like (.finished rule) (.finished rule')
  | refused : Move.Like .refused .refused
  | overflow : Move.Like .overflow .overflow

/-- Bodies that are alike if these factors end their alternatives. -/
structure Body.EndsLike (body other : Body) (factor factor' : Phrase) : Prop where
  name : body.name = other.name
  outer : List.Forall₂ (Frame.Like names) body.outer other.outer
  alternatives : Phrase.AnyLike names (body.draft.alternatives factor)
    (other.draft.alternatives factor')

end Like

variable {names : List Text}

namespace Draft

variable {draft other : Draft} {factor factor' : Phrase}

theorem Like.empty : Draft.Like names {} {} := ⟨.nil, .nil, .none⟩

theorem Like.refl (draft : Draft) : draft.Like names draft where
  definitions := .refl _
  terms := List.forall₂_same.mpr fun phrase _ => .refl phrase
  kept := by
    cases draft.kept with
    | none => exact .none
    | some kept => exact .some (.refl kept)

theorem Like.term (like : draft.Like names other) (same : factor.Like names factor') :
    (draft.term factor).Like names (other.term factor') := by
  obtain ⟨definitions, terms, kept⟩ := draft
  obtain ⟨definitions', terms', kept'⟩ := other
  cases like.kept with
  | none => exact same
  | some left => exact .except left same

theorem Like.definition (like : draft.Like names other) (same : factor.Like names factor') :
    (draft.definition factor).Like names (other.definition factor') := by
  have terms : List.Forall₂ (Phrase.Like names) (draft.term factor :: draft.terms).reverse
      (other.term factor' :: other.terms).reverse :=
    List.forall₂_reverse_iff.mpr (.cons (like.term same) like.terms)
  have whole := Phrase.Like.sequence terms
  unfold Draft.definition
  generalize (draft.term factor :: draft.terms).reverse = items at terms whole
  generalize (other.term factor' :: other.terms).reverse = others at terms whole
  cases terms with
  | nil => exact whole
  | cons first rest =>
    cases rest with
    | nil => exact first
    | cons => exact whole

theorem Like.alternatives (like : draft.Like names other) (same : factor.Like names factor') :
    Phrase.AnyLike names (draft.alternatives factor) (other.alternatives factor') := by
  unfold Draft.alternatives
  rw [List.reverse_cons, List.reverse_cons]
  exact like.definitions.append (.cons (like.definition same) .nil)

end Draft

namespace Body

variable {body other : Body} {factor factor' : Phrase}

theorem Like.ends (like : body.Like names other) (same : factor.Like names factor') :
    body.EndsLike names other factor factor' :=
  ⟨like.name, like.outer, like.draft.alternatives same⟩

theorem EndsLike.link (like : body.EndsLike names other factor factor') {kind : Kind}
    (ends : kind ≠ .minus ∧ kind ≠ .comma) :
    Move.Like names (body.link factor kind) (other.link factor' kind) := by
  obtain ⟨name, outer, draft, need⟩ := body
  obtain ⟨name', outer', draft', need'⟩ := other
  obtain ⟨same, outside, alternatives⟩ := like
  dsimp only at same outside alternatives
  subst same
  have whole : (draft.phrase factor).Like names (draft'.phrase factor') :=
    .alternatives alternatives
  unfold Body.link
  dsimp only
  split
  case h_1 => exact absurd rfl ends.1
  case h_2 => exact absurd rfl ends.2
  case h_3 => exact .on (.body ⟨rfl, outside, ⟨alternatives, .nil, .none⟩, .factor⟩)
  case h_4 =>
    cases outside with
    | nil => exact .finished ⟨rfl, whole⟩
    | cons => exact .refused
  case h_5 =>
    cases outside with
    | nil => exact .refused
    | cons frames outside =>
      rename_i frame frame' _ _
      dsimp only
      rw [← frames.bracket, ← frames.count]
      split
      · exact .on (.body ⟨rfl, outside, frames.draft,
          .suffix ((whole.wrap frame.bracket).counted frame.count)⟩)
      · exact .refused

theorem Like.link (like : body.Like names other) (same : factor.Like names factor') (kind : Kind) :
    Move.Like names (body.link factor kind) (other.link factor' kind) := by
  by_cases ends : kind ≠ .minus ∧ kind ≠ .comma
  · exact (like.ends same).link ends
  · obtain ⟨name, outer, draft, need⟩ := body
    obtain ⟨name', outer', draft', need'⟩ := other
    obtain ⟨rfl, outside, drafts, needs⟩ := like
    obtain rfl | rfl : kind = .minus ∨ kind = .comma := by tauto
    · obtain ⟨definitions, terms, kept⟩ := draft
      obtain ⟨definitions', terms', kept'⟩ := draft'
      obtain ⟨older, earlier, kepts⟩ := drafts
      cases kepts with
      | none => exact .on (.body ⟨rfl, outside, ⟨older, earlier, .some same⟩, .factor⟩)
      | some => exact .refused
    · exact .on (.body ⟨rfl, outside,
        ⟨drafts.definitions, .cons (drafts.term same) drafts.terms, .none⟩, .factor⟩)

theorem Like.suffix (like : body.Like names other) (same : factor.Like names factor')
    (kind : Kind) : Move.Like names (body.suffix factor kind) (other.suffix factor' kind) := by
  unfold Body.suffix
  split
  · exact .on (.body ⟨like.name, like.outer, like.draft, .link same.zeroOrMore⟩)
  · exact .on (.body ⟨like.name, like.outer, like.draft, .link same.oneOrMore⟩)
  · exact like.link same kind

theorem Like.primary (like : body.Like names other) (count : Option Nat) (kind : Kind)
    (text : Text) :
    Move.Like names (body.primary count kind text) (other.primary count kind text) := by
  have took (primary : Phrase) : Move.Like names
      (.on (.body { body with need := .suffix (counted count primary) }))
      (.on (.body { other with need := .suffix (counted count primary) })) :=
    .on (.body ⟨like.name, like.outer, like.draft, .suffix (.refl _)⟩)
  unfold Body.primary
  dsimp only
  split
  case h_1 | h_2 | h_3 => exact took _
  case h_10 =>
    split
    · rw [← like.outer.length_eq]
      split
      · exact .on (.body ⟨like.name, .cons ⟨rfl, rfl, like.draft⟩ like.outer, .empty, .factor⟩)
      · exact .refused
    · exact .refused
  all_goals exact like.link (.refl _) _

theorem Like.advance (like : body.Like names other) (kind : Kind) (text : Text) :
    Move.Like names (body.advance kind text) (other.advance kind text) := by
  have need := like.need
  unfold Body.advance
  generalize body.need = waits at need
  generalize other.need = waits' at need
  cases need with
  | factor =>
    dsimp only
    split
    · split
      · exact .on (.body ⟨like.name, like.outer, like.draft, .star⟩)
      · exact .overflow
    · exact like.primary none kind text
  | star =>
    dsimp only
    split
    · exact .on (.body ⟨like.name, like.outer, like.draft, .primary⟩)
    · exact .refused
  | primary => exact like.primary _ kind text
  | suffix same => exact like.suffix same kind
  | link same => exact like.link same kind

theorem advance_of_follows {kind : Kind} {text : Text} (ended : body.lastFactor? = some factor)
    (follows : kind.followsNothing) : body.advance kind text = body.link factor kind := by
  unfold lastFactor? at ended
  unfold Body.advance
  cases need : body.need with
  | star count => simp [need] at ended
  | factor | primary | suffix | link =>
    simp only [need, Option.some.injEq] at ended
    subst ended
    cases kind <;> first | rfl | cases follows

theorem EndsLike.ended (like : body.EndsLike names other factor factor') :
    Option.Rel (Rule.Like names) (body.ended factor) (other.ended factor') := by
  obtain ⟨name, outer, draft, need⟩ := body
  obtain ⟨name', outer', draft', need'⟩ := other
  obtain ⟨same, outside, alternatives⟩ := like
  cases outside with
  | nil => exact .some ⟨same, .alternatives alternatives⟩
  | cons => exact .none

theorem Like.pending (like : body.Like names other) : Option.Rel (Rule.Like names)
    (ReaderState.body body).pending? (ReaderState.body other).pending? := by
  rw [pending?_eq, pending?_eq]
  have need := like.need
  unfold Body.lastFactor?
  generalize body.need = waits at need
  generalize other.need = waits' at need
  cases need with
  | factor | primary => exact (like.ends (.refl _)).ended
  | star => exact .none
  | suffix same | link same => exact (like.ends same).ended

end Body

namespace ReaderState.Like

variable {state other : ReaderState}

theorem advance (like : state.Like names other) (text : Text) :
    Move.Like names (state.advance text) (other.advance text) := by
  cases like with
  | rule =>
    unfold ReaderState.advance
    dsimp only
    split
    · exact .on .defining
    · exact .refused
  | defining =>
    unfold ReaderState.advance
    dsimp only
    split
    · exact .on (.body ⟨rfl, .nil, .empty, .factor⟩)
    · exact .refused
  | body like => exact like.advance _ text

theorem pending (like : state.Like names other) :
    Option.Rel (Rule.Like names) state.pending? other.pending? := by
  cases like with
  | rule | defining => exact .none
  | body like => exact like.pending

end ReaderState.Like

namespace Parse

theorem Lists.alternatives_draft (lists : Lists) (factor : Factor) :
    lists.draft.alternatives factor.phrase = (lists.whole factor).phrases := by
  rw [Draft.alternatives, draft_definitions, List.reverse_reverse]

end Parse

namespace Parse.Partial

variable {stage other last : Partial} {tokens : List Text} {rules : List SyntaxRule}

/-- All rules that are kept when the reader stops here. -/
def kept (rules : List SyntaxRule) (last : Partial) : List Rule :=
  rules.map SyntaxRule.rule ++ last.state.pending?.toList

theorem kept_append (rules more : List SyntaxRule) (last : Partial) :
    kept (rules ++ more) last = rules.map SyntaxRule.rule ++ kept more last := by
  rw [kept, List.map_append, List.append_assoc, kept]

theorem forall₂_toList {rule other : Option Rule}
    (related : Option.Rel (Rule.Like names) rule other) :
    List.Forall₂ (Rule.Like names) rule.toList other.toList := by
  cases related with
  | none => exact .nil
  | some like => exact .cons like .nil

theorem exists_run_of_move {text : Text}
    (ih : ∀ {stage other : Partial} {rules : List SyntaxRule},
      stage.state.Like names other.state → stage.run tokens = some (rules, last) →
        ∃ rules' last', other.run tokens = some (rules', last') ∧
          List.Forall₂ (Rule.Like names) (kept rules last) (kept rules' last'))
    (moves : Move.Like names (stage.state.advance text) (other.state.advance text))
    (reached : stage.run (text :: tokens) = some (rules, last)) :
    ∃ rules' last', other.run (text :: tokens) = some (rules', last') ∧
      List.Forall₂ (Rule.Like names) (kept rules last) (kept rules' last') := by
  rw [← stage.advance_move, ← other.advance_move] at moves
  obtain ⟨next, moved, onward⟩ | ⟨done, more, moved, rfl, onward⟩ := run_cons_cases reached
  · rw [moved] at moves
    cases moved' : other.advance text with
    | on next' =>
      rw [moved'] at moves
      cases moves with
      | on like =>
        obtain ⟨rules', last', onward', same⟩ := ih like onward
        exact ⟨rules', last', by rw [run_on moved', onward'], same⟩
    | finished done | refused | overflow => rw [moved'] at moves; cases moves
  · rw [moved] at moves
    cases moved' : other.advance text with
    | finished done' =>
      rw [moved'] at moves
      cases moves with
      | finished like =>
        have fresh : ReaderState.Like names rule.state rule.state := .rule
        obtain ⟨rules', last', onward', same⟩ := ih fresh onward
        exact ⟨done' :: rules', last', by rw [run_finished moved', onward']; rfl, .cons like same⟩
    | on next | refused | overflow => rw [moved'] at moves; cases moves

theorem exists_run (like : stage.state.Like names other.state)
    (reached : stage.run tokens = some (rules, last)) :
    ∃ rules' last', other.run tokens = some (rules', last') ∧
      List.Forall₂ (Rule.Like names) (kept rules last) (kept rules' last') := by
  induction tokens generalizing stage other rules with
  | nil =>
    cases reached
    exact ⟨[], other, rfl, forall₂_toList like.pending⟩
  | cons text tokens ih => exact exists_run_of_move ih (like.advance text) reached

theorem exists_run_of_ends {inside inside' : Inside} {factor factor' : Phrase}
    (like : inside.body.EndsLike names inside'.body factor factor')
    (ended : inside.body.lastFactor? = some factor)
    (ended' : inside'.body.lastFactor? = some factor')
    (next : ∀ text ∈ tokens.head?,
      (Kind.classify text).followsNothing ∧ Kind.classify text ≠ .comma)
    (reached : (body inside).run tokens = some (rules, last)) :
    ∃ rules' last', (body inside').run tokens = some (rules', last') ∧
      List.Forall₂ (Rule.Like names) (kept rules last) (kept rules' last') := by
  cases tokens with
  | nil =>
    cases reached
    refine ⟨[], body inside', rfl, forall₂_toList ?_⟩
    simp only [state, Body.pending?_eq, ended, ended']
    exact like.ended
  | cons text tokens =>
    obtain ⟨follows, comma⟩ := next text rfl
    have minus : Kind.classify text ≠ .minus := by
      intro kind
      rw [kind] at follows
      cases follows
    refine exists_run_of_move exists_run ?_ reached
    simp only [state, ReaderState.advance, Body.advance_of_follows ended follows,
      Body.advance_of_follows ended' follows]
    exact like.link ⟨minus, comma⟩

theorem survives_of_ofTokens {parser : GrammarParser}
    (compiled : GrammarParser.ofTokens tokens = .ok parser) : (rule.run tokens).isSome := by
  rw [← Reading.ofTokens_complete_iff]
  unfold GrammarParser.ofTokens at compiled
  dsimp only at compiled
  split at compiled
  · assumption
  · cases compiled

theorem ofTokens_of_run (reached : rule.run tokens = some (rules, last)) :
    GrammarParser.ofTokens tokens = GrammarParser.ofGrammar ⟨kept rules last⟩ := by
  obtain ⟨complete, read⟩ := Reading.readFrom_of_run reached 0 []
  unfold GrammarParser.ofTokens
  simp only [Reading.ofTokens, Reading.grammar]
  rw [show Reading.readFrom .rule 0 [] tokens = Reading.readFrom rule.state 0 [] tokens from rfl,
    complete, read]
  rfl

end Parse.Partial

end GrammarDesk
