import GrammarDesk.Proofs.Reading.Sentence

/-! Alternatives as the reader meets them. At each place of a token list the
reader holds the alternative that would end there; single tokens lead from one
such stage to the next. -/
namespace GrammarDesk

theorem Bracket.closing_injective {one two : Bracket} (same : one.closing = two.closing) :
    one = two := by
  cases one <;> cases two <;> first | rfl | cases same

namespace Parse

/-- The factor that the end of input supplies. -/
def Want.factor? : Want → Option Factor
  | factor => some (.mk none .nothing none)
  | star _ => none
  | primary count => some (.mk (some count) .nothing none)
  | suffix count inner => some (.mk count inner none)
  | link ended => some ended

theorem Want.tokens_of_factor? {want : Want} {factor : Factor}
    (ended : want.factor? = some factor) : factor.tokens = want.tokens := by
  cases want with
  | star count => cases ended
  | factor | primary | suffix | link =>
    cases ended
    simp [Factor.tokens, Want.tokens, Primary.tokens, countTokens, markTokens]

theorem Inside.lastFactor?_body (inside : Inside) :
    inside.body.lastFactor? = inside.want.factor?.map Factor.phrase := by
  unfold Body.lastFactor? Inside.body
  cases inside.want <;> rfl

/-- The alternative that ends right before the token at `stop`. -/
def alternativeEnding? (tokens : List Text) (stop : Nat) : Option Definition :=
  match Partial.rule.run (tokens.take stop) with
  | some (_, .body inside) => inside.want.factor?.map inside.lists.definition
  | _ => none

@[simp] theorem Lists.final_definition (lists : Lists) (factor : Factor) :
    (lists.definition factor).final = factor := by
  obtain ⟨definitions, terms, kept⟩ := lists
  cases terms <;> cases kept <;> rfl

def Definition.front (definition : Definition) : List Phrase :=
  definition.earlier.elim [] Definition.phrases

theorem Definition.collapse_front (definition : Definition) :
    Draft.collapse .sequence (definition.front ++ [definition.last.phrase]) =
      definition.phrase := by
  rw [← definition.collapse_phrases]
  cases definition <;> rfl

theorem tokens_alternativeEnding? {tokens : List Text} {stop : Nat} {alternative : Definition}
    (ending : alternativeEnding? tokens stop = some alternative) :
    alternative.tokens <:+ tokens.take stop := by
  unfold alternativeEnding? at ending
  split at ending
  · rename_i rules inside reached
    obtain ⟨factor, ended, rfl⟩ := Option.map_eq_some_iff.mp ending
    have fresh : Partial.rule.Sound := trivial
    obtain ⟨-, -, spelled⟩ := fresh.run reached
    have read : tokens.take stop = rules.flatMap SyntaxRule.tokens ++ _ := spelled.symm
    rw [read]
    refine ⟨rules.flatMap SyntaxRule.tokens ++ inside.name :: Kind.defining.symbol ::
      (outerTokens inside.outer ++ tokensBefore .bar (inside.lists.definitions.map
        Definitions.tokens)), ?_⟩
    simp [Partial.tokens, Inside.tokensWith, Lists.tokens, Lists.definition_tokens,
      Want.tokens_of_factor? ended]
  · cases ending

/-- The reader has finished these rules and is at this stage before the token at `stop`. -/
def Reaches (tokens : List Text) (stop : Nat) (rules : List SyntaxRule) (stage : Partial) : Prop :=
  Partial.rule.run (tokens.take stop) = some (rules, stage)

namespace Reaches

variable {tokens : List Text} {k : Nat} {rules : List SyntaxRule} {stage : Partial} {text : Text}

theorem exists_of_isSome (survives : (Partial.rule.run tokens).isSome)
    (inside : k ≤ tokens.length) : ∃ rules stage, Reaches tokens k rules stage := by
  rw [← List.take_length (l := tokens)] at survives
  obtain ⟨⟨rules, stage⟩, reached⟩ :=
    Option.isSome_iff_exists.mp (Partial.isSome_run_take inside survives)
  exact ⟨rules, stage, reached⟩

theorem sound (reaches : Reaches tokens k rules stage) : stage.Sound := by
  have fresh : Partial.rule.Sound := trivial
  exact (fresh.run reaches).1

theorem exists_run {all : List SyntaxRule} {last : Partial} (reaches : Reaches tokens k rules stage)
    (reached : Partial.rule.run tokens = some (all, last)) :
    ∃ more, stage.run (tokens.drop k) = some (more, last) ∧ rules ++ more = all := by
  rw [← List.take_append_drop k tokens, Partial.run_append, reaches] at reached
  obtain ⟨⟨more, final⟩, onward, joined⟩ := Option.map_eq_some_iff.mp reached
  cases joined
  exact ⟨more, onward, rfl⟩

theorem unfinished (reaches : Reaches tokens k rules stage)
    (inner : Kind.classify text ≠ .terminator) (done : SyntaxRule) :
    stage.advance text ≠ .finished done := by
  intro moved
  have taken := reaches.sound.advance text
  rw [moved] at taken
  obtain ⟨⟨-, -, stop⟩, spelled⟩ := taken
  have ends : (done.name :: Kind.defining.symbol :: done.definitions.tokens) ++ [done.stop] =
    stage.tokens ++ [text] := spelled
  rw [List.singleton_inj.mp (List.append_inj' ends rfl).2] at stop
  exact inner stop

theorem step (survives : (Partial.rule.run tokens).isSome) (reaches : Reaches tokens k rules stage)
    (here : tokens[k]? = some text) (open' : ∀ done, stage.advance text ≠ .finished done) :
    ∃ next, stage.advance text = .on next ∧ Reaches tokens (k + 1) rules next := by
  obtain ⟨inside, rfl⟩ := List.getElem?_eq_some_iff.mp here
  obtain ⟨⟨all, last⟩, reached⟩ := Option.isSome_iff_exists.mp survives
  obtain ⟨more, onward, -⟩ := reaches.exists_run reached
  rw [List.drop_eq_getElem_cons inside] at onward
  obtain ⟨next, moved, -⟩ | ⟨done, -, moved, -, -⟩ := Partial.run_cons_cases onward
  · refine ⟨next, moved, ?_⟩
    have one : stage.run [tokens[k]] = some ([], next) := Partial.run_on moved []
    rw [Reaches, List.take_succ_eq_append_getElem inside, Partial.run_append, reaches,
      Option.bind_some]
    simp [one]
  · exact absurd moved (open' done)

theorem alternativeEnding?_eq {inside : Inside} (reaches : Reaches tokens k rules (.body inside)) :
    alternativeEnding? tokens k = inside.want.factor?.map inside.lists.definition := by
  unfold alternativeEnding?
  rw [reaches]

end Reaches

namespace Inside

variable {inside : Inside} {factor : Factor} {text : Text}

theorem advance_of_follows (ended : inside.want.factor? = some factor)
    (follows : (Kind.classify text).followsNothing) :
    inside.advance text = inside.link factor text := by
  have unmarked : Kind.classify text ≠ .star ∧ Kind.classify text ≠ .plus := by
    constructor <;> (intro kind; rw [kind] at follows; cases follows)
  have notInteger : Kind.classify text ≠ .integer := by
    intro kind
    rw [kind] at follows
    cases follows
  unfold advance
  cases want : inside.want with
  | star count => simp [want, Want.factor?] at ended
  | factor =>
    simp only [want, Want.factor?, Option.some.injEq] at ended
    subst ended
    rw [if_neg notInteger]
    exact inside.primary_nothing none follows
  | primary count =>
    simp only [want, Want.factor?, Option.some.injEq] at ended
    subst ended
    exact inside.primary_nothing (some count) follows
  | suffix count primary =>
    simp only [want, Want.factor?, Option.some.injEq] at ended
    subst ended
    exact inside.suffix_unmarked count primary unmarked
  | link ended' =>
    simp only [want, Want.factor?, Option.some.injEq] at ended
    subst ended
    rfl

theorem primary_opening {bracket : Bracket} {count : Option Text} {next : Partial}
    (kind : Kind.classify text = bracket.opening) (moved : inside.primary count text = .on next) :
    next = .body ⟨inside.name, ⟨bracket, count, inside.lists⟩ :: inside.outer, {}, .factor⟩ := by
  have deeper : (if inside.outer.length < maxNesting then
      Step.on (.body ⟨inside.name, ⟨bracket, count, inside.lists⟩ :: inside.outer, {}, .factor⟩)
      else .refused) = .on next := by
    unfold primary at moved
    rw [kind] at moved
    cases bracket <;> exact moved
  split at deeper
  · cases deeper
    rfl
  · cases deeper

theorem link_opening (inside : Inside) (factor : Factor) {bracket : Bracket}
    (kind : Kind.classify text = bracket.opening) : inside.link factor text = .refused := by
  obtain ⟨name, outer, lists, want⟩ := inside
  unfold link
  rw [kind]
  cases outer with
  | nil => cases bracket <;> rfl
  | cons level outer =>
    obtain ⟨around, _, _⟩ := level
    cases bracket <;> cases around <;> rfl

theorem factor?_of_advance {next : Partial} (moved : inside.advance text = .on next)
    (follows : (Kind.classify text).followsNothing) :
    ∃ factor, inside.want.factor? = some factor := by
  cases want : inside.want with
  | star count =>
    have other : Kind.classify text ≠ .star := by
      intro kind
      rw [kind] at follows
      cases follows
    simp [advance, want, other] at moved
  | factor | primary | suffix | link => exact ⟨_, rfl⟩

end Inside

namespace Partial

variable {stage next : Partial} {text : Text} {bracket : Bracket}

theorem advance_closing (kind : Kind.classify text = bracket.closing)
    (moved : stage.advance text = .on next) : ∃ inside level outer factor,
      stage = .body inside ∧ inside.outer = level :: outer ∧ level.bracket = bracket ∧
      inside.want.factor? = some factor ∧
      next = .body ⟨inside.name, outer, level.lists,
        .suffix level.count (.bracketed bracket (inside.lists.whole factor))⟩ := by
  cases stage with
  | rule =>
    have other : Kind.classify text ≠ .name := by rw [kind]; cases bracket <;> decide
    simp [advance, other] at moved
  | defining name =>
    have other : Kind.classify text ≠ .defining := by rw [kind]; cases bracket <;> decide
    simp [advance, other] at moved
  | body inside =>
    have follows : (Kind.classify text).followsNothing := by simp [kind]
    obtain ⟨factor, ended⟩ := Inside.factor?_of_advance moved follows
    change inside.advance text = .on next at moved
    rw [Inside.advance_of_follows ended follows] at moved
    obtain ⟨name, outer, lists, want⟩ := inside
    unfold Inside.link at moved
    rw [kind] at moved
    cases outer with
    | nil => cases bracket <;> cases moved
    | cons level outer =>
      have closed : (if bracket.closing = level.bracket.closing then
          Step.on (.body ⟨name, outer, level.lists,
            .suffix level.count (.bracketed level.bracket (lists.whole factor))⟩)
          else .refused) = .on next := by
        cases bracket <;> exact moved
      split at closed
      · have same : level.bracket = bracket := (Bracket.closing_injective ‹_›).symm
        subst same
        cases closed
        exact ⟨_, level, outer, factor, rfl, rfl, rfl, ended, rfl⟩
      · cases closed

theorem advance_opening (kind : Kind.classify text = bracket.opening)
    (moved : stage.advance text = .on next) : ∃ name outer lists count,
      stage = .body ⟨name, outer, lists, .expecting count⟩ ∧
      next = .body ⟨name, ⟨bracket, count, lists⟩ :: outer, {}, .factor⟩ := by
  cases stage with
  | rule =>
    have other : Kind.classify text ≠ .name := by rw [kind]; cases bracket <;> decide
    simp [advance, other] at moved
  | defining name =>
    have other : Kind.classify text ≠ .defining := by rw [kind]; cases bracket <;> decide
    simp [advance, other] at moved
  | body inside =>
    obtain ⟨name, outer, lists, want⟩ := inside
    have others : Kind.classify text ≠ .integer ∧ Kind.classify text ≠ .star ∧
        Kind.classify text ≠ .plus := by
      rw [kind]
      cases bracket <;> decide
    change (⟨name, outer, lists, want⟩ : Inside).advance text = .on next at moved
    unfold Inside.advance at moved
    cases want with
    | factor =>
      dsimp only at moved
      rw [if_neg others.1] at moved
      exact ⟨name, outer, lists, none, rfl, Inside.primary_opening kind moved⟩
    | star count =>
      dsimp only at moved
      rw [if_neg others.2.1] at moved
      cases moved
    | primary count =>
      exact ⟨name, outer, lists, some count, rfl, Inside.primary_opening kind moved⟩
    | suffix count primary =>
      dsimp only at moved
      rw [Inside.suffix_unmarked _ _ _ others.2, Inside.link_opening _ _ kind] at moved
      cases moved
    | link factor =>
      dsimp only at moved
      rw [Inside.link_opening _ _ kind] at moved
      cases moved

end Partial

end Parse
end GrammarDesk
