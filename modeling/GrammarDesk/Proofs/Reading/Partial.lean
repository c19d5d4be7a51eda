import GrammarDesk.Proofs.Reading.Tree

/-! The reader with trees in place of phrases. Forgetting the trees gives back
the reader, step for step. -/
namespace GrammarDesk
namespace Parse

theorem collapse_append_singleton (wrap : List Phrase → Phrase) {items : List Phrase}
    (some_items : items ≠ []) (item : Phrase) :
    Draft.collapse wrap (items ++ [item]) = wrap (items ++ [item]) := by
  cases items with
  | nil => exact absurd rfl some_items
  | cons first items => cases items <;> rfl

theorem Definition.phrases_ne_nil (definition : Definition) : definition.phrases ≠ [] := by
  cases definition <;> simp [Definition.phrases]

theorem Definitions.phrases_ne_nil (definitions : Definitions) : definitions.phrases ≠ [] := by
  cases definitions <;> simp [Definitions.phrases]

@[simp] theorem Definition.collapse_phrases (definition : Definition) :
    Draft.collapse .sequence definition.phrases = definition.phrase := by
  cases definition with
  | one term => rfl
  | snoc earlier term => exact collapse_append_singleton _ earlier.phrases_ne_nil _

@[simp] theorem Definitions.collapse_phrases (definitions : Definitions) :
    Draft.collapse .alternation definitions.phrases = definitions.phrase := by
  cases definitions with
  | one definition => rfl
  | snoc earlier definition => exact collapse_append_singleton _ earlier.phrases_ne_nil _

theorem counted_map (count : Option Text) (inner : Phrase) :
    counted (count.map Text.digitsValue) inner = numbered count inner := by
  cases count <;> rfl

theorem wrap_phrase (bracket : Bracket) (inner : Definitions) :
    bracket.wrap inner.phrase = (Primary.bracketed bracket inner).phrase := by
  cases bracket <;> rfl

structure Lists where
  definitions : Option Definitions := none
  terms : Option Definition := none
  kept : Option Factor := none

namespace Lists

variable (lists : Lists) (factor : Factor)

def term : Term :=
  match lists.kept with
  | none => .plain factor
  | some kept => .except kept factor

def definition : Definition :=
  match lists.terms with
  | none => .one (lists.term factor)
  | some terms => .snoc terms (lists.term factor)

def whole : Definitions :=
  match lists.definitions with
  | none => .one (lists.definition factor)
  | some definitions => .snoc definitions (lists.definition factor)

def draft : Draft where
  definitions := (lists.definitions.elim [] Definitions.phrases).reverse
  terms := (lists.terms.elim [] Definition.phrases).reverse
  kept := lists.kept.map Factor.phrase

@[simp] theorem draft_term : lists.draft.term factor.phrase = (lists.term factor).phrase := by
  simp only [Draft.term, draft, term]
  cases lists.kept <;> rfl

theorem draft_terms : lists.draft.term factor.phrase :: lists.draft.terms =
    (lists.definition factor).phrases.reverse := by
  rw [draft_term]
  simp only [draft, definition]
  cases lists.terms with
  | none => rfl
  | some terms => simp [Definition.phrases]

@[simp] theorem draft_definition :
    lists.draft.definition factor.phrase = (lists.definition factor).phrase := by
  simp only [Draft.definition, draft_terms, List.reverse_reverse, Definition.collapse_phrases]

theorem draft_definitions : lists.draft.definition factor.phrase :: lists.draft.definitions =
    (lists.whole factor).phrases.reverse := by
  rw [draft_definition]
  simp only [draft, whole]
  cases lists.definitions with
  | none => rfl
  | some definitions => simp [Definitions.phrases]

@[simp] theorem draft_phrase :
    lists.draft.phrase factor.phrase = (lists.whole factor).phrase := by
  simp only [Draft.phrase, draft_definitions, List.reverse_reverse, Definitions.collapse_phrases]

theorem draft_minus : { lists with kept := some factor }.draft =
    { lists.draft with kept := some factor.phrase } := rfl

theorem draft_comma : { lists with terms := some (lists.definition factor), kept := none }.draft =
    { lists.draft with
      terms := lists.draft.term factor.phrase :: lists.draft.terms, kept := none } := by
  rw [draft_terms]
  rfl

theorem draft_bar : Lists.draft { definitions := some (lists.whole factor) } =
    { definitions := lists.draft.definition factor.phrase :: lists.draft.definitions } := by
  rw [draft_definitions]
  rfl

end Lists

inductive Want where
  | factor
  | star (count : Text)
  | primary (count : Text)
  | suffix (count : Option Text) (primary : Primary)
  | link (factor : Factor)

def Want.need : Want → Need
  | factor => .factor
  | star count => .star (Text.digitsValue count)
  | primary count => .primary (some (Text.digitsValue count))
  | suffix count inner => .suffix (Factor.mk count inner none).phrase
  | link ended => .link ended.phrase

structure Level where
  bracket : Bracket
  count : Option Text
  lists : Lists

def Level.frame (level : Level) : Frame :=
  ⟨level.bracket, level.count.map Text.digitsValue, level.lists.draft⟩

/-- A rule under construction, innermost list first. -/
structure Inside where
  name : Text
  outer : List Level := []
  lists : Lists := {}
  want : Want := .factor

def Inside.body (inside : Inside) : Body where
  name := inside.name
  outer := inside.outer.map Level.frame
  draft := inside.lists.draft
  need := inside.want.need

inductive Partial where
  | rule
  | defining (name : Text)
  | body (inside : Inside)

def Partial.state : Partial → ReaderState
  | rule => .rule
  | defining name => .defining name
  | body inside => .body inside.body

inductive Step where
  | on (next : Partial)
  | finished (rule : SyntaxRule)
  | refused
  | overflow

def Step.move : Step → Move
  | on next => .on next.state
  | finished rule => .finished rule.rule
  | refused => .refused
  | overflow => .overflow

namespace Inside

def link (inside : Inside) (factor : Factor) (text : Text) : Step :=
  let lists := inside.lists
  match Kind.classify text with
  | .minus =>
    if lists.kept.isNone then
      .on (.body { inside with lists := { lists with kept := some factor }, want := .factor })
    else .refused
  | .comma =>
    let terms := some (lists.definition factor)
    .on (.body { inside with lists := { lists with terms, kept := none }, want := .factor })
  | .bar =>
    let definitions := some (lists.whole factor)
    .on (.body { inside with lists := { definitions }, want := .factor })
  | .terminator =>
    if inside.outer.isEmpty then .finished ⟨inside.name, lists.whole factor, text⟩ else .refused
  | kind =>
    match inside.outer with
    | [] => .refused
    | level :: outer =>
      if kind = level.bracket.closing then
        let primary := .bracketed level.bracket (lists.whole factor)
        .on (.body { inside with
          outer, lists := level.lists, want := .suffix level.count primary })
      else .refused

def suffix (inside : Inside) (count : Option Text) (primary : Primary) (text : Text) : Step :=
  match Kind.classify text with
  | .star => .on (.body { inside with want := .link (.mk count primary (some .star)) })
  | .plus => .on (.body { inside with want := .link (.mk count primary (some .plus)) })
  | _ => inside.link (.mk count primary none) text

def primary (inside : Inside) (count : Option Text) (text : Text) : Step :=
  let took (primary : Primary) : Step :=
    .on (.body { inside with want := .suffix count primary })
  match Kind.classify text with
  | .name => took (.name text)
  | .literal => took (.literal text)
  | .special => took (.special text)
  | kind =>
    if kind.followsNothing then inside.link (.mk count .nothing none) text
    else match Bracket.ofOpening? kind with
      | some bracket =>
        if inside.outer.length < maxNesting then
          let outer := ⟨bracket, count, inside.lists⟩ :: inside.outer
          .on (.body { name := inside.name, outer })
        else .refused
      | none => .refused

def advance (inside : Inside) (text : Text) : Step :=
  match inside.want with
  | .factor =>
    if Kind.classify text = .integer then
      if Text.digitsValue text ≤ maxCount then .on (.body { inside with want := .star text })
      else .overflow
    else inside.primary none text
  | .star count =>
    if Kind.classify text = .star then .on (.body { inside with want := .primary count })
    else .refused
  | .primary count => inside.primary (some count) text
  | .suffix count primary => inside.suffix count primary text
  | .link factor => inside.link factor text

section Move

variable (inside : Inside) (text : Text)

theorem link_move (factor : Factor) : (inside.link factor text).move =
    inside.body.link factor.phrase (Kind.classify text) := by
  obtain ⟨name, outer, lists, want⟩ := inside
  unfold link Body.link
  cases Kind.classify text
  case minus =>
    simp only [body, ← Lists.draft_minus]
    cases kept : lists.kept <;> simp [Step.move, Partial.state, body, Lists.draft, kept, Want.need]
  case comma =>
    simp only [body, ← Lists.draft_comma]
    rfl
  case bar =>
    simp only [body, ← Lists.draft_bar]
    rfl
  case terminator =>
    cases outer with
    | nil => simp [Step.move, body, SyntaxRule.rule]
    | cons level outer => rfl
  all_goals
    cases outer with
    | nil => rfl
    | cons level outer =>
      simp only [body, List.map_cons, Level.frame, Lists.draft_phrase, wrap_phrase, counted_map]
      split <;> rfl

theorem suffix_move (count : Option Text) (primary : Primary) :
    (inside.suffix count primary text).move =
      inside.body.suffix (Factor.mk count primary none).phrase (Kind.classify text) := by
  unfold suffix
  split
  · rename_i star
    rw [star]
    rfl
  · rename_i plus
    rw [plus]
    rfl
  · rename_i neither_star neither_plus
    rw [link_move]
    unfold Body.suffix
    split
    · exact absurd ‹_› neither_star
    · exact absurd ‹_› neither_plus
    · rfl

theorem primary_move (count : Option Text) : (inside.primary count text).move =
    inside.body.primary (count.map Text.digitsValue) (Kind.classify text) text := by
  have link := inside.link_move text (.mk count .nothing none)
  unfold primary Body.primary
  simp only [counted_map]
  cases kind : Kind.classify text <;> rw [kind] at link
  case comma | bar | terminator | closeSquare | closeBrace | closeParen => exact link
  case openSquare | openBrace | openParen =>
    simp only [Kind.followsNothing, Bool.false_eq_true, if_false, Bracket.ofOpening?, body,
      List.length_map]
    split <;> rfl
  all_goals rfl

theorem advance_move :
    (inside.advance text).move = inside.body.advance (Kind.classify text) text := by
  unfold advance Body.advance
  cases want : inside.want with
  | factor =>
    simp only [body, want, Want.need]
    split
    · split <;> rfl
    · exact inside.primary_move text none
  | star count =>
    simp only [body, want, Want.need]
    split <;> rfl
  | primary count =>
    simp only [body, want, Want.need]
    exact inside.primary_move text (some count)
  | suffix count primary =>
    simp only [body, want, Want.need]
    exact inside.suffix_move text count primary
  | link factor =>
    simp only [body, want, Want.need]
    exact inside.link_move text factor

end Move

end Inside

def Partial.advance (stage : Partial) (text : Text) : Step :=
  match stage with
  | rule => if Kind.classify text = .name then .on (defining text) else .refused
  | defining name => if Kind.classify text = .defining then .on (body { name }) else .refused
  | body inside => inside.advance text

theorem Partial.advance_move (stage : Partial) (text : Text) :
    (stage.advance text).move = stage.state.advance text := by
  cases stage with
  | rule =>
    simp only [advance, ReaderState.advance, state]
    split <;> rfl
  | defining name =>
    simp only [advance, ReaderState.advance, state]
    split <;> rfl
  | body inside => exact inside.advance_move text

namespace Partial

/-- Reads tokens until one is not taken. The rules finished on the way come
back with the last stage. -/
def run (stage : Partial) : List Text → Option (List SyntaxRule × Partial)
  | [] => some ([], stage)
  | text :: texts =>
    match stage.advance text with
    | .on next => run next texts
    | .finished done => (run .rule texts).map fun (rules, last) => (done :: rules, last)
    | .refused | .overflow => none

variable {stage next last : Partial} {text : Text} {texts : List Text} {done : SyntaxRule}
  {rules : List SyntaxRule}

theorem run_on (moved : stage.advance text = .on next) (texts : List Text) :
    stage.run (text :: texts) = next.run texts := by
  rw [run, moved]

theorem run_finished (moved : stage.advance text = .finished done) (texts : List Text) :
    stage.run (text :: texts) =
      (run .rule texts).map fun (rules, last) => (done :: rules, last) := by
  rw [run, moved]

theorem run_cons_cases (reached : stage.run (text :: texts) = some (rules, last)) :
    (∃ next, stage.advance text = .on next ∧ next.run texts = some (rules, last)) ∨
      ∃ done more, stage.advance text = .finished done ∧ rules = done :: more ∧
        rule.run texts = some (more, last) := by
  cases moved : stage.advance text with
  | on next => exact Or.inl ⟨next, rfl, (run_on moved texts).symm.trans reached⟩
  | finished done =>
    rw [run_finished moved] at reached
    obtain ⟨⟨more, _⟩, onward, joined⟩ := Option.map_eq_some_iff.mp reached
    cases joined
    exact Or.inr ⟨done, more, rfl, rfl, onward⟩
  | refused | overflow =>
    rw [run, moved] at reached
    cases reached

end Partial

end Parse
end GrammarDesk
