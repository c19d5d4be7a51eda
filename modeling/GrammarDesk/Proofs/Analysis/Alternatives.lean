import GrammarDesk.Proofs.Analysis.Issues
import GrammarDesk.Proofs.Grammar.Options
import GrammarDesk.Proofs.Match.Likeness
import GrammarDesk.Proofs.Match.Trace
import GrammarDesk.Proofs.Reading.Alternatives
import GrammarDesk.Proofs.Reading.Trimming
import Mathlib

/-! What the warnings about alternatives are worth. They are found in the token
texts alone: a closing bracket, a bar, and what follows it. The reader turns such
tokens into an alternative that ends with the bracket, and what is said about the
bracket is true. It is true of the alternative if all before the bracket may be
skipped: then the flagged alternative can be left out of the tokens, and the parser
of what remains gets as far on every sample. -/
namespace GrammarDesk

namespace Parse

theorem Factor.phrase_unmarked (count : Option Text) (primary : Primary) :
    (Factor.mk count primary none).phrase =
      counted (count.map Text.digitsValue) primary.phrase :=
  (counted_map count primary.phrase).symm

theorem Factor.phrase_option (count : Option Text) (inner : Definitions) :
    (Factor.mk count (.bracketed .square inner) none).phrase =
      counted (count.map Text.digitsValue) (.optional inner.phrase) := phrase_unmarked count _

/-- The last factor is all of the last term, and all terms before it may be skipped,
whatever rules they name. -/
structure Definition.SkipsToEnd (definition : Definition) : Prop where
  last : definition.last = .plain definition.final
  front : ∀ phrase ∈ definition.front, phrase.Skips

namespace Definition.SkipsToEnd

variable {definition : Definition} {other : Phrase}

theorem skips (toEnd : definition.SkipsToEnd) (ends : definition.final.phrase.Skips) :
    definition.phrase.Skips := by
  rw [← definition.collapse_front, toEnd.last]
  exact .collapse toEnd.front ends

theorem absorbs (toEnd : definition.SkipsToEnd) (ends : definition.final.phrase.Absorbs other) :
    definition.phrase.Absorbs other := by
  rw [← definition.collapse_front, toEnd.last]
  exact .collapse toEnd.front ends

end Definition.SkipsToEnd

section EmptyFront

variable {n : Nat}

/-- The last factor is all of the last term, and all terms before it match the empty
input at a spot, if names derive so. -/
structure Definition.EmptyFront (definition : Definition) (sample : Vector Text n)
    (call : Phrase.Call n) (excluded : Phrase.Exceptions n) (p : Spot n) : Prop where
  last : definition.last = .plain definition.final
  front : ∀ phrase ∈ definition.front, phrase.Derives sample call excluded p p

theorem Definition.EmptyFront.derives {definition : Definition} {sample : Vector Text n}
    {call : Phrase.Call n} {excluded : Phrase.Exceptions n} {p e : Spot n}
    (empty : definition.EmptyFront sample call excluded p)
    (ends : definition.final.phrase.Derives sample call excluded p e) :
    definition.phrase.Derives sample call excluded p e := by
  rw [← definition.collapse_front, empty.last]
  exact .collapse empty.front ends

end EmptyFront

theorem Lists.phrases_whole (lists : Lists) (factor : Factor) : (lists.whole factor).phrases =
    lists.definitions.elim [] Definitions.phrases ++ [(lists.definition factor).phrase] := by
  unfold Lists.whole
  cases lists.definitions <;> rfl

/-- Wherever an alternative may begin, the token adds these, and the last one may
end there. -/
def Adds (text : Text) (items : List Phrase) : Prop :=
  ∀ (name : Text) (outer : List Level) (before : Option Definitions), ∃ inside factor,
    (Partial.body ⟨name, outer, { definitions := before }, .factor⟩).advance text =
      .on (.body inside) ∧
    inside.name = name ∧ inside.outer = outer ∧ inside.want.factor? = some factor ∧
    (inside.lists.whole factor).phrases = before.elim [] Definitions.phrases ++ items ∧
    (inside.lists.definition factor).phrase ∈ items

theorem adds_leaf {text : Text} (primary : Primary)
    (taken : ∀ inside : Inside, inside.want = .factor →
      inside.advance text = .on (.body { inside with want := .suffix none primary })) :
    Adds text [primary.phrase] := by
  intro name outer before
  refine ⟨_, .mk none primary none, taken ⟨name, outer, { definitions := before }, .factor⟩ rfl,
    rfl, rfl, rfl, ?_, ?_⟩
  · cases before <;> rfl
  · exact List.mem_singleton.mpr rfl

theorem adds_comma {text : Text} (kind : Kind.classify text = .comma) :
    Adds text [.sequence [.empty, .empty]] := by
  intro name outer before
  have taken : (Partial.body ⟨name, outer, { definitions := before }, .factor⟩).advance text =
      .on (.body ⟨name, outer,
        { definitions := before, terms := some (.one (.plain (.mk none .nothing none))) },
        .factor⟩) := by
    simp [Partial.advance, Inside.advance, Inside.primary, Inside.link, kind, Kind.followsNothing]
    rfl
  refine ⟨_, .mk none .nothing none, taken, rfl, rfl, rfl, ?_, ?_⟩
  · cases before <;> rfl
  · exact List.mem_singleton.mpr rfl

theorem adds_bar {text : Text} (kind : Kind.classify text = .bar) :
    Adds text [.empty, .empty] := by
  intro name outer before
  let lists : Lists := { definitions := before }
  have taken : (Partial.body ⟨name, outer, { definitions := before }, .factor⟩).advance text =
      .on (.body ⟨name, outer,
        { definitions := some (lists.whole (.mk none .nothing none)) }, .factor⟩) := by
    simp [Partial.advance, Inside.advance, Inside.primary, Inside.link, kind, Kind.followsNothing,
      lists]
  refine ⟨_, .mk none .nothing none, taken, rfl, rfl, rfl, ?_, ?_⟩
  · cases before with
    | none => rfl
    | some before => simp [Lists.whole, Lists.definition, Lists.term, Definitions.phrases,
        Definition.phrase, Term.phrase, Factor.phrase, marked, numbered, Primary.phrase, lists]
  · exact List.mem_cons_self

theorem closes_opening {text closer : Text} {bracket other : Bracket} {stage mid after : Partial}
    (opens : Kind.classify text = bracket.opening) (apart : bracket ≠ other)
    (closes : Kind.classify closer = other.closing) (first : stage.advance text = .on mid)
    (second : mid.advance closer = .on after) : False := by
  obtain ⟨name, outer, lists, count, -, rfl⟩ := Partial.advance_opening opens first
  obtain ⟨inside, level, around, factor, same, outside, bracketed, -⟩ :=
    Partial.advance_closing closes second
  cases same
  cases outside
  exact apart bracketed

theorem exists_adds {name text closer : Text} {level : Level} {outer : List Level}
    {mid after : Partial} (opened : level.bracket = .square)
    (closes : Kind.classify closer = .closeSquare)
    (inner : Kind.classify text ≠ .openSquare ∧ Kind.classify text ≠ .closeSquare)
    (first : (Partial.body ⟨name, level :: outer, {}, .factor⟩).advance text = .on mid)
    (second : mid.advance closer = .on after) : ∃ items, Phrase.Sole items ∧ Adds text items := by
  have closing : Kind.classify closer = Bracket.square.closing := closes
  cases kind : Kind.classify text with
  | name => exact ⟨_, .reference, adds_leaf (.name text) fun inside want => by
      simp [Inside.advance, want, Inside.primary, kind]⟩
  | literal => exact ⟨_, .terminal, adds_leaf (.literal text) fun inside want => by
      simp [Inside.advance, want, Inside.primary, kind]⟩
  | special => exact ⟨_, .special, adds_leaf (.special text) fun inside want => by
      simp [Inside.advance, want, Inside.primary, kind]⟩
  | comma => exact ⟨_, .comma, adds_comma kind⟩
  | bar => exact ⟨_, .bar, adds_bar kind⟩
  | openSquare => exact absurd kind inner.1
  | closeSquare => exact absurd kind inner.2
  | integer =>
    -- Only a star may follow a count.
    simp only [Partial.advance, Inside.advance, kind, if_true] at first
    split at first
    · cases first
      simp [Partial.advance, Inside.advance, closes] at second
    · cases first
  | openBrace =>
    have opening : Kind.classify text = Bracket.brace.opening := kind
    exact (closes_opening opening (by decide) closing first second).elim
  | openParen =>
    have opening : Kind.classify text = Bracket.paren.opening := kind
    exact (closes_opening opening (by decide) closing first second).elim
  | terminator | closeBrace | closeParen | defining | minus | star | plus | invalid =>
    simp [Partial.advance, Inside.advance, Inside.primary, Inside.link, kind, Kind.followsNothing,
      Bracket.ofOpening?, opened, Bracket.closing] at first

end Parse

namespace Issue

variable {tokens : List Text} {issue : Issue}

theorem exists_of_mem_unreachable (member : issue ∈ unreachableAlternatives tokens) :
    issue.kind = .unreachableAlternative ∧ ∃ close, issue.index = close + 2 ∧
      tokens[close]? = some ['\x7d'] ∧ tokens[close + 1]? = some ['|'] := by
  obtain ⟨place, -, kind, close, at', closed, bar, -⟩ :=
    reported_unreachable.exists_place issue member
  exact ⟨kind, close, at', getElem?_of_closing? closed, bar⟩

theorem exists_of_mem_redundant (member : issue ∈ redundantAlternatives tokens) :
    issue.kind = .redundantAlternative ∧ ∃ index token, issue.index = index + 4 ∧
      tokens[index]? = some ['['] ∧ tokens[index + 1]? = some token ∧
      token ≠ ['['] ∧ token ≠ [']'] ∧ tokens[index + 2]? = some [']'] ∧
      tokens[index + 3]? = some ['|'] ∧ tokens[index + 4]? = some token ∧
      ∀ next ∈ tokens[index + 5]?, endsAlternative next = true := by
  obtain ⟨place, stands, kind, at', token, around⟩ := reported_redundant.exists_place issue member
  exact ⟨kind, place, token, at', stands, around⟩

theorem mem_of_kind (found : issue ∈ find tokens) :
    (issue.kind = .unreachableAlternative → issue ∈ unreachableAlternatives tokens) ∧
      (issue.kind = .redundantAlternative → issue ∈ redundantAlternatives tokens) := by
  have member := mem_check_of_mem_find found
  constructor <;> intro kind <;> rwa [kind] at member

open Parse

/-- A bar, and before it an alternative that ends with a repetition in braces: the
repetition matches the empty input, and so does the alternative if all before it does. -/
structure BehindRepetition (tokens : List Text) (index : Nat) (alternative : Definition) :
    Prop where
  bar : tokens[index - 1]? = some ['|']
  ending : alternativeEnding? tokens (index - 1) = some alternative
  spelled : alternative.tokens <:+ tokens.take (index - 1)
  repetition : ∃ count inner, alternative.final = .mk count (.bracketed .brace inner) none
  skips : alternative.final.phrase.Skips
  empty : ∀ {n : Nat} (sample : Vector Text n) (call : Phrase.Call n)
    (excluded : Phrase.Exceptions n) (p : Spot n),
    alternative.EmptyFront sample call excluded p →
      alternative.phrase.Derives sample call excluded p p
  whole : alternative.SkipsToEnd → alternative.phrase.Skips

/-- A bar, and before it an alternative that ends with an option of one token: the
option has all ends of the alternative that this token is behind the bar, and so has
the alternative if it is no more than the option, at least once, or if all before the
option matches the empty input. If that may be skipped whatever rules it names, the
alternative has these ends too where it has been evaluated, and nothing is lost without
the bar and the token. -/
structure BehindOption (tokens : List Text) (parser : GrammarParser) (index : Nat)
    (alternative flagged : Definition) (count : Option Text) (inner : Definitions) : Prop where
  bar : tokens[index - 1]? = some ['|']
  ending : alternativeEnding? tokens (index - 1) = some alternative
  spelled : alternative.tokens <:+ tokens.take (index - 1)
  behind : alternativeEnding? tokens (index + 1) = some flagged
  option : alternative.final = .mk count (.bracketed .square inner) none
  contains : (Primary.bracketed .square inner).phrase.Contains flagged.phrase
  alone : alternative = .one (.plain alternative.final) →
    count.map Text.digitsValue ≠ some 0 → alternative.phrase.Contains flagged.phrase
  derives : count.map Text.digitsValue ≠ some 0 → ∀ {n : Nat} (sample : Vector Text n)
    (call : Phrase.Call n) (excluded : Phrase.Exceptions n) (p e : Spot n),
    alternative.EmptyFront sample call excluded p →
      flagged.phrase.Derives sample call excluded p e →
      alternative.phrase.Derives sample call excluded p e
  whole : alternative.SkipsToEnd → count.map Text.digitsValue ≠ some 0 →
    alternative.phrase.Absorbs flagged.phrase ∧
      ∃ trimmed, GrammarParser.ofTokens (tokens.take (index - 1) ++ tokens.drop (index + 1)) =
          .ok trimmed ∧
        ∀ sample, trimmed.outcome sample = parser.outcome sample

theorem exists_behindRepetition {k : Nat} (survives : (Partial.rule.run tokens).isSome)
    (closes : tokens[k]? = some ['\x7d']) (bar : tokens[k + 1]? = some ['|']) :
    ∃ alternative, BehindRepetition tokens (k + 2) alternative := by
  obtain ⟨inside, -⟩ := List.getElem?_eq_some_iff.mp closes
  obtain ⟨rules, stage, reaches⟩ := Reaches.exists_of_isSome survives (Nat.le_of_lt inside)
  obtain ⟨next, moved, reaches⟩ :=
    reaches.step survives closes (reaches.unfinished (by decide))
  have brace : Kind.classify ['\x7d'] = Bracket.brace.closing := rfl
  obtain ⟨inside, level, outer, factor, -, -, -, -, rfl⟩ := Partial.advance_closing brace moved
  have final := Lists.final_definition level.lists
    (.mk level.count (.bracketed .brace (inside.lists.whole factor)) none)
  have skips : (Factor.mk level.count (.bracketed .brace (inside.lists.whole factor))
      none).phrase.Skips := by
    rw [Factor.phrase_unmarked]
    exact (Phrase.Skips.repeated _).counted _
  rw [← final] at skips
  -- Behind the bracket the reader holds the alternative, whose last factor is the repetition.
  refine ⟨_, bar, reaches.alternativeEnding?_eq,
    tokens_alternativeEnding? reaches.alternativeEnding?_eq, ⟨_, _, final⟩, skips,
    fun sample call excluded p empty => empty.derives ?_, fun toEnd => toEnd.skips skips⟩
  rw [final, Factor.phrase_unmarked]
  exact Phrase.derives_counted_repeated _ _

section Option

variable {token : Text} {k : Nat} {rules : List SyntaxRule} {name : Text} {outer : List Level}
  {lists : Lists} {count : Option Text} {inner : Definitions} {items : List Phrase}

theorem exists_reaches_option (survives : (Partial.rule.run tokens).isSome)
    (opens : tokens[k]? = some ['[']) (holds : tokens[k + 1]? = some token)
    (apart : token ≠ ['['] ∧ token ≠ [']']) (closes : tokens[k + 2]? = some [']']) :
    ∃ rules name outer lists count inner,
      Reaches tokens (k + 3) rules
        (.body ⟨name, outer, lists, .suffix count (.bracketed .square inner)⟩) ∧
      Phrase.Sole inner.phrases ∧ Adds token inner.phrases := by
  obtain ⟨inside, -⟩ := List.getElem?_eq_some_iff.mp opens
  obtain ⟨rules, stage, reaches⟩ := Reaches.exists_of_isSome survives (Nat.le_of_lt inside)
  obtain ⟨first, moved, reaches⟩ := reaches.step survives opens (reaches.unfinished (by decide))
  have opening : Kind.classify ['['] = Bracket.square.opening := rfl
  obtain ⟨name, outer, lists, count, -, rfl⟩ := Partial.advance_opening opening moved
  have within (done : SyntaxRule) :
      (Partial.body ⟨name, ⟨.square, count, lists⟩ :: outer, {}, .factor⟩).advance token ≠
        .finished done := by
    by_cases kind : Kind.classify token = .terminator
    · simp [Partial.advance, Inside.advance, Inside.primary, Inside.link, kind,
        Kind.followsNothing]
    · exact reaches.unfinished kind done
  obtain ⟨mid, taken, reaches⟩ := reaches.step survives holds within
  obtain ⟨after, left, reaches⟩ := reaches.step survives closes (reaches.unfinished (by decide))
  have distinct : Kind.classify token ≠ .openSquare ∧ Kind.classify token ≠ .closeSquare :=
    ⟨fun kind => apart.1 (Kind.eq_symbol kind rfl (by decide)),
      fun kind => apart.2 (Kind.eq_symbol kind rfl (by decide))⟩
  obtain ⟨items, sole, adds⟩ := exists_adds rfl rfl distinct taken left
  obtain ⟨inside, factor, alike, rfl, around, ended, whole, -⟩ :=
    adds name (⟨.square, count, lists⟩ :: outer) none
  cases taken.symm.trans alike
  have closing : Kind.classify [']'] = Bracket.square.closing := rfl
  obtain ⟨inside', level, outer', factor', same, outside, -, ended', rfl⟩ :=
    Partial.advance_closing closing left
  cases same
  cases ended'.symm.trans ended
  cases outside.symm.trans around
  have all : (inside.lists.whole factor).phrases = items := whole
  exact ⟨rules, _, _, _, _, _, reaches, all ▸ sole, all ▸ adds⟩

theorem exists_reaches_again (survives : (Partial.rule.run tokens).isSome)
    (bar : tokens[k]? = some ['|']) (again : tokens[k + 1]? = some token)
    (reaches : Reaches tokens k rules
      (.body ⟨name, outer, lists, .suffix count (.bracketed .square inner)⟩))
    (adds : Adds token items) : ∃ inside factor,
      Reaches tokens (k + 2) rules (.body inside) ∧ inside.name = name ∧ inside.outer = outer ∧
      inside.want.factor? = some factor ∧
      (inside.lists.whole factor).phrases =
        (lists.whole (.mk count (.bracketed .square inner) none)).phrases ++ items ∧
      (inside.lists.definition factor).phrase ∈ items := by
  obtain ⟨next, moved, reaches⟩ := reaches.step survives bar (reaches.unfinished (by decide))
  cases moved
  obtain ⟨inside, factor, taken, named, around, ended, whole, member⟩ :=
    adds name outer (some (lists.whole (.mk count (.bracketed .square inner) none)))
  obtain ⟨next, moved, reaches⟩ := reaches.step survives again (by simp [taken])
  cases moved.symm.trans taken
  exact ⟨inside, factor, reaches, named, around, ended, whole, member⟩

theorem follows_of_endsAlternative {text : Text} (ends : endsAlternative text = true) :
    (Kind.classify text).followsNothing ∧ Kind.classify text ≠ .comma := by
  simp only [endsAlternative, List.contains_eq_mem, List.mem_cons, List.not_mem_nil, or_false,
    decide_eq_true_eq] at ends
  rcases ends with rfl | rfl | rfl | rfl | rfl | rfl <;> decide

theorem absorbs_of_sole {item : Phrase} (sole : Phrase.Sole inner.phrases)
    (member : item ∈ inner.phrases)
    (toEnd : (lists.definition (.mk count (.bracketed .square inner) none)).SkipsToEnd)
    (some_rounds : count.map Text.digitsValue ≠ some 0) :
    (lists.definition (.mk count (.bracketed .square inner) none)).phrase.Absorbs item := by
  refine toEnd.absorbs ?_
  rw [Lists.final_definition, Factor.phrase_option, ← inner.collapse_phrases]
  exact (sole.absorbs member).counted some_rounds

theorem endsLike_of_sole (inside : Inside) (factor : Factor) (names : List Text)
    (whole : (inside.lists.whole factor).phrases =
      (lists.whole (.mk count (.bracketed .square inner) none)).phrases ++ inner.phrases)
    (sole : Phrase.Sole inner.phrases)
    (toEnd : (lists.definition (.mk count (.bracketed .square inner) none)).SkipsToEnd)
    (some_rounds : count.map Text.digitsValue ≠ some 0) :
    inside.body.EndsLike names
      (Inside.body ⟨inside.name, inside.outer, lists, .suffix count (.bracketed .square inner)⟩)
      factor.phrase (Factor.mk count (.bracketed .square inner) none).phrase := by
  refine ⟨rfl, List.forall₂_same.mpr fun frame _ => ⟨rfl, rfl, .refl _⟩, ?_⟩
  simp only [Inside.body, Lists.alternatives_draft, whole]
  rw [Lists.phrases_whole, List.append_assoc]
  refine (Phrase.AnyLike.refl _).append (.drop_all fun item member => ?_)
  exact (absorbs_of_sole sole member toEnd some_rounds).covers names

/-- Behind an option up to which all may be skipped, a bar and its token may be left out. -/
theorem exists_trimmed {all : List SyntaxRule} {last : Partial} {parser : GrammarParser}
    {inside : Inside} {factor : Factor}
    (reached : Partial.rule.run tokens = some (all, last))
    (compiled : GrammarParser.ofGrammar ⟨Partial.kept all last⟩ = .ok parser)
    (before : Reaches tokens k rules
      (.body ⟨name, outer, lists, .suffix count (.bracketed .square inner)⟩))
    (after : Reaches tokens (k + 2) rules (.body inside))
    (named : inside.name = name) (around : inside.outer = outer)
    (ended : inside.want.factor? = some factor)
    (whole : (inside.lists.whole factor).phrases =
      (lists.whole (.mk count (.bracketed .square inner) none)).phrases ++ inner.phrases)
    (sole : Phrase.Sole inner.phrases)
    (toEnd : (lists.definition (.mk count (.bracketed .square inner) none)).SkipsToEnd)
    (some_rounds : count.map Text.digitsValue ≠ some 0)
    (next : ∀ text ∈ tokens[k + 2]?, endsAlternative text = true) :
    ∃ trimmed, GrammarParser.ofTokens (tokens.take k ++ tokens.drop (k + 2)) = .ok trimmed ∧
      ∀ sample, trimmed.outcome sample = parser.outcome sample := by
  obtain ⟨more, onward, rfl⟩ := after.exists_run reached
  subst named around
  have like := endsLike_of_sole inside factor
    (Grammar.names ⟨Partial.kept (rules ++ more) last⟩).eraseDups whole sole toEnd some_rounds
  obtain ⟨rules', last', trimmed, same⟩ := Partial.exists_run_of_ends like
    (by rw [Inside.lastFactor?_body, ended]; rfl) rfl (fun text member =>
      follows_of_endsAlternative (next text (by simpa using member))) onward
  have read : Partial.rule.run (tokens.take k ++ tokens.drop (k + 2)) =
      some (rules ++ rules', last') := by
    rw [Partial.run_append, before, Option.bind_some]
    simp only [trimmed, Option.map_some]
  rw [Partial.ofTokens_of_run read]
  refine GrammarParser.exists_like ?_ compiled
  generalize (Grammar.names ⟨Partial.kept (rules ++ more) last⟩).eraseDups = names at same ⊢
  simp only [Partial.kept_append]
  exact List.rel_append (List.forall₂_same.mpr fun rule _ => ⟨rfl, .refl rule.body⟩) same

theorem exists_behindOption {all : List SyntaxRule} {last : Partial} {parser : GrammarParser}
    (reached : Partial.rule.run tokens = some (all, last))
    (compiled : GrammarParser.ofGrammar ⟨Partial.kept all last⟩ = .ok parser)
    (opens : tokens[k]? = some ['[']) (holds : tokens[k + 1]? = some token)
    (apart : token ≠ ['['] ∧ token ≠ [']']) (closes : tokens[k + 2]? = some [']'])
    (bar : tokens[k + 3]? = some ['|']) (again : tokens[k + 4]? = some token)
    (next : ∀ text ∈ tokens[k + 5]?, endsAlternative text = true) :
    ∃ alternative flagged count inner,
      BehindOption tokens parser (k + 4) alternative flagged count inner := by
  have survives : (Partial.rule.run tokens).isSome := by rw [reached]; rfl
  obtain ⟨rules, name, outer, lists, count, inner, before, sole, adds⟩ :=
    exists_reaches_option survives opens holds apart closes
  obtain ⟨inside, factor, after, named, around, ended, whole, member⟩ :=
    exists_reaches_again survives bar again before adds
  have contains := sole.contains member
  rw [Definitions.collapse_phrases] at contains
  refine ⟨_, inside.lists.definition factor, count, inner, bar, before.alternativeEnding?_eq,
    tokens_alternativeEnding? before.alternativeEnding?_eq, ?_, Lists.final_definition _ _,
    contains, fun alone some_rounds => ?_,
    fun some_rounds n sample call excluded p e empty derives => empty.derives ?_,
    fun toEnd some_rounds => ?_⟩
  · rw [after.alternativeEnding?_eq, ended, Option.map_some]
  · rw [alone, Lists.final_definition]
    change (Factor.mk count (.bracketed .square inner) none).phrase.Contains _
    rw [Factor.phrase_option]
    exact contains.counted some_rounds
  · rw [Lists.final_definition, Factor.phrase_option, ← inner.collapse_phrases]
    exact (derives.alternative member).counted some_rounds
  · exact ⟨absorbs_of_sole sole member toEnd some_rounds, exists_trimmed reached compiled before
      after named around ended whole sole toEnd some_rounds next⟩

end Option

/-- What a warning about an alternative is worth: behind a repetition, the empty
input is matched already, and behind an option, its token is. That is true of the
brackets. It is true of the whole alternative before the bar if all else in it may be
skipped. -/
theorem find_sound {parser : GrammarParser} (compiled : GrammarParser.ofTokens tokens = .ok parser)
    (found : issue ∈ find tokens) :
    (issue.kind = .unreachableAlternative →
      ∃ alternative, BehindRepetition tokens issue.index alternative) ∧
    (issue.kind = .redundantAlternative → ∃ alternative flagged count inner,
      BehindOption tokens parser issue.index alternative flagged count inner) := by
  obtain ⟨unreachable, redundant⟩ := mem_of_kind found
  obtain ⟨⟨all, last⟩, reached⟩ :=
    Option.isSome_iff_exists.mp (Partial.survives_of_ofTokens compiled)
  rw [Partial.ofTokens_of_run reached] at compiled
  refine ⟨fun kind => ?_, fun kind => ?_⟩
  · obtain ⟨-, close, at', closes, bar⟩ := exists_of_mem_unreachable (unreachable kind)
    rw [at']
    exact exists_behindRepetition (by rw [reached]; rfl) closes bar
  · obtain ⟨-, index, token, at', opens, holds, entered, left, closes, bar, again, next⟩ :=
      exists_of_mem_redundant (redundant kind)
    rw [at']
    exact exists_behindOption reached compiled opens holds ⟨entered, left⟩ closes bar again next

theorem exists_of_kind (tokens : List Text) (index : Nat) (kind : IssueKind)
    (issues : (index, kind) ∈ (find tokens).map fun issue => (issue.index, issue.kind)) :
    ∃ issue ∈ find tokens, issue.kind = kind ∧ issue.index = index := by
  obtain ⟨issue, found, same⟩ := List.mem_map.mp issues
  exact ⟨issue, found, congrArg Prod.snd same, congrArg Prod.fst same⟩

/-- `a = { 'b' } | e, { 'b' } | e, [ 'c' ] | 'c' | { 'b' }, [ 'd' ] | 'd' ; e = [ 'x' ] ;`:
before each bar that is warned of, the bracket stands alone, behind a rule, or behind
another bracket. -/
def emptyFronts : List Text :=
  ["a", "=", "\x7b", "'b'", "\x7d", "|", "e", ",", "\x7b", "'b'", "\x7d", "|", "e", ",", "[",
    "'c'", "]", "|", "'c'", "|", "\x7b", "'b'", "\x7d", ",", "[", "'d'", "]", "|", "'d'", ";",
    "e", "=", "[", "'x'", "]", ";"].map String.toList

def boxed (bracket : Bracket) (primary : Primary) : Factor :=
  .mk none (.bracketed bracket (.one (.one (.plain (.mk none primary none))))) none

abbrev boxedLiteral (bracket : Bracket) (literal : String) : Factor :=
  boxed bracket (.literal literal.toList)

def behindRule (factor : Factor) : Definition :=
  .snoc (.one (.plain (.mk none (.name ['e']) none))) (.plain factor)

def behindBracket (factor : Factor) : Definition :=
  .snoc (.one (.plain (boxedLiteral .brace "'b'"))) (.plain factor)

theorem endings_emptyFronts :
    alternativeEnding? emptyFronts 5 = some (.one (.plain (boxedLiteral .brace "'b'"))) ∧
      alternativeEnding? emptyFronts 11 = some (behindRule (boxedLiteral .brace "'b'")) ∧
      alternativeEnding? emptyFronts 17 = some (behindRule (boxedLiteral .square "'c'")) ∧
      alternativeEnding? emptyFronts 27 = some (behindBracket (boxedLiteral .square "'d'")) := by
  refine ⟨?_, ?_, ?_, ?_⟩ <;> cbv

theorem eq_of_ending {index k : Nat} {one other : Definition} (place : index = k + 1)
    (ends : alternativeEnding? tokens (index - 1) = some one)
    (here : alternativeEnding? tokens k = some other) : one = other := by
  subst place
  exact Option.some.inj (ends.symm.trans here)

abbrev callOf (tokens : List Text) {n : Nat} (sample : Vector Text n)
    (excluded : Phrase.Exceptions n) : Phrase.Call n :=
  (Reading.ofTokens tokens).grammar.Derives sample excluded

theorem emptyFront_behindRule {n : Nat} (factor : Factor) (sample : Vector Text n)
    (excluded : Phrase.Exceptions n) (p : Spot n) :
    (behindRule factor).EmptyFront sample (callOf emptyFronts sample excluded) excluded p where
  last := rfl
  front phrase member := by
    have rules : (Reading.ofTokens emptyFronts).rules[1]? =
        some ⟨['e'], .optional (.terminal ['x'])⟩ := by cbv
    cases List.mem_singleton.mp member
    exact .reference (.apply (List.mem_of_getElem? rules) .skip)

theorem find_sound_emptyFronts : ∃ parser, GrammarParser.ofTokens emptyFronts = .ok parser ∧
    (∃ issue ∈ find emptyFronts, issue.kind = .unreachableAlternative ∧ ∃ alternative,
      BehindRepetition emptyFronts issue.index alternative ∧ alternative.phrase.Skips) ∧
    (∃ issue ∈ find emptyFronts, issue.kind = .unreachableAlternative ∧ ∃ alternative,
      BehindRepetition emptyFronts issue.index alternative ∧
      ∀ {n : Nat} (sample : Vector Text n) excluded p,
        alternative.phrase.Derives sample (callOf emptyFronts sample excluded) excluded p p) ∧
    (∃ issue ∈ find emptyFronts, issue.kind = .redundantAlternative ∧
      ∃ alternative flagged count inner,
        BehindOption emptyFronts parser issue.index alternative flagged count inner ∧
        ∀ {n : Nat} (sample : Vector Text n) excluded p e,
          flagged.phrase.Derives sample (callOf emptyFronts sample excluded) excluded p e →
          alternative.phrase.Derives sample (callOf emptyFronts sample excluded) excluded p e) ∧
    ∃ issue ∈ find emptyFronts, issue.kind = .redundantAlternative ∧
      ∃ alternative flagged count inner,
        BehindOption emptyFronts parser issue.index alternative flagged count inner ∧
        alternative.phrase.Absorbs flagged.phrase := by
  have succeeds : (GrammarParser.ofTokens emptyFronts).isOk = true := by cbv
  obtain ⟨first, found₁, kind₁, place₁⟩ :=
    exists_of_kind emptyFronts 6 .unreachableAlternative (by decide)
  obtain ⟨second, found₂, kind₂, place₂⟩ :=
    exists_of_kind emptyFronts 12 .unreachableAlternative (by decide)
  obtain ⟨third, found₃, kind₃, place₃⟩ :=
    exists_of_kind emptyFronts 18 .redundantAlternative (by decide)
  obtain ⟨fourth, found₄, kind₄, place₄⟩ :=
    exists_of_kind emptyFronts 28 .redundantAlternative (by decide)
  cases compiled : GrammarParser.ofTokens emptyFronts with
  | error error =>
    rw [compiled] at succeeds
    cases succeeds
  | ok parser =>
    obtain ⟨one, alone⟩ := (find_sound compiled found₁).1 kind₁
    obtain ⟨two, behind⟩ := (find_sound compiled found₂).1 kind₂
    obtain ⟨three, flagged₃, count₃, inner₃, option⟩ := (find_sound compiled found₃).2 kind₃
    obtain ⟨four, flagged₄, count₄, inner₄, boxes⟩ := (find_sound compiled found₄).2 kind₄
    obtain ⟨here₁, here₂, here₃, here₄⟩ := endings_emptyFronts
    cases eq_of_ending place₁ alone.ending here₁
    cases eq_of_ending place₂ behind.ending here₂
    cases eq_of_ending place₃ option.ending here₃
    cases eq_of_ending place₄ boxes.ending here₄
    refine ⟨parser, rfl, ⟨first, found₁, kind₁, _, alone, alone.whole ?_⟩,
      ⟨second, found₂, kind₂, _, behind, fun sample excluded p =>
        behind.empty sample _ _ p (emptyFront_behindRule _ sample excluded p)⟩,
      ⟨third, found₃, kind₃, _, flagged₃, count₃, inner₃, option, fun sample excluded p e =>
        option.derives ?_ sample _ _ p e (emptyFront_behindRule _ sample excluded p)⟩,
      fourth, found₄, kind₄, _, flagged₄, count₄, inner₄, boxes, (boxes.whole ?_ ?_).1⟩
    · exact ⟨rfl, fun _ member => (List.not_mem_nil member).elim⟩
    · cases option.option
      simp
    · refine ⟨rfl, fun phrase member => ?_⟩
      cases List.mem_singleton.mp member
      exact Phrase.Skips.repeated _
    · cases boxes.option
      simp

def repetitionTail : List Text :=
  ["a", "=", "'b'", ",", "\x7b", "'c'", "\x7d", "|", "'d'", ";"].map String.toList

def optionTail : List Text :=
  ["a", "=", "'b'", ",", "[", "'c'", "]", "|", "'c'", ";"].map String.toList

def optionNever : List Text :=
  ["a", "=", "0", "*", "[", "'c'", "]", "|", "'c'", ";"].map String.toList

def optionSubtracted : List Text :=
  ["a", "=", "'c'", "-", "[", "'c'", "]", "|", "'c'", ";"].map String.toList

/-- `a = e , [ x ] | x ; e = a ; x = [ 'y' ] ;`: what stands before the option matches the
empty input, but only through the alternative behind the bar. -/
def optionCircle : List Text :=
  ["a", "=", "e", ",", "[", "x", "]", "|", "x", ";", "e", "=", "a", ";",
    "x", "=", "[", "'y'", "]", ";"].map String.toList

def literalAlone : Definition := .one (.plain (.mk none (.literal "'c'".toList) none))

def tailNode : Node 1 := .sequence [.terminal ['b'], .optional (.terminal ['c'])]

def oneRule (body : Node 1) : Program := ⟨[['a']], #v[body], Nat.one_pos⟩

theorem exists_parser_of_program {program : Program} {sample : Text} {cut : List Text}
    (compiles : ((GrammarParser.ofTokens tokens).toOption.map fun parser =>
      (parser.program, parser.cutter.cut sample)) = some (program, cut)) :
    ∃ parser, GrammarParser.ofTokens tokens = .ok parser ∧
      parser.outcome sample = program.outcome cut := by
  cases compiled : GrammarParser.ofTokens tokens with
  | error error =>
    rw [compiled] at compiles
    cases compiles
  | ok parser =>
    rw [compiled] at compiles
    cases compiles
    exact ⟨parser, rfl, rfl⟩

theorem outcome_tail_or_flagged :
    (oneRule (.alternation [tailNode, .terminal ['c']])).outcome [['c']] = .complete := by
  rw [Program.outcome_of_quiet Prod.mk.eta.symm ?_]
  · rfl
  · change ((Search.grow (_, 0) ∅ false {}).fail 0).memo? _ = _
    simp

theorem outcome_tail : (oneRule tailNode).outcome [['c']] = .haltedAt 0 := by
  rw [Program.outcome_of_quiet Prod.mk.eta.symm ?_]
  · rfl
  · change ((Search.grow (_, 0) ∅ false {}).fail 0).memo? _ = _
    simp

/-- The rules of the circle, with what the first one is made of. -/
def circle (first : Node 3) : Program :=
  ⟨[['a'], ['e'], ['x']], #v[first, .rule 0, .optional (.terminal ['y'])], Nat.succ_pos 2⟩

def circleNode : Node 3 := .sequence [.rule 1, .optional (.rule 2)]

theorem emptyFront_optionCircle {n : Nat} (sample : Vector Text n)
    (excluded : Phrase.Exceptions n) (p : Spot n) :
    (behindRule (boxed .square (.name ['x']))).EmptyFront sample
      (callOf optionCircle sample excluded) excluded p where
  last := rfl
  front phrase member := by
    cases List.mem_singleton.mp member
    have rules : (Reading.ofTokens optionCircle).rules = [
        ⟨['a'], .alternation [.sequence [.reference ['e'], .optional (.reference ['x'])],
          .reference ['x']]⟩,
        ⟨['e'], .reference ['a']⟩, ⟨['x'], .optional (.terminal ['y'])⟩] := by cbv
    have first (rule : Rule) (i : Nat)
        (here : (Reading.ofTokens optionCircle).rules[i]? = some rule) := List.mem_of_getElem? here
    rw [rules] at first
    -- From `e` by way of `a` and the flagged alternative to `x`, which may be empty.
    refine .reference (.apply (first _ 1 rfl) (.reference (.apply (first _ 0 rfl) ?_)))
    exact .alternation (by simp) (.reference (.apply (first _ 2 rfl) .skip))

theorem exceptFree_circle : (circle (.alternation [circleNode, .rule 2])).ExceptFree := by
  intro index kept dropped
  fin_cases index <;> simp [circle, circleNode, Program.body]

theorem outcome_circle_or_flagged :
    (circle (.alternation [circleNode, .rule 2])).outcome [['y']] = .complete := by
  have stratified := exceptFree_circle.stratified
  have calm : ((circle (.alternation [circleNode, .rule 2])).run
      [['y']].toArray.toVector).2.refused = [] := Program.refused_run_eq_nil (by decide)
  have law := Program.lawful_yields [['y']].toArray.toVector stratified
  refine Program.outcome_complete_of_mem
    (Program.mem_run_of_derivesAvoiding stratified law (Or.inl calm) ?_)
  rw [calm]
  exact .apply List.not_mem_nil (.alternation (List.mem_cons_of_mem _ (List.mem_cons_self ..))
    (.rule (.apply List.not_mem_nil (.take (.terminal (by simp) rfl rfl)))))

section Circle

def circle.back : Fin (circle circleNode).names.length := ⟨1, Nat.one_lt_succ_succ 1⟩

variable (tokens : Vector Text 1) {search : Search (circle circleNode).names.length 1}

/-- What is known after the second rule met the first one, which was just begun. -/
def circle.around (search : Search (circle circleNode).names.length 1) :
    Search (circle circleNode).names.length 1 :=
  (((search.grow ((circle circleNode).startRule, 0) ∅ false).grow (back, 0) ∅ false).grow
    ((circle circleNode).startRule, 0) ∅ true).settle (back, 0) ∅

theorem eval_circleNode (depth : Nat) (unknown : search.memo? (circle.back, 0) = none) :
    ((circle circleNode).body (circle circleNode).startRule).eval tokens
      ((circle circleNode).rule tokens (depth + 1)) 0
      (search.grow ((circle circleNode).startRule, 0) ∅ false) = (∅, circle.around search) := by
  let start := (circle circleNode).startRule
  let begun := search.grow (start, 0) ∅ false
  have apart : (start, (0 : Spot 1)) ≠ (circle.back, 0) := by decide
  have fresh : begun.memo? (circle.back, 0) = none := by
    rw [Search.memo?_grow, if_neg apart, unknown]
  have inner : (circle circleNode).rule tokens depth start 0
      (begun.grow (circle.back, 0) ∅ false) =
        (∅, (begun.grow (circle.back, 0) ∅ false).grow (start, 0) ∅ true) :=
    Program.rule_of_growing (by rw [Search.memo?_grow, if_neg apart.symm, Search.memo?_grow,
      if_pos rfl])
  have outer := Program.rule_of_quiet fresh inner
    (by rw [Search.memo?_grow, if_neg apart, Search.memo?_grow, if_pos rfl])
  let rest : List (Node (circle circleNode).names.length) := [.optional (.rule ⟨2, by decide⟩)]
  have first : Node.evalAll tokens ((circle circleNode).rule tokens (depth + 1))
      (.rule circle.back :: rest) {0} begun = (∅, circle.around search) :=
    Node.evalAll_none ((Node.each_singleton _ 0).trans outer)
  exact (congrFun Node.eval_sequence begun).trans first

/-- Without the flagged alternative, the rules only come back to themselves. -/
theorem outcome_circle : (circle circleNode).outcome [['y']] = .haltedAt 0 := by
  let tokens : Vector Text 1 := [['y']].toArray.toVector
  let start := (circle circleNode).startRule
  have unknown (rule : Fin (circle circleNode).names.length) :
      ({} : Search (circle circleNode).names.length 1).memo? (rule, 0) = none := by
    simp [Search.memo?]
  -- The second rule settled on what the first one had, so it is forgotten and searched again.
  have known : (circle.around {}).memo? (start, 0) = some (.growing ∅ true) := by
    rw [circle.around, Search.memo?_settle, if_neg (by decide), Search.memo?_grow, if_pos rfl]
  have back : (circle.around {}).reentered (start, 0) = true := Search.reentered_of_growing known
  have gone : ((circle.around {}).forget 0).memo? (circle.back, 0) = none :=
    Search.memo?_forget_of_mem (List.mem_singleton_self _)
  have again : Find.regrow (start, 0) 0
      (((circle circleNode).body start).eval tokens ((circle circleNode).rule tokens 2047) 0) ∅
      (circle.around {}) = (∅, circle.around ((circle.around {}).forget 0)) := by
    have round := eval_circleNode tokens 2046 gone
    rw [Find.regrow_back back (congrArg Prod.fst round), round]
    exact if_pos fun _ member => (List.not_mem_nil member).elim
  have run : (circle circleNode).run tokens = (∅, Search.settle (start, 0) ∅ _) :=
    Program.rule_of_regrow (unknown start) (eval_circleNode tokens 2046 (unknown _)) again
  rw [Program.outcome_eq, run]
  rfl

end Circle

theorem not_skips {phrase : Phrase} {node : Node 1}
    (resolved : Node.ofPhrase [['a']] phrase = .ok node)
    (missed : (0 : Spot 0) ∉ (node.eval #v[] (fun _ _ => pure ∅) 0 {}).1) : ¬ phrase.Skips :=
  fun skips => missed (Phrase.skips_iff.mp skips [['a']] node resolved #v[] _ 0 {})

theorem not_contains {phrase : Phrase} {node : Node 1}
    (resolved : Node.ofPhrase [['a']] phrase = .ok node)
    (missed : (1 : Spot 1) ∉ (node.eval #v[['c']] (fun _ _ => pure ∅) 0 {}).1) :
    ¬ phrase.Contains literalAlone.phrase := by
  intro contains
  obtain ⟨literal, same, contains⟩ := Phrase.related_iff.mp contains [['a']] node resolved
  cases same
  exact missed (contains #v[['c']] (fun _ _ => pure ∅) 0 {} 1 (by decide))

theorem exists_overlooked {alternative : Definition} {node : Node 1}
    (compiles : (GrammarParser.ofTokens tokens).isOk = true)
    (issues : (8, IssueKind.redundantAlternative) ∈
      (find tokens).map fun issue => (issue.index, issue.kind))
    (before : alternativeEnding? tokens 7 = some alternative)
    (behind : alternativeEnding? tokens 9 = some literalAlone)
    (resolved : Node.ofPhrase [['a']] alternative.phrase = .ok node)
    (missed : (1 : Spot 1) ∉ (node.eval #v[['c']] (fun _ _ => pure ∅) 0 {}).1) :
    (GrammarParser.ofTokens tokens).isOk = true ∧
      ∃ issue ∈ find tokens, issue.kind = .redundantAlternative ∧ ∃ alternative flagged,
        alternativeEnding? tokens (issue.index - 1) = some alternative ∧
        alternativeEnding? tokens (issue.index + 1) = some flagged ∧
        ¬ alternative.phrase.Contains flagged.phrase := by
  obtain ⟨issue, found, kind, place⟩ := exists_of_kind tokens 8 _ issues
  refine ⟨compiles, issue, found, kind, alternative, literalAlone, ?_, ?_,
    not_contains resolved missed⟩
  · rw [place]
    exact before
  · rw [place]
    exact behind

/-- The warnings look at the bracket and not at what stands before it: the
alternative need not match the empty input, nor what stands in the option, and the
flagged alternative may be needed, if only to let what stands before match nothing. -/
theorem find_overlooks_tails :
    ((GrammarParser.ofTokens repetitionTail).isOk = true ∧
      ∃ issue ∈ find repetitionTail, issue.kind = .unreachableAlternative ∧
        ∃ alternative, alternativeEnding? repetitionTail (issue.index - 1) = some alternative ∧
          ¬ alternative.phrase.Skips) ∧
    (∀ tokens ∈ [optionTail, optionNever, optionSubtracted],
      (GrammarParser.ofTokens tokens).isOk = true ∧
        ∃ issue ∈ find tokens, issue.kind = .redundantAlternative ∧ ∃ alternative flagged,
          alternativeEnding? tokens (issue.index - 1) = some alternative ∧
          alternativeEnding? tokens (issue.index + 1) = some flagged ∧
          ¬ alternative.phrase.Contains flagged.phrase) ∧
    (∃ issue ∈ find optionTail, issue.kind = .redundantAlternative ∧
      ∃ parser trimmed, GrammarParser.ofTokens optionTail = .ok parser ∧
        GrammarParser.ofTokens
          (optionTail.take (issue.index - 1) ++ optionTail.drop (issue.index + 1)) = .ok trimmed ∧
        parser.outcome ['c'] = .complete ∧ trimmed.outcome ['c'] = .haltedAt 0) ∧
    ∃ issue ∈ find optionCircle, issue.kind = .redundantAlternative ∧
      ∃ alternative parser trimmed,
        alternativeEnding? optionCircle (issue.index - 1) = some alternative ∧
        (∀ {n : Nat} (sample : Vector Text n) excluded p,
          alternative.EmptyFront sample (callOf optionCircle sample excluded) excluded p) ∧
        GrammarParser.ofTokens optionCircle = .ok parser ∧
        GrammarParser.ofTokens (optionCircle.take (issue.index - 1) ++
          optionCircle.drop (issue.index + 1)) = .ok trimmed ∧
        parser.outcome ['y'] = .complete ∧ trimmed.outcome ['y'] = .haltedAt 0 := by
  refine ⟨⟨by cbv, ?_⟩, ?_, ?_, ?_⟩
  · obtain ⟨issue, found, kind, place⟩ :=
      exists_of_kind repetitionTail 8 .unreachableAlternative (by decide)
    refine ⟨issue, found, kind, _, by rw [place]; rfl, not_skips rfl (by decide)⟩
  · simp only [List.forall_mem_cons]
    refine ⟨?_, ?_, ?_, fun _ member => (List.not_mem_nil member).elim⟩
    · exact exists_overlooked (by cbv) (by decide) rfl rfl rfl (by decide)
    · exact exists_overlooked (by cbv) (by decide) rfl rfl rfl (by decide)
    · exact exists_overlooked (by cbv) (by decide) rfl rfl rfl (by decide)
  · obtain ⟨issue, found, kind, place⟩ :=
      exists_of_kind optionTail 8 .redundantAlternative (by decide)
    obtain ⟨parser, compiled, complete⟩ : ∃ parser, GrammarParser.ofTokens optionTail = .ok parser ∧
        parser.outcome ['c'] =
          (oneRule (.alternation [tailNode, .terminal ['c']])).outcome [['c']] :=
      exists_parser_of_program (by cbv)
    obtain ⟨trimmed, compiled', halts⟩ : ∃ trimmed,
        GrammarParser.ofTokens (optionTail.take 7 ++ optionTail.drop 9) = .ok trimmed ∧
        trimmed.outcome ['c'] = (oneRule tailNode).outcome [['c']] :=
      exists_parser_of_program (by cbv)
    refine ⟨issue, found, kind, parser, trimmed, compiled, ?_,
      complete.trans outcome_tail_or_flagged, halts.trans outcome_tail⟩
    rw [place]
    exact compiled'
  · obtain ⟨issue, found, kind, place⟩ :=
      exists_of_kind optionCircle 8 .redundantAlternative (by decide)
    obtain ⟨parser, compiled, complete⟩ : ∃ parser,
        GrammarParser.ofTokens optionCircle = .ok parser ∧
        parser.outcome ['y'] =
          (circle (.alternation [circleNode, .rule 2])).outcome [['y']] :=
      exists_parser_of_program (by cbv)
    obtain ⟨trimmed, compiled', halts⟩ : ∃ trimmed,
        GrammarParser.ofTokens (optionCircle.take 7 ++ optionCircle.drop 9) = .ok trimmed ∧
        trimmed.outcome ['y'] = (circle circleNode).outcome [['y']] :=
      exists_parser_of_program (by cbv)
    refine ⟨issue, found, kind, _, parser, trimmed, ?_, emptyFront_optionCircle, compiled, ?_,
      complete.trans outcome_circle_or_flagged, halts.trans outcome_circle⟩
    · rw [place]
      cbv
    · rw [place]
      exact compiled'

end Issue

end GrammarDesk
