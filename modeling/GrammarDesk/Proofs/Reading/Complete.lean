import GrammarDesk.Proofs.Reading.Partial

/-! The reader follows every derivation: it takes the tokens of an allowed tree
one by one and is left with that tree. -/
namespace GrammarDesk
namespace Parse

def Want.expecting : Option Text → Want
  | none => .factor
  | some count => .primary count

def Want.after (count : Option Text) : Primary → Want
  | .nothing => .expecting count
  | inner => .suffix count inner

def Factor.want : Factor → Want
  | .mk count primary none => .after count primary
  | factor => .link factor

def Term.kept : Term → Option Factor
  | .plain _ => none
  | .except kept _ => some kept

def Term.last : Term → Factor
  | .plain factor => factor
  | .except _ dropped => dropped

def Definition.earlier : Definition → Option Definition
  | .one _ => none
  | .snoc earlier _ => some earlier

def Definition.last : Definition → Term
  | .one term => term
  | .snoc _ term => term

def Definitions.earlier : Definitions → Option Definitions
  | .one _ => none
  | .snoc earlier _ => some earlier

def Definitions.last : Definitions → Definition
  | .one definition => definition
  | .snoc _ definition => definition

def Definition.final (definition : Definition) : Factor := definition.last.last

def Definitions.final (definitions : Definitions) : Factor := definitions.last.final

/-- The lists that hold all of a tree but its last factor. -/
def Definitions.lists (definitions : Definitions) : Lists :=
  ⟨definitions.earlier, definitions.last.earlier, definitions.last.last.kept⟩

section Last

variable {opened : Nat} {next : Kind}

theorem Term.last_allowed {term : Term} (allowed : term.Allowed opened next) :
    term.last.Allowed opened next := by
  cases term with
  | plain factor => exact allowed
  | except kept dropped => exact allowed.2

theorem Definition.last_allowed {definition : Definition}
    (allowed : definition.Allowed opened next) : definition.last.Allowed opened next := by
  cases definition with
  | one term => exact allowed
  | snoc earlier term => exact allowed.2

theorem Definitions.last_allowed {definitions : Definitions}
    (allowed : definitions.Allowed opened next) : definitions.last.Allowed opened next := by
  cases definitions with
  | one definition => exact allowed
  | snoc earlier definition => exact allowed.2

theorem Definition.final_allowed {definition : Definition}
    (allowed : definition.Allowed opened next) : definition.final.Allowed opened next :=
  Term.last_allowed (Definition.last_allowed allowed)

theorem Definitions.final_allowed {definitions : Definitions}
    (allowed : definitions.Allowed opened next) : definitions.final.Allowed opened next :=
  Definition.final_allowed (Definitions.last_allowed allowed)

theorem Lists.term_last (definitions : Option Definitions) (terms : Option Definition)
    (term : Term) : Lists.term ⟨definitions, terms, term.kept⟩ term.last = term := by
  cases term <;> rfl

theorem Lists.definition_last (definitions : Option Definitions) (definition : Definition) :
    Lists.definition ⟨definitions, definition.earlier, definition.last.kept⟩
      definition.final = definition := by
  cases definition <;>
    simp only [Lists.definition, Definition.earlier, Definition.last, Definition.final,
      Lists.term_last]

theorem Lists.whole_last (definitions : Definitions) :
    definitions.lists.whole definitions.final = definitions := by
  cases definitions <;>
    simp only [Lists.whole, Definitions.lists, Definitions.earlier, Definitions.last,
      Definitions.final, Lists.definition_last]

end Last

variable {name : Text} {outer : List Level} {lists : Lists} {next : Kind}

namespace Inside

theorem primary_nothing (inside : Inside) (count : Option Text) {text : Text}
    (follows : (Kind.classify text).followsNothing) :
    inside.primary count text = inside.link (.mk count .nothing none) text := by
  unfold primary
  cases kind : Kind.classify text <;> rw [kind] at follows <;> first | rfl | cases follows

theorem suffix_unmarked (inside : Inside) (count : Option Text) (primary : Primary) {text : Text}
    (unmarked : Kind.classify text ≠ .star ∧ Kind.classify text ≠ .plus) :
    inside.suffix count primary text = inside.link (.mk count primary none) text := by
  unfold suffix
  split
  · exact absurd ‹_› unmarked.1
  · exact absurd ‹_› unmarked.2
  · rfl

theorem advance_want {factor : Factor} {text : Text} (lists : Lists)
    (allowed : factor.Allowed outer.length (Kind.classify text))
    (unmarked : Kind.classify text ≠ .star ∧ Kind.classify text ≠ .plus) :
    (⟨name, outer, lists, factor.want⟩ : Inside).advance text =
      (⟨name, outer, lists, factor.want⟩ : Inside).link factor text := by
  obtain ⟨count, primary, mark⟩ := factor
  cases mark with
  | some mark => rfl
  | none =>
    cases primary with
    | nothing =>
      have follows : (Kind.classify text).followsNothing := allowed.2
      cases count with
      | none =>
        have notInteger : Kind.classify text ≠ .integer := by
          intro kind
          rw [kind] at follows
          cases follows
        simp only [Factor.want, Want.after, Want.expecting, advance, notInteger, if_false]
        exact primary_nothing _ none follows
      | some count => exact primary_nothing _ (some count) follows
    | _ => exact suffix_unmarked _ count _ unmarked

end Inside

open Partial

theorem run_link {factor : Factor} {text : Text} {lists : Lists} {after : Partial}
    (allowed : factor.Allowed outer.length (Kind.classify text))
    (unmarked : Kind.classify text ≠ .star ∧ Kind.classify text ≠ .plus)
    (linked : (⟨name, outer, lists, factor.want⟩ : Inside).link factor text = .on after)
    (rest : List Text) :
    (body ⟨name, outer, lists, factor.want⟩).run (text :: rest) = after.run rest := by
  have moved : (body ⟨name, outer, lists, factor.want⟩).advance text = .on after :=
    (Inside.advance_want lists allowed unmarked).trans linked
  exact run_on moved rest

theorem run_expecting {count : Option Text} {text : Text} {lists : Lists} {after : Partial}
    (uncounted : Kind.classify text ≠ .integer)
    (moved : (⟨name, outer, lists, .expecting count⟩ : Inside).primary count text = .on after)
    (rest : List Text) :
    (body ⟨name, outer, lists, .expecting count⟩).run (text :: rest) = after.run rest := by
  have advanced : (body ⟨name, outer, lists, .expecting count⟩).advance text = .on after := by
    cases count with
    | none =>
      simp only [Want.expecting, Partial.advance, Inside.advance, uncounted, if_false]
      exact moved
    | some count => exact moved
  exact run_on advanced rest

theorem run_count {count : Option Text} (allowed : CountAllowed count) (lists : Lists)
    (rest : List Text) :
    (body ⟨name, outer, lists, .factor⟩).run (countTokens count ++ rest) =
      (body ⟨name, outer, lists, .expecting count⟩).run rest := by
  cases count with
  | none => rfl
  | some count =>
    obtain ⟨integer, small⟩ := allowed
    have counted : (body ⟨name, outer, lists, .factor⟩).advance count =
        .on (body ⟨name, outer, lists, .star count⟩) := by
      simp only [Partial.advance, Inside.advance, integer, small, if_true]
    exact (run_on counted _).trans (run_on rfl rest)

theorem run_mark {count : Option Text} {primary : Primary} {mark : Option Mark}
    (allowed : primary.Allowed outer.length (afterPrimary next mark)) (lists : Lists)
    (rest : List Text) :
    (body ⟨name, outer, lists, .after count primary⟩).run (markTokens mark ++ rest) =
      (body ⟨name, outer, lists, (Factor.mk count primary mark).want⟩).run rest := by
  cases mark with
  | none => rfl
  | some mark =>
    cases primary with
    | nothing => cases mark <;> cases allowed
    | _ => cases mark <;> exact run_on rfl rest

-- By recursion on trees: the tokens of a tree lead from where it may begin to
-- where it has just ended, whatever comes behind them.
mutual

theorem Primary.run {outer : List Level} {next : Kind} (primary : Primary) (count : Option Text)
    (lists : Lists) (rest : List Text) (allowed : primary.Allowed outer.length next) :
    (body ⟨name, outer, lists, .expecting count⟩).run (primary.tokens ++ rest) =
      (body ⟨name, outer, lists, .after count primary⟩).run rest := by
  cases primary with
  | bracketed bracket inner =>
    have shallow := allowed.1
    have inside : inner.Allowed (Level.mk bracket count lists :: outer).length bracket.closing :=
      allowed.2
    have opens : (⟨name, outer, lists, .expecting count⟩ : Inside).primary count
          bracket.opening.symbol =
        .on (body ⟨name, ⟨bracket, count, lists⟩ :: outer, {}, .factor⟩) := by
      cases bracket <;> exact if_pos shallow
    have uncounted : Kind.classify bracket.opening.symbol ≠ .integer := by
      cases bracket <;> decide
    have closes : (⟨name, ⟨bracket, count, lists⟩ :: outer, inner.lists,
          inner.final.want⟩ : Inside).link inner.final bracket.closing.symbol =
        .on (body ⟨name, outer, lists, .suffix count (.bracketed bracket inner)⟩) := by
      have whole := Lists.whole_last inner
      cases bracket <;> exact congrArg
        (fun whole => Step.on (body ⟨name, outer, lists, .suffix count (.bracketed _ whole)⟩)) whole
    rw [Primary.tokens, List.cons_append, run_expecting uncounted opens, List.append_assoc,
      Definitions.run inner _ inside]
    exact run_link
      (by simpa using Definitions.final_allowed inside)
      (by cases bracket <;> decide) closes rest
  | name text | literal text | special text =>
    have kind := allowed
    simp only [Primary.Allowed] at kind
    refine run_expecting ?_ ?_ rest
    · simp [kind]
    · simp only [Inside.primary, kind]
      rfl
  | nothing => rfl

theorem Factor.run {outer : List Level} {next : Kind} (factor : Factor) (lists : Lists)
    (rest : List Text) (allowed : factor.Allowed outer.length next) :
    (body ⟨name, outer, lists, .factor⟩).run (factor.tokens ++ rest) =
      (body ⟨name, outer, lists, factor.want⟩).run rest := by
  obtain ⟨count, primary, mark⟩ := factor
  rw [Factor.tokens, List.append_assoc, List.append_assoc, run_count allowed.1,
    Primary.run primary _ _ _ allowed.2]
  exact run_mark allowed.2 lists rest

theorem Term.run {outer : List Level} {next : Kind} (term : Term)
    (definitions : Option Definitions) (terms : Option Definition)
    (rest : List Text) (allowed : term.Allowed outer.length next) :
    (body ⟨name, outer, ⟨definitions, terms, none⟩, .factor⟩).run (term.tokens ++ rest) =
      (body ⟨name, outer, ⟨definitions, terms, term.kept⟩, term.last.want⟩).run rest := by
  cases term with
  | plain factor => exact Factor.run factor _ rest allowed
  | except kept dropped =>
    rw [Term.tokens, List.append_assoc, Factor.run kept _ _ allowed.1, List.cons_append,
      run_link allowed.1 (by decide) rfl]
    exact Factor.run dropped _ rest allowed.2

theorem Definition.run {outer : List Level} {next : Kind} (definition : Definition)
    (definitions : Option Definitions) (rest : List Text)
    (allowed : definition.Allowed outer.length next) :
    (body ⟨name, outer, ⟨definitions, none, none⟩, .factor⟩).run (definition.tokens ++ rest) =
      (body ⟨name, outer, ⟨definitions, definition.earlier, definition.last.kept⟩,
        definition.final.want⟩).run rest := by
  cases definition with
  | one term => exact Term.run term _ _ rest allowed
  | snoc earlier term =>
    rw [Definition.tokens, List.append_assoc, Definition.run earlier _ _ allowed.1,
      List.cons_append,
      run_link (Definition.final_allowed allowed.1) (by decide) rfl]
    simp only [Lists.definition_last]
    exact Term.run term _ _ rest allowed.2

theorem Definitions.run {outer : List Level} {next : Kind} (definitions : Definitions)
    (rest : List Text) (allowed : definitions.Allowed outer.length next) :
    (body ⟨name, outer, {}, .factor⟩).run (definitions.tokens ++ rest) =
      (body ⟨name, outer, definitions.lists, definitions.final.want⟩).run rest := by
  cases definitions with
  | one definition => exact Definition.run definition _ rest allowed
  | snoc earlier definition =>
    rw [Definitions.tokens, List.append_assoc, Definitions.run earlier _ allowed.1,
      List.cons_append,
      run_link (Definitions.final_allowed allowed.1)
        (by decide) rfl]
    simp only [Lists.whole_last]
    exact Definition.run definition _ rest allowed.2

end

theorem SyntaxRule.run {done : SyntaxRule} (allowed : done.Allowed) (rest : List Text) :
    Partial.rule.run (done.tokens ++ rest) =
      (Partial.rule.run rest).map fun (rules, last) => (done :: rules, last) := by
  obtain ⟨name, definitions, stop⟩ := done
  obtain ⟨named, inside, stopped⟩ := allowed
  dsimp only at named inside stopped
  have begins : Partial.rule.advance name = .on (.defining name) := if_pos named
  have defines : (defining name).advance Kind.defining.symbol =
      .on (body ⟨name, [], {}, .factor⟩) := rfl
  have ends : (body ⟨name, [], definitions.lists, definitions.final.want⟩).advance stop =
      .finished ⟨name, definitions, stop⟩ := by
    have ready := Definitions.final_allowed inside
    rw [← stopped] at ready
    have linked := @Inside.advance_want name [] _ _ definitions.lists ready (by simp [stopped])
    refine linked.trans ?_
    unfold Inside.link
    rw [stopped]
    exact congrArg (fun whole => Step.finished ⟨name, whole, stop⟩) (Lists.whole_last definitions)
  simp only [SyntaxRule.tokens, List.cons_append, List.append_assoc, List.nil_append]
  have within : definitions.Allowed ([] : List Level).length .terminator := inside
  rw [run_on begins, run_on defines, Definitions.run definitions _ within, run_finished ends]

theorem run_rules {rules : List SyntaxRule} (allowed : ∀ rule ∈ rules, rule.Allowed) :
    Partial.rule.run (rules.flatMap SyntaxRule.tokens) = some (rules, .rule) := by
  induction rules with
  | nil => rfl
  | cons first rules ih =>
    rw [List.flatMap_cons, SyntaxRule.run (allowed first (by simp)),
      ih fun rule member => allowed rule (List.mem_cons_of_mem _ member)]
    rfl

end Parse

namespace Derivation

variable {tokens : List Text}

theorem run_eq (derivation : Derivation tokens) :
    Parse.Partial.rule.run tokens = some (derivation.rules, .rule) := by
  have run := Parse.run_rules derivation.allowed
  rwa [derivation.tokens_eq] at run

/-- The grammar of grammars is unambiguous: reading returns the derivation. -/
instance : Subsingleton (Derivation tokens) where
  allEq first second := by
    have same := first.run_eq.symm.trans second.run_eq
    simp only [Option.some.injEq, Prod.mk.injEq, and_true] at same
    exact Derivation.ext same

end Derivation
end GrammarDesk
