import GrammarDesk.Proofs.Analysis.Issues
import GrammarDesk.Proofs.Reading.Alternatives

/-! Brackets as the reader pairs them, and as the checks count them. The reader keeps
all open brackets on one stack, while a check counts the brackets of one shape and passes
over the others. Between two brackets that the reader pairs, whatever is opened is closed,
so that the count comes out even there; what follows them is never looked at. -/
namespace GrammarDesk

def Kind.isBracket : Kind → Bool
  | openSquare | openBrace | openParen | closeSquare | closeBrace | closeParen => true
  | _ => false

namespace Bracket

variable (bracket : Bracket)

theorem isBracket_opening : bracket.opening.isBracket = true := by cases bracket <;> rfl

theorem isBracket_closing : bracket.closing.isBracket = true := by cases bracket <;> rfl

theorem symbol_opening_ne_closing (other : Bracket) :
    bracket.opening.symbol ≠ other.closing.symbol := by
  cases bracket <;> cases other <;> decide

theorem symbol_opening_inj {bracket other : Bracket} :
    bracket.opening.symbol = other.opening.symbol ↔ bracket = other := by
  cases bracket <;> cases other <;> decide

theorem symbol_closing_inj {bracket other : Bracket} :
    bracket.closing.symbol = other.closing.symbol ↔ bracket = other := by
  cases bracket <;> cases other <;> decide

end Bracket

namespace Issue

/-- All that is entered in these tokens is left in them, and nothing else is. -/
def Neutral (enter leave : Text) (tokens : List Text) : Prop :=
  ∀ depth rest, passes enter leave depth (tokens ++ rest) =
    (passes enter leave depth rest).map (· + tokens.length)

namespace Neutral

variable {enter leave text : Text} {tokens more : List Text}

theorem nil : Neutral enter leave [] := by
  intro depth rest
  simp

theorem append (first : Neutral enter leave tokens) (second : Neutral enter leave more) :
    Neutral enter leave (tokens ++ more) := by
  intro depth rest
  rw [List.append_assoc, first, second, Option.map_map, List.length_append]
  refine congrArg (Option.map · _) (funext fun passed => ?_)
  simp only [Function.comp_apply]
  omega

theorem token (enters : text ≠ enter) (leaves : text ≠ leave) : Neutral enter leave [text] :=
  fun depth _ => passes_other depth enters leaves

theorem wrap (apart : leave ≠ enter) (inner : Neutral enter leave tokens) :
    Neutral enter leave (enter :: (tokens ++ [leave])) := by
  intro depth rest
  rw [List.cons_append, List.append_assoc, passes_enter, inner, List.singleton_append,
    passes_leave depth apart, Option.map_map, Option.map_map]
  refine congrArg (Option.map · _) (funext fun passed => ?_)
  simp only [Function.comp_apply, List.length_cons, List.length_append, List.length_nil]
  omega

theorem passes_eq (apart : leave ≠ enter) (inner : Neutral enter leave tokens)
    (rest : List Text) : passes enter leave 0 (tokens ++ leave :: rest) = some tokens.length := by
  rw [inner, passes_left apart, Option.map_some, Nat.zero_add]

end Neutral

/-- Brackets of each shape come in pairs in these tokens, read in either direction. -/
def Paired (tokens : List Text) : Prop :=
  ∀ bracket : Bracket, Neutral bracket.opening.symbol bracket.closing.symbol tokens ∧
    Neutral bracket.closing.symbol bracket.opening.symbol tokens.reverse

namespace Paired

variable {text : Text} {tokens more before after : List Text}

theorem nil : Paired [] := fun _ => ⟨.nil, .nil⟩

theorem append (first : Paired tokens) (second : Paired more) : Paired (tokens ++ more) := by
  intro bracket
  rw [List.reverse_append]
  exact ⟨(first bracket).1.append (second bracket).1, (second bracket).2.append (first bracket).2⟩

theorem token (other : (Kind.classify text).isBracket = false) : Paired [text] := by
  intro bracket
  have opening : text ≠ bracket.opening.symbol := by
    rintro rfl
    simp [bracket.isBracket_opening] at other
  have closing : text ≠ bracket.closing.symbol := by
    rintro rfl
    simp [bracket.isBracket_closing] at other
  exact ⟨.token opening closing, .token closing opening⟩

theorem wrap (inner : Paired tokens) (bracket : Bracket) :
    Paired (bracket.opening.symbol :: (tokens ++ [bracket.closing.symbol])) := by
  intro other
  obtain ⟨forward, backward⟩ := inner other
  by_cases same : bracket = other
  · subst same
    have apart := bracket.symbol_opening_ne_closing bracket
    refine ⟨forward.wrap apart.symm, ?_⟩
    simpa using backward.wrap apart
  · -- Brackets of another shape are passed over.
    have opening : bracket.opening.symbol ≠ other.opening.symbol :=
      mt Bracket.symbol_opening_inj.mp same
    have closing : bracket.closing.symbol ≠ other.closing.symbol :=
      mt Bracket.symbol_closing_inj.mp same
    have opens := bracket.symbol_opening_ne_closing other
    have closes := (other.symbol_opening_ne_closing bracket).symm
    refine ⟨(Neutral.token opening opens).append (forward.append (.token closes closing)), ?_⟩
    have whole := (Neutral.token closing closes).append (backward.append (.token opens opening))
    simpa using whole

theorem closing?_eq (inner : Paired tokens) (bracket : Bracket) (before after : List Text) :
    closing? (before ++ bracket.opening.symbol :: (tokens ++ bracket.closing.symbol :: after))
      bracket.opening.symbol bracket.closing.symbol before.length =
        some (before.length + 1 + tokens.length) := by
  have apart := (bracket.symbol_opening_ne_closing bracket).symm
  rw [closing?_append, (inner bracket).1.passes_eq apart, Option.map_some]

theorem opening?_eq (inner : Paired tokens) (bracket : Bracket) (before after : List Text) :
    opening? (before ++ bracket.opening.symbol :: (tokens ++ bracket.closing.symbol :: after))
      bracket.opening.symbol bracket.closing.symbol (before.length + 1 + tokens.length) =
        some before.length := by
  have apart := bracket.symbol_opening_ne_closing bracket
  have place : (before ++ bracket.opening.symbol :: tokens).length =
      before.length + 1 + tokens.length := by
    rw [List.length_append, List.length_cons]
    omega
  have turned : (before ++ bracket.opening.symbol :: tokens).reverse =
      tokens.reverse ++ bracket.opening.symbol :: before.reverse := by simp
  rw [← List.cons_append, ← List.append_assoc, ← place, opening?_append, turned,
    (inner bracket).2.passes_eq apart, Option.map_some, place, List.length_reverse]
  exact congrArg some (by omega)

end Paired

end Issue

namespace Parse

open Issue

theorem paired_symbol {kind : Kind} (delimiter : kind.isDelimiter)
    (other : kind.isBracket = false) : Paired [kind.symbol] :=
  .token (by rw [Kind.classify_symbol delimiter, other])

theorem paired_countTokens {count : Option Text} (allowed : CountAllowed count) :
    Paired (countTokens count) := by
  cases count with
  | none => exact .nil
  | some count =>
    have integer : Paired [count] := .token (by rw [allowed.1]; rfl)
    exact integer.append (paired_symbol rfl rfl)

theorem paired_markTokens (mark : Option Mark) : Paired (markTokens mark) := by
  cases mark with
  | none => exact .nil
  | some mark => cases mark <;> exact paired_symbol rfl rfl

mutual

theorem Primary.paired {opened : Nat} {next : Kind} (primary : Primary)
    (allowed : primary.Allowed opened next) : Paired primary.tokens := by
  cases primary with
  | bracketed bracket inner => exact (inner.paired allowed.2).wrap bracket
  | name text => exact .token (by rw [show Kind.classify text = .name from allowed]; rfl)
  | literal text => exact .token (by rw [show Kind.classify text = .literal from allowed]; rfl)
  | special text => exact .token (by rw [show Kind.classify text = .special from allowed]; rfl)
  | nothing => exact .nil

theorem Factor.paired {opened : Nat} {next : Kind} (factor : Factor)
    (allowed : factor.Allowed opened next) : Paired factor.tokens := by
  cases factor with
  | mk count primary mark =>
    exact ((paired_countTokens allowed.1).append (primary.paired allowed.2)).append
      (paired_markTokens mark)

theorem Term.paired {opened : Nat} {next : Kind} (term : Term)
    (allowed : term.Allowed opened next) : Paired term.tokens := by
  cases term with
  | plain factor => exact factor.paired allowed
  | except kept dropped =>
    have minus : Paired [Kind.minus.symbol] := paired_symbol rfl rfl
    exact (kept.paired allowed.1).append (minus.append (dropped.paired allowed.2))

theorem Definition.paired {opened : Nat} {next : Kind} (definition : Definition)
    (allowed : definition.Allowed opened next) : Paired definition.tokens := by
  cases definition with
  | one term => exact term.paired allowed
  | snoc earlier term =>
    have comma : Paired [Kind.comma.symbol] := paired_symbol rfl rfl
    exact (earlier.paired allowed.1).append (comma.append (term.paired allowed.2))

theorem Definitions.paired {opened : Nat} {next : Kind} (definitions : Definitions)
    (allowed : definitions.Allowed opened next) : Paired definitions.tokens := by
  cases definitions with
  | one definition => exact definition.paired allowed
  | snoc earlier definition =>
    have bar : Paired [Kind.bar.symbol] := paired_symbol rfl rfl
    exact (earlier.paired allowed.1).append (bar.append (definition.paired allowed.2))

end

end Parse

namespace Reading

open Parse

/-- The reader takes the token at `index`: it halts neither there nor before. -/
def Takes (tokens : List Text) (index : Nat) : Prop :=
  index < tokens.length ∧ ∀ halt, (ofTokens tokens).outcome = .haltedAt halt → index < halt

theorem takes_iff {tokens : List Text} {index : Nat} : Takes tokens index ↔
    index < tokens.length ∧ (Partial.rule.run (tokens.take (index + 1))).isSome := by
  refine and_congr_right fun inside => ?_
  constructor
  · intro before
    cases outcome : (ofTokens tokens).outcome with
    | complete =>
      refine Partial.isSome_run_take inside ?_
      rw [List.take_length]
      exact (ofTokens_complete_iff tokens).mp outcome
    | haltedAt halt =>
      have survives := ((ofTokens_haltedAt_iff tokens halt).mp outcome).2.1
      exact Partial.isSome_run_take (before halt outcome) survives
  · intro survives halt outcome
    obtain ⟨-, -, stops⟩ := (ofTokens_haltedAt_iff tokens halt).mp outcome
    exact Nat.lt_of_not_le fun le => stops (Partial.isSome_run_take (Nat.succ_le_succ le) survives)

/-- The token at `closer` completes a construct in brackets that begins with the token at
`opener`: behind it the reader holds the construct, which is spelled by these tokens. -/
structure Completes (tokens : List Text) (bracket : Bracket) (inner : Definitions)
    (opener closer : Nat) : Prop where
  taken : Takes tokens closer
  held : ∃ rules name outer lists count, Reaches tokens (closer + 1) rules
    (.body ⟨name, outer, lists, .suffix count (.bracketed bracket inner)⟩)
  spelled : opener + (Primary.bracketed bracket inner).tokens.length = closer + 1

section

variable {tokens : List Text} {bracket : Bracket} {inner : Definitions} {opener closer : Nat}

theorem exists_before {stop : Nat} {rules : List SyntaxRule} {name : Text} {outer : List Level}
    {lists : Lists} {count : Option Text} {primary : Primary}
    (reaches : Reaches tokens stop rules (.body ⟨name, outer, lists, .suffix count primary⟩)) :
    (∀ next, primary.Allowed outer.length next) ∧
      ∃ before, tokens.take stop = before ++ primary.tokens := by
  have fresh : Partial.rule.Sound := trivial
  obtain ⟨sound, -, spelled⟩ := fresh.run reaches
  have read : tokens.take stop = rules.flatMap SyntaxRule.tokens ++ _ := spelled.symm
  refine ⟨sound.2.2, rules.flatMap SyntaxRule.tokens ++ name :: Kind.defining.symbol ::
    (outerTokens outer ++ (lists.tokens ++ countTokens count)), ?_⟩
  rw [read]
  simp [Partial.tokens, Inside.tokensWith, Want.tokens]

/-- Every closing bracket that the reader takes completes a construct. -/
theorem exists_completes (taken : Takes tokens closer)
    (closes : tokens[closer]? = some bracket.closing.symbol) :
    ∃ inner opener, Completes tokens bracket inner opener closer := by
  obtain ⟨inside, survives⟩ := takes_iff.mp taken
  have within : closer ≤ (tokens.take (closer + 1)).length := by
    rw [List.length_take]
    omega
  have here : (tokens.take (closer + 1))[closer]? = some bracket.closing.symbol := by
    rw [List.getElem?_take_of_lt (Nat.lt_succ_self closer), closes]
  have kind : Kind.classify bracket.closing.symbol = bracket.closing :=
    Kind.classify_symbol bracket.isDelimiter_closing
  obtain ⟨rules, stage, reaches⟩ := Reaches.exists_of_isSome survives within
  obtain ⟨next, moved, reaches⟩ := reaches.step survives here
    (reaches.unfinished (by rw [kind]; cases bracket <;> decide))
  obtain ⟨inside', level, outer, factor, -, -, -, -, rfl⟩ := Partial.advance_closing kind moved
  have held : Reaches tokens (closer + 1) rules (.body ⟨inside'.name, outer, level.lists,
      .suffix level.count (.bracketed bracket (inside'.lists.whole factor))⟩) := by
    rw [Reaches, List.take_take, Nat.min_self] at reaches
    exact reaches
  obtain ⟨-, before, split⟩ := exists_before held
  refine ⟨_, before.length, taken, ⟨rules, _, outer, _, _, held⟩, ?_⟩
  rw [← List.length_append, ← split, List.length_take_of_le inside]

theorem Completes.exists_split (completes : Completes tokens bracket inner opener closer) :
    ∃ before after, tokens =
        before ++ bracket.opening.symbol :: (inner.tokens ++ bracket.closing.symbol :: after) ∧
      before.length = opener ∧ before.length + 1 + inner.tokens.length = closer ∧
      Issue.Paired inner.tokens := by
  obtain ⟨⟨inside, -⟩, ⟨rules, name, outer, lists, count, reaches⟩, spelled⟩ := completes
  obtain ⟨allowed, before, split⟩ := exists_before reaches
  have width := congrArg List.length split
  rw [List.length_append, List.length_take_of_le inside] at width
  simp only [Primary.tokens, List.length_cons, List.length_append, List.length_nil] at spelled width
  refine ⟨before, tokens.drop (closer + 1), ?_, by omega, by omega,
    inner.paired (allowed .terminator).2⟩
  conv => lhs; rw [← List.take_append_drop (closer + 1) tokens, split]
  simp [Primary.tokens]

theorem Completes.takes_mark (completes : Completes tokens bracket inner opener closer)
    {mark : Text} (next : tokens[closer + 1]? = some mark)
    (kind : Kind.classify mark = .star ∨ Kind.classify mark = .plus) :
    Takes tokens (closer + 1) := by
  obtain ⟨-, ⟨rules, name, outer, lists, count, reaches⟩, -⟩ := completes
  obtain ⟨inside, rfl⟩ := List.getElem?_eq_some_iff.mp next
  obtain ⟨after, moved⟩ : ∃ after, (Partial.body ⟨name, outer, lists,
      .suffix count (.bracketed bracket inner)⟩).advance tokens[closer + 1] = .on after := by
    rcases kind with kind | kind <;>
      exact ⟨_, by simp only [Partial.advance, Inside.advance, Inside.suffix, kind]; rfl⟩
  refine takes_iff.mpr ⟨inside, ?_⟩
  rw [List.take_succ_eq_append_getElem inside, Partial.run_append, reaches, Option.bind_some]
  dsimp only
  rw [Partial.run_on moved]
  rfl

end

end Reading

namespace Issue

open Parse Reading

variable {tokens : List Text}

theorem mem_positions {wanted : Text} {index : Nat} (stands : tokens[index]? = some wanted) :
    index ∈ positions tokens wanted := by
  refine List.mem_map.mpr ⟨(wanted, index), List.mem_filter.mpr ⟨?_, by simp⟩, rfl⟩
  rwa [List.mem_zipIdx_iff_getElem?]

theorem mem_find_of_repeated {opener closer : Nat}
    (closes : tokens[closer]? = some [')'])
    (opens : opening? tokens ['('] [')'] closer = some opener)
    (mark : tokens[closer + 1]? = some ['*'] ∨ tokens[closer + 1]? = some ['+']) :
    ⟨closer, .invalidRepetition,
      "invalid repetition: '*' and '+' are not allowed on a grouped expression"⟩ ∈ find tokens := by
  refine List.mem_append_right _ (List.mem_filterMap.mpr ⟨closer, mem_positions closes, ?_⟩)
  exact if_pos ⟨mark, by rw [opens]; rfl⟩

/-- The counts of the checks lead from each bracket of a pair to the other one. -/
structure Matched (tokens : List Text) (bracket : Bracket) (opener closer : Nat) : Prop where
  opens : tokens[opener]? = some bracket.opening.symbol
  closes : tokens[closer]? = some bracket.closing.symbol
  forward : closing? tokens bracket.opening.symbol bracket.closing.symbol opener = some closer
  backward : opening? tokens bracket.opening.symbol bracket.closing.symbol closer = some opener

theorem matched_of_completes {bracket : Bracket} {inner : Definitions} {opener closer : Nat}
    (completes : Completes tokens bracket inner opener closer) :
    Matched tokens bracket opener closer := by
  obtain ⟨before, after, rfl, rfl, rfl, paired⟩ := completes.exists_split
  refine ⟨by simp, ?_, paired.closing?_eq bracket before after,
    paired.opening?_eq bracket before after⟩
  rw [List.getElem?_append_right (by omega)]
  have place : before.length + 1 + inner.tokens.length - before.length =
      inner.tokens.length + 1 := by omega
  rw [place, List.getElem?_cons_succ, List.getElem?_append_right (Nat.le_refl _), Nat.sub_self]
  rfl

/-- Each closing bracket that the reader takes completes a construct. Wherever the reader
stops later, the checks pair the brackets of the construct as the reader does, and a star
or a plus that is taken behind a group is reported at the group's closing bracket. -/
theorem completed_matched (tokens : List Text) :
    (∀ bracket closer, Takes tokens closer →
      tokens[closer]? = some (Bracket.closing bracket).symbol →
      ∃ inner opener, Completes tokens bracket inner opener closer) ∧
    ∀ bracket inner opener closer, Completes tokens bracket inner opener closer →
      Matched tokens bracket opener closer ∧
      (bracket = .paren → ∀ mark ∈ tokens[closer + 1]?,
        Kind.classify mark = .star ∨ Kind.classify mark = .plus →
        Takes tokens (closer + 1) ∧ ⟨closer, .invalidRepetition,
          "invalid repetition: '*' and '+' are not allowed on a grouped expression"⟩ ∈
            find tokens) := by
  refine ⟨fun bracket closer => exists_completes, fun bracket inner opener closer completes => ?_⟩
  have pair := matched_of_completes completes
  refine ⟨pair, ?_⟩
  rintro rfl mark next kind
  refine ⟨completes.takes_mark next kind, mem_find_of_repeated pair.closes pair.backward ?_⟩
  rw [show tokens[closer + 1]? = some mark from next]
  rcases kind with star | plus
  · exact .inl (congrArg some (Kind.eq_symbol star rfl (by decide)))
  · exact .inr (congrArg some (Kind.eq_symbol plus rfl (by decide)))

/-- A group with brackets of each shape inside, in front of brackets that are in no pair. -/
def mixedBrackets : List Text :=
  ["a", "=", "(", "\x7b", "[", "b", "]", "\x7d", ",", "(", "c", ")", ")", "*", ";", "\x7d",
    "("].map String.toList

theorem completed_matched_mixed : (ofTokens mixedBrackets).outcome = .haltedAt 15 ∧
    (∃ inner, Completes mixedBrackets .paren inner 2 12) ∧ Matched mixedBrackets .paren 2 12 ∧
    12 ∈ (find mixedBrackets).map Issue.index := by
  have halts : (ofTokens mixedBrackets).outcome = .haltedAt 15 := by decide
  have taken : Takes mixedBrackets 12 := by
    refine ⟨by decide, fun halt other => ?_⟩
    cases halts.symm.trans other
    decide
  have completes : Completes mixedBrackets .paren _ 2 12 := ⟨taken, ⟨_, _, _, _, _, rfl⟩, rfl⟩
  obtain ⟨matched, reported⟩ := (completed_matched mixedBrackets).2 _ _ _ _ completes
  have issue := (reported rfl _ rfl (.inl rfl)).2
  exact ⟨halts, ⟨_, completes⟩, matched, List.mem_map_of_mem issue⟩

end Issue
end GrammarDesk
