import GrammarDesk.Proofs.Reading.Partial

/-! Every stage the reader can reach is the beginning of a derivation: what it
holds is allowed, spells the tokens read so far, and can be completed. -/
namespace GrammarDesk
namespace Parse

/-- The tokens of a finished part and of the symbol after it. -/
def tokensBefore (symbol : Kind) : Option (List Text) → List Text
  | none => []
  | some tokens => tokens ++ [symbol.symbol]

namespace Lists

def tokens (lists : Lists) : List Text :=
  tokensBefore .bar (lists.definitions.map Definitions.tokens) ++
    (tokensBefore .comma (lists.terms.map Definition.tokens) ++
      tokensBefore .minus (lists.kept.map Factor.tokens))

/-- All finished parts are allowed before the symbols that ended them. -/
structure Sound (opened : Nat) (lists : Lists) : Prop where
  definitions : ∀ definitions ∈ lists.definitions, definitions.Allowed opened .bar
  terms : ∀ terms ∈ lists.terms, terms.Allowed opened .comma
  kept : ∀ kept ∈ lists.kept, kept.Allowed opened .minus

variable {lists : Lists} {factor : Factor} {opened : Nat} {next : Kind}

theorem sound_empty : Sound opened {} where
  definitions := by simp
  terms := by simp
  kept := by simp

theorem term_tokens (lists : Lists) (factor : Factor) : (lists.term factor).tokens =
    tokensBefore .minus (lists.kept.map Factor.tokens) ++ factor.tokens := by
  unfold term
  cases lists.kept <;> simp [Term.tokens, tokensBefore]

theorem definition_tokens (lists : Lists) (factor : Factor) : (lists.definition factor).tokens =
    tokensBefore .comma (lists.terms.map Definition.tokens) ++
      (tokensBefore .minus (lists.kept.map Factor.tokens) ++ factor.tokens) := by
  unfold definition
  cases lists.terms <;> simp [Definition.tokens, term_tokens, tokensBefore]

theorem whole_tokens (lists : Lists) (factor : Factor) :
    (lists.whole factor).tokens = lists.tokens ++ factor.tokens := by
  unfold whole tokens
  cases lists.definitions <;> simp [Definitions.tokens, definition_tokens, tokensBefore]

theorem Sound.term (sound : lists.Sound opened) (allowed : factor.Allowed opened next) :
    (lists.term factor).Allowed opened next := by
  unfold Lists.term
  cases kept : lists.kept with
  | none => exact allowed
  | some factor => exact ⟨sound.kept _ kept, allowed⟩

theorem Sound.definition (sound : lists.Sound opened) (allowed : factor.Allowed opened next) :
    (lists.definition factor).Allowed opened next := by
  unfold Lists.definition
  cases terms : lists.terms with
  | none => exact sound.term allowed
  | some earlier => exact ⟨sound.terms _ terms, sound.term allowed⟩

theorem Sound.whole (sound : lists.Sound opened) (allowed : factor.Allowed opened next) :
    (lists.whole factor).Allowed opened next := by
  unfold Lists.whole
  cases definitions : lists.definitions with
  | none => exact sound.definition allowed
  | some earlier => exact ⟨sound.definitions _ definitions, sound.definition allowed⟩

theorem tokens_minus (free : lists.kept = none) : tokens { lists with kept := some factor } =
    lists.tokens ++ (factor.tokens ++ [Kind.minus.symbol]) := by
  simp [tokens, free, tokensBefore]

theorem tokens_comma (lists : Lists) (factor : Factor) :
    tokens { lists with terms := some (lists.definition factor), kept := none } =
      lists.tokens ++ (factor.tokens ++ [Kind.comma.symbol]) := by
  simp [tokens, definition_tokens, tokensBefore]

theorem tokens_bar (lists : Lists) (factor : Factor) :
    tokens { definitions := some (lists.whole factor) } =
      lists.tokens ++ (factor.tokens ++ [Kind.bar.symbol]) := by
  simp [tokens, whole_tokens, tokensBefore]

theorem Sound.minus (sound : lists.Sound opened) (allowed : factor.Allowed opened .minus) :
    Sound opened { lists with kept := some factor } where
  definitions := sound.definitions
  terms := sound.terms
  kept := by rintro _ ⟨⟩; exact allowed

theorem Sound.comma (sound : lists.Sound opened) (allowed : factor.Allowed opened .comma) :
    Sound opened { lists with terms := some (lists.definition factor), kept := none } where
  definitions := sound.definitions
  terms := by rintro _ ⟨⟩; exact sound.definition allowed
  kept := by simp

theorem Sound.bar (sound : lists.Sound opened) (allowed : factor.Allowed opened .bar) :
    Sound opened { definitions := some (lists.whole factor) } where
  definitions := by rintro _ ⟨⟩; exact sound.whole allowed
  terms := by simp
  kept := by simp

end Lists

def Want.tokens : Want → List Text
  | factor => []
  | star count => [count]
  | primary count => countTokens (some count)
  | suffix count inner => countTokens count ++ inner.tokens
  | link ended => ended.tokens

/-- A finished primary or factor is not empty, so it is allowed before any token. -/
def Want.Sound (opened : Nat) : Want → Prop
  | factor => True
  | star count | primary count => CountAllowed (some count)
  | suffix count inner => CountAllowed count ∧ ∀ next, inner.Allowed opened next
  | link ended => ∀ next, ended.Allowed opened next

/-- The tokens outside the innermost open bracket, that bracket included. -/
def outerTokens : List Level → List Text
  | [] => []
  | level :: outer =>
    outerTokens outer ++ (level.lists.tokens ++
      (countTokens level.count ++ [level.bracket.opening.symbol]))

def OuterSound : List Level → Prop
  | [] => True
  | level :: outer =>
    outer.length < maxNesting ∧ level.lists.Sound outer.length ∧ CountAllowed level.count ∧
      OuterSound outer

def Inside.tokensWith (inside : Inside) (tokens : List Text) : List Text :=
  inside.name :: Kind.defining.symbol ::
    (outerTokens inside.outer ++ (inside.lists.tokens ++ tokens))

/-- All of a rule under construction but what it waits for. -/
structure Inside.Grounded (inside : Inside) : Prop where
  name : Kind.classify inside.name = .name
  outer : OuterSound inside.outer
  lists : inside.lists.Sound inside.outer.length

namespace Partial

def tokens : Partial → List Text
  | rule => []
  | defining name => [name]
  | body inside => inside.tokensWith inside.want.tokens

def Sound : Partial → Prop
  | rule => True
  | defining name => Kind.classify name = .name
  | body inside => inside.Grounded ∧ inside.want.Sound inside.outer.length

end Partial

/-- A step that has read `tokens` since its rule began. -/
def Step.Reads (tokens : List Text) : Step → Prop
  | on next => next.Sound ∧ next.tokens = tokens
  | finished rule => rule.Allowed ∧ rule.tokens = tokens
  | refused | overflow => True

namespace Inside

variable {inside : Inside} {text : Text}

theorem Grounded.link (grounded : inside.Grounded) {factor : Factor}
    (allowed : factor.Allowed inside.outer.length (Kind.classify text)) :
    (inside.link factor text).Reads (inside.tokensWith (factor.tokens ++ [text])) := by
  obtain ⟨name, outer, lists, want⟩ := inside
  obtain ⟨named, outside, sound⟩ := grounded
  unfold Inside.link
  dsimp only at named outside sound allowed ⊢
  -- The cases are a minus, a comma, a bar, a terminator, and what can only be a closing bracket.
  split
  case h_1 kind =>
    rw [kind] at allowed
    rw [Kind.eq_symbol kind rfl (by decide)]
    split
    · rename_i free
      refine ⟨⟨⟨named, outside, sound.minus allowed⟩, trivial⟩, ?_⟩
      simp [Partial.tokens, tokensWith, Lists.tokens_minus (Option.isNone_iff_eq_none.mp free),
        Want.tokens]
    · trivial
  case h_2 kind =>
    rw [kind] at allowed
    rw [Kind.eq_symbol kind rfl (by decide)]
    refine ⟨⟨⟨named, outside, sound.comma allowed⟩, trivial⟩, ?_⟩
    simp [Partial.tokens, tokensWith, Lists.tokens_comma, Want.tokens]
  case h_3 kind =>
    rw [kind] at allowed
    rw [Kind.eq_symbol kind rfl (by decide)]
    refine ⟨⟨⟨named, outside, sound.bar allowed⟩, trivial⟩, ?_⟩
    simp [Partial.tokens, tokensWith, Lists.tokens_bar, Want.tokens]
  case h_4 kind =>
    rw [kind] at allowed
    cases outer with
    | nil =>
      refine ⟨⟨named, sound.whole allowed, kind⟩, ?_⟩
      simp [SyntaxRule.tokens, tokensWith, outerTokens, Lists.whole_tokens]
    | cons level outer => trivial
  case h_5 =>
    cases outer with
    | nil => trivial
    | cons level outer =>
      obtain ⟨nesting, around, count, outside⟩ := outside
      simp only
      split
      · rename_i kind
        rw [kind] at allowed
        have closing : text = level.bracket.closing.symbol :=
          Kind.eq_symbol kind (by simp) (by cases level.bracket <;> decide)
        refine ⟨⟨⟨named, outside, around⟩, count, fun _ => ⟨nesting, sound.whole allowed⟩⟩, ?_⟩
        simp [Partial.tokens, tokensWith, outerTokens, Want.tokens, Primary.tokens,
          Lists.whole_tokens, closing]
      · trivial

theorem Grounded.suffix (grounded : inside.Grounded) {count : Option Text} {primary : Primary}
    (counts : CountAllowed count) (allowed : ∀ next, primary.Allowed inside.outer.length next) :
    (inside.suffix count primary text).Reads
      (inside.tokensWith (countTokens count ++ (primary.tokens ++ [text]))) := by
  unfold Inside.suffix
  split
  · rename_i kind
    refine ⟨⟨⟨grounded.name, grounded.outer, grounded.lists⟩, fun _ => ⟨counts, allowed _⟩⟩, ?_⟩
    rw [Kind.eq_symbol kind rfl (by decide)]
    simp [Partial.tokens, tokensWith, Want.tokens, Factor.tokens, markTokens, Mark.kind]
  · rename_i kind
    refine ⟨⟨⟨grounded.name, grounded.outer, grounded.lists⟩, fun _ => ⟨counts, allowed _⟩⟩, ?_⟩
    rw [Kind.eq_symbol kind rfl (by decide)]
    simp [Partial.tokens, tokensWith, Want.tokens, Factor.tokens, markTokens, Mark.kind]
  · have whole : Factor.Allowed inside.outer.length (Kind.classify text) (.mk count primary none) :=
      ⟨counts, allowed _⟩
    simpa [Factor.tokens, markTokens] using grounded.link whole

theorem Grounded.primary (grounded : inside.Grounded) {count : Option Text}
    (counts : CountAllowed count) :
    (inside.primary count text).Reads (inside.tokensWith (countTokens count ++ [text])) := by
  obtain ⟨named, outside, sound⟩ := grounded
  have took {primary : Primary} (spelled : primary.tokens = [text])
      (allowed : ∀ next, primary.Allowed inside.outer.length next) :
      Step.Reads (inside.tokensWith (countTokens count ++ [text]))
        (.on (.body { inside with want := .suffix count primary })) := by
    refine ⟨⟨⟨named, outside, sound⟩, counts, allowed⟩, ?_⟩
    simp [Partial.tokens, tokensWith, Want.tokens, spelled]
  unfold Inside.primary
  dsimp only
  split
  case h_1 kind => exact took rfl fun _ => kind
  case h_2 kind => exact took rfl fun _ => kind
  case h_3 kind => exact took rfl fun _ => kind
  case h_4 =>
    split
    · rename_i follows
      have whole : Factor.Allowed inside.outer.length (Kind.classify text)
          (.mk count .nothing none) := ⟨counts, follows⟩
      simpa [Factor.tokens, Primary.tokens, markTokens] using link ⟨named, outside, sound⟩ whole
    · split
      · rename_i bracket opens
        split
        · rename_i shallow
          refine ⟨⟨⟨named, ⟨shallow, sound, counts, outside⟩, Lists.sound_empty⟩, trivial⟩, ?_⟩
          have opening : text = bracket.opening.symbol :=
            Kind.eq_symbol (Bracket.eq_opening opens) (by simp) (by cases bracket <;> decide)
          simp [Partial.tokens, tokensWith, outerTokens, Want.tokens, opening, Lists.tokens,
            tokensBefore]
        · trivial
      · trivial

theorem Grounded.advance (grounded : inside.Grounded)
    (wanted : inside.want.Sound inside.outer.length) :
    (inside.advance text).Reads (inside.tokensWith (inside.want.tokens ++ [text])) := by
  obtain ⟨named, outside, sound⟩ := grounded
  unfold Inside.advance
  cases want : inside.want with
  | factor =>
    dsimp only
    split
    · rename_i integer
      split
      · rename_i small
        exact ⟨⟨⟨named, outside, sound⟩, integer, small⟩, rfl⟩
      · trivial
    · exact primary ⟨named, outside, sound⟩ trivial
  | star count =>
    rw [want] at wanted
    dsimp only
    split
    · rename_i star
      refine ⟨⟨⟨named, outside, sound⟩, wanted⟩, ?_⟩
      rw [Kind.eq_symbol star rfl (by decide)]
      rfl
    · trivial
  | primary count =>
    rw [want] at wanted
    exact primary ⟨named, outside, sound⟩ wanted
  | suffix count inner =>
    rw [want] at wanted
    simpa [Want.tokens] using suffix ⟨named, outside, sound⟩ wanted.1 wanted.2
  | link ended =>
    rw [want] at wanted
    exact link ⟨named, outside, sound⟩ (wanted _)

end Inside

theorem Partial.Sound.advance {stage : Partial} (sound : stage.Sound) (text : Text) :
    (stage.advance text).Reads (stage.tokens ++ [text]) := by
  cases stage with
  | rule =>
    simp only [Partial.advance]
    split
    · rename_i name
      exact ⟨name, rfl⟩
    · trivial
  | defining name =>
    simp only [Partial.advance]
    split
    · rename_i defining
      rw [Kind.eq_symbol defining rfl (by decide)]
      exact ⟨⟨⟨sound, trivial, Lists.sound_empty⟩, trivial⟩, rfl⟩
    · trivial
  | body inside =>
    change Step.Reads _ (inside.advance text)
    simpa [tokens, Inside.tokensWith] using sound.1.advance sound.2

/-- What has been read is the finished rules and the current stage. -/
theorem Partial.Sound.run {stage : Partial} (sound : stage.Sound) {tokens : List Text}
    {rules : List SyntaxRule} {last : Partial} (reached : stage.run tokens = some (rules, last)) :
    last.Sound ∧ (∀ rule ∈ rules, rule.Allowed) ∧
      rules.flatMap SyntaxRule.tokens ++ last.tokens = stage.tokens ++ tokens := by
  induction tokens generalizing stage rules with
  | nil =>
    cases reached
    exact ⟨sound, by simp, by simp⟩
  | cons text texts ih =>
    have step := sound.advance text
    obtain ⟨next, moved, onward⟩ | ⟨done, more, moved, rfl, onward⟩ := run_cons_cases reached
    · rw [moved] at step
      obtain ⟨final, allowed, spelled⟩ := ih step.1 onward
      exact ⟨final, allowed, by rw [spelled, step.2]; simp⟩
    · rw [moved] at step
      have fresh : Partial.rule.Sound := trivial
      obtain ⟨final, allowed, spelled⟩ := ih fresh onward
      refine ⟨final, List.forall_mem_cons.mpr ⟨step.1, allowed⟩, ?_⟩
      rw [List.flatMap_cons, List.append_assoc, spelled, step.2]
      simp [tokens]

theorem Want.Sound.completes {opened : Nat} {want : Want} (sound : want.Sound opened) :
    ∃ factor : Factor, ∃ rest : List Text, factor.tokens = want.tokens ++ rest ∧
      ∀ next : Kind, next.followsNothing → factor.Allowed opened next := by
  cases want with
  | factor => exact ⟨.mk none .nothing none, [], rfl, fun next follows => ⟨trivial, follows⟩⟩
  | star count =>
    exact ⟨.mk (some count) .nothing none, [Kind.star.symbol], rfl,
      fun next follows => ⟨sound, follows⟩⟩
  | primary count =>
    exact ⟨.mk (some count) .nothing none, [], rfl, fun next follows => ⟨sound, follows⟩⟩
  | suffix count inner =>
    exact ⟨.mk count inner none, [], rfl, fun next _ => ⟨sound.1, sound.2 next⟩⟩
  | link ended => exact ⟨ended, [], by simp [tokens], fun next _ => sound next⟩

/-- A rule is completed from its innermost open bracket outwards. -/
theorem Inside.Grounded.completes {inside : Inside} (grounded : inside.Grounded)
    {factor : Factor}
    (allowed : ∀ next : Kind, next.followsNothing → factor.Allowed inside.outer.length next) :
    ∃ rule : SyntaxRule, ∃ rest : List Text, rule.Allowed ∧
      rule.tokens = inside.tokensWith (factor.tokens ++ rest) ∧ rest ≠ [] := by
  obtain ⟨name, outer, lists, want⟩ := inside
  obtain ⟨named, outside, sound⟩ := grounded
  dsimp only at named outside sound allowed
  induction outer generalizing lists factor want with
  | nil =>
    refine ⟨⟨name, lists.whole factor, Kind.terminator.symbol⟩, [Kind.terminator.symbol],
      ⟨named, sound.whole (allowed .terminator rfl), rfl⟩, ?_, List.cons_ne_nil _ _⟩
    simp [SyntaxRule.tokens, tokensWith, outerTokens, Lists.whole_tokens]
  | cons level outer ih =>
    obtain ⟨shallow, around, counts, outside⟩ := outside
    have inner : (lists.whole factor).Allowed (outer.length + 1) level.bracket.closing :=
      sound.whole (allowed _ (by simp))
    have wrapped (next : Kind) (_ : next.followsNothing) : Factor.Allowed outer.length next
        (.mk level.count (.bracketed level.bracket (lists.whole factor)) none) :=
      ⟨counts, shallow, inner⟩
    obtain ⟨rule, rest, ruled, spelled, -⟩ := ih level.lists want wrapped outside around
    refine ⟨rule, level.bracket.closing.symbol :: rest, ruled, spelled.trans ?_,
      List.cons_ne_nil _ _⟩
    simp [tokensWith, outerTokens, Factor.tokens, Primary.tokens, markTokens,
      Lists.whole_tokens]

theorem Partial.Sound.begins {stage : Partial} (sound : stage.Sound) (begun : stage ≠ .rule) :
    ∃ rule : SyntaxRule, ∃ rest : List Text, rule.Allowed ∧
      rule.tokens = stage.tokens ++ rest ∧ rest ≠ [] := by
  cases stage with
  | rule => exact absurd rfl begun
  | defining name =>
    have grounded : Inside.Grounded { name } := ⟨sound, trivial, Lists.sound_empty⟩
    have nothing (next : Kind) (follows : next.followsNothing) :
        Factor.Allowed 0 next (.mk none .nothing none) := ⟨trivial, follows⟩
    obtain ⟨rule, rest, allowed, spelled, -⟩ := grounded.completes nothing
    exact ⟨rule, _, allowed, spelled, List.cons_ne_nil _ _⟩
  | body inside =>
    obtain ⟨factor, more, spelling, ends⟩ := sound.2.completes
    obtain ⟨rule, rest, allowed, spelled, some_rest⟩ := sound.1.completes ends
    refine ⟨rule, more ++ rest, allowed, spelled.trans ?_, by simp [some_rest]⟩
    simp only [spelling, tokens, Inside.tokensWith, List.append_assoc, List.cons_append]

theorem Partial.Sound.completes {stage : Partial} (sound : stage.Sound) :
    ∃ rest, Nonempty (Derivation (stage.tokens ++ rest)) := by
  by_cases begun : stage = .rule
  · subst begun
    exact ⟨[], ⟨[], by simp, rfl⟩⟩
  · obtain ⟨rule, rest, allowed, spelled, -⟩ := sound.begins begun
    exact ⟨rest, ⟨[rule], by simpa using allowed, by simpa using spelled⟩⟩

end Parse
end GrammarDesk
