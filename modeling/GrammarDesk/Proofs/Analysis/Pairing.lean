import GrammarDesk.Proofs.Analysis.Brackets

/-! Delimiters that belong together. From an opening delimiter the count goes forward, from
a closing one backward, and neither looks at what the other one passes over. Still each
leads back to where the other began, in every list of tokens: both find the delimiter up to
which all is balanced, and what is balanced stays so when it is read from its end. -/
namespace GrammarDesk.Issue

/-- All that is entered in these tokens is left again behind it, and nothing else is left. -/
inductive Balanced (enter leave : Text) : List Text → Prop where
  | nil : Balanced enter leave []
  | other : text ≠ enter → text ≠ leave → Balanced enter leave tokens →
      Balanced enter leave (text :: tokens)
  | pair {inner tokens} : Balanced enter leave inner → Balanced enter leave tokens →
      Balanced enter leave (enter :: (inner ++ leave :: tokens))

namespace Balanced

variable {enter leave : Text} {tokens more : List Text}

theorem append (first : Balanced enter leave tokens) (second : Balanced enter leave more) :
    Balanced enter leave (tokens ++ more) := by
  induction first with
  | nil => exact second
  | other enters leaves _ ih => exact .other enters leaves ih
  | pair inner _ _ ih =>
    rw [List.cons_append, List.append_assoc, List.cons_append]
    exact .pair inner ih

theorem reverse (balanced : Balanced enter leave tokens) :
    Balanced leave enter tokens.reverse := by
  induction balanced with
  | nil => exact .nil
  | other enters leaves _ ih =>
    rw [List.reverse_cons]
    exact ih.append (.other leaves enters .nil)
  | @pair inner tokens _ _ ih₁ ih₂ =>
    have turned : (enter :: (inner ++ leave :: tokens)).reverse =
        tokens.reverse ++ leave :: (inner.reverse ++ [enter]) := by simp
    rw [turned]
    exact ih₂.append (.pair ih₁ .nil)

theorem neutral (apart : leave ≠ enter) (balanced : Balanced enter leave tokens) :
    Neutral enter leave tokens := by
  induction balanced with
  | nil => exact .nil
  | other enters leaves _ ih => exact (Neutral.token enters leaves).append ih
  | pair _ _ ih₁ ih₂ =>
    have whole := (ih₁.wrap apart).append ih₂
    rwa [List.cons_append, List.append_assoc, List.singleton_append] at whole

end Balanced

section

variable {enter leave : Text} {tokens : List Text} {depth passed : Nat}

/-- Where a count comes to an end, some delimiter leaves more than is entered before it; up
to the first one that does, all is balanced. -/
theorem exists_balanced (apart : leave ≠ enter)
    (found : passes enter leave depth tokens = some passed) :
    ∃ inner rest, tokens = inner ++ leave :: rest ∧ Balanced enter leave inner := by
  -- What is entered splits the tokens twice, so the induction is on how many there are.
  induction size : tokens.length using Nat.strongRecOn generalizing tokens depth passed with
  | ind size ih =>
    cases tokens with
    | nil => cases found
    | cons text tokens =>
      rw [List.length_cons] at size
      by_cases enters : text = enter
      · subst enters
        rw [passes_enter] at found
        obtain ⟨_, found, -⟩ := Option.map_eq_some_iff.mp found
        obtain ⟨inner, behind, rfl, first⟩ := ih tokens.length (by omega) found rfl
        rw [first.neutral apart, passes_leave depth apart] at found
        obtain ⟨_, found, -⟩ := Option.map_eq_some_iff.mp found
        obtain ⟨_, found, -⟩ := Option.map_eq_some_iff.mp found
        rw [List.length_append, List.length_cons] at size
        obtain ⟨next, rest, rfl, second⟩ := ih behind.length (by omega) found rfl
        exact ⟨text :: (inner ++ leave :: next), rest, by simp, .pair first second⟩
      by_cases leaves : text = leave
      · exact ⟨[], tokens, by rw [leaves, List.nil_append], .nil⟩
      · rw [passes_other depth enters leaves] at found
        obtain ⟨_, found, -⟩ := Option.map_eq_some_iff.mp found
        obtain ⟨inner, rest, rfl, balanced⟩ := ih tokens.length (by omega) found rfl
        exact ⟨text :: inner, rest, rfl, .other enters leaves balanced⟩

theorem passes_eq_some_iff (apart : leave ≠ enter) :
    passes enter leave 0 tokens = some passed ↔
      ∃ inner rest, tokens = inner ++ leave :: rest ∧ inner.length = passed ∧
        Balanced enter leave inner := by
  constructor
  · intro found
    obtain ⟨inner, rest, rfl, balanced⟩ := exists_balanced apart found
    rw [(balanced.neutral apart).passes_eq apart] at found
    exact ⟨inner, rest, rfl, Option.some.inj found, balanced⟩
  · rintro ⟨inner, rest, rfl, rfl, balanced⟩
    exact (balanced.neutral apart).passes_eq apart rest

end

/-- An opening and a closing delimiter stand at these places, and all between them is
balanced. -/
def Partners (tokens : List Text) (opener closer : Text) (first last : Nat) : Prop :=
  ∃ before inner after, tokens = before ++ opener :: (inner ++ closer :: after) ∧
    before.length = first ∧ before.length + 1 + inner.length = last ∧
    Balanced opener closer inner

section

variable {tokens : List Text} {opener closer : Text} {first last : Nat}

theorem closing?_eq_some_iff (apart : closer ≠ opener) (opens : tokens[first]? = some opener) :
    closing? tokens opener closer first = some last ↔
      Partners tokens opener closer first last := by
  obtain ⟨before, behind, rfl, rfl⟩ := exists_front opens
  rw [closing?_append, Option.map_eq_some_iff]
  constructor
  · rintro ⟨passed, found, rfl⟩
    obtain ⟨inner, after, rfl, rfl, balanced⟩ := (passes_eq_some_iff apart).mp found
    exact ⟨before, inner, after, rfl, rfl, rfl, balanced⟩
  · rintro ⟨front, inner, after, split, length, rfl, balanced⟩
    obtain ⟨rfl, same⟩ := List.append_inj split length.symm
    obtain rfl := (List.cons.inj same).2
    exact ⟨inner.length, (passes_eq_some_iff apart).mpr ⟨inner, after, rfl, rfl, balanced⟩, rfl⟩

theorem opening?_eq_some_iff (apart : closer ≠ opener) (closes : tokens[last]? = some closer) :
    opening? tokens opener closer last = some first ↔
      Partners tokens opener closer first last := by
  obtain ⟨front, after, rfl, rfl⟩ := exists_front closes
  rw [opening?_append, Option.map_eq_some_iff]
  constructor
  · rintro ⟨passed, found, rfl⟩
    obtain ⟨inner, rest, turned, rfl, balanced⟩ := (passes_eq_some_iff apart.symm).mp found
    obtain rfl : front = rest.reverse ++ opener :: inner.reverse := by
      rw [← front.reverse_reverse, turned]
      simp
    refine ⟨rest.reverse, inner.reverse, after, by simp, ?_, ?_, balanced.reverse⟩
    all_goals simp only [List.length_append, List.length_cons, List.length_reverse]; omega
  · rintro ⟨before, inner, behind, split, rfl, length, balanced⟩
    rw [← List.cons_append, ← List.append_assoc] at split
    obtain ⟨rfl, -⟩ := List.append_inj split
      (by rw [← length, List.length_append, List.length_cons]; omega)
    refine ⟨inner.length, (passes_eq_some_iff apart.symm).mpr
      ⟨inner.reverse, before.reverse, by simp, List.length_reverse, balanced.reverse⟩, ?_⟩
    rw [List.length_append, List.length_cons]
    omega

end

/-- The search for what closes a delimiter and the search for what opens one undo each
other: both find the partners between which all is balanced. So no two opening delimiters
are closed by one, and of two pairs one ends before the other begins or lies inside it. -/
theorem closing_iff_opening (tokens : List Text) {opener closer : Text}
    (apart : opener ≠ closer) :
    (∀ first last, tokens[first]? = some opener → tokens[last]? = some closer →
      (closing? tokens opener closer first = some last ↔
        opening? tokens opener closer last = some first) ∧
      (closing? tokens opener closer first = some last ↔
        Partners tokens opener closer first last)) ∧
    ∀ first last first' last', tokens[first]? = some opener → tokens[first']? = some opener →
      closing? tokens opener closer first = some last →
      closing? tokens opener closer first' = some last' →
      (last = last' → first = first') ∧ (first < first' → last < first' ∨ last' < last) := by
  have inverse {first last : Nat} (opens : tokens[first]? = some opener)
      (closes : tokens[last]? = some closer) : closing? tokens opener closer first = some last ↔
        opening? tokens opener closer last = some first :=
    (closing?_eq_some_iff apart.symm opens).trans (opening?_eq_some_iff apart.symm closes).symm
  refine ⟨fun first last opens closes => ⟨inverse opens closes,
    closing?_eq_some_iff apart.symm opens⟩, ?_⟩
  intro first last first' last' opens opens' found found'
  have closes : tokens[last]? = some closer := getElem?_of_closing? found
  constructor
  · rintro rfl
    have back := (inverse opens closes).mp found
    exact Option.some.inj (back.symm.trans ((inverse opens' closes).mp found'))
  · intro later
    rcases Nat.lt_trichotomy last first' with before | same | inside
    · exact .inl before
    · subst same
      exact absurd (Option.some.inj (opens'.symm.trans closes)) apart
    · exact .inr (closing?_lt found opens' later inside found')

/-- Brackets that close what was not opened, a pair in a pair, and one that stays open. -/
def unevenBrackets : List Text :=
  [")", "(", "a", "(", "b", ")", ")", ")", "(", "c"].map String.toList

theorem closing_iff_opening_uneven : ['('] ≠ [')'] ∧
    unevenBrackets[1]? = some ['('] ∧ unevenBrackets[6]? = some [')'] ∧
    opening? unevenBrackets ['('] [')'] 6 = some 1 ∧
    Partners unevenBrackets ['('] [')'] 1 6 ∧
    closing? unevenBrackets ['('] [')'] 3 = some 5 ∧ (6 < 3 ∨ 5 < 6) := by
  have apart : ['('] ≠ [')'] := by decide
  have outer : closing? unevenBrackets ['('] [')'] 1 = some 6 := by decide
  have inner : closing? unevenBrackets ['('] [')'] 3 = some 5 := by decide
  obtain ⟨inverse, pairs⟩ := closing_iff_opening unevenBrackets apart
  obtain ⟨back, between⟩ := inverse 1 6 rfl rfl
  exact ⟨apart, rfl, rfl, back.mp outer, between.mp outer, inner,
    (pairs 1 6 3 5 rfl rfl outer inner).2 (by decide)⟩

end GrammarDesk.Issue
