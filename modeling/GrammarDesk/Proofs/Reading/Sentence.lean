import GrammarDesk.Proofs.Reading.Complete
import GrammarDesk.Proofs.Reading.Sound

/-! What the reader makes of a list of tokens, in terms of derivations alone. -/
namespace GrammarDesk

/-- A stage stays inside its rule, or finishes the rule that the end of input
would have finished. -/
def Move.Closes (pending : Option Rule) : Move → Prop
  | on state => state ≠ .rule
  | finished rule => pending = some rule
  | refused | overflow => True

namespace Body

def ended (body : Body) (factor : Phrase) : Option Rule :=
  if body.outer.isEmpty then some ⟨body.name, body.draft.phrase factor⟩ else none

theorem link_closes (body : Body) (factor : Phrase) (kind : Kind) :
    (body.link factor kind).Closes (body.ended factor) := by
  unfold link
  dsimp only
  split
  · split
    · exact ReaderState.noConfusion
    · trivial
  · exact ReaderState.noConfusion
  · exact ReaderState.noConfusion
  · split
    · rename_i outermost
      exact if_pos outermost
    · trivial
  · split
    · trivial
    · split
      · exact ReaderState.noConfusion
      · trivial

theorem suffix_closes (body : Body) (factor : Phrase) (kind : Kind) :
    (body.suffix factor kind).Closes (body.ended factor) := by
  unfold suffix
  split
  · exact ReaderState.noConfusion
  · exact ReaderState.noConfusion
  · exact body.link_closes factor kind

theorem primary_closes (body : Body) (count : Option Nat) (kind : Kind) (text : Text) :
    (body.primary count kind text).Closes (body.ended (counted count .empty)) := by
  unfold primary
  dsimp only
  split
  case h_10 =>
    split
    · split
      · exact ReaderState.noConfusion
      · trivial
    · trivial
  case h_1 | h_2 | h_3 => exact ReaderState.noConfusion
  all_goals exact body.link_closes _ _

theorem advance_closes (body : Body) (kind : Kind) (text : Text) :
    (body.advance kind text).Closes (body.lastFactor?.bind body.ended) := by
  unfold advance lastFactor?
  cases body.need with
  | factor =>
    dsimp only
    split
    · split
      · exact ReaderState.noConfusion
      · trivial
    · exact body.primary_closes none kind text
  | star count =>
    dsimp only
    split
    · exact ReaderState.noConfusion
    · trivial
  | primary count => exact body.primary_closes count kind text
  | suffix factor => exact body.suffix_closes factor kind
  | link factor => exact body.link_closes factor kind

theorem pending?_eq (inside : Body) :
    (ReaderState.body inside).pending? = inside.lastFactor?.bind inside.ended := by
  simp only [ReaderState.pending?]
  unfold ended
  cases inside.outer.isEmpty <;> cases inside.lastFactor? <;> rfl

end Body

theorem ReaderState.advance_closes (state : ReaderState) (text : Text) :
    (state.advance text).Closes state.pending? := by
  cases state with
  | rule =>
    simp only [advance]
    split
    · exact ReaderState.noConfusion
    · trivial
  | defining name =>
    simp only [advance]
    split
    · exact ReaderState.noConfusion
    · trivial
  | body inside =>
    rw [Body.pending?_eq]
    exact inside.advance_closes _ text

namespace Parse.Partial

theorem pending_of_run {stage : Partial} {text : Text} {rules : List SyntaxRule}
    (reached : stage.run [text] = some (rules, rule)) :
    ∃ done, rules = [done] ∧ stage.state.pending? = some done.rule := by
  have closes := stage.state.advance_closes text
  rw [← stage.advance_move] at closes
  obtain ⟨next, moved, onward⟩ | ⟨done, more, moved, rfl, onward⟩ := run_cons_cases reached
  · rw [moved] at closes
    cases onward
    exact absurd rfl closes
  · rw [moved] at closes
    cases onward
    exact ⟨done, rfl, closes⟩

theorem run_append (stage : Partial) (first second : List Text) :
    stage.run (first ++ second) = (stage.run first).bind fun (rules, last) =>
      (last.run second).map fun (more, last) => (rules ++ more, last) := by
  induction first generalizing stage with
  | nil =>
    simp [run]
  | cons text texts ih =>
    rw [List.cons_append]
    cases moved : stage.advance text with
    | on next => rw [run_on moved, run_on moved, ih]
    | finished done =>
      rw [run_finished moved, run_finished moved, ih]
      cases rule.run texts <;> simp [Function.comp_def]
    | refused | overflow =>
      rw [run, run, moved]
      rfl

theorem isSome_run_take {stage : Partial} {tokens : List Text} {m n : Nat} (le : m ≤ n)
    (survives : (stage.run (tokens.take n)).isSome) : (stage.run (tokens.take m)).isSome := by
  have split : tokens.take n = tokens.take m ++ (tokens.drop m).take (n - m) := by
    rw [← List.take_add, Nat.add_sub_cancel' le]
  rw [split, run_append] at survives
  obtain ⟨last, reached⟩ := Option.isSome_iff_exists.mp survives
  obtain ⟨between, before, _⟩ := Option.bind_eq_some_iff.mp reached
  rw [before]
  rfl

/-- The reader gets through exactly the beginnings of sentences. -/
theorem isSome_run_iff (tokens : List Text) : (rule.run tokens).isSome ↔
    ∃ rest, Nonempty (Derivation (tokens ++ rest)) := by
  constructor
  · intro survives
    obtain ⟨⟨rules, last⟩, reached⟩ := Option.isSome_iff_exists.mp survives
    have fresh : rule.Sound := trivial
    obtain ⟨final, allowed, spelled⟩ := fresh.run reached
    obtain ⟨rest, ⟨ending⟩⟩ := final.completes
    refine ⟨rest, ⟨rules ++ ending.rules, ?_, ?_⟩⟩
    · exact List.forall_mem_append.mpr ⟨allowed, ending.allowed⟩
    · rw [List.flatMap_append, ending.tokens_eq, ← List.append_assoc, spelled]
      rfl
  · rintro ⟨rest, ⟨derivation⟩⟩
    have whole := derivation.run_eq
    rw [run_append] at whole
    obtain ⟨reached, before, _⟩ := Option.bind_eq_some_iff.mp whole
    rw [before]
    rfl

end Parse.Partial

namespace Reading

open Parse

variable {stage : Partial} {index : Nat} {passed tokens : List Text}

theorem readFrom_of_run {rules : List SyntaxRule} {last : Partial}
    (reached : stage.run tokens = some (rules, last)) (index : Nat) (passed : List Text) :
    (readFrom stage.state index passed tokens).outcome = .complete ∧
      (readFrom stage.state index passed tokens).rules =
        rules.map SyntaxRule.rule ++ last.state.pending?.toList := by
  induction tokens generalizing stage rules index passed with
  | nil =>
    cases reached
    unfold readFrom
    split <;> simp [*]
  | cons text texts ih =>
    have simulated := stage.advance_move text
    obtain ⟨next, moved, onward⟩ | ⟨done, more, moved, rfl, onward⟩ :=
      Partial.run_cons_cases reached
    · rw [moved] at simulated
      unfold readFrom
      rw [← simulated]
      exact ih onward _ _
    · rw [moved] at simulated
      have tail := @ih .rule _ onward (index + 1) []
      unfold readFrom
      rw [← simulated]
      exact ⟨tail.1, congrArg (done.rule :: ·) tail.2⟩

theorem readFrom_of_run_eq_none (stopped : stage.run tokens = none) (index : Nat)
    (passed : List Text) : ∃ k < tokens.length,
      (readFrom stage.state index passed tokens).outcome = .haltedAt (index + k) ∧
      (stage.run (tokens.take k)).isSome ∧ stage.run (tokens.take (k + 1)) = none := by
  -- A finished rule starts the next one from the beginning, with nothing passed.
  induction tokens generalizing stage index passed with
  | nil => cases stopped
  | cons text texts ih =>
    have simulated := stage.advance_move text
    cases moved : stage.advance text with
    | on next =>
      rw [moved] at simulated
      rw [Partial.run_on moved] at stopped
      obtain ⟨k, bound, halted, survives, ends⟩ := ih stopped (index + 1) (text :: passed)
      refine ⟨k + 1, Nat.succ_lt_succ bound, ?_, ?_, ?_⟩
      · unfold readFrom
        rw [← simulated]
        exact halted.trans (by rw [Nat.add_right_comm, Nat.add_assoc])
      · rwa [List.take_succ_cons, Partial.run_on moved]
      · rwa [List.take_succ_cons, Partial.run_on moved]
    | finished done =>
      rw [moved] at simulated
      rw [Partial.run_finished moved, Option.map_eq_none_iff] at stopped
      obtain ⟨k, bound, halted, survives, ends⟩ := @ih .rule stopped (index + 1) []
      refine ⟨k + 1, Nat.succ_lt_succ bound, ?_, ?_, ?_⟩
      · unfold readFrom
        rw [← simulated]
        exact halted.trans (by rw [Nat.add_right_comm, Nat.add_assoc])
      · rwa [List.take_succ_cons, Partial.run_finished moved, Option.isSome_map]
      · rwa [List.take_succ_cons, Partial.run_finished moved, Option.map_eq_none_iff]
    | refused | overflow =>
      rw [moved] at simulated
      refine ⟨0, Nat.succ_pos _, ?_, rfl, by simp [Partial.run, moved]⟩
      unfold readFrom
      rw [← simulated]
      rfl

theorem ofTokens_complete_iff (tokens : List Text) :
    (ofTokens tokens).outcome = .complete ↔ (Partial.rule.run tokens).isSome := by
  cases reached : Partial.rule.run tokens with
  | some result =>
    have complete : (ofTokens tokens).outcome = .complete := (readFrom_of_run reached 0 []).1
    simp [complete]
  | none =>
    obtain ⟨k, -, halted, -⟩ := readFrom_of_run_eq_none reached 0 []
    have halts : (ofTokens tokens).outcome = .haltedAt (0 + k) := halted
    simp [halts]

theorem ofTokens_haltedAt_iff (tokens : List Text) (i : Nat) :
    (ofTokens tokens).outcome = .haltedAt i ↔ i < tokens.length ∧
      (Partial.rule.run (tokens.take i)).isSome ∧
      ¬ (Partial.rule.run (tokens.take (i + 1))).isSome := by
  constructor
  · intro halts
    have incomplete : Partial.rule.run tokens = none := by
      rw [← Option.not_isSome_iff_eq_none, ← ofTokens_complete_iff, halts]
      exact Outcome.noConfusion
    obtain ⟨k, bound, halted, survives, ends⟩ := readFrom_of_run_eq_none incomplete 0 []
    have same : Outcome.haltedAt i = .haltedAt (0 + k) := halts.symm.trans halted
    rw [Nat.zero_add, Outcome.haltedAt.injEq] at same
    subst same
    exact ⟨bound, survives, by simp [ends]⟩
  · rintro ⟨bound, survives, ends⟩
    have incomplete : Partial.rule.run tokens = none := by
      rw [← Option.not_isSome_iff_eq_none, ← List.take_length (l := tokens)]
      exact fun survived => ends (Partial.isSome_run_take bound survived)
    obtain ⟨k, -, halted, before, after⟩ := readFrom_of_run_eq_none incomplete 0 []
    have le : k ≤ i := Nat.le_of_not_lt fun lt => ends (Partial.isSome_run_take lt before)
    have ge : i ≤ k := Nat.le_of_not_lt fun lt => by
      have isSome := Partial.isSome_run_take lt survives
      rw [after] at isSome
      cases isSome
    have same : k = i := Nat.le_antisymm le ge
    subst same
    exact halted.trans (by rw [Nat.zero_add])

theorem rules_of_derivation (derivation : Derivation tokens) :
    (ofTokens tokens).rules = derivation.rules.map SyntaxRule.rule := by
  have rules := (readFrom_of_run derivation.run_eq 0 []).2
  exact rules.trans (List.append_nil _)

theorem rules_of_derivation_append {stop : Text} (derivation : Derivation (tokens ++ [stop])) :
    (ofTokens tokens).rules = derivation.rules.map SyntaxRule.rule := by
  have whole := derivation.run_eq
  rw [Partial.run_append] at whole
  obtain ⟨⟨rules, last⟩, before, after⟩ := Option.bind_eq_some_iff.mp whole
  obtain ⟨⟨more, final⟩, stopped, joined⟩ := Option.map_eq_some_iff.mp after
  simp only [Prod.mk.injEq] at joined
  obtain ⟨joined, rfl⟩ := joined
  obtain ⟨done, rfl, pending⟩ := Partial.pending_of_run stopped
  have read := (readFrom_of_run before 0 []).2
  rw [pending] at read
  rw [← joined, List.map_append]
  exact read

/-- Exactly the beginnings of sentences are complete, any other input halts at
the first token that ends no beginning, and a sentence is read as its only
derivation, also without its last token. -/
theorem ofTokens_exact (tokens : List Text) :
    ((ofTokens tokens).outcome = .complete ↔ BeginsSentence tokens) ∧
      (∀ i, (ofTokens tokens).outcome = .haltedAt i ↔ i < tokens.length ∧
        BeginsSentence (tokens.take i) ∧ ¬ BeginsSentence (tokens.take (i + 1))) ∧
      ∀ sentence, (sentence = tokens ∨ ∃ stop, sentence = tokens ++ [stop]) →
        ∀ derivation : Derivation sentence, (ofTokens tokens).grammar = derivation.grammar ∧
          ∀ other : Derivation sentence, other = derivation := by
  refine ⟨?_, fun i => ?_, ?_⟩
  · rw [ofTokens_complete_iff, Partial.isSome_run_iff]
    rfl
  · rw [ofTokens_haltedAt_iff, Partial.isSome_run_iff, Partial.isSome_run_iff]
    rfl
  · rintro sentence (rfl | ⟨stop, rfl⟩) derivation
    · exact ⟨congrArg Grammar.mk (rules_of_derivation derivation),
        fun other => Subsingleton.elim _ _⟩
    · exact ⟨congrArg Grammar.mk (rules_of_derivation_append derivation),
        fun other => Subsingleton.elim _ _⟩

example : (ofTokens [['a'], ['='], ['b'], ['c'], [';']]).outcome = .haltedAt 3 := by decide

end Reading
end GrammarDesk
