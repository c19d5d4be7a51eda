import GrammarDesk.Proofs.Reading.Story

/-! What has been reported when a reading halts: the tokens in front of the halt, and
the token at the halt only if it is a count that is too large. A count is reported
before its size is looked at. -/
namespace GrammarDesk
namespace Parse

variable {text : Text}

theorem Inside.link_integer (inside : Inside) (factor : Factor)
    (integer : Kind.classify text = .integer) : inside.link factor text = .refused := by
  unfold link
  rw [integer]
  dsimp only
  split
  · rfl
  · rename_i level outer _
    rw [if_neg (by cases level.bracket <;> decide)]

theorem Inside.primary_integer (inside : Inside) (count : Option Text)
    (integer : Kind.classify text = .integer) : inside.primary count text = .refused := by
  simp [primary, integer, Kind.followsNothing, Bracket.ofOpening?]

/-- Whether a factor may begin, and with it a count. -/
def Partial.awaitsFactor : Partial → Bool
  | .body ⟨_, _, _, .factor⟩ => true
  | _ => false

namespace Partial

theorem advance_integer (stage : Partial) (integer : Kind.classify text = .integer) :
    (stage.awaitsFactor = true ∧ ((Text.digitsValue text ≤ maxCount ∧
        ∃ next, stage.advance text = .on next) ∨
      maxCount < Text.digitsValue text ∧ stage.advance text = .overflow)) ∨
    stage.awaitsFactor = false ∧ stage.advance text = .refused := by
  cases stage with
  | rule => exact .inr ⟨rfl, by simp [advance, integer]⟩
  | defining name => exact .inr ⟨rfl, by simp [advance, integer]⟩
  | body inside =>
    obtain ⟨name, outer, lists, want⟩ := inside
    cases want with
    | factor =>
      refine .inl ⟨rfl, ?_⟩
      simp only [advance, Inside.advance, if_pos integer]
      split
      · rename_i small
        exact .inl ⟨small, _, rfl⟩
      · rename_i large
        exact .inr ⟨Nat.lt_of_not_le large, rfl⟩
    | star count => exact .inr ⟨rfl, by simp [advance, Inside.advance, integer]⟩
    | primary count => exact .inr ⟨rfl, Inside.primary_integer _ _ integer⟩
    | suffix count primary =>
      refine .inr ⟨rfl, ?_⟩
      simp only [advance, Inside.advance, Inside.suffix, integer]
      exact Inside.link_integer _ _ integer
    | link factor => exact .inr ⟨rfl, Inside.link_integer _ _ integer⟩

variable {stage : Partial}

theorem advance_eq_overflow_iff : stage.advance text = .overflow ↔
    Kind.classify text = .integer ∧ maxCount < Text.digitsValue text ∧
      stage.awaitsFactor = true := by
  constructor
  · intro moved
    have integer := (overflow_cases moved).2
    obtain ⟨awaits, ⟨-, next, taken⟩ | ⟨large, -⟩⟩ | ⟨-, refused⟩ :=
      stage.advance_integer integer
    · rw [taken] at moved
      cases moved
    · exact ⟨integer, large, awaits⟩
    · rw [refused] at moved
      cases moved
  · rintro ⟨integer, large, awaits⟩
    obtain ⟨-, ⟨small, -⟩ | ⟨-, moved⟩⟩ | ⟨elsewhere, -⟩ := stage.advance_integer integer
    · omega
    · exact moved
    · rw [awaits] at elsewhere
      cases elsewhere

theorem isSome_run_zero : (stage.run [['0']]).isSome = stage.awaitsFactor := by
  have integer : Kind.classify ['0'] = .integer := rfl
  obtain ⟨awaits, ⟨-, next, moved⟩ | ⟨large, -⟩⟩ | ⟨elsewhere, moved⟩ :=
    stage.advance_integer integer
  · rw [run_on moved, awaits]
    rfl
  · exact absurd large (by decide)
  · rw [run, moved, elsewhere]
    rfl

end Partial

end Parse

namespace Event

/-- All that is ever reported: finished rules, and tokens of every kind but the invalid one. -/
def nodes : List String :=
  ruleNode :: [Kind.name, .literal, .special, .integer, .defining, .comma, .bar, .terminator,
    .minus, .star, .plus, .openBrace, .closeBrace, .openSquare, .closeSquare, .openParen,
    .closeParen].map tokenNode

theorem tokenNode_mem_nodes {kind : Kind} (valid : kind ≠ .invalid) : tokenNode kind ∈ nodes := by
  cases kind <;> first | exact absurd rfl valid | decide

end Event

namespace Listeners

def heard (nodes : List String) (events : List Event) : List Event :=
  ((({} : Listeners).assign nodes).deliver events).map (·.2)

theorem heard_of_mem {nodes : List String} {events : List Event}
    (asked : ∀ event ∈ events, event.node ∈ nodes) : heard nodes events = events := by
  unfold heard deliver
  induction events with
  | nil => rfl
  | cons event events ih =>
    obtain ⟨first, others⟩ := List.forall_mem_cons.mp asked
    have hears : (({} : Listeners).assign nodes).hearers event = [0] := by
      simp [hearers, assign, first]
    rw [List.flatMap_cons, List.map_append, ih others, hears]
    rfl

end Listeners

theorem ReaderState.advance_invalid (state : ReaderState) {text : Text}
    (invalid : Kind.classify text = .invalid) : state.advance text = .refused := by
  cases state with
  | rule => simp [advance, invalid]
  | defining name => simp [advance, invalid]
  | body inside =>
    have link (inside : Body) (factor : Phrase) : inside.link factor .invalid = .refused := by
      unfold Body.link
      dsimp only
      split
      · rfl
      · rename_i frame outer _
        rw [if_neg (by cases frame.bracket <;> decide)]
    simp only [advance, invalid, Body.advance]
    cases inside.need with
    | factor => simp [Body.primary, Bracket.ofOpening?]
    | star count => simp
    | primary count => simp [Body.primary, Bracket.ofOpening?]
    | suffix factor => exact link inside factor
    | link factor => exact link inside factor

namespace Reading

open Parse

theorem node_mem_nodes (state : ReaderState) (index : Nat) (passed tokens : List Text) :
    ∀ event ∈ (readFrom state index passed tokens).events, event.node ∈ Event.nodes := by
  have rule (tokens : List Text) (stop : Nat) : (Event.ofRule tokens stop).node ∈ Event.nodes :=
    List.mem_cons_self
  induction tokens generalizing state index passed with
  | nil =>
    unfold readFrom
    split
    · exact List.forall_mem_singleton.mpr (rule ..)
    · simp
  | cons text texts ih =>
    have token (taken : state.advance text ≠ .refused) :
        (Event.ofToken text index).node ∈ Event.nodes :=
      Event.tokenNode_mem_nodes fun invalid => taken (state.advance_invalid invalid)
    unfold readFrom
    cases moved : state.advance text with
    | on next => exact List.forall_mem_cons.mpr ⟨token (by simp [moved]), ih _ _ _⟩
    | finished done =>
      exact List.forall_mem_cons.mpr ⟨token (by simp [moved]),
        List.forall_mem_cons.mpr ⟨rule _ _, ih _ _ _⟩⟩
    | refused => simp
    | overflow => exact List.forall_mem_singleton.mpr (token (by simp [moved]))

theorem readFrom_append {stage last : Partial} {rules : List SyntaxRule} {front : List Text}
    (reached : stage.run front = some (rules, last)) (index : Nat) (passed rest : List Text) :
    ∃ passed', (readFrom stage.state index passed (front ++ rest)).outcome =
        (readFrom last.state (index + front.length) passed' rest).outcome ∧
      (readFrom stage.state index passed (front ++ rest)).leaves = Event.ofTokens index front ++
        (readFrom last.state (index + front.length) passed' rest).leaves := by
  induction front generalizing stage rules index passed with
  | nil =>
    cases reached
    exact ⟨passed, rfl, rfl⟩
  | cons text texts ih =>
    have simulated := stage.advance_move text
    have length : index + (text :: texts).length = index + 1 + texts.length := by
      rw [List.length_cons, Nat.add_right_comm, Nat.add_assoc]
    rw [List.cons_append, readFrom, ← simulated, length]
    obtain ⟨next, moved, onward⟩ | ⟨done, more, moved, rfl, onward⟩ :=
      Partial.run_cons_cases reached
    · obtain ⟨passed', outcome, leaves⟩ := ih onward (index + 1) (text :: passed)
      rw [moved]
      refine ⟨passed', outcome, ?_⟩
      refine (List.filter_cons_of_pos (by simp)).trans ?_
      exact congrArg (Event.ofToken text index :: ·) leaves
    · obtain ⟨passed', outcome, leaves⟩ := @ih .rule _ onward (index + 1) []
      rw [moved]
      refine ⟨passed', outcome, ?_⟩
      refine (List.filter_cons_of_pos (by simp)).trans ?_
      refine congrArg (Event.ofToken text index :: ·) ?_
      exact (List.filter_cons_of_neg (by simp)).trans leaves

/-- A count that is too large stands where a smaller one may. -/
def Overcounts (tokens : List Text) (index : Nat) : Prop :=
  ∃ token, tokens[index]? = some token ∧ Kind.classify token = .integer ∧
    maxCount < Text.digitsValue token ∧ BeginsSentence (tokens.take index ++ [['0']])

theorem leaves_of_run {tokens : List Text} {result : List SyntaxRule × Partial}
    (reached : Partial.rule.run tokens = some result) :
    (ofTokens tokens).leaves = Event.ofTokens 0 tokens := by
  obtain ⟨passed, -, leaves⟩ := readFrom_append reached 0 [] []
  rw [List.append_nil] at leaves
  have nothing (state : ReaderState) (index : Nat) (passed : List Text) :
      (readFrom state index passed []).leaves = [] := by
    unfold readFrom
    split <;> rfl
  rw [nothing, List.append_nil] at leaves
  exact leaves

theorem overcounts_iff {tokens : List Text} {index : Nat} {token : Text} {rules : List SyntaxRule}
    {last : Partial} (reached : Partial.rule.run (tokens.take index) = some (rules, last))
    (stands : tokens[index]? = some token) :
    Overcounts tokens index ↔ last.advance token = .overflow := by
  have awaits : BeginsSentence (tokens.take index ++ [['0']]) ↔ last.awaitsFactor = true := by
    refine (Partial.isSome_run_iff _).symm.trans ?_
    rw [← Partial.isSome_run_zero, Partial.run_append, reached, Option.bind_some,
      Option.isSome_map]
  simp only [Overcounts, stands, Option.some.injEq, exists_eq_left', awaits,
    Partial.advance_eq_overflow_iff]

theorem exists_reached_of_halt {tokens : List Text} {halt : Nat}
    (halts : (ofTokens tokens).outcome = .haltedAt halt) : ∃ rules last,
      Partial.rule.run (tokens.take halt) = some (rules, last) ∧ ∃ inside : halt < tokens.length,
        last.advance tokens[halt] = .refused ∨ last.advance tokens[halt] = .overflow := by
  obtain ⟨inside, survives, ends⟩ := (ofTokens_haltedAt_iff tokens halt).mp halts
  obtain ⟨⟨rules, last⟩, reached⟩ := Option.isSome_iff_exists.mp survives
  refine ⟨rules, last, reached, inside, ?_⟩
  rw [List.take_succ_eq_append_getElem inside, Partial.run_append, reached, Option.bind_some,
    Option.isSome_map] at ends
  cases moved : last.advance tokens[halt] with
  | on next =>
    rw [Partial.run_on moved] at ends
    exact absurd rfl ends
  | finished done =>
    rw [Partial.run_finished moved] at ends
    exact absurd rfl ends
  | refused => exact .inl rfl
  | overflow => exact .inr rfl

theorem leaves_of_halt {tokens : List Text} {halt : Nat}
    (halts : (ofTokens tokens).outcome = .haltedAt halt) :
    (¬ Overcounts tokens halt → (ofTokens tokens).leaves = Event.ofTokens 0 (tokens.take halt)) ∧
      (Overcounts tokens halt →
        (ofTokens tokens).leaves = Event.ofTokens 0 (tokens.take (halt + 1))) := by
  obtain ⟨rules, last, reached, inside, stops⟩ := exists_reached_of_halt halts
  have split : tokens.take halt ++ tokens[halt] :: tokens.drop (halt + 1) = tokens := by
    rw [← List.drop_eq_getElem_cons inside, List.take_append_drop]
  have short : (tokens.take halt).length = halt := List.length_take_of_le (Nat.le_of_lt inside)
  have simulated := last.advance_move tokens[halt]
  obtain ⟨passed, -, leaves⟩ :=
    readFrom_append reached 0 [] (tokens[halt] :: tokens.drop (halt + 1))
  rw [split, short, Nat.zero_add] at leaves
  rw [overcounts_iff reached (List.getElem?_eq_getElem inside)]
  refine ⟨fun apart => leaves.trans ?_, fun moved => leaves.trans ?_⟩
  · rw [stops.resolve_right apart] at simulated
    unfold readFrom
    rw [← simulated]
    exact List.append_nil _
  · rw [moved] at simulated
    unfold readFrom
    rw [← simulated, List.take_succ_eq_append_getElem inside, Event.ofTokens_append, short,
      Nat.zero_add]
    exact congrArg (Event.ofTokens 0 (tokens.take halt) ++ ·) (List.filter_cons_of_pos (by simp))

def heardLeaves (tokens : List Text) : List Event :=
  (Listeners.heard Event.nodes (ofTokens tokens).events).filter (!·.isRule)

theorem heardLeaves_eq (tokens : List Text) : heardLeaves tokens = (ofTokens tokens).leaves := by
  have heard : Listeners.heard Event.nodes (ofTokens tokens).events = (ofTokens tokens).events :=
    Listeners.heard_of_mem (node_mem_nodes .rule 0 [] tokens)
  rw [heardLeaves, heard]
  rfl

/-- A complete reading has reported all its tokens, and one that halts those in front of the
halt; only a count that is too large is reported too, where the reading halts at it. -/
theorem heardLeaves_exact (tokens : List Text) :
    ((ofTokens tokens).outcome = .complete → heardLeaves tokens = Event.ofTokens 0 tokens) ∧
      ∀ halt, (ofTokens tokens).outcome = .haltedAt halt →
        (¬ Overcounts tokens halt →
          heardLeaves tokens = Event.ofTokens 0 (tokens.take halt)) ∧
        (Overcounts tokens halt →
          heardLeaves tokens = Event.ofTokens 0 (tokens.take (halt + 1))) := by
  rw [heardLeaves_eq]
  refine ⟨fun complete => ?_, fun halt => leaves_of_halt⟩
  obtain ⟨result, reached⟩ :=
    Option.isSome_iff_exists.mp ((ofTokens_complete_iff tokens).mp complete)
  exact leaves_of_run reached

/-- A count that is one too large, where a factor begins. -/
def overcounted : List Text := ["a", "=", "4294967296", "*", "b", ";"].map String.toList

theorem heardLeaves_exact_overcounted :
    (ofTokens overcounted).outcome = .haltedAt 2 ∧ Overcounts overcounted 2 ∧
      heardLeaves overcounted = Event.ofTokens 0 (overcounted.take 3) := by
  have halts : (ofTokens overcounted).outcome = .haltedAt 2 := by decide
  have begins : BeginsSentence (overcounted.take 2 ++ [['0']]) :=
    (Partial.isSome_run_iff _).mp (by decide)
  have overcounts : Overcounts overcounted 2 := ⟨_, rfl, by decide, by decide, begins⟩
  exact ⟨halts, overcounts, ((heardLeaves_exact overcounted).2 2 halts).2 overcounts⟩

/-- The count is reported by a reading that halts at it. -/
theorem heardLeaves_pass_halt : (ofTokens overcounted).outcome = .haltedAt 2 ∧
    heardLeaves overcounted ≠ Event.ofTokens 0 (overcounted.take 2) ∧
    .ofToken "4294967296".toList 2 ∈ heardLeaves overcounted := by
  decide

end Reading
end GrammarDesk
