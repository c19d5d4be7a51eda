import GrammarDesk.Proofs.Live.Report
import GrammarDesk.Proofs.Match.Likeness
import GrammarDesk.Proofs.Sample.Munching

/-! A terminal against its own text. No other literal of the grammar gets in the way, for
none that the text begins with is longer; only white space in front does, which is skipped
before any literal is looked for. -/
namespace GrammarDesk

namespace Node

variable {rules n : Nat} {tokens : Vector Text n} {call : Fin rules → Spot n → Find rules n}
  {find : Find rules n} {p : Spot n} {definitions : List (Node rules)}

/-- Definitions that all search alike, for what a second search cannot add to, are
searched like one. -/
theorem evalAny_same (some_definitions : definitions ≠ [])
    (all : ∀ definition ∈ definitions, definition.eval tokens call p = find)
    (twice : (do return (← find) ∪ (← find)) = find) :
    evalAny tokens call definitions p = find := by
  induction definitions with
  | nil => exact absurd rfl some_definitions
  | cons definition definitions ih =>
    obtain ⟨first, others⟩ := List.forall_mem_cons.mp all
    rw [evalAny, first]
    cases definitions with
    | nil => simp only [evalAny, pure_bind, Ends.union_empty, bind_pure]
    | cons next definitions => rw [ih (List.cons_ne_nil _ _) others, twice]

theorem eval_merge_same (some_definitions : definitions ≠ [])
    (all : ∀ definition ∈ definitions, definition.eval tokens call p = find)
    (twice : (do return (← find) ∪ (← find)) = find) :
    (merge definitions).eval tokens call p = find := by
  unfold merge
  split
  · exact all _ List.mem_cons_self
  · rw [eval, evalAny_same some_definitions all twice]

theorem twice_pure (ends : Ends n) :
    (do return (← (pure ends : Find rules n)) ∪ (← pure ends)) = (pure ends : Find rules n) := by
  simp only [pure_bind, Ends.union_self]

theorem twice_miss (p : Spot n) :
    (do return (← (Find.miss p : Find rules n)) ∪ (← Find.miss p)) =
      (Find.miss p : Find rules n) := by
  funext search
  show ((∅ : Ends n) ∪ ∅, (search.fail p).fail p) = (∅, search.fail p)
  rw [Ends.union_self, Search.fail_of_looked (search.looked_fail p)]

end Node

namespace Program

variable {program : Program} {literal token : Text} {tokens : List Text}
  {definitions : List (Node program.names.length)}

theorem outcome_terminal (merged : program.body program.startRule = Node.merge definitions)
    (some_definitions : definitions ≠ [])
    (all : ∀ definition ∈ definitions, definition = .terminal literal) (wanted : literal ≠ []) :
    program.outcome [literal] = .complete := by
  have hit : (Node.terminal literal).eval [literal].toArray.toVector
      (program.rule [literal].toArray.toVector (maxDepth - 1)) 0 = pure {1} :=
    Node.eval_terminal_hit wanted (by simp) rfl
  have whole := Node.eval_merge_same some_definitions
    (fun definition member => all definition member ▸ hit) (Node.twice_pure {1})
  rw [← merged] at whole
  rw [outcome_of_quiet (congrFun whole _) ((Search.memo?_grow ..).trans (if_pos rfl))]
  refine if_neg (Nat.not_lt.mpr ?_)
  exact le_reached_of_mem (Ends.mem_singleton.mpr rfl : (1 : Spot 1) ∈ ({1} : Ends 1))

theorem outcome_other (merged : program.body program.startRule = Node.merge definitions)
    (some_definitions : definitions ≠ [])
    (all : ∀ definition ∈ definitions, definition = .terminal literal) (wanted : literal ≠ [])
    (other : token ≠ literal) : program.outcome (token :: tokens) = .haltedAt 0 := by
  have miss : (Node.terminal literal).eval (token :: tokens).toArray.toVector
      (program.rule (token :: tokens).toArray.toVector (maxDepth - 1)) 0 = Find.miss 0 :=
    Node.eval_terminal_miss wanted (by simpa using other)
  have whole := Node.eval_merge_same some_definitions
    (fun definition member => all definition member ▸ miss) (Node.twice_miss 0)
  rw [← merged] at whole
  rw [outcome_of_quiet (congrFun whole _) (by
    rw [Search.memo?_fail, Search.memo?_grow, if_pos rfl])]
  exact if_pos (Nat.zero_lt_succ _)

end Program

namespace GrammarParser

variable {grammar : Grammar} {parser : GrammarParser} {literal : Text}

theorem of_ofGrammar_eq_ok (compiles : ofGrammar grammar = .ok parser) :
    parser.cutter = Cutter.ofLiterals grammar.terminals ∧ Merges grammar parser.program ∧
      grammar.names.head? = some parser.program.startName := by
  obtain ⟨program, resolved, rfl⟩ := map_eq_ok_iff.mp compiles
  obtain ⟨names, merges⟩ := Program.of_ofGrammar_eq_ok resolved
  exact ⟨rfl, merges, (merges.preserves names).start⟩

theorem startName_eq {name : Text} (compiles : ofGrammar grammar = .ok parser)
    (first : grammar.names.head? = some name) : parser.program.startName = name := by
  obtain ⟨-, -, start⟩ := of_ofGrammar_eq_ok compiles
  exact Option.some.inj (start.symm.trans first)

theorem exists_definitions (compiles : ofGrammar grammar = .ok parser)
    (alone : ∀ rule ∈ grammar.rules, rule.name = parser.program.startName →
      rule.body = .terminal literal) :
    ∃ definitions, parser.program.body parser.program.startRule = Node.merge definitions ∧
      definitions ≠ [] ∧ ∀ definition ∈ definitions, definition = .terminal literal := by
  obtain ⟨-, merges, start⟩ := of_ofGrammar_eq_ok compiles
  obtain ⟨definitions, merged, resolved⟩ := merges parser.program.startRule
  refine ⟨definitions, merged, ?_, fun definition member => ?_⟩
  · obtain ⟨rule, member, name⟩ := List.mem_map.mp (List.mem_of_head? start)
    obtain ⟨definition, found, -⟩ := exists_right_of_mem resolved
      (List.mem_filter.mpr ⟨member, decide_eq_true name⟩)
    exact List.ne_nil_of_mem found
  · obtain ⟨rule, found, resolves⟩ := exists_left_of_mem resolved member
    obtain ⟨member, name⟩ := List.mem_filter.mp found
    rw [alone rule member (of_decide_eq_true name)] at resolves
    cases resolves
    rfl

section

variable (compiles : ofGrammar grammar = .ok parser)
  (alone : ∀ rule ∈ grammar.rules, rule.name = parser.program.startName →
    rule.body = .terminal literal)
  (written : literal.isBlank = false)

include compiles alone written

theorem outcome_of_cut (whole : parser.cutter.cut literal = [literal]) :
    parser.outcome literal = .complete := by
  obtain ⟨definitions, merged, some_definitions, all⟩ := exists_definitions compiles alone
  rw [outcome, whole]
  refine Program.outcome_terminal merged some_definitions all ?_
  rintro rfl
  cases written

theorem outcome_of_indented (indented : Text.trimStart literal ≠ literal) :
    parser.outcome literal = .haltedAt 0 := by
  obtain ⟨definitions, merged, some_definitions, all⟩ := exists_definitions compiles alone
  obtain ⟨c, cs, trimmed⟩ := Text.exists_trimStart written
  rw [outcome, Cutter.cut_of_trimStart trimmed]
  refine Program.outcome_other merged some_definitions all ?_ fun whole =>
    indented (Cutter.trimStart_of_first trimmed whole)
  rintro rfl
  cases written

end

/-- A terminal is one token of its own text exactly if it does not begin with white space.
A start rule that is nothing but such a terminal accepts its text, all of which is then
one matched segment; any other halts at once. -/
theorem terminal_matched (compiles : ofGrammar grammar = .ok parser)
    (terminal : literal ∈ grammar.terminals) (written : literal.isBlank = false) :
    (parser.cutter.cut literal = [literal] ↔ Text.trimStart literal = literal) ∧
    ((∀ rule ∈ grammar.rules, rule.name = parser.program.startName →
        rule.body = .terminal literal) →
      if Text.trimStart literal = literal then
        parser.outcome literal = .complete ∧
          Report.ofParser parser.toSampleParser literal = ⟨[⟨⟨0, literal.width⟩, true⟩]⟩ ∧
          ∀ source, ofText source = .ok parser →
            Report.compute source literal = ⟨[⟨⟨0, literal.width⟩, true⟩]⟩
      else parser.outcome literal = .haltedAt 0) := by
  obtain ⟨cutter, -, -⟩ := of_ofGrammar_eq_ok compiles
  have own := Cutter.cut_self_iff terminal written
  rw [← cutter] at own
  refine ⟨own, fun alone => ?_⟩
  by_cases trimmed : Text.trimStart literal = literal
  · rw [if_pos trimmed]
    have whole : parser.cutter.cut literal = [literal] := own.mpr trimmed
    have complete := outcome_of_cut compiles alone written whole
    have report : Report.ofParser parser.toSampleParser literal =
        ⟨[⟨⟨0, literal.width⟩, true⟩]⟩ := by
      rw [Report.ofParser_of_complete written complete, whole, cutter,
        Cutter.pieces_self terminal written trimmed]
      simp [Report.placed]
    refine ⟨complete, report, fun source compiles => ?_⟩
    rw [Report.compute_of_ofText_eq_ok compiles written, report]
  · rw [if_neg trimmed]
    exact outcome_of_indented compiles alone written trimmed

abbrev padded : Grammar :=
  ⟨[⟨"s".toList, .terminal "a b ".toList⟩,
    ⟨"t".toList, .alternation [.terminal "a".toList, .terminal "a b".toList]⟩]⟩

theorem terminal_matched_padded : ∃ parser, ofGrammar padded = .ok parser ∧
    "a b ".toList ∈ padded.terminals ∧ Text.isBlank "a b ".toList = false ∧
    (∀ rule ∈ padded.rules, rule.name = parser.program.startName →
      rule.body = .terminal "a b ".toList) ∧
    ofText "s = 'a b ' ; t = 'a' | 'a b' ;".toList = .ok parser ∧
    parser.cutter.cut "a b ".toList = ["a b ".toList] ∧
    parser.outcome "a b ".toList = .complete ∧
    Report.compute "s = 'a b ' ; t = 'a' | 'a b' ;".toList "a b ".toList =
      ⟨[⟨⟨0, 4⟩, true⟩]⟩ := by
  have succeeds : (ofGrammar padded).isOk = true := by cbv
  have read : ofText "s = 'a b ' ; t = 'a' | 'a b' ;".toList = ofGrammar padded := by cbv
  have terminal : "a b ".toList ∈ padded.terminals := by decide
  have written : Text.isBlank "a b ".toList = false := by decide
  obtain ⟨parser, compiles⟩ := exists_of_isOk succeeds
  have alone : ∀ rule ∈ padded.rules, rule.name = parser.program.startName →
      rule.body = .terminal "a b ".toList := by
    rw [startName_eq compiles rfl]
    simp
  obtain ⟨own, matched⟩ := terminal_matched compiles terminal written
  obtain ⟨complete, -, computed⟩ := matched alone
  rw [compiles] at read
  exact ⟨parser, compiles, terminal, written, alone, read, own.mpr rfl, complete, computed _ read⟩

abbrev indented : Grammar := ⟨[⟨"s".toList, .terminal " a".toList⟩]⟩

/-- With white space at the front, a terminal is not a token of its own text. -/
theorem terminal_skipped : ∃ parser, ofGrammar indented = .ok parser ∧
    " a".toList ∈ indented.terminals ∧ Text.isBlank " a".toList = false ∧
    (∀ rule ∈ indented.rules, rule.name = parser.program.startName →
      rule.body = .terminal " a".toList) ∧
    parser.cutter.cut " a".toList ≠ [" a".toList] ∧
    parser.outcome " a".toList ≠ .complete := by
  have succeeds : (ofGrammar indented).isOk = true := by cbv
  have terminal : " a".toList ∈ indented.terminals := by decide
  have written : Text.isBlank " a".toList = false := by decide
  have skipped : Text.trimStart " a".toList ≠ " a".toList := by decide
  obtain ⟨parser, compiles⟩ := exists_of_isOk succeeds
  have alone : ∀ rule ∈ indented.rules, rule.name = parser.program.startName →
      rule.body = .terminal " a".toList := by simp
  obtain ⟨cutter, -, -⟩ := of_ofGrammar_eq_ok compiles
  refine ⟨parser, compiles, terminal, written, alone, ?_, ?_⟩
  · rw [cutter]
    exact mt (Cutter.cut_self_iff terminal written).mp skipped
  · rw [outcome_of_indented compiles alone written skipped]
    exact Outcome.noConfusion

end GrammarParser

end GrammarDesk
