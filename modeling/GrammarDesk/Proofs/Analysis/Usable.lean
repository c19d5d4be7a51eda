import GrammarDesk.CommandLine.Commands
import GrammarDesk.Proofs.Analysis.Findings
import Mathlib

/-! Which grammars are usable. Diagnostics see every rule that begins and the
compiler only those that are kept, so they agree unless the last rule is begun
and dropped. -/
namespace GrammarDesk

namespace Reading

variable (reading : Reading)

/-- Definitions of the rules that the reading keeps; they come first. -/
def keptDefinitions : List Symbol := reading.symbols.definitions.take reading.rules.length

/-- Definitions of rules that began and were not kept. -/
def droppedDefinitions : List Symbol := reading.symbols.definitions.drop reading.rules.length

/-- References in front of every rule that was not kept. -/
def keptReferences : List Symbol :=
  reading.symbols.references.filter fun reference =>
    reading.droppedDefinitions.all (reference.first < ·.first)

variable {reading} {tokens : List Text}

theorem keptDefinitions_of_dropped_eq_nil (kept : reading.droppedDefinitions = []) :
    reading.keptDefinitions = reading.symbols.definitions := by
  have split := List.take_append_drop reading.rules.length reading.symbols.definitions
  rw [droppedDefinitions] at kept
  rwa [kept, List.append_nil] at split

theorem keptReferences_of_dropped_eq_nil (kept : reading.droppedDefinitions = []) :
    reading.keptReferences = reading.symbols.references := by
  simp [keptReferences, kept]

/-- Names that kept rules define and refer to, and behind them those of a rule
that is dropped. -/
inductive Keeps (rules : List Rule) : List Event → List Event → Prop where
  | whole {definitions references} :
      definitions.map Event.result = rules.map Rule.name →
      references.map Event.result = rules.flatMap (·.body.references) →
      Keeps rules definitions references
  | dropped {definitions references} {last : Event} {others} :
      definitions.map Event.result = rules.map Rule.name →
      references.map Event.result = rules.flatMap (·.body.references) →
      (∀ reference ∈ references, reference.first < last.first) →
      (∀ reference ∈ others, last.first < reference.first) →
      Keeps rules (definitions ++ [last]) (references ++ others)

theorem Keeps.rule {rule : Rule} {rules : List Rule} {uses definitions references : List Event}
    (used : uses.map Event.result = rule.body.references)
    (apart : ∀ use ∈ uses, ∀ definition ∈ definitions, use.first < definition.first)
    (keeps : Keeps rules definitions references) (start : Nat) :
    Keeps (rule :: rules) (.ofToken rule.name start :: definitions) (uses ++ references) := by
  have refers {more : List Event}
      (others : more.map Event.result = rules.flatMap (·.body.references)) :
      (uses ++ more).map Event.result = (rule :: rules).flatMap (·.body.references) := by
    rw [List.map_append, used, others, List.flatMap_cons]
  cases keeps with
  | whole names others => exact .whole (congrArg (rule.name :: ·) names) (refers others)
  | @dropped definitions references last more names others front back =>
    rw [← List.cons_append, ← List.append_assoc]
    refine .dropped (congrArg (rule.name :: ·) names) (refers others) ?_ back
    exact List.forall_mem_append.mpr ⟨fun use member => apart use member last (by simp), front⟩

theorem Story.keeps {start : Nat} {texts : List Text} {rules : List Rule} {events : List Event}
    (story : Story start texts rules events) :
    let names := (Event.ofTokens start texts).filter Event.isName
    let indices := starts start (events.filter Event.isRule)
    Keeps rules (names.filter (standsAt indices)) (names.filter (!standsAt indices ·)) := by
  dsimp only
  -- Behind a rule come the names of those that follow it; the first name of each defines.
  induction story with
  | @unfinished texts start opens =>
    rw [Event.filter_isRule_ofTokens]
    cases texts with
    | nil => exact .whole rfl rfl
    | cons name tail =>
      obtain ⟨defined, referred⟩ := names_of_rule opens.named tail start [] (by simp)
      rw [starts, List.map_nil, defined, referred]
      refine @Keeps.dropped _ [] [] _ _ rfl rfl (by simp) fun event member => ?_
      exact (Event.bounds_of_mem_ofTokens (List.mem_filter.mp member).1).1
  | @unterminated rule texts start tells =>
    obtain ⟨named, tail, rfl, -⟩ := tells.exists_cons
    obtain ⟨defined, referred⟩ := names_of_rule named tail start
      [start + (rule.name :: tail).length] (by simp)
    rw [Event.filter_isRule_rule, starts, List.filter_nil, List.map_singleton, Event.stop_ofRule,
      defined, referred]
    exact .whole rfl (by simpa using references_of_tells tells (start + 1))
  | @rule rule texts stop start more rules events tells stops story ih =>
    obtain ⟨named, tail, rfl, -⟩ := tells.exists_cons
    have other : Kind.classify stop ≠ .name := by rw [stops]; decide
    obtain ⟨defined, referred⟩ := names_rule named other story.consecutive more
    rw [Event.filter_isRule_rule, starts_rule, defined, referred]
    refine ih.rule (references_of_tells tells (start + 1))
      (fun use used definition defines => ?_) start
    have before := Event.bounds_of_mem_ofTokens (List.mem_filter.mp used).1
    have behind := Event.bounds_of_mem_ofTokens
      (List.mem_filter.mp (List.mem_filter.mp defines).1).1
    rw [List.length_append, List.length_cons] at behind
    omega

theorem exists_keeps (tokens : List Text) : ∃ definitions references,
    Keeps (ofTokens tokens).rules definitions references ∧
      (ofTokens tokens).symbols.definitions = definitions.map (.ofEvent .definition) ∧
      (ofTokens tokens).symbols.references = references.map (.ofEvent .reference) := by
  obtain ⟨count, -, story, defines, refers⟩ := exists_heard tokens
  exact ⟨_, _, story.keeps, defines, refers⟩

theorem kept_names (tokens : List Text) :
    (ofTokens tokens).keptDefinitions.map Symbol.name = (ofTokens tokens).rules.map Rule.name ∧
      (ofTokens tokens).keptReferences.map Symbol.name =
        (ofTokens tokens).rules.flatMap (·.body.references) := by
  have named (kind : SymbolKind) (events : List Event) :
      (events.map (.ofEvent kind)).map Symbol.name = events.map Event.result := by
    simp
  have count {definitions : List Event}
      (names : definitions.map Event.result = (ofTokens tokens).rules.map Rule.name) :
      (ofTokens tokens).rules.length = (definitions.map (Symbol.ofEvent .definition)).length := by
    simpa using (congrArg List.length names).symm
  obtain ⟨_, _, keeps, defines, refers⟩ := exists_keeps tokens
  cases keeps with
  | whole names uses =>
    have kept : (ofTokens tokens).droppedDefinitions = [] := by
      rw [droppedDefinitions, defines, count names, List.drop_length]
    rw [keptDefinitions_of_dropped_eq_nil kept, keptReferences_of_dropped_eq_nil kept, defines,
      refers, named, named]
    exact ⟨names, uses⟩
  | @dropped definitions references last others names uses front back =>
    rw [List.map_append] at defines refers
    have final : (ofTokens tokens).droppedDefinitions = [.ofEvent .definition last] := by
      rw [droppedDefinitions, defines, count names, List.drop_left]
      rfl
    have before : ∀ reference ∈ references.map (Symbol.ofEvent .reference),
        reference.first < (Symbol.ofEvent .definition last).first :=
      List.forall_mem_map.mpr front
    have behind : ∀ reference ∈ others.map (Symbol.ofEvent .reference),
        (Symbol.ofEvent .definition last).first < reference.first :=
      List.forall_mem_map.mpr back
    rw [keptDefinitions, keptReferences, final, defines, refers, count names, List.take_left, named,
      List.filter_append, List.filter_eq_self.mpr fun reference member => by
        simpa using before reference member,
      List.filter_eq_nil_iff.mpr fun reference member => by
        simpa using Nat.le_of_lt (behind reference member), List.append_nil, named]
    exact ⟨names, uses⟩

end Reading

namespace Diagnostic

variable {limits : Limits} {source : Text}

theorem forall_code_iff (short : source.length ≤ limits.maxChars)
    (inTime : limits.overBudget = false) (fine : DiagnosticCode → Prop) :
    (∀ diagnostic ∈ analyze limits source, fine diagnostic.code) ↔
      ∀ remark ∈ Remark.ofTokens (Token.texts source false), fine remark.code := by
  have codes : (Remark.ofTokens (Token.texts source false)).map Remark.code =
      (analyze limits source).map Diagnostic.code := by
    rw [← List.forall₂_eq_eq_eq, List.forall₂_map_left_iff, List.forall₂_map_right_iff]
    exact (makes_analyze short inTime).imp fun _ _ makes => makes.code.symm
  rw [← List.forall_mem_map, ← codes, List.forall_mem_map]

theorem no_syntaxError_iff (short : source.length ≤ limits.maxChars)
    (inTime : limits.overBudget = false) :
    (∀ diagnostic ∈ analyze limits source, diagnostic.code ≠ .syntaxError) ↔
      (Reading.ofText source).outcome = .complete := by
  rw [forall_code_iff short inTime (· ≠ .syntaxError), Reading.ofText]
  simp only [Remark.ofTokens, List.forall_mem_append, List.forall_mem_map]
  cases (Reading.ofTokens (Token.texts source false)).outcome <;>
    simp [Outcome.halt?, Remark.ofHalt, Remark.ofIssue, Remark.ofReference, Remark.ofDefinition]

theorem no_undefinedSymbol_iff (short : source.length ≤ limits.maxChars)
    (inTime : limits.overBudget = false) :
    (∀ diagnostic ∈ analyze limits source, diagnostic.code ≠ .undefinedSymbol) ↔
      ∀ reference ∈ (Reading.ofText source).symbols.references,
        ∃ definition ∈ (Reading.ofText source).symbols.definitions,
          definition.name = reference.name := by
  rw [forall_code_iff short inTime (· ≠ .undefinedSymbol), Reading.ofText]
  simp only [Remark.ofTokens, List.forall_mem_append, List.forall_mem_map]
  simp [Remark.ofHalt, Remark.ofIssue, Remark.ofReference, Remark.ofDefinition,
    Symbols.undefinedReferences, Symbols.isDefined]

theorem no_errors_of_status_eq_zero {path : String} {format : Format}
    (passes : (Command.checkResult limits path format source).status = 0) :
    ∀ diagnostic ∈ analyze limits source,
      diagnostic.code ≠ .syntaxError ∧ diagnostic.code ≠ .undefinedSymbol := by
  intro diagnostic member
  have harmless : diagnostic.severity ≠ .error := by
    have kept : diagnostic ∈ sorted (analyze limits source) := List.mem_mergeSort.mpr member
    simp only [Command.checkResult, Command.status] at passes
    split at passes
    · cases passes
    · rename_i clean
      exact fun error => clean (List.any_eq_true.mpr ⟨diagnostic, kept, by simpa using error⟩)
  refine ⟨fun code => harmless ?_, fun code => harmless ?_⟩ <;> rw [severity, code] <;> rfl

end Diagnostic

namespace GrammarParser

theorem exists_ofText_iff_kept (source : Text) :
    (∃ parser, ofText source = .ok parser) ↔ (Reading.ofText source).outcome = .complete ∧
      (Reading.ofText source).rules ≠ [] ∧
      ∀ reference ∈ (Reading.ofText source).keptReferences,
        ∃ definition ∈ (Reading.ofText source).keptDefinitions,
          definition.name = reference.name := by
  rw [exists_ofText_iff]
  refine and_congr_right fun complete => and_congr_right fun _ => ?_
  obtain ⟨names, uses⟩ := Reading.kept_names (Token.texts source false)
  have uses : ∀ name, (∃ rule ∈ (Reading.ofText source).rules, name ∈ rule.body.references) ↔
      ∃ reference ∈ (Reading.ofText source).keptReferences, reference.name = name := by
    intro name
    rw [← List.mem_flatMap, ← List.mem_map]
    exact (congrArg (name ∈ ·) uses).to_iff.symm
  have names : ∀ name, name ∈ (Reading.ofText source).rules.map Rule.name ↔
      ∃ definition ∈ (Reading.ofText source).keptDefinitions, definition.name = name := by
    intro name
    rw [← List.mem_map]
    exact (congrArg (name ∈ ·) names).to_iff.symm
  constructor
  · intro known reference member
    obtain ⟨rule, kept, used⟩ := (uses _).mpr ⟨reference, member, rfl⟩
    exact (names _).mp (known rule kept _ used)
  · intro known rule kept name used
    obtain ⟨reference, member, rfl⟩ := (uses name).mp ⟨rule, kept, used⟩
    exact (names _).mpr (known reference member)

/-- A text compiles if it keeps a rule, has no syntax error, and each reference
in its kept rules names a kept rule. Unless it ends in a rule that is begun and
dropped, the diagnostics tell. -/
theorem compiles_iff_diagnostics {limits : Limits} {source : Text}
    (short : source.length ≤ limits.maxChars) (inTime : limits.overBudget = false) :
    ((∃ parser, ofText source = .ok parser) ↔ (Reading.ofText source).rules ≠ [] ∧
        (∀ diagnostic ∈ Diagnostic.analyze limits source, diagnostic.code ≠ .syntaxError) ∧
        ∀ reference ∈ (Reading.ofText source).keptReferences,
          ∃ definition ∈ (Reading.ofText source).keptDefinitions,
            definition.name = reference.name) ∧
      (((Reading.ofText source).outcome = .complete →
          (Reading.ofText source).droppedDefinitions = []) →
        ((∃ parser, ofText source = .ok parser) ↔ (Reading.ofText source).rules ≠ [] ∧
          ∀ diagnostic ∈ Diagnostic.analyze limits source,
            diagnostic.code ≠ .syntaxError ∧ diagnostic.code ≠ .undefinedSymbol) ∧
        ((Reading.ofText source).rules ≠ [] → ∀ path format,
          (Command.checkResult limits path format source).status = 0 →
            ∃ parser, ofText source = .ok parser)) := by
  have syntactic := Diagnostic.no_syntaxError_iff short inTime
  have exact_kept := exists_ofText_iff_kept source
  have agree : ((Reading.ofText source).outcome = .complete →
      (Reading.ofText source).droppedDefinitions = []) →
      ((∃ parser, ofText source = .ok parser) ↔ (Reading.ofText source).rules ≠ [] ∧
        ∀ diagnostic ∈ Diagnostic.analyze limits source,
          diagnostic.code ≠ .syntaxError ∧ diagnostic.code ≠ .undefinedSymbol) := by
    intro kept
    rw [exact_kept]
    constructor
    · rintro ⟨complete, keeps, defined⟩
      rw [Reading.keptDefinitions_of_dropped_eq_nil (kept complete),
        Reading.keptReferences_of_dropped_eq_nil (kept complete)] at defined
      exact ⟨keeps, fun diagnostic member => ⟨syntactic.mpr complete _ member,
        (Diagnostic.no_undefinedSymbol_iff short inTime).mpr defined _ member⟩⟩
    · rintro ⟨keeps, clean⟩
      have complete := syntactic.mp fun diagnostic member => (clean _ member).1
      rw [Reading.keptDefinitions_of_dropped_eq_nil (kept complete),
        Reading.keptReferences_of_dropped_eq_nil (kept complete)]
      exact ⟨complete, keeps, (Diagnostic.no_undefinedSymbol_iff short inTime).mp
        fun diagnostic member => (clean _ member).2⟩
  refine ⟨?_, fun kept => ⟨agree kept, fun keeps path format passes =>
    (agree kept).mpr ⟨keeps, Diagnostic.no_errors_of_status_eq_zero passes⟩⟩⟩
  rw [exact_kept, syntactic, and_left_comm]

/-- The last rule is kept without its terminator. -/
theorem compiles_unterminated :
    ("a = b ; b = 'x'".toList.length ≤ ({} : Limits).maxChars ∧
      ({} : Limits).overBudget = false) ∧
      ∃ parser, ofText "a = b ; b = 'x'".toList = .ok parser := by
  have short : "a = b ; b = 'x'".toList.length ≤ ({} : Limits).maxChars := by decide
  have inTime : ({} : Limits).overBudget = false := by decide
  have kept : (Reading.ofText "a = b ; b = 'x'".toList).droppedDefinitions = [] := by cbv
  have keeps : (Reading.ofText "a = b ; b = 'x'".toList).rules.isEmpty = false := by cbv
  have clean : ((Diagnostic.sorted (Diagnostic.analyze {} "a = b ; b = 'x'".toList)).any
      (·.severity = .error)) = false := by cbv
  exact ⟨⟨short, inTime⟩, ((compiles_iff_diagnostics short inTime).2 fun _ => kept).2
    (by simpa using keeps) "grammar" .json (congrArg Command.status clean)⟩

/-- A name that only a dropped rule defines has no diagnostic and does not compile. -/
theorem diagnostics_overlook_dropped_rule :
    ("a = b ; b = ( 'x'".toList.length ≤ ({} : Limits).maxChars ∧
      ({} : Limits).overBudget = false) ∧
      ¬ ((∃ parser, ofText "a = b ; b = ( 'x'".toList = .ok parser) ↔
        (Reading.ofText "a = b ; b = ( 'x'".toList).rules ≠ [] ∧
          ∀ diagnostic ∈ Diagnostic.analyze {} "a = b ; b = ( 'x'".toList,
            diagnostic.code ≠ .syntaxError ∧ diagnostic.code ≠ .undefinedSymbol) := by
  have rejected : (ofText "a = b ; b = ( 'x'".toList).isOk = false := by cbv
  have keeps : (Reading.ofText "a = b ; b = ( 'x'".toList).rules.isEmpty = false := by cbv
  have clean : ((Diagnostic.analyze {} "a = b ; b = ( 'x'".toList).all fun diagnostic =>
      diagnostic.code ≠ .syntaxError && diagnostic.code ≠ .undefinedSymbol) = true := by cbv
  refine ⟨by decide, fun agree => ?_⟩
  obtain ⟨parser, compiled⟩ := agree.mpr ⟨by simpa using keeps, by simpa using clean⟩
  rw [compiled] at rejected
  cases rejected

end GrammarParser
end GrammarDesk
