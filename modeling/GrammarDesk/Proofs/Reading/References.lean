import GrammarDesk.Sample.Parser

/-! Which grammars compile: those with a rule for each name that their rules
refer to. -/
namespace GrammarDesk

mutual

def Phrase.references : Phrase → List Text
  | .alternation items | .sequence items => Phrase.referencesAll items
  | .optional inner | .repeated inner | .times _ inner | .zeroOrMore inner | .oneOrMore inner =>
    inner.references
  | .except kept dropped => kept.references ++ dropped.references
  | .reference name => [name]
  | .terminal _ | .special _ | .empty => []

def Phrase.referencesAll : List Phrase → List Text
  | [] => []
  | item :: items => item.references ++ Phrase.referencesAll items

end

section

variable {ε α β γ : Type}

def failure? : Except ε α → Option ε
  | .ok _ => none
  | .error error => some error

variable {first : Except ε α} {second : Except ε β}

theorem failure?_eq_some_iff {error : ε} : failure? first = some error ↔ first = .error error := by
  cases first <;> simp [failure?]

theorem failure?_eq_none_iff : failure? first = none ↔ ∃ a, first = .ok a := by
  cases first <;> simp [failure?]

theorem failure?_map (build : α → β) :
    failure? (first >>= fun a => pure (build a)) = failure? first := by
  cases first <;> rfl

theorem failure?_map₂ (build : α → β → γ) :
    failure? (first >>= fun a => second >>= fun b => pure (build a b)) =
      (failure? first).or (failure? second) := by
  cases first <;> cases second <;> rfl

end

def unknown? (names references : List Text) : Option Text :=
  references.find? (· ∉ names)

theorem unknown?_append (names first second : List Text) :
    unknown? names (first ++ second) = (unknown? names first).or (unknown? names second) :=
  List.find?_append

theorem unknown?_congr {one two : List Text} (same : ∀ name, name ∈ one ↔ name ∈ two)
    (references : List Text) : unknown? one references = unknown? two references := by
  simp only [unknown?, same]

theorem unknown?_eq_none_iff {names references : List Text} :
    unknown? names references = none ↔ ∀ name ∈ references, name ∈ names := by
  simp [unknown?]

namespace Node

variable (names : List Text)

mutual

theorem failure?_ofPhrase (phrase : Phrase) : failure? (ofPhrase names phrase) =
    (unknown? names phrase.references).map .undefinedRule := by
  cases phrase with
  | alternation items | sequence items =>
    rw [ofPhrase, failure?_map, failure?_ofPhrases items, Phrase.references]
  | optional inner | repeated inner | times _ inner | zeroOrMore inner | oneOrMore inner =>
    rw [ofPhrase, failure?_map, failure?_ofPhrase inner, Phrase.references]
  | except kept dropped =>
    rw [ofPhrase, failure?_map₂, failure?_ofPhrase kept, failure?_ofPhrase dropped,
      Phrase.references, unknown?_append, Option.map_or]
  | reference name =>
    have known := List.finIdxOf?_eq_none_iff (l := names) (a := name)
    simp only [ofPhrase, Phrase.references, unknown?, List.find?_singleton]
    cases found : names.finIdxOf? name with
    | none => simp [known.mp found, failure?, throw, throwThe, MonadExceptOf.throw]
    | some index =>
      have member : name ∈ names := Decidable.not_not.mp (mt known.mpr (by simp [found]))
      simp [member, failure?, pure, Except.pure]
  | terminal _ | special _ | empty => rfl

theorem failure?_ofPhrases (items : List Phrase) : failure? (ofPhrases names items) =
    (unknown? names (Phrase.referencesAll items)).map .undefinedRule := by
  cases items with
  | nil => rfl
  | cons item items =>
    rw [ofPhrases, failure?_map₂, failure?_ofPhrase item, failure?_ofPhrases items,
      Phrase.referencesAll, unknown?_append, Option.map_or]

end

end Node

def Grammar.references (grammar : Grammar) : List Text :=
  grammar.rules.flatMap (·.body.references)

def Grammar.names (grammar : Grammar) : List Text := grammar.rules.map Rule.name

namespace Program

theorem failure?_definitions (names : List Text) (rules : List Rule) :
    failure? (definitions names rules) =
      (unknown? names (rules.flatMap (·.body.references))).map .undefinedRule := by
  induction rules with
  | nil => rfl
  | cons rule rules ih =>
    rw [definitions, failure?_map₂, Node.failure?_ofPhrase, ih, List.flatMap_cons,
      unknown?_append, Option.map_or]

theorem length_eraseDups_names_pos_iff (grammar : Grammar) :
    0 < grammar.names.eraseDups.length ↔ grammar.rules ≠ [] := by
  unfold Grammar.names
  cases grammar.rules <;> simp [List.eraseDups_cons]

theorem failure?_ofGrammar (grammar : Grammar) : failure? (ofGrammar grammar) =
    if grammar.rules = [] then some .noRules
    else (unknown? grammar.names grammar.references).map .undefinedRule := by
  have start := length_eraseDups_names_pos_iff grammar
  have known : unknown? grammar.names.eraseDups grammar.references =
      unknown? grammar.names grammar.references := unknown?_congr (fun _ => List.mem_eraseDups) _
  rw [← known]
  unfold ofGrammar
  dsimp only
  split
  · rename_i some_names
    rw [failure?_map, failure?_definitions, if_neg (start.mp some_names)]
    rfl
  · rename_i no_names
    rw [if_pos (Decidable.not_not.mp (mt start.mpr no_names))]
    rfl

theorem exists_ofGrammar_iff (grammar : Grammar) :
    (∃ program, ofGrammar grammar = .ok program) ↔ grammar.rules ≠ [] ∧
      ∀ rule ∈ grammar.rules, ∀ name ∈ rule.body.references,
        name ∈ grammar.rules.map Rule.name := by
  rw [← failure?_eq_none_iff, failure?_ofGrammar]
  by_cases none : grammar.rules = []
  · simp [none]
  · rw [if_neg none, Option.map_eq_none_iff, unknown?_eq_none_iff, Grammar.references,
      List.forall_mem_flatMap]
    exact (and_iff_right none).symm

end Program

namespace GrammarParser

theorem exists_ofGrammar_iff (grammar : Grammar) :
    (∃ parser, ofGrammar grammar = .ok parser) ↔ grammar.rules ≠ [] ∧
      ∀ rule ∈ grammar.rules, ∀ name ∈ rule.body.references,
        name ∈ grammar.rules.map Rule.name := by
  rw [← failure?_eq_none_iff, ofGrammar, failure?_map, failure?_eq_none_iff,
    Program.exists_ofGrammar_iff]

/-- A grammar compiles if it is read to its end and keeps rules that refer to
each other only. -/
theorem exists_ofText_iff (source : Text) :
    (∃ parser, ofText source = .ok parser) ↔ (Reading.ofText source).outcome = .complete ∧
      (Reading.ofText source).rules ≠ [] ∧
      ∀ rule ∈ (Reading.ofText source).rules, ∀ name ∈ rule.body.references,
        name ∈ (Reading.ofText source).rules.map Rule.name := by
  unfold ofText ofTokens
  rw [← Reading.ofText]
  cases outcome : (Reading.ofText source).outcome with
  | complete =>
    simp only [outcome, true_and]
    exact exists_ofGrammar_iff (Reading.ofText source).grammar
  | haltedAt index => simp [outcome, throw, throwThe, MonadExceptOf.throw]

end GrammarParser
end GrammarDesk
