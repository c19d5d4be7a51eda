import GrammarDesk.Proofs.Grammar.Meaning

/-! Compilation fails at the first name that no rule has, in document order, and
else keeps the meaning of all rules. -/
namespace GrammarDesk

section

variable {ε α β γ : Type} {first : Except ε α} {second : Except ε β}

theorem map_eq_ok_iff {build : α → β} {b : β} :
    (first >>= fun a => pure (build a)) = .ok b ↔ ∃ a, first = .ok a ∧ build a = b := by
  cases first <;> simp [bind, Except.bind, pure, Except.pure]

theorem map₂_eq_ok_iff {build : α → β → γ} {c : γ} :
    (first >>= fun a => second >>= fun b => pure (build a b)) = .ok c ↔
      ∃ a, first = .ok a ∧ ∃ b, second = .ok b ∧ build a b = c := by
  cases first <;> cases second <;> simp [bind, Except.bind, pure, Except.pure]

theorem exists_of_isOk (succeeds : first.isOk = true) : ∃ a, first = .ok a := by
  cases first with
  | error error => cases succeeds
  | ok a => exact ⟨a, rfl⟩

end

namespace Node

variable (names : List Text)

mutual

theorem resolves_of_ofPhrase (phrase : Phrase) (node : Node names.length)
    (resolved : ofPhrase names phrase = .ok node) : Resolves names phrase node := by
  cases phrase with
  | alternation items =>
    obtain ⟨nodes, found, rfl⟩ := map_eq_ok_iff.mp resolved
    exact .alternation (resolves_of_ofPhrases items nodes found)
  | sequence items =>
    obtain ⟨nodes, found, rfl⟩ := map_eq_ok_iff.mp resolved
    exact .sequence (resolves_of_ofPhrases items nodes found)
  | optional inner =>
    obtain ⟨node, found, rfl⟩ := map_eq_ok_iff.mp resolved
    exact .optional (resolves_of_ofPhrase inner node found)
  | repeated inner =>
    obtain ⟨node, found, rfl⟩ := map_eq_ok_iff.mp resolved
    exact .repeated (resolves_of_ofPhrase inner node found)
  | zeroOrMore inner =>
    obtain ⟨node, found, rfl⟩ := map_eq_ok_iff.mp resolved
    exact .zeroOrMore (resolves_of_ofPhrase inner node found)
  | oneOrMore inner =>
    obtain ⟨node, found, rfl⟩ := map_eq_ok_iff.mp resolved
    exact .oneOrMore (resolves_of_ofPhrase inner node found)
  | times count inner =>
    obtain ⟨node, found, rfl⟩ := map_eq_ok_iff.mp resolved
    exact .times (resolves_of_ofPhrase inner node found)
  | except kept dropped =>
    obtain ⟨left, foundLeft, right, foundRight, rfl⟩ := map₂_eq_ok_iff.mp resolved
    exact .except (resolves_of_ofPhrase kept left foundLeft)
      (resolves_of_ofPhrase dropped right foundRight)
  | reference name =>
    unfold ofPhrase at resolved
    split at resolved
    · rename_i index found
      cases resolved
      exact .reference (List.finIdxOf?_eq_some_iff.mp found).1
    · cases resolved
  | terminal literal =>
    cases resolved
    exact .terminal
  | special text =>
    cases resolved
    exact .special
  | empty =>
    cases resolved
    exact .empty

theorem resolves_of_ofPhrases (items : List Phrase) (nodes : List (Node names.length))
    (resolved : ofPhrases names items = .ok nodes) :
    List.Forall₂ (Resolves names) items nodes := by
  cases items with
  | nil =>
    cases resolved
    exact .nil
  | cons item items =>
    obtain ⟨node, found, nodes, rest, rfl⟩ := map₂_eq_ok_iff.mp resolved
    exact .cons (resolves_of_ofPhrase item node found) (resolves_of_ofPhrases items nodes rest)

end

end Node

theorem nodup_eraseDups (names : List Text) : names.eraseDups.Nodup := by
  induction size : names.length using Nat.strongRecOn generalizing names with
  | ind k ih =>
    cases names with
    | nil => exact List.nodup_nil
    | cons name names =>
      have shorter := List.length_filter_le (fun other => !other == name) names
      rw [List.length_cons] at size
      rw [List.eraseDups_cons, List.nodup_cons]
      exact ⟨by simp, ih _ (by omega) _ rfl⟩

theorem head?_eraseDups (names : List Text) : names.eraseDups.head? = names.head? := by
  cases names <;> simp [List.eraseDups_cons]

namespace Program

theorem definitions_resolved (names : List Text) (rules : List Rule)
    (found : List (Text × Node names.length)) (defined : definitions names rules = .ok found) :
    List.Forall₂ (fun rule entry => rule.name = entry.1 ∧ Resolves names rule.body entry.2)
      rules found := by
  induction rules generalizing found with
  | nil =>
    cases defined
    exact .nil
  | cons rule rules ih =>
    obtain ⟨node, first, rest, others, rfl⟩ := map₂_eq_ok_iff.mp defined
    exact .cons ⟨rfl, Node.resolves_of_ofPhrase names _ _ first⟩ (ih rest others)

theorem of_ofGrammar_eq_ok {grammar : Grammar} {program : Program}
    (compiled : ofGrammar grammar = .ok program) :
    program.names = grammar.names.eraseDups ∧ Merges grammar program := by
  unfold ofGrammar at compiled
  dsimp only at compiled
  split at compiled
  · obtain ⟨found, defined, rfl⟩ := map_eq_ok_iff.mp compiled
    refine ⟨rfl, fun index => ⟨_, Vector.getElem_ofFn index.isLt, ?_⟩⟩
    have resolved := definitions_resolved _ _ _ defined
    rw [List.forall₂_map_right_iff]
    refine (List.rel_filter ?_ resolved).imp fun _ _ related => related.2
    rintro rule entry ⟨same, -⟩
    simp [same]
  · cases compiled

end Program

theorem Merges.preserves {grammar : Grammar} {program : Program}
    (names : program.names = grammar.names.eraseDups) (merges : Merges grammar program) :
    Preserves grammar program where
  nodup := names ▸ nodup_eraseDups grammar.names
  mem_names name := names ▸ List.mem_eraseDups
  start := by
    rw [← head?_eraseDups, ← names, List.head?_eq_getElem?]
    exact List.getElem?_eq_getElem program.start
  inside body _ index _ := by simp
  derives tokens excluded removed agree index p e := merges.derives_iff agree
  yields tokens index p e := merges.agree_yields _ _ (.reference rfl) p e

namespace GrammarParser

/-- A grammar without rules does not compile, nor does one that refers to a name
that no rule has; any other grammar does, and keeps its meaning. -/
theorem ofGrammar_preserves (grammar : Grammar) :
    (ofGrammar grammar = .error .noRules ↔ grammar.rules = []) ∧
    (∀ name, ofGrammar grammar = .error (.undefinedRule name) ↔
      grammar.references.find? (· ∉ grammar.names) = some name) ∧
    ((grammar.rules ≠ [] ∧ ∀ name ∈ grammar.references, name ∈ grammar.names) ↔
      ∃ parser, ofGrammar grammar = .ok parser ∧ parser.grammar = grammar ∧
        Preserves grammar parser.program) := by
  have failure : failure? (ofGrammar grammar) = if grammar.rules = [] then some .noRules
      else (unknown? grammar.names grammar.references).map .undefinedRule := by
    rw [ofGrammar, failure?_map, Program.failure?_ofGrammar]
  refine ⟨?_, fun name => ?_, ?_⟩
  · rw [← failure?_eq_some_iff, failure]
    by_cases none : grammar.rules = [] <;> simp [none]
  · rw [← failure?_eq_some_iff, failure]
    by_cases none : grammar.rules = []
    · simp [none, Grammar.references]
    · simp [none, unknown?]
  · constructor
    · rintro ⟨some_rules, known⟩
      rw [if_neg some_rules, unknown?_eq_none_iff.mpr known, Option.map_none,
        failure?_eq_none_iff] at failure
      obtain ⟨parser, compiled⟩ := failure
      obtain ⟨program, resolved, rfl⟩ := map_eq_ok_iff.mp compiled
      obtain ⟨names, merges⟩ := Program.of_ofGrammar_eq_ok resolved
      exact ⟨_, compiled, rfl, merges.preserves names⟩
    · rintro ⟨parser, compiled, -⟩
      rw [failure?_eq_none_iff.mpr ⟨parser, compiled⟩] at failure
      split at failure
      · cases failure
      · rename_i some_rules
        exact ⟨some_rules, unknown?_eq_none_iff.mp (Option.map_eq_none_iff.mp failure.symm)⟩

end GrammarParser

end GrammarDesk
