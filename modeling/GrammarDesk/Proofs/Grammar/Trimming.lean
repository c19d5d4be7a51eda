import GrammarDesk.Proofs.Grammar.Compilation
import GrammarDesk.Proofs.Match.Redundancy
import GrammarDesk.Proofs.Sample.Literals
import GrammarDesk.Sample.Parser

/-! Grammars without alternatives that earlier ones cover. Phrases are alike if
they resolve to nodes that no search tells apart, and spell the same literals.
Grammars with alike rules compile to parsers with the same outcomes. -/
namespace GrammarDesk

namespace Phrase

theorem mem_terminalsAll {literal : Text} {items : List Phrase} :
    literal ∈ terminalsAll items ↔ ∃ item ∈ items, literal ∈ item.terminals := by
  induction items with
  | nil => simp [terminalsAll]
  | cons item items ih => simp [terminalsAll, ih]

end Phrase

namespace Node

theorem ofPhrases_cons_eq_ok_iff {names : List Text} {item : Phrase} {items : List Phrase}
    {nodes : List (Node names.length)} : ofPhrases names (item :: items) = .ok nodes ↔
      ∃ node, ofPhrase names item = .ok node ∧ ∃ rest, ofPhrases names items = .ok rest ∧
        node :: rest = nodes := by
  rw [ofPhrases, map₂_eq_ok_iff]

end Node

namespace Phrase

variable (names : List Text)

/-- Phrases that resolve alike and spell the same literals. -/
structure Like (phrase other : Phrase) : Prop where
  nodes : ∀ node, Node.ofPhrase names phrase = .ok node →
    ∃ node', Node.ofPhrase names other = .ok node' ∧ node.Like node'
  literals : ∀ literal, literal ∈ phrase.terminals ↔ literal ∈ other.terminals

/-- The other phrase finds nothing new after this one, and spells nothing new. -/
structure Covers (phrase other : Phrase) : Prop where
  nodes : ∀ node node', Node.ofPhrase names phrase = .ok node →
    Node.ofPhrase names other = .ok node' → node.Covers node'
  literals : ∀ literal ∈ other.terminals, literal ∈ phrase.terminals

/-- Alternatives that are alike, but for some that the one before them covers. -/
inductive AnyLike : List Phrase → List Phrase → Prop where
  | nil : AnyLike [] []
  | cons : Like names item other → AnyLike items others → AnyLike (item :: items) (other :: others)
  | drop : Covers names kept item → AnyLike (kept :: items) others →
      AnyLike (kept :: item :: items) others

variable {names} {phrase other last kept dropped kept' dropped' : Phrase}
  {items others more rest : List Phrase}

namespace Like

theorem refl (phrase : Phrase) : Like names phrase phrase :=
  ⟨fun node found => ⟨node, found, Node.like_refl node⟩, fun _ => Iff.rfl⟩

theorem trans (first : Like names phrase other) (second : Like names other last) :
    Like names phrase last where
  nodes node found := by
    obtain ⟨node', found, like⟩ := first.nodes node found
    obtain ⟨node'', found, like'⟩ := second.nodes node' found
    exact ⟨node'', found, like.trans like'⟩
  literals literal := (first.literals literal).trans (second.literals literal)

theorem around {wrap : Phrase → Phrase} {build : Node names.length → Node names.length}
    (resolves : ∀ inner, Node.ofPhrase names (wrap inner) =
      (Node.ofPhrase names inner >>= fun node => pure (build node)))
    (spells : ∀ inner, (wrap inner).terminals = inner.terminals)
    (keeps : ∀ {node other : Node names.length}, node.Like other → (build node).Like (build other))
    (like : Like names phrase other) : Like names (wrap phrase) (wrap other) where
  nodes node found := by
    rw [resolves, map_eq_ok_iff] at found
    obtain ⟨inner, found, rfl⟩ := found
    obtain ⟨inner', found, like⟩ := like.nodes inner found
    exact ⟨build inner', by rw [resolves, map_eq_ok_iff]; exact ⟨inner', found, rfl⟩, keeps like⟩
  literals literal := by
    rw [spells, spells]
    exact like.literals literal

theorem optional (like : Like names phrase other) :
    Like names (.optional phrase) (.optional other) :=
  like.around (fun _ => by rw [Node.ofPhrase]) (fun _ => by rw [terminals]) Node.Like.optional

theorem repeated (like : Like names phrase other) :
    Like names (.repeated phrase) (.repeated other) :=
  like.around (fun _ => by rw [Node.ofPhrase]) (fun _ => by rw [terminals]) Node.Like.repeated

theorem zeroOrMore (like : Like names phrase other) :
    Like names (.zeroOrMore phrase) (.zeroOrMore other) :=
  like.around (fun _ => by rw [Node.ofPhrase]) (fun _ => by rw [terminals]) Node.Like.repeated

theorem oneOrMore (like : Like names phrase other) :
    Like names (.oneOrMore phrase) (.oneOrMore other) :=
  like.around (fun _ => by rw [Node.ofPhrase]) (fun _ => by rw [terminals]) Node.Like.oneOrMore

theorem times (like : Like names phrase other) (count : Nat) :
    Like names (.times count phrase) (.times count other) :=
  like.around (fun _ => by rw [Node.ofPhrase]) (fun _ => by rw [terminals])
    fun like => like.times count

theorem except (left : Like names kept kept') (right : Like names dropped dropped') :
    Like names (.except kept dropped) (.except kept' dropped') where
  nodes node found := by
    rw [Node.ofPhrase, map₂_eq_ok_iff] at found
    obtain ⟨first, found, second, found', rfl⟩ := found
    obtain ⟨first', found, like⟩ := left.nodes first found
    obtain ⟨second', found', like'⟩ := right.nodes second found'
    refine ⟨_, ?_, like.except like'⟩
    rw [Node.ofPhrase, map₂_eq_ok_iff]
    exact ⟨first', found, second', found', rfl⟩
  literals literal := by
    simp only [terminals, List.mem_append, left.literals, right.literals]

theorem wrap (like : Like names phrase other) (bracket : Bracket) :
    Like names (bracket.wrap phrase) (bracket.wrap other) := by
  cases bracket with
  | square => exact like.optional
  | brace => exact like.repeated
  | paren => exact like

theorem counted (like : Like names phrase other) (count : Option Nat) :
    Like names (counted count phrase) (GrammarDesk.counted count other) := by
  cases count with
  | none => exact like
  | some count => exact like.times count

end Like

theorem exists_nodes (like : List.Forall₂ (Like names) items others)
    {nodes : List (Node names.length)} (found : Node.ofPhrases names items = .ok nodes) :
    ∃ nodes', Node.ofPhrases names others = .ok nodes' ∧ List.Forall₂ Node.Like nodes nodes' := by
  induction like generalizing nodes with
  | nil => exact ⟨nodes, found, Node.likes_refl nodes⟩
  | cons first _ ih =>
    rw [Node.ofPhrases_cons_eq_ok_iff] at found
    obtain ⟨node, found, nodes, found', rfl⟩ := found
    obtain ⟨node', found, like⟩ := first.nodes node found
    obtain ⟨nodes', found', likes⟩ := ih found'
    exact ⟨_, Node.ofPhrases_cons_eq_ok_iff.mpr ⟨node', found, nodes', found', rfl⟩,
      .cons like likes⟩

theorem Like.sequence (like : List.Forall₂ (Like names) items others) :
    Like names (.sequence items) (.sequence others) where
  nodes node found := by
    rw [Node.ofPhrase, map_eq_ok_iff] at found
    obtain ⟨nodes, found, rfl⟩ := found
    obtain ⟨nodes', found, likes⟩ := exists_nodes like found
    exact ⟨_, by rw [Node.ofPhrase, map_eq_ok_iff]; exact ⟨nodes', found, rfl⟩,
      Node.Like.sequence likes⟩
  literals literal := by
    simp only [terminals]
    induction like with
    | nil => exact Iff.rfl
    | cons first _ ih => simp only [terminalsAll, List.mem_append, first.literals, ih]

namespace AnyLike

theorem refl (items : List Phrase) : AnyLike names items items := by
  induction items with
  | nil => exact .nil
  | cons item items ih => exact .cons (.refl item) ih

theorem append (first : AnyLike names items others) (second : AnyLike names more rest) :
    AnyLike names (items ++ more) (others ++ rest) := by
  induction first with
  | nil => exact second
  | cons like _ ih => exact .cons like ih
  | drop covers _ ih => exact .drop covers ih

theorem drop_all (covered : ∀ item ∈ items, Covers names kept item) :
    AnyLike names (kept :: items) [kept] := by
  induction items with
  | nil => exact .refl [kept]
  | cons item items ih =>
    obtain ⟨covers, covered⟩ := List.forall_mem_cons.mp covered
    exact .drop covers (ih covered)

theorem exists_nodes (like : AnyLike names items others) {nodes : List (Node names.length)}
    (found : Node.ofPhrases names items = .ok nodes) :
    ∃ nodes', Node.ofPhrases names others = .ok nodes' ∧ Node.AnyLike nodes nodes' := by
  induction like generalizing nodes with
  | nil => exact ⟨nodes, found, Node.anyLike_refl nodes⟩
  | cons first _ ih =>
    rw [Node.ofPhrases_cons_eq_ok_iff] at found
    obtain ⟨node, found, nodes, found', rfl⟩ := found
    obtain ⟨node', found, like⟩ := first.nodes node found
    obtain ⟨nodes', found', likes⟩ := ih found'
    exact ⟨_, Node.ofPhrases_cons_eq_ok_iff.mpr ⟨node', found, nodes', found', rfl⟩,
      .cons like likes⟩
  | drop covers _ ih =>
    rw [Node.ofPhrases_cons_eq_ok_iff] at found
    obtain ⟨node, found, nodes, rest, rfl⟩ := found
    rw [Node.ofPhrases_cons_eq_ok_iff] at rest
    obtain ⟨item, dropped, nodes, rest, rfl⟩ := rest
    obtain ⟨nodes', found', likes⟩ :=
      ih (Node.ofPhrases_cons_eq_ok_iff.mpr ⟨node, found, nodes, rest, rfl⟩)
    exact ⟨nodes', found', .drop (covers.nodes node item found dropped) likes⟩

theorem mem_terminals_iff (like : AnyLike names items others) (literal : Text) :
    literal ∈ terminalsAll items ↔ literal ∈ terminalsAll others := by
  induction like with
  | nil => exact Iff.rfl
  | cons first _ ih => simp only [terminalsAll, List.mem_append, first.literals, ih]
  | drop covers _ ih =>
    have old := covers.literals literal
    rw [← ih]
    simp only [terminalsAll, List.mem_append]
    tauto

end AnyLike

theorem Like.alternation (like : AnyLike names items others) :
    Like names (.alternation items) (.alternation others) where
  nodes node found := by
    rw [Node.ofPhrase, map_eq_ok_iff] at found
    obtain ⟨nodes, found, rfl⟩ := found
    obtain ⟨nodes', found, likes⟩ := like.exists_nodes found
    exact ⟨_, by rw [Node.ofPhrase, map_eq_ok_iff]; exact ⟨nodes', found, rfl⟩, .alternation likes⟩
  literals literal := by
    rw [terminals, terminals]
    exact like.mem_terminals_iff literal

theorem Like.of_single (phrase : Phrase) : Like names (.alternation [phrase]) phrase where
  nodes node found := by
    rw [Node.ofPhrase, map_eq_ok_iff] at found
    obtain ⟨nodes, found, rfl⟩ := found
    rw [Node.ofPhrases_cons_eq_ok_iff] at found
    obtain ⟨inner, found, _, rest, rfl⟩ := found
    cases rest
    exact ⟨inner, found, .of_single (Node.anyLike_refl [inner])⟩
  literals literal := by simp [terminals, terminalsAll]

theorem Like.to_single (phrase : Phrase) : Like names phrase (.alternation [phrase]) where
  nodes node found := by
    refine ⟨.alternation [node], ?_, .to_single (Node.anyLike_refl [node])⟩
    rw [Node.ofPhrase, map_eq_ok_iff]
    exact ⟨[node], Node.ofPhrases_cons_eq_ok_iff.mpr ⟨node, found, [], rfl, rfl⟩, rfl⟩
  literals literal := by simp [terminals, terminalsAll]

theorem Like.alternatives (like : AnyLike names items others) :
    Like names (Draft.collapse .alternation items) (Draft.collapse .alternation others) := by
  have expand : Like names (Draft.collapse .alternation items) (.alternation items) := by
    unfold Draft.collapse
    split
    · exact .to_single _
    · exact .refl _
  have reduce : Like names (.alternation others) (Draft.collapse .alternation others) := by
    unfold Draft.collapse
    split
    · exact .of_single _
    · exact .refl _
  exact expand.trans ((Like.alternation like).trans reduce)

end Phrase

structure Rule.Like (names : List Text) (rule other : Rule) : Prop where
  name : rule.name = other.name
  body : rule.body.Like names other.body

section Compile

variable {names : List Text} {rules others : List Rule}

theorem Node.AnyLike.of_forall₂ {items others : List (Node names.length)}
    (like : List.Forall₂ Node.Like items others) : Node.AnyLike items others := by
  induction like with
  | nil => exact .nil
  | cons first _ ih => exact .cons first ih

theorem Node.Like.merge {definitions others : List (Node names.length)}
    (like : List.Forall₂ Node.Like definitions others) :
    (Node.merge definitions).Like (Node.merge others) := by
  have whole := Node.Like.alternation (.of_forall₂ like)
  cases like with
  | nil => exact whole
  | cons first rest =>
    cases rest with
    | nil => exact first
    | cons => exact whole

theorem names_eq_of_like (like : List.Forall₂ (Rule.Like names) rules others) :
    rules.map Rule.name = others.map Rule.name := by
  induction like with
  | nil => rfl
  | cons first _ ih => rw [List.map_cons, List.map_cons, first.name, ih]

theorem mem_terminals_of_like (like : List.Forall₂ (Rule.Like names) rules others)
    (literal : Text) : literal ∈ rules.flatMap (·.body.terminals) ↔
      literal ∈ others.flatMap (·.body.terminals) := by
  induction like with
  | nil => exact Iff.rfl
  | cons first _ ih =>
    rw [List.flatMap_cons, List.flatMap_cons, List.mem_append, List.mem_append,
      first.body.literals, ih]

namespace Program

theorem exists_definitions (like : List.Forall₂ (Rule.Like names) rules others)
    {found : List (Text × Node names.length)} (defined : definitions names rules = .ok found) :
    ∃ found', definitions names others = .ok found' ∧
      List.Forall₂ (fun entry entry' => entry.1 = entry'.1 ∧ entry.2.Like entry'.2)
        found found' := by
  induction like generalizing found with
  | nil =>
    cases defined
    exact ⟨[], rfl, .nil⟩
  | cons first _ ih =>
    rw [definitions, map₂_eq_ok_iff] at defined
    obtain ⟨node, resolved, found, defined, rfl⟩ := defined
    obtain ⟨node', resolved, like'⟩ := first.body.nodes node resolved
    obtain ⟨found', defined, likes⟩ := ih defined
    refine ⟨(_, node') :: found', ?_, .cons ⟨first.name, like'⟩ likes⟩
    rw [definitions, map₂_eq_ok_iff]
    exact ⟨node', resolved, found', defined, rfl⟩

theorem ofGrammar_eq_of_names {grammar : Grammar} (same : grammar.names.eraseDups = names)
    (start : 0 < names.length) : ofGrammar grammar =
      (definitions names grammar.rules >>= fun found => pure
        ⟨names, Vector.ofFn fun index =>
          Node.merge ((found.filter (·.1 = names.get index)).map (·.2)), start⟩) := by
  subst same
  exact dif_pos start

theorem exists_like {grammar other : Grammar} {program : Program}
    (like : List.Forall₂ (Rule.Like grammar.names.eraseDups) grammar.rules other.rules)
    (compiled : ofGrammar grammar = .ok program) :
    ∃ trimmed, ofGrammar other = .ok trimmed ∧
      ∀ tokens, trimmed.outcome tokens = program.outcome tokens := by
  have names : other.names = grammar.names := (names_eq_of_like like).symm
  have start : 0 < grammar.names.eraseDups.length := by
    unfold ofGrammar at compiled
    dsimp only at compiled
    split at compiled
    · assumption
    · cases compiled
  rw [ofGrammar_eq_of_names rfl start, map_eq_ok_iff] at compiled
  obtain ⟨found, defined, rfl⟩ := compiled
  obtain ⟨found', defined', likes⟩ := exists_definitions like defined
  rw [ofGrammar_eq_of_names (congrArg List.eraseDups names) start]
  refine ⟨_, map_eq_ok_iff.mpr ⟨found', defined', rfl⟩, fun tokens => ?_⟩
  refine (outcome_eq_of_like (fun index => ?_) tokens).symm
  change Node.Like (Vector.ofFn _)[index.val] (Vector.ofFn _)[index.val]
  rw [Vector.getElem_ofFn, Vector.getElem_ofFn]
  refine Node.Like.merge ?_
  rw [List.forall₂_map_left_iff, List.forall₂_map_right_iff]
  refine (List.rel_filter ?_ likes).imp fun _ _ related => related.2
  rintro entry entry' ⟨same, -⟩
  simp [same]

end Program

namespace GrammarParser

/-- Grammars with alike rules are parsed alike. -/
theorem exists_like {grammar other : Grammar} {parser : GrammarParser}
    (like : List.Forall₂ (Rule.Like grammar.names.eraseDups) grammar.rules other.rules)
    (compiled : ofGrammar grammar = .ok parser) :
    ∃ trimmed, ofGrammar other = .ok trimmed ∧
      ∀ sample, trimmed.outcome sample = parser.outcome sample := by
  obtain ⟨program, resolved, rfl⟩ := map_eq_ok_iff.mp compiled
  obtain ⟨trimmed, resolved', same⟩ := Program.exists_like like resolved
  have cutter : Cutter.ofLiterals grammar.terminals = Cutter.ofLiterals other.terminals :=
    Cutter.ofLiterals_congr fun literal _ => mem_terminals_of_like like literal
  refine ⟨_, map_eq_ok_iff.mpr ⟨trimmed, resolved', rfl⟩, fun sample => ?_⟩
  simp only [outcome, cutter, same]

end GrammarParser

end Compile

end GrammarDesk
