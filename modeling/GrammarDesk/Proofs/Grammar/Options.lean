import GrammarDesk.Proofs.Grammar.Trimming

/-! What brackets before a bar leave to the alternative behind it. A repetition
matches the empty input wherever it is tried, and an option finds all that
stands in it: what a single token can say need not be said again. A sequence that
ends with such brackets does the same if all before them may be skipped, by itself
or by what the names in it derive. -/
namespace GrammarDesk

namespace Phrase

theorem exists_ofPhrase {names : List Text} {phrase : Phrase}
    (known : ∀ name ∈ phrase.references, name ∈ names) :
    ∃ node, Node.ofPhrase names phrase = .ok node := by
  rw [← failure?_eq_none_iff, Node.failure?_ofPhrase, unknown?_eq_none_iff.mpr known]
  rfl

/-- Wherever its names are known, the phrase matches the empty input at every spot. -/
def Skips (phrase : Phrase) : Prop :=
  ∀ names : List Text, (∀ name ∈ phrase.references, name ∈ names) →
    ∃ node, Node.ofPhrase names phrase = .ok node ∧ node.Skips

def Related (R : ∀ {rules : Nat}, Node rules → Node rules → Prop) (phrase other : Phrase) : Prop :=
  ∀ names : List Text, (∀ name ∈ phrase.references, name ∈ names) →
    ∃ node node', Node.ofPhrase names phrase = .ok node ∧
      Node.ofPhrase names other = .ok node' ∧ R node node'

def Contains (phrase other : Phrase) : Prop := Related Node.Contains phrase other

/-- Once it has been evaluated, the phrase has every end that the other one has, and
leaves nothing for it to note or to spell. -/
structure Absorbs (phrase other : Phrase) : Prop where
  nodes : Related Node.Covers phrase other
  literals : ∀ literal ∈ other.terminals, literal ∈ phrase.terminals

variable {names : List Text} {phrase other inner item last : Phrase} {items : List Phrase}
  {R : ∀ {rules : Nat}, Node rules → Node rules → Prop}

theorem mem_of_ofPhrase {node : Node names.length} (found : Node.ofPhrase names phrase = .ok node) :
    ∀ name ∈ phrase.references, name ∈ names := by
  have resolved : failure? (Node.ofPhrase names phrase) = none :=
    failure?_eq_none_iff.mpr ⟨node, found⟩
  rw [Node.failure?_ofPhrase, Option.map_eq_none_iff] at resolved
  exact unknown?_eq_none_iff.mp resolved

theorem skips_iff : phrase.Skips ↔ ∀ (names : List Text) (node : Node names.length),
    Node.ofPhrase names phrase = .ok node → node.Skips := by
  constructor
  · intro skips names node found
    obtain ⟨same, found', skips⟩ := skips names (mem_of_ofPhrase found)
    cases found.symm.trans found'
    exact skips
  · intro skips names known
    obtain ⟨node, found⟩ := exists_ofPhrase known
    exact ⟨node, found, skips names node found⟩

theorem related_iff : Related R phrase other ↔
    ∀ (names : List Text) (node : Node names.length), Node.ofPhrase names phrase = .ok node →
      ∃ node', Node.ofPhrase names other = .ok node' ∧ R node node' := by
  constructor
  · intro related names node found
    obtain ⟨same, node', found', other, related⟩ := related names (mem_of_ofPhrase found)
    cases found.symm.trans found'
    exact ⟨node', other, related⟩
  · intro related names known
    obtain ⟨node, found⟩ := exists_ofPhrase known
    obtain ⟨node', found', related⟩ := related names node found
    exact ⟨node, node', found, found', related⟩

theorem exists_front {nodes : List (Node names.length)}
    (found : Node.ofPhrases names (items ++ [last]) = .ok nodes) : ∃ front node,
      (∀ earlier ∈ front, ∃ item ∈ items, Node.ofPhrase names item = .ok earlier) ∧
        Node.ofPhrase names last = .ok node ∧ nodes = front ++ [node] := by
  induction items generalizing nodes with
  | nil =>
    obtain ⟨node, first, rest, none, rfl⟩ := Node.ofPhrases_cons_eq_ok_iff.mp found
    cases none
    exact ⟨[], node, fun _ member => (List.not_mem_nil member).elim, first, rfl⟩
  | cons item items ih =>
    obtain ⟨first, resolved, rest, more, rfl⟩ := Node.ofPhrases_cons_eq_ok_iff.mp found
    obtain ⟨front, node, earlier, ends, rfl⟩ := ih more
    refine ⟨first :: front, node, List.forall_mem_cons.mpr ⟨⟨item, List.mem_cons_self, resolved⟩,
      fun node member => ?_⟩, ends, rfl⟩
    obtain ⟨item, member, found⟩ := earlier node member
    exact ⟨item, List.mem_cons_of_mem _ member, found⟩

theorem exists_of_collapse {node : Node names.length}
    (found : Node.ofPhrase names (Draft.collapse .sequence (items ++ [last])) = .ok node) :
    ∃ front final, (∀ earlier ∈ front, ∃ item ∈ items, Node.ofPhrase names item = .ok earlier) ∧
      Node.ofPhrase names last = .ok final ∧
      (node = .sequence (front ++ [final]) ∨ front = [] ∧ node = final) := by
  cases items with
  | nil => exact ⟨[], node, fun _ member => (List.not_mem_nil member).elim, found, .inr ⟨rfl, rfl⟩⟩
  | cons item items =>
    have whole : Draft.collapse .sequence (item :: items ++ [last]) =
        .sequence (item :: items ++ [last]) := by
      cases items <;> rfl
    rw [whole, Node.ofPhrase, map_eq_ok_iff] at found
    obtain ⟨nodes, resolved, rfl⟩ := found
    obtain ⟨front, final, earlier, ends, rfl⟩ := exists_front resolved
    exact ⟨front, final, earlier, ends, .inl rfl⟩

namespace Skips

theorem repeated (inner : Phrase) : (Phrase.repeated inner).Skips := by
  refine skips_iff.mpr fun names node found => ?_
  obtain ⟨inner, -, rfl⟩ := map_eq_ok_iff.mp found
  exact Node.skips_repeated inner

theorem counted (skips : phrase.Skips) (count : Option Nat) : (counted count phrase).Skips := by
  cases count with
  | none => exact skips
  | some count =>
    refine skips_iff.mpr fun names node found => ?_
    obtain ⟨inner, resolved, rfl⟩ := map_eq_ok_iff.mp found
    exact (skips_iff.mp skips names inner resolved).times count

theorem collapse (front : ∀ item ∈ items, item.Skips) (skips : last.Skips) :
    (Draft.collapse .sequence (items ++ [last])).Skips := by
  refine skips_iff.mpr fun names node whole => ?_
  obtain ⟨nodes, final, earlier, found, same⟩ := exists_of_collapse whole
  have ends : final.Skips := skips_iff.mp skips names final found
  rcases same with rfl | ⟨-, rfl⟩
  · refine Node.Skips.sequence (List.forall_mem_append.mpr ⟨fun node member => ?_,
      List.forall_mem_singleton.mpr ends⟩)
    obtain ⟨item, member, found⟩ := earlier node member
    exact skips_iff.mp (front item member) names node found
  · exact ends

end Skips

theorem Related.counted (related : Related R (.optional inner) item)
    (rounds : ∀ {rules : Nat} {node other : Node rules}, R node other → node.Skips →
      ∀ count, R (.times (count + 1) node) other)
    {count : Option Nat} (some_rounds : count ≠ some 0) :
    Related R (counted count (.optional inner)) item := by
  match count with
  | none => exact related
  | some 0 => exact absurd rfl some_rounds
  | some (count + 1) =>
    refine related_iff.mpr fun names node found => ?_
    obtain ⟨option, resolved, rfl⟩ := map_eq_ok_iff.mp found
    obtain ⟨node', found', related⟩ := related_iff.mp related names option resolved
    obtain ⟨inner, -, rfl⟩ := map_eq_ok_iff.mp resolved
    exact ⟨node', found', rounds related (Node.skips_optional inner) count⟩

theorem Contains.counted (contains : (optional inner).Contains item) {count : Option Nat}
    (some_rounds : count ≠ some 0) : (counted count (.optional inner)).Contains item :=
  Related.counted contains Node.Contains.times some_rounds

namespace Absorbs

theorem covers (absorbs : phrase.Absorbs other) (names : List Text) :
    phrase.Covers names other where
  nodes node node' found found' := by
    obtain ⟨same, resolved, covers⟩ := related_iff.mp absorbs.nodes names node found
    cases found'.symm.trans resolved
    exact covers
  literals := absorbs.literals

theorem counted (absorbs : (optional inner).Absorbs item) {count : Option Nat}
    (some_rounds : count ≠ some 0) : (counted count (.optional inner)).Absorbs item where
  nodes := absorbs.nodes.counted Node.Covers.times some_rounds
  literals literal member := by
    have inside := absorbs.literals literal member
    cases count with
    | none => exact inside
    | some count => rwa [GrammarDesk.counted, terminals]

theorem collapse (front : ∀ item ∈ items, item.Skips) (absorbs : last.Absorbs other) :
    (Draft.collapse .sequence (items ++ [last])).Absorbs other where
  nodes := by
    refine related_iff.mpr fun names node whole => ?_
    obtain ⟨nodes, final, earlier, found, same⟩ := exists_of_collapse whole
    obtain ⟨node', found', covers⟩ := related_iff.mp absorbs.nodes names final found
    refine ⟨node', found', ?_⟩
    rcases same with rfl | ⟨-, rfl⟩
    · refine Node.Covers.sequence (fun node member => ?_) covers
      obtain ⟨item, member, found⟩ := earlier node member
      exact skips_iff.mp (front item member) names node found
    · exact covers
  literals literal member := by
    have inside := absorbs.literals literal member
    cases items with
    | nil => exact inside
    | cons item items =>
      have whole : Draft.collapse .sequence (item :: items ++ [last]) =
          .sequence (item :: items ++ [last]) := by
        cases items <;> rfl
      rw [whole, terminals]
      exact mem_terminalsAll.mpr ⟨last, List.mem_append_right _ List.mem_cons_self, inside⟩

end Absorbs

section Derives

variable {n : Nat} {tokens : Vector Text n} {call : Call n} {excluded : Exceptions n} {p e : Spot n}

theorem Derives.collapse (front : ∀ item ∈ items, item.Derives tokens call excluded p p)
    (derives : last.Derives tokens call excluded p e) :
    (Draft.collapse .sequence (items ++ [last])).Derives tokens call excluded p e := by
  have whole : (sequence (items ++ [last])).Derives tokens call excluded p e := by
    induction items with
    | nil => exact .advance derives .finish
    | cons item items ih =>
      obtain ⟨first, front⟩ := List.forall_mem_cons.mp front
      exact .advance first (ih front)
  cases items with
  | nil => exact derives
  | cons item items => cases items <;> exact whole

theorem Derives.alternative (member : item ∈ items)
    (derives : item.Derives tokens call excluded p e) :
    (Draft.collapse .alternation items).Derives tokens call excluded p e := by
  match items with
  | [only] => exact List.mem_singleton.mp member ▸ derives
  | _ :: _ :: _ => exact .alternation member derives

theorem Derives.times (skips : inner.Derives tokens call excluded e e) (count : Nat) :
    (times count inner).Derives tokens call excluded e e := by
  induction count with
  | zero => exact .never
  | succ count ih => exact .once skips ih

theorem derives_counted_repeated (inner : Phrase) (count : Option Nat) :
    (counted count (.repeated inner)).Derives tokens call excluded p p := by
  cases count with
  | none => exact .stop
  | some count => exact Derives.stop.times count

theorem Derives.counted (derives : inner.Derives tokens call excluded p e) {count : Option Nat}
    (some_rounds : count ≠ some 0) :
    (counted count (.optional inner)).Derives tokens call excluded p e := by
  match count with
  | none => exact .take derives
  | some 0 => exact absurd rfl some_rounds
  | some (count + 1) => exact .once (.take derives) (Derives.skip.times count)

end Derives

/-- The alternatives that a single token stands for: one leaf, or what a comma or
a bar separates. -/
inductive Sole : List Phrase → Prop where
  | reference : Sole [.reference name]
  | terminal : Sole [.terminal literal]
  | special : Sole [.special text]
  | comma : Sole [.sequence [.empty, .empty]]
  | bar : Sole [.empty, .empty]

namespace Sole

theorem related (sole : Sole items) (member : item ∈ items)
    (leaf : ∀ {rules : Nat} (node : Node rules), R (.optional node) node)
    (still : ∀ {rules : Nat} {node other : Node rules}, node.Skips → other.Still → R node other) :
    Related R (.optional (Draft.collapse .alternation items)) item := by
  refine related_iff.mpr fun names node whole => ?_
  obtain ⟨inner, found, rfl⟩ := map_eq_ok_iff.mp whole
  cases sole with
  | reference | terminal | special =>
    cases List.mem_singleton.mp member
    exact ⟨inner, found, leaf inner⟩
  | comma =>
    cases List.mem_singleton.mp member
    exact ⟨.sequence [.empty, .empty], rfl, still (Node.skips_optional inner)
      (Node.still_sequence (by simp [Node.still_empty]))⟩
  | bar =>
    obtain rfl : item = .empty := by simpa using member
    exact ⟨.empty, rfl, still (Node.skips_optional inner) Node.still_empty⟩

theorem contains (sole : Sole items) (member : item ∈ items) :
    (optional (Draft.collapse .alternation items)).Contains item :=
  sole.related member Node.contains_optional Node.Contains.of_still

theorem absorbs (sole : Sole items) (member : item ∈ items) :
    (optional (Draft.collapse .alternation items)).Absorbs item where
  nodes := sole.related member (fun node => (Node.Covers.refl node).optional) Node.Covers.of_still
  literals literal inside := by
    cases sole with
    | reference | terminal | special | comma => rwa [← List.mem_singleton.mp member]
    | bar =>
      obtain rfl : item = .empty := by simpa using member
      exact inside

end Sole

end Phrase

end GrammarDesk
