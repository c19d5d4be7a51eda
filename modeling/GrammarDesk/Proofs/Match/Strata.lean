import GrammarDesk.Proofs.Match.Derivation
import Mathlib.Data.Finset.Card
import Mathlib.Data.Finset.Lattice.Fold
import Mathlib.Data.Fintype.Prod
import Mathlib.Logic.Relation

/-! Exceptions are judged stratum by stratum. Each stratum takes what right
operands derive from the one below. If no rule comes back to itself through a
right operand, every node keeps its meaning from some stratum on, and in that
meaning an exception derives what its left operand does and its right one does
not. -/
namespace GrammarDesk

namespace Node

variable {rules : Nat}

mutual

/-- The highest level in a node, where rules stand at given heights and a right
operand lies one level below its exception. -/
def level (height : Fin rules → Nat) : Node rules → Nat
  | alternation items | sequence items => levelAll height items
  | optional inner | repeated inner | oneOrMore inner | times _ inner => level height inner
  | except kept dropped => max (level height kept) (level height dropped + 1)
  | rule index => height index
  | terminal _ | anyToken | empty => 0

def levelAll (height : Fin rules → Nat) : List (Node rules) → Nat
  | [] => 0
  | item :: items => max (level height item) (levelAll height items)

end

theorem level_le_levelAll {height : Fin rules → Nat} (member : item ∈ items) :
    level height item ≤ levelAll height items := by
  induction items with
  | nil => cases member
  | cons first items ih =>
    rw [levelAll]
    rcases List.mem_cons.mp member with rfl | member
    · exact Nat.le_max_left _ _
    · exact Nat.le_trans (ih member) (Nat.le_max_right _ _)

variable {rank : Fin rules → Nat} {limit bound : Nat}

/-- Ranks are stretched so that all exceptions of one body fit between them. -/
def spread (rank : Fin rules → Nat) (limit : Nat) (index : Fin rules) : Nat :=
  rank index * (limit + 1) + limit

theorem spread_lt (h : rank index < bound) : spread rank limit index < bound * (limit + 1) := by
  have := Nat.mul_le_mul_right (limit + 1) h
  unfold spread
  rw [Nat.succ_mul] at this
  omega

mutual

theorem level_spread_le : ∀ node : Node rules,
    (∀ index, Occurs (.rule index) node → rank index < bound) →
      level (spread rank limit) node ≤ bound * (limit + 1) + level (fun _ => 0) node
  | alternation items, below => levelAll_spread_le items fun _ member index inside =>
      below index (.alternation member inside)
  | sequence items, below => levelAll_spread_le items fun _ member index inside =>
      below index (.sequence member inside)
  | optional inner, below => level_spread_le inner fun index inside =>
      below index (.optional inside)
  | repeated inner, below => level_spread_le inner fun index inside =>
      below index (.repeated inside)
  | oneOrMore inner, below => level_spread_le inner fun index inside =>
      below index (.oneOrMore inside)
  | times _ inner, below => level_spread_le inner fun index inside => below index (.times inside)
  | except kept dropped, below => by
    have := level_spread_le kept fun index inside => below index (.kept inside)
    have := level_spread_le dropped fun index inside => below index (.dropped inside)
    simp only [level]
    omega
  | rule index, below => by
    have : spread rank limit index < bound * (limit + 1) := spread_lt (below index .here)
    simp only [level]
    omega
  | terminal _, _ | anyToken, _ | empty, _ => Nat.zero_le _

theorem levelAll_spread_le : ∀ items : List (Node rules),
    (∀ item ∈ items, ∀ index, Occurs (.rule index) item → rank index < bound) →
      levelAll (spread rank limit) items ≤ bound * (limit + 1) + levelAll (fun _ => 0) items
  | [], _ => Nat.zero_le _
  | item :: items, below => by
    have := level_spread_le item (below item (List.mem_cons_self ..))
    have := levelAll_spread_le items fun item member => below item (List.mem_cons_of_mem _ member)
    simp only [levelAll]
    omega

end

mutual

theorem level_spread_le_spread : ∀ node : Node rules,
    (∀ index, Occurs (.rule index) node → rank index ≤ bound) →
    (∀ kept dropped index, Occurs (.except kept dropped) node → Occurs (.rule index) dropped →
      rank index < bound) →
    level (fun _ => 0) node ≤ limit → level (spread rank limit) node ≤ bound * (limit + 1) + limit
  | alternation items, upto, below, low => levelAll_spread_le_spread items
      (fun _ member index inside => upto index (.alternation member inside))
      (fun _ member a b index inside => below a b index (.alternation member inside)) low
  | sequence items, upto, below, low => levelAll_spread_le_spread items
      (fun _ member index inside => upto index (.sequence member inside))
      (fun _ member a b index inside => below a b index (.sequence member inside)) low
  | optional inner, upto, below, low => level_spread_le_spread inner
      (fun index inside => upto index (.optional inside))
      (fun a b index inside => below a b index (.optional inside)) low
  | repeated inner, upto, below, low => level_spread_le_spread inner
      (fun index inside => upto index (.repeated inside))
      (fun a b index inside => below a b index (.repeated inside)) low
  | oneOrMore inner, upto, below, low => level_spread_le_spread inner
      (fun index inside => upto index (.oneOrMore inside))
      (fun a b index inside => below a b index (.oneOrMore inside)) low
  | times _ inner, upto, below, low => level_spread_le_spread inner
      (fun index inside => upto index (.times inside))
      (fun a b index inside => below a b index (.times inside)) low
  -- Rules in the right operand rank lower, which makes up for the level of the exception.
  | except kept dropped, upto, below, low => by
    simp only [level] at low ⊢
    have := level_spread_le_spread kept (fun index inside => upto index (.kept inside))
      (fun a b index inside => below a b index (.kept inside)) (by omega)
    have : level (spread rank limit) dropped ≤ bound * (limit + 1) + level (fun _ => 0) dropped :=
      level_spread_le dropped fun index inside => below _ _ index .here inside
    omega
  | rule index, upto, _, _ => by
    have := Nat.mul_le_mul_right (limit + 1) (upto index .here)
    simp only [level, spread]
    omega
  | terminal _, _, _, _ | anyToken, _, _, _ | empty, _, _, _ => Nat.zero_le _

theorem levelAll_spread_le_spread : ∀ items : List (Node rules),
    (∀ item ∈ items, ∀ index, Occurs (.rule index) item → rank index ≤ bound) →
    (∀ item ∈ items, ∀ kept dropped index, Occurs (.except kept dropped) item →
      Occurs (.rule index) dropped → rank index < bound) →
    levelAll (fun _ => 0) items ≤ limit →
      levelAll (spread rank limit) items ≤ bound * (limit + 1) + limit
  | [], _, _, _ => Nat.zero_le _
  | item :: items, upto, below, low => by
    simp only [levelAll] at low ⊢
    have := level_spread_le_spread item (upto item (List.mem_cons_self ..))
      (below item (List.mem_cons_self ..)) (by omega)
    have := levelAll_spread_le_spread items
      (fun item member => upto item (List.mem_cons_of_mem _ member))
      (fun item member => below item (List.mem_cons_of_mem _ member)) (by omega)
    omega

end

variable {height : Fin rules → Nat} {top n : Nat} {tokens : Vector Text n}
  {call other : Call rules n} {one two : Exceptions rules n} {node : Node rules} {p e : Spot n}

theorem Derives.congr_level
    (rules : ∀ index p e, height index ≤ top → call index p e → other index p e)
    (operands : ∀ operand p e, operand.level height < top → (one operand p e ↔ two operand p e))
    (low : node.level height ≤ top) (derives : node.Derives tokens call one p e) :
    node.Derives tokens other two p e := by
  induction derives with
  | alternation member _ ih =>
    exact .alternation member (ih (Nat.le_trans (level_le_levelAll member) low))
  | finish => exact .finish
  | advance _ _ ih₁ ih₂ =>
    simp only [level, levelAll] at low ih₂
    exact .advance (ih₁ (by omega)) (ih₂ (by omega))
  | skip => exact .skip
  | take _ ih => exact .take (ih low)
  | stop => exact .stop
  | again _ _ ih₁ ih₂ => exact .again (ih₁ low) (ih₂ low)
  | oneOrMore _ _ ih₁ ih₂ => exact .oneOrMore (ih₁ low) (ih₂ low)
  | never => exact .never
  | once _ _ ih₁ ih₂ => exact .once (ih₁ low) (ih₂ low)
  | except _ free ih =>
    simp only [level] at low
    exact .except (ih (by omega)) fun found => free ((operands _ _ _ (by omega)).mpr found)
  | blank => exact .blank
  | terminal wanted found next => exact .terminal wanted found next
  | rule answer => exact .rule (rules _ _ _ low answer)
  | anyToken inside next => exact .anyToken inside next
  | empty => exact .empty

end Node

namespace Program

variable (program : Program) {n : Nat} (tokens : Vector Text n)

def Refers (index other : Fin program.names.length) : Prop :=
  Node.Occurs (.rule other) (program.body index)

def Excludes (index other : Fin program.names.length) : Prop :=
  ∃ kept dropped, Node.Occurs (.except kept dropped) (program.body index) ∧
    Node.Occurs (.rule other) dropped

/-- No cycle of references passes through a right operand. -/
def Stratified : Prop :=
  ∀ index other, program.Excludes index other → ¬ Relation.ReflTransGen program.Refers other index

def ExceptFree : Prop := ∀ index : Fin program.names.length, (program.body index).ExceptFree

/-- What nodes derive when their right operands are taken from the stratum below. -/
def stratum : Nat → Node.Exceptions program.names.length n
  | 0 => fun _ _ _ => False
  | k + 1 => fun node p e =>
    node.Derives tokens (program.Derives tokens (stratum k)) (stratum k) p e

/-- What a node derives from some stratum on. -/
def Yields : Node.Exceptions program.names.length n :=
  fun node p e => ∃ k, ∀ l ≥ k, program.stratum tokens l node p e

variable {program}

theorem ExceptFree.stratified (free : program.ExceptFree) : program.Stratified :=
  fun index _ ⟨kept, dropped, outside, _⟩ => absurd outside (free index kept dropped)

theorem Excludes.refers (h : program.Excludes index other) : program.Refers index other := by
  obtain ⟨kept, dropped, outside, inside⟩ := h
  unfold Refers
  generalize program.body index = body at outside
  induction outside with
  | here => exact .dropped inside
  | alternation member _ ih => exact .alternation member ih
  | sequence member _ ih => exact .sequence member ih
  | optional _ ih => exact .optional ih
  | repeated _ ih => exact .repeated ih
  | oneOrMore _ ih => exact .oneOrMore ih
  | times _ ih => exact .times ih
  | kept _ ih => exact .kept ih
  | dropped _ ih => exact .dropped ih

open Classical in
/-- The exceptions that can be come to from a rule. -/
noncomputable def rank (program : Program) (index : Fin program.names.length) : Nat :=
  (Finset.univ.filter fun pair : Fin program.names.length × Fin program.names.length =>
    Relation.ReflTransGen program.Refers index pair.1 ∧ program.Excludes pair.1 pair.2).card

theorem rank_le_of_refers (refers : program.Refers index other) :
    program.rank other ≤ program.rank index := by
  classical
  refine Finset.card_le_card fun pair found => ?_
  simp only [Finset.mem_filter, Finset.mem_univ, true_and] at found ⊢
  exact ⟨.head refers found.1, found.2⟩

theorem rank_lt_of_excludes (stratified : program.Stratified)
    (excludes : program.Excludes index other) : program.rank other < program.rank index := by
  classical
  refine Finset.card_lt_card ((Finset.ssubset_iff_of_subset fun pair found => ?_).mpr
    ⟨(index, other), ?_, ?_⟩)
  · simp only [Finset.mem_filter, Finset.mem_univ, true_and] at found ⊢
    exact ⟨.head excludes.refers found.1, found.2⟩
  · simpa using ⟨Relation.ReflTransGen.refl, excludes⟩
  · simpa using fun back => absurd back (stratified _ _ excludes)

theorem exists_height (stratified : program.Stratified) :
    ∃ height : Fin program.names.length → Nat,
      ∀ index, (program.body index).level height ≤ height index := by
  let limit := Finset.univ.sup fun index : Fin program.names.length =>
    (program.body index).level fun _ => 0
  refine ⟨Node.spread program.rank limit, fun index => ?_⟩
  refine Node.level_spread_le_spread _ (fun other inside => rank_le_of_refers inside)
    (fun kept dropped other outside inside =>
      rank_lt_of_excludes stratified ⟨kept, dropped, outside, inside⟩) ?_
  exact Finset.le_sup (f := fun index => (program.body index).level fun _ => 0)
    (Finset.mem_univ index)

variable {tokens} {height : Fin program.names.length → Nat} {k l top : Nat}
  {node : Node program.names.length} {index : Fin program.names.length} {p e : Spot n}

theorem Derives.congr_level (le : ∀ index, (program.body index).level height ≤ height index)
    {one two : Node.Exceptions program.names.length n}
    (operands : ∀ operand p e, operand.level height < top → (one operand p e ↔ two operand p e))
    (low : height index ≤ top) (derives : program.Derives tokens one index p e) :
    program.Derives tokens two index p e := by
  let call : Node.Call program.names.length n := fun index p e =>
    height index ≤ top → program.Derives tokens two index p e
  suffices call index p e from this low
  refine derives.least fun index p e _ body low => ?_
  exact .apply List.not_mem_nil (body.congr_level (fun index p e low answer => answer low) operands
    (Nat.le_trans (le index) low))

theorem congr_level (le : ∀ index, (program.body index).level height ≤ height index)
    {one two : Node.Exceptions program.names.length n}
    (operands : ∀ operand p e, operand.level height < top → (one operand p e ↔ two operand p e))
    (low : node.level height ≤ top) :
    node.Derives tokens (program.Derives tokens one) one p e ↔
      node.Derives tokens (program.Derives tokens two) two p e :=
  ⟨fun derives => derives.congr_level (fun _ _ _ low => Derives.congr_level le operands low)
      operands low,
    fun derives => derives.congr_level
      (fun _ _ _ low => Derives.congr_level le (fun b p e lt => (operands b p e lt).symm) low)
      (fun b p e lt => (operands b p e lt).symm) low⟩

/-- Above its level a node means the same in every stratum. -/
theorem stratum_stable (le : ∀ index, (program.body index).level height ≤ height index)
    (low : node.level height ≤ k) (more : k < l) :
    program.stratum tokens l node p e ↔ program.stratum tokens (k + 1) node p e := by
  induction k using Nat.strongRecOn generalizing node p e l with
  | ind k ih =>
    obtain ⟨l, rfl⟩ : ∃ j, l = j + 1 := ⟨l - 1, by omega⟩
    refine congr_level le (fun operand p e lt => ?_) low
    obtain ⟨j, rfl⟩ : ∃ j, k = j + 1 := ⟨k - 1, by omega⟩
    exact ih j (by omega) (by omega) (by omega)

theorem yields_iff_stratum (le : ∀ index, (program.body index).level height ≤ height index)
    (low : node.level height ≤ k) :
    program.Yields tokens node p e ↔ program.stratum tokens (k + 1) node p e := by
  constructor
  · rintro ⟨from', all⟩
    exact (stratum_stable le low (by omega)).mp (all (max from' (k + 1)) (Nat.le_max_left _ _))
  · exact fun here => ⟨k + 1, fun l more => (stratum_stable le low (by omega)).mpr here⟩

theorem yields_iff (stratified : program.Stratified) :
    program.Yields tokens node p e ↔
      node.Derives tokens (program.Derives tokens (program.Yields tokens))
        (program.Yields tokens) p e := by
  obtain ⟨height, le⟩ := exists_height stratified
  rw [yields_iff_stratum le (Nat.le_refl (node.level height))]
  refine congr_level le (fun operand p e (lt : _ < node.level height) => ?_) (Nat.le_refl _)
  obtain ⟨k, same⟩ : ∃ k, node.level height = k + 1 := ⟨node.level height - 1, by omega⟩
  rw [same, yields_iff_stratum le (k := k) (by omega)]

theorem lawful_yields (tokens : Vector Text n) (stratified : program.Stratified) :
    program.Lawful tokens (program.Yields tokens) := fun _ _ _ => yields_iff stratified

theorem yields_except_iff (stratified : program.Stratified)
    {kept dropped : Node program.names.length} :
    program.Yields tokens (.except kept dropped) p e ↔
      program.Yields tokens kept p e ∧ ¬ program.Yields tokens dropped p e := by
  have left : program.Yields tokens kept p e ↔ _ := yields_iff stratified
  rw [yields_iff stratified, left]
  constructor
  · intro derives
    cases derives with
    | except derives free => exact ⟨derives, free⟩
  · exact fun ⟨derives, free⟩ => .except derives free

/-- There is only one meaning in which right operands are judged like nodes. -/
theorem yields_unique (stratified : program.Stratified)
    {excluded : Node.Exceptions program.names.length n}
    (law : program.Lawful tokens excluded) :
    ∀ node p e, excluded node p e ↔ program.Yields tokens node p e := by
  obtain ⟨height, le⟩ := exists_height stratified
  intro node
  induction level : node.level height using Nat.strongRecOn generalizing node with
  | ind k ih =>
    intro p e
    rw [law, yields_iff stratified]
    exact congr_level le (fun operand p e low => ih _ (level ▸ low) operand rfl p e) (Nat.le_refl _)

end Program
end GrammarDesk
