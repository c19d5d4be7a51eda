import GrammarDesk.Proofs.Match.Memory
import Mathlib.Data.Fintype.Prod

/-! How deep rules nest. Goals that are nested inside one another are different
goals that grow, so where there are no more goals than rules may nest, none is
ever refused. -/
namespace GrammarDesk

namespace Search

variable {rules n depth : Nat} {search old new : Search rules n} {goal : Goal rules n}

open Classical in
noncomputable def idle (search : Search rules n) : Finset (Goal rules n) :=
  Finset.univ.filter fun goal => ¬ search.Growing goal

theorem mem_idle : goal ∈ search.idle ↔ ¬ search.Growing goal := by simp [idle]

theorem idle_eq_of_extends (extended : old.Extends new) : new.idle = old.idle := by
  ext goal
  rw [mem_idle, mem_idle, extended.growing_iff]

theorem mem_idle_of_unknown (unknown : search.memo? goal = none) : goal ∈ search.idle :=
  mem_idle.mpr fun ⟨_, _, known⟩ => by cases unknown.symm.trans known

theorem card_idle_grow_lt (unknown : old.memo? goal = none) (seed : Ends n) (reentered : Bool) :
    (old.grow goal seed reentered).idle.card < old.idle.card := by
  refine Finset.card_lt_card ((Finset.ssubset_iff_of_subset fun other idle => ?_).mpr
    ⟨goal, mem_idle_of_unknown unknown, fun idle => ?_⟩)
  · rw [mem_idle] at idle ⊢
    intro ⟨seed', flag, known⟩
    have different : goal ≠ other := by rintro rfl; cases unknown.symm.trans known
    exact idle ⟨seed', flag, by rwa [memo?_grow, if_neg different]⟩
  · exact mem_idle.mp idle ⟨seed, reentered, by simp⟩

/-- As many rules may nest as there are idle goals, so none is refused. -/
structure Unrefused (depth : Nat) (old new : Search rules n) : Prop where
  extended : old.Extends new
  refused : old.idle.card ≤ depth → new.refused = old.refused

end Search

namespace Find

open Search

variable {rules n depth : Nat} {search old new : Search rules n} {goal : Goal rules n}
  {find : Find rules n}

theorem steps_unrefused : Steps (@Unrefused rules n depth) where
  refl search := ⟨.refl search, fun _ => rfl⟩
  trans first second := ⟨first.extended.trans second.extended, fun room =>
    (second.refused (idle_eq_of_extends first.extended ▸ room)).trans (first.refused room)⟩
  fail search p := ⟨extends_fail search p, fun _ => refused_fail⟩

theorem unrefused_regrow (takes : find.Takes (Unrefused depth)) (unknown : old.memo? goal = none)
    (room : old.idle.card ≤ depth + 1) (ends : Ends n)
    (before : ∃ fresh seed, Adds fresh (old.grow goal seed false) search) :
    (regrow goal old.settled.length find ends search).2.refused = search.refused := by
  -- Every round starts with the same goals growing.
  have seeded : ∀ ends search,
      (∃ fresh seed, Adds fresh (old.grow goal seed false) search) →
        Adds [] (old.grow goal ends false)
          ((search.forget old.settled.length).grow goal ends false) ∧
        ((search.forget old.settled.length).grow goal ends false).idle.card ≤ depth := by
    intro ends search ⟨fresh, seed, adds⟩
    have adds' : Adds [] (old.grow goal ends false)
        ((search.forget old.settled.length).grow goal ends false) := adds.forget.grow ends
    have := card_idle_grow_lt unknown ends false
    rw [← idle_eq_of_extends ⟨_, adds'⟩] at this
    exact ⟨adds', by omega⟩
  fun_induction regrow goal old.settled.length find ends search with
  | case1 ends search again next after found sub =>
    have same := (takes ((search.forget old.settled.length).grow goal ends false)).refused
      (seeded ends search before).2
    rw [found] at same
    exact same
  | case2 ends search again next after found more ih =>
    have taken := takes ((search.forget old.settled.length).grow goal ends false)
    rw [found] at taken
    obtain ⟨later, adds⟩ := taken.extended
    rw [ih ⟨_, ends, (seeded ends search before).1.trans adds⟩]
    exact taken.refused (seeded ends search before).2
  | case3 ends search done => rfl

theorem unrefused_goal (takes : find.Takes (Unrefused depth)) (unknown : old.memo? goal = none) :
    Unrefused (depth + 1) old (Find.goal goal find old).2 where
  extended := extends_goal (fun search => (takes search).extended) unknown
  refused room := by
    have first := takes (old.grow goal ∅ false)
    obtain ⟨fresh, adds⟩ := first.extended
    have same := unrefused_regrow takes unknown room (find (old.grow goal ∅ false)).1
      ⟨fresh, ∅, adds⟩
    have := card_idle_grow_lt unknown ∅ false
    exact same.trans (first.refused (by omega))

end Find

namespace Program

variable {program : Program} {n : Nat} {tokens : Vector Text n}

theorem unrefused_rule (depth : Nat) (index : Fin program.names.length) (p : Spot n) :
    (program.rule tokens depth index p).Takes (Search.Unrefused depth) := by
  induction depth generalizing index p with
  | zero =>
    intro search
    refine ⟨adding_rule 0 index p search, fun room => ?_⟩
    unfold rule
    split
    · rfl
    · rfl
    · have := Search.mem_idle_of_unknown (by assumption : search.memo? (index, p) = none)
      rw [Finset.card_eq_zero.mp (Nat.le_zero.mp room)] at this
      cases this
  | succ depth ih =>
    intro search
    unfold rule
    split
    · exact Find.steps_unrefused.refl search
    · exact ⟨Search.extends_reenter (by assumption), fun _ => rfl⟩
    · exact Find.unrefused_goal (Node.takes_eval Find.steps_unrefused ih _ p) (by assumption)

/-- No more goals than may nest: none is refused. -/
theorem refused_run_eq_nil (small : program.names.length * (n + 1) ≤ maxDepth) :
    (program.run tokens).2.refused = [] := by
  refine (unrefused_rule maxDepth program.startRule 0 {}).refused ?_
  refine Nat.le_trans (Finset.card_le_univ _) ?_
  simpa [Goal] using small

end Program
end GrammarDesk
