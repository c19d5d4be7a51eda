import GrammarDesk.Proofs.Match.Memory
import Mathlib.Data.List.Sort

/-! Searches that cannot be told apart. Nothing that a search looks at differs
between two states that agree on all goals, on the order in which goals were
settled and on the furthest missing token; searches that start in such states
and do alike things find the same ends and leave such states behind. The
evaluation of a node cannot be told apart from doing it again: all that it
looks at the second time is as the first time left it. -/
namespace GrammarDesk

theorem Ends.ext {n : Nat} {a b : Ends n} (same : ∀ p, p ∈ a ↔ p ∈ b) : a = b := by
  obtain ⟨as, sorted⟩ := a
  obtain ⟨bs, sorted'⟩ := b
  have perm : as.Perm bs := (List.perm_ext_iff_of_nodup sorted.nodup sorted'.nodup).mpr same
  simp only [Ends.mk.injEq]
  exact perm.eq_of_pairwise (fun _ _ _ _ less more => absurd more (Fin.lt_asymm less))
    sorted sorted'

theorem Ends.union_self {n : Nat} (ends : Ends n) : ends ∪ ends = ends :=
  Ends.ext fun _ => mem_union.trans or_self_iff

theorem Ends.ne_empty_of_mem {n : Nat} {ends : Ends n} {p : Spot n} (here : p ∈ ends) : ends ≠ ∅ :=
  fun same => not_mem_empty p (same ▸ here)

namespace Search

variable {rules n : Nat} {search same other : Search rules n}

/-- Two states that differ in nothing that a search looks at. -/
structure Alike (search same : Search rules n) : Prop where
  memo : ∀ goal, search.memo? goal = same.memo? goal
  settled : search.settled = same.settled
  furthest : search.furthest = same.furthest

namespace Alike

theorem refl (search : Search rules n) : search.Alike search := ⟨fun _ => rfl, rfl, rfl⟩

theorem symm (alike : search.Alike same) : same.Alike search :=
  ⟨fun goal => (alike.memo goal).symm, alike.settled.symm, alike.furthest.symm⟩

theorem trans (first : search.Alike same) (second : same.Alike other) : search.Alike other :=
  ⟨fun goal => (first.memo goal).trans (second.memo goal), first.settled.trans second.settled,
    first.furthest.trans second.furthest⟩

theorem fail (alike : search.Alike same) (p : Spot n) : (search.fail p).Alike (same.fail p) := by
  refine ⟨fun goal => ?_, ?_, ?_⟩
  · rw [memo?_fail, memo?_fail, alike.memo]
  · rw [settled_fail, settled_fail, alike.settled]
  · unfold Search.fail
    rw [alike.furthest]
    split
    · split
      · rfl
      · exact alike.furthest
    · rfl

theorem refuse (alike : search.Alike same) (goal : Goal rules n) :
    (search.refuse goal).Alike same := ⟨alike.memo, alike.settled, alike.furthest⟩

theorem grow (alike : search.Alike same) (goal : Goal rules n) (seed : Ends n) (again : Bool) :
    (search.grow goal seed again).Alike (same.grow goal seed again) :=
  ⟨fun other => by rw [memo?_grow, memo?_grow, alike.memo], alike.settled, alike.furthest⟩

theorem settle (alike : search.Alike same) (goal : Goal rules n) (ends : Ends n) :
    (search.settle goal ends).Alike (same.settle goal ends) :=
  ⟨fun other => by rw [memo?_settle, memo?_settle, alike.memo],
    congrArg (goal :: ·) alike.settled, alike.furthest⟩

theorem forget (alike : search.Alike same) (mark : Nat) :
    (search.forget mark).Alike (same.forget mark) := by
  refine ⟨fun goal => ?_, ?_, alike.furthest⟩
  · by_cases gone : goal ∈ search.settled.take (search.settled.length - mark)
    · rw [memo?_forget_of_mem gone, memo?_forget_of_mem (alike.settled ▸ gone)]
    · rw [memo?_forget_of_not_mem gone, memo?_forget_of_not_mem (alike.settled ▸ gone), alike.memo]
  · simp only [Search.forget, alike.settled]

theorem reentered (alike : search.Alike same) (goal : Goal rules n) :
    search.reentered goal = same.reentered goal := by
  have memo : search.memo[goal]? = same.memo[goal]? := alike.memo goal
  rw [Search.reentered, Search.reentered, memo]

end Alike

end Search

namespace Find

variable {rules n : Nat} {find other : Find rules n} {each each' : Spot n → Find rules n}

/-- From alike states the searches find the same ends and leave alike states. -/
def Alike (find other : Find rules n) : Prop :=
  ∀ search same, search.Alike same →
    (find search).1 = (other same).1 ∧ (find search).2.Alike (other same).2

theorem Alike.trans {last : Find rules n} (first : find.Alike other) (second : other.Alike last) :
    find.Alike last := by
  intro search same start
  obtain ⟨ends, states⟩ := first search search (.refl search)
  obtain ⟨ends', states'⟩ := second search same start
  exact ⟨ends.trans ends', states.trans states'⟩

theorem alike_pure (ends : Ends n) : Alike (pure ends : Find rules n) (pure ends) :=
  fun _ _ alike => ⟨rfl, alike⟩

theorem alike_bind (alike : find.Alike other) {next next' : Ends n → Find rules n}
    (follow : ∀ ends, (next ends).Alike (next' ends)) :
    Alike (find >>= next) (other >>= next') := by
  intro search same start
  obtain ⟨ends, states⟩ := alike search same start
  rw [bind_apply, bind_apply, ends]
  exact follow _ _ _ states

theorem alike_ite {first second : Find rules n} {test : Prop} [Decidable test]
    (alike : find.Alike first) (alike' : other.Alike second) :
    Alike (if test then find else other) (if test then first else second) := by
  split
  · exact alike
  · exact alike'

theorem alike_miss (p : Spot n) : Alike (miss p : Find rules n) (miss p) :=
  fun _ _ alike => ⟨rfl, alike.fail p⟩

theorem alike_token (tokens : Vector Text n) (test : Text → Bool) (p : Spot n) :
    Alike (token tokens test p : Find rules n) (token tokens test p) := by
  unfold token
  split
  · exact alike_ite (alike_pure _) (alike_miss p)
  · exact alike_miss p

section Loops

variable (alike : ∀ p, (each p).Alike (each' p))

include alike

theorem alike_each (spots : List (Spot n)) :
    Alike (Find.each each spots) (Find.each each' spots) := by
  induction spots with
  | nil => exact alike_pure ∅
  | cons p spots ih => exact alike_bind (alike p) fun _ => alike_bind ih fun _ => alike_pure _

theorem alike_rounds (count : Nat) (ends : Ends n) :
    Alike (rounds each count ends) (rounds each' count ends) := by
  induction count generalizing ends with
  | zero => exact alike_pure ends
  | succ count ih =>
    exact alike_bind (alike_each alike ends.toList) fun next =>
      alike_ite (alike_pure next) (ih next)

theorem alike_reach (frontier : List (Spot n)) (found : Ends n) :
    Alike (reach each frontier found) (reach each' frontier found) := by
  intro search same start
  fun_induction reach each frontier found search generalizing same with
  | case1 =>
    rw [reach]
    exact ⟨rfl, start⟩
  | case2 found search p rest ends after here next ih =>
    obtain ⟨same_ends, states⟩ := alike p search same start
    cases there : each' p same with
    | mk ends' after' =>
      rw [here, there] at same_ends states
      cases same_ends
      rw [reach, there]
      exact ih _ states

theorem alike_closure (start : Ends n) : Alike (closure each start) (closure each' start) :=
  alike_reach alike _ start

end Loops

theorem regrow_done {goal : Goal rules n} {mark : Nat} {ends : Ends n} {search : Search rules n}
    (done : ¬ search.reentered goal = true) :
    regrow goal mark find ends search = (ends, search) := by
  rw [regrow, if_neg done]

theorem regrow_back {goal : Goal rules n} {mark : Nat} {ends next : Ends n}
    {search : Search rules n} (back : search.reentered goal = true)
    (here : (find ((search.forget mark).grow goal ends false)).1 = next) :
    regrow goal mark find ends search =
      let after := (find ((search.forget mark).grow goal ends false)).2
      if next ⊆ ends then (ends, after) else regrow goal mark find (ends ∪ next) after := by
  subst here
  rw [regrow, if_pos back]
  rfl

theorem alike_regrow (alike : find.Alike other) (goal : Goal rules n) (mark : Nat)
    (ends : Ends n) : Alike (regrow goal mark find ends) (regrow goal mark other ends) := by
  intro search same start
  fun_induction regrow goal mark find ends search generalizing same with
  | case1 ends search back next after here sub =>
    obtain ⟨same_ends, states⟩ := alike _ _ ((start.forget mark).grow goal ends false)
    rw [here] at same_ends states
    rw [regrow_back ((start.reentered goal) ▸ back) same_ends.symm]
    simp only [if_pos sub]
    exact ⟨trivial, states⟩
  | case2 ends search back next after here new ih =>
    obtain ⟨same_ends, states⟩ := alike _ _ ((start.forget mark).grow goal ends false)
    rw [here] at same_ends states
    rw [regrow_back ((start.reentered goal) ▸ back) same_ends.symm]
    simp only [if_neg new]
    exact ih _ states
  | case3 ends search done =>
    rw [regrow_done ((start.reentered goal) ▸ done)]
    exact ⟨rfl, start⟩

theorem goal_eq (goal : Goal rules n) (find : Find rules n) (search : Search rules n) :
    Find.goal goal find search =
      let first := find (search.grow goal ∅ false)
      let last := regrow goal search.settled.length find first.1 first.2
      (last.1, last.2.settle goal last.1) := rfl

theorem alike_goal (alike : find.Alike other) (goal : Goal rules n) :
    Alike (Find.goal goal find) (Find.goal goal other) := by
  intro search same start
  obtain ⟨first, states⟩ := alike _ _ (start.grow goal ∅ false)
  obtain ⟨ends, states⟩ := alike_regrow alike goal search.settled.length
    (find (search.grow goal ∅ false)).1 _ _ states
  rw [goal_eq, goal_eq, ← start.settled]
  dsimp only
  rw [← first, ← ends]
  exact ⟨rfl, states.settle goal _⟩

/-- What a state may become while rules are searched for. -/
inductive Later (call : Fin rules → Spot n → Find rules n) :
    Search rules n → Search rules n → Prop where
  | refl (search : Search rules n) : Later call search search
  | call : Later call search mid → ∀ index p, Later call search (call index p mid).2
  | fail : Later call search mid → ∀ p, Later call search (mid.fail p)

namespace Later

variable {call : Fin rules → Spot n → Find rules n} {search mid after : Search rules n}

theorem trans (first : Later call search mid) (second : Later call mid after) :
    Later call search after := by
  induction second with
  | refl => exact first
  | call _ index p ih => exact ih.call index p
  | fail _ p ih => exact ih.fail p

theorem steps (call : Fin rules → Spot n → Find rules n) : Steps (Later call) :=
  ⟨.refl, .trans, fun search p => (Later.refl search).fail p⟩

theorem takes (index : Fin rules) (p : Spot n) : (call index p).Takes (Later call) :=
  fun search => (Later.refl search).call index p

theorem extended (adding : ∀ index p, (call index p).Adding) (later : Later call search after) :
    Search.Extends search after := by
  induction later with
  | refl => exact .refl _
  | call _ index p ih => exact ih.trans (adding index p _)
  | fail _ p ih => exact ih.trans (Search.extends_fail _ p)

end Later

theorem reach_nil (found : Ends n) : reach each [] found = pure found := by
  funext search
  rw [reach]
  rfl

theorem reach_cons (p : Spot n) (rest : List (Spot n)) (found : Ends n) :
    reach each (p :: rest) found = each p >>= fun ends =>
      reach each (push p ends.toList (rest, found)).1 (push p ends.toList (rest, found)).2 := by
  funext search
  rw [reach, bind_apply]
  rfl

/-- A search whose ends are final: done once, it may be done again, whatever rules are
searched for in between, and has the same ends and nothing new to note. -/
structure Lasting (call : Fin rules → Spot n → Find rules n) (find : Find rules n) : Prop where
  alike : find.Alike find
  takes : find.Takes (Later call)
  again : ∀ search after, Later call (find search).2 after →
    (find after).1 = (find search).1 ∧ (find after).2.Alike after

section Lasting

variable {call : Fin rules → Spot n → Find rules n}

theorem lasting_pure (ends : Ends n) : Lasting call (pure ends) :=
  ⟨alike_pure ends, takes_pure (Later.steps call) ends, fun _ after _ => ⟨rfl, .refl after⟩⟩

/-- The second part starts the second time in a state like the one that the first time
has led to, since the first part has nothing to note. -/
theorem Lasting.bind (first : Lasting call find) {next : Ends n → Find rules n}
    (follow : ∀ ends, Lasting call (next ends)) : Lasting call (find >>= next) where
  alike := alike_bind first.alike fun ends => (follow ends).alike
  takes := takes_bind (Later.steps call) first.takes fun ends => (follow ends).takes
  again search after later := by
    rw [bind_apply] at later
    obtain ⟨ends, still⟩ := first.again search after (((follow _).takes _).trans later)
    obtain ⟨last, still'⟩ := (follow (find search).1).again _ after later
    obtain ⟨same, states⟩ := (follow (find search).1).alike _ _ still
    rw [bind_apply, bind_apply, ends]
    exact ⟨same.trans last, states.trans still'⟩

theorem Lasting.ite {test : Prop} [Decidable test] (first : Lasting call find)
    (second : Lasting call other) : Lasting call (if test then find else other) := by
  split
  · exact first
  · exact second

theorem lasting_miss (adding : ∀ index p, (call index p).Adding) (p : Spot n) :
    Lasting call (miss p) where
  alike := alike_miss p
  takes := takes_miss (Later.steps call) p
  again search after later := by
    have looked : after.Looked p := (later.extended adding).looked (search.looked_fail p)
    refine ⟨rfl, ?_⟩
    change (after.fail p).Alike after
    rw [Search.fail_of_looked looked]
    exact .refl after

theorem lasting_token (adding : ∀ index p, (call index p).Adding) (tokens : Vector Text n)
    (test : Text → Bool) (p : Spot n) : Lasting call (token tokens test p) := by
  unfold Find.token
  split
  · exact (lasting_pure _).ite (lasting_miss adding p)
  · exact lasting_miss adding p

section Loops

variable (lasting : ∀ p, Lasting call (each p))

include lasting

theorem lasting_each (spots : List (Spot n)) : Lasting call (Find.each each spots) := by
  induction spots with
  | nil => exact lasting_pure ∅
  | cons p spots ih => exact (lasting p).bind fun _ => ih.bind fun _ => lasting_pure _

theorem lasting_rounds (count : Nat) (ends : Ends n) : Lasting call (rounds each count ends) := by
  induction count generalizing ends with
  | zero => exact lasting_pure ends
  | succ count ih =>
    exact (lasting_each lasting ends.toList).bind fun next => (lasting_pure next).ite (ih next)

theorem lasting_reach (frontier : List (Spot n)) (found : Ends n) :
    Lasting call (reach each frontier found) := by
  match frontier with
  | [] =>
    rw [reach_nil]
    exact lasting_pure found
  | p :: rest =>
    rw [reach_cons]
    exact (lasting p).bind fun ends =>
      lasting_reach (push p ends.toList (rest, found)).1 (push p ends.toList (rest, found)).2
termination_by frontier.length + found.room
decreasing_by
  have := push_size p ends.toList rest found
  simp only [List.length_cons]
  omega

theorem lasting_closure (start : Ends n) : Lasting call (closure each start) :=
  lasting_reach lasting _ start

end Loops

end Lasting

/-- What is needed of how rules are searched for: alike states are taken alike,
also by the other way to search, states are only added to, and a rule that has
been searched for is found again as it was, with nothing new to note. -/
structure Twins (call other : Fin rules → Spot n → Find rules n) : Prop where
  self : ∀ index p, (call index p).Alike (call index p)
  agree : ∀ index p, (call index p).Alike (other index p)
  adding : ∀ index p, (call index p).Adding
  again : ∀ index p search after, Later call (call index p search).2 after →
    (call index p after).1 = (call index p search).1 ∧ (call index p after).2.Alike after

theorem Twins.left {call other : Fin rules → Spot n → Find rules n} (twins : Twins call other) :
    Twins call call := ⟨twins.self, twins.self, twins.adding, twins.again⟩

theorem Twins.lasting {call other : Fin rules → Spot n → Find rules n} (twins : Twins call other)
    (index : Fin rules) (p : Spot n) : Lasting call (call index p) :=
  ⟨twins.self index p, Later.takes index p, twins.again index p⟩

end Find

namespace Node

variable {rules n : Nat} {tokens : Vector Text n} {call other : Fin rules → Spot n → Find rules n}

-- By recursion on nodes, as they are evaluated.
mutual

theorem lasting_eval (twins : Find.Twins call other) :
    ∀ (node : Node rules) (p : Spot n), Find.Lasting call (node.eval tokens call p)
  | .alternation items, p => lasting_evalAny twins items p
  | .sequence items, p => lasting_evalAll twins items {p}
  | .optional inner, p => (lasting_eval twins inner p).bind fun _ => Find.lasting_pure _
  | .repeated inner, p => Find.lasting_closure (lasting_eval twins inner) {p}
  | .oneOrMore inner, p =>
    (lasting_eval twins inner p).bind (Find.lasting_closure (lasting_eval twins inner))
  | .times count inner, p => Find.lasting_rounds (lasting_eval twins inner) count {p}
  | .except kept dropped, p => (lasting_eval twins kept p).bind fun _ =>
    (lasting_eval twins dropped p).bind fun _ => Find.lasting_pure _
  | .terminal _, p => (Find.lasting_pure _).ite (Find.lasting_token twins.adding tokens _ p)
  | .rule index, p => twins.lasting index p
  | .anyToken, p => Find.lasting_token twins.adding tokens _ p
  | .empty, p => Find.lasting_pure {p}

theorem lasting_evalAny (twins : Find.Twins call other) :
    ∀ (items : List (Node rules)) (p : Spot n), Find.Lasting call (evalAny tokens call items p)
  | [], _ => Find.lasting_pure ∅
  | item :: items, p => (lasting_eval twins item p).bind fun _ =>
    (lasting_evalAny twins items p).bind fun _ => Find.lasting_pure _

theorem lasting_evalAll (twins : Find.Twins call other) :
    ∀ (items : List (Node rules)) (ends : Ends n),
      Find.Lasting call (evalAll tokens call items ends)
  | [], ends => Find.lasting_pure ends
  | item :: items, ends =>
    (Find.lasting_each (lasting_eval twins item) ends.toList).bind fun next =>
      (Find.lasting_pure next).ite (lasting_evalAll twins items next)

end

end Node

end GrammarDesk
