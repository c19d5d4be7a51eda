import GrammarDesk.Proofs.Match.Evaluation
import GrammarDesk.Proofs.Match.Likeness

/-! Alternatives that can be left out. A node covers another if, once it has
been evaluated at a spot, the other one finds nothing there that it did not
find, and notes nothing new. An alternation without what an earlier
alternative covers cannot be told apart from the whole, and neither can
programs whose bodies differ in such alternatives only. -/
namespace GrammarDesk

namespace Find

variable {rules n : Nat} {each : Spot n → Find rules n}

theorem mem_reach {p : Spot n} {reached : Ends n} (frontier : List (Spot n))
    (search : Search rules n) (here : p ∈ reached) :
    p ∈ (reach each frontier reached search).1 := by
  fun_induction reach each frontier reached search with
  | case1 => exact here
  | case2 reached search q rest ends after found next ih =>
    exact ih (mem_push_reached.mpr (Or.inl here))

section Skips

variable (skips : ∀ p search, p ∈ (each p search).1)

include skips

theorem mem_each {p : Spot n} {spots : List (Spot n)} (search : Search rules n)
    (here : p ∈ spots) : p ∈ (Find.each each spots search).1 := by
  induction spots generalizing search with
  | nil => cases here
  | cons q spots ih =>
    refine Ends.mem_union.mpr ?_
    rcases List.mem_cons.mp here with rfl | here
    · exact Or.inl (skips p search)
    · exact Or.inr (ih _ here)

theorem mem_rounds {p : Spot n} (count : Nat) {ends : Ends n} (search : Search rules n)
    (here : p ∈ ends) : p ∈ (rounds each count ends search).1 := by
  induction count generalizing ends search with
  | zero => exact here
  | succ count ih =>
    have next := mem_each skips search here
    unfold rounds
    rw [bind_apply]
    split
    · exact next
    · exact ih _ next

end Skips

theorem exists_each {call : Fin rules → Spot n → Find rules n}
    (takes : ∀ p, (each p).Takes (Later call)) {p : Spot n} {spots : List (Spot n)}
    (search : Search rules n) (here : p ∈ spots) : ∃ mid,
      (each p mid).1 ⊆ (Find.each each spots search).1 ∧
        Later call (each p mid).2 (Find.each each spots search).2 := by
  induction spots generalizing search with
  | nil => cases here
  | cons q spots ih =>
    rcases List.mem_cons.mp here with rfl | here
    · exact ⟨search, fun e found => Ends.mem_union.mpr (Or.inl found),
        takes_each (Later.steps call) takes spots _⟩
    · obtain ⟨mid, sub, later⟩ := ih (each q search).2 here
      exact ⟨mid, fun e found => Ends.mem_union.mpr (Or.inr (sub e found)), later⟩

end Find

namespace Node

variable {rules : Nat}

/-- No search tells the two apart, however rules are searched for. -/
structure Like (node other : Node rules) : Prop where
  alike : ∀ {n : Nat} (tokens : Vector Text n) {call call' : Fin rules → Spot n → Find rules n},
    Find.Twins call call' → ∀ p, (node.eval tokens call p).Alike (other.eval tokens call' p)

structure AnyLike (items others : List (Node rules)) : Prop where
  alike : ∀ {n : Nat} (tokens : Vector Text n) {call call' : Fin rules → Spot n → Find rules n},
    Find.Twins call call' → ∀ p,
      (evalAny tokens call items p).Alike (evalAny tokens call' others p)

variable {node other kept dropped kept' dropped' : Node rules} {items others : List (Node rules)}

theorem AnyLike.nil : AnyLike ([] : List (Node rules)) [] :=
  ⟨fun _ _ _ _ _ => Find.alike_pure ∅⟩

theorem AnyLike.cons (first : node.Like other) (rest : AnyLike items others) :
    AnyLike (node :: items) (other :: others) :=
  ⟨fun tokens _ _ twins p => Find.alike_bind (first.alike tokens twins p) fun _ =>
    Find.alike_bind (rest.alike tokens twins p) fun _ => Find.alike_pure _⟩

namespace Like

theorem optional (like : node.Like other) : (optional node).Like (optional other) :=
  ⟨fun tokens _ _ twins p =>
    Find.alike_bind (like.alike tokens twins p) fun _ => Find.alike_pure _⟩

theorem repeated (like : node.Like other) : (repeated node).Like (repeated other) :=
  ⟨fun tokens _ _ twins _ => Find.alike_closure (like.alike tokens twins) _⟩

theorem oneOrMore (like : node.Like other) : (oneOrMore node).Like (oneOrMore other) :=
  ⟨fun tokens _ _ twins p => Find.alike_bind (like.alike tokens twins p)
    (Find.alike_closure (like.alike tokens twins))⟩

theorem times (like : node.Like other) (count : Nat) :
    (times count node).Like (times count other) :=
  ⟨fun tokens _ _ twins _ => Find.alike_rounds (like.alike tokens twins) count _⟩

theorem except (left : kept.Like kept') (right : dropped.Like dropped') :
    (except kept dropped).Like (except kept' dropped') :=
  ⟨fun tokens _ _ twins p => Find.alike_bind (left.alike tokens twins p) fun _ =>
    Find.alike_bind (right.alike tokens twins p) fun _ => Find.alike_pure _⟩

theorem evalAll (like : List.Forall₂ Like items others) {n : Nat} (tokens : Vector Text n)
    {call call' : Fin rules → Spot n → Find rules n} (twins : Find.Twins call call')
    (ends : Ends n) :
    (evalAll tokens call items ends).Alike (evalAll tokens call' others ends) := by
  induction like generalizing ends with
  | nil => exact Find.alike_pure ends
  | cons first _ ih =>
    exact Find.alike_bind (Find.alike_each (first.alike tokens twins) ends.toList) fun next =>
      Find.alike_ite (Find.alike_pure next) (ih next)

theorem sequence (like : List.Forall₂ Like items others) :
    (sequence items).Like (sequence others) :=
  ⟨fun tokens _ _ twins _ => evalAll like tokens twins _⟩

theorem alternation (like : AnyLike items others) : (alternation items).Like (alternation others) :=
  ⟨like.alike⟩

theorem trans {last : Node rules} (first : node.Like other) (second : other.Like last) :
    node.Like last :=
  ⟨fun tokens _ _ twins p => (first.alike tokens twins.left p).trans
    (second.alike tokens twins p)⟩

theorem of_single (like : AnyLike items [other]) : (Node.alternation items).Like other := by
  refine ⟨fun tokens call call' twins p search same start => ?_⟩
  obtain ⟨ends, states⟩ := like.alike tokens twins p search same start
  exact ⟨ends.trans (Ends.union_empty _), states⟩

theorem to_single (like : AnyLike [node] items) : node.Like (Node.alternation items) := by
  refine ⟨fun tokens call call' twins p search same start => ?_⟩
  obtain ⟨ends, states⟩ := like.alike tokens twins p search same start
  exact ⟨(Ends.union_empty _).symm.trans ends, states⟩

end Like

-- By recursion on nodes.
mutual

theorem like_refl : ∀ node : Node rules, node.Like node
  | .alternation items => .alternation (anyLike_refl items)
  | .sequence items => .sequence (likes_refl items)
  | .optional inner => (like_refl inner).optional
  | .repeated inner => (like_refl inner).repeated
  | .oneOrMore inner => (like_refl inner).oneOrMore
  | .times count inner => (like_refl inner).times count
  | .except kept dropped => (like_refl kept).except (like_refl dropped)
  | .terminal _ => ⟨fun tokens _ _ _ p =>
    Find.alike_ite (Find.alike_pure _) (Find.alike_token tokens _ p)⟩
  | .rule index => ⟨fun _ _ _ twins p => twins.agree index p⟩
  | .anyToken => ⟨fun tokens _ _ _ p => Find.alike_token tokens _ p⟩
  | .empty => ⟨fun _ _ _ _ _ => Find.alike_pure _⟩

theorem likes_refl : ∀ items : List (Node rules), List.Forall₂ Like items items
  | [] => .nil
  | item :: items => .cons (like_refl item) (likes_refl items)

theorem anyLike_refl : ∀ items : List (Node rules), AnyLike items items
  | [] => .nil
  | item :: items => .cons (like_refl item) (anyLike_refl items)

end

def Skips (node : Node rules) : Prop :=
  ∀ ⦃n : Nat⦄ (tokens : Vector Text n) (call : Fin rules → Spot n → Find rules n) (p : Spot n)
    (search : Search rules n), p ∈ (node.eval tokens call p search).1

theorem skips_optional (inner : Node rules) : (optional inner).Skips :=
  fun _ _ _ _ _ => Ends.mem_union.mpr (Or.inl (Ends.mem_singleton.mpr rfl))

theorem skips_repeated (inner : Node rules) : (repeated inner).Skips :=
  fun _ _ _ _ search => Find.mem_reach _ search (Ends.mem_singleton.mpr rfl)

theorem Skips.times (skips : node.Skips) (count : Nat) : (times count node).Skips :=
  fun _ tokens call _ search =>
    Find.mem_rounds (skips tokens call) count search (Ends.mem_singleton.mpr rfl)

theorem mem_evalAll {n : Nat} {tokens : Vector Text n} {call : Fin rules → Spot n → Find rules n}
    {p : Spot n} {ends : Ends n} (skips : ∀ item ∈ items, item.Skips) (search : Search rules n)
    (here : p ∈ ends) : p ∈ (evalAll tokens call items ends search).1 := by
  induction items generalizing ends search with
  | nil => exact here
  | cons item items ih =>
    obtain ⟨first, skips⟩ := List.forall_mem_cons.mp skips
    have next := Find.mem_each (first tokens call) search here
    unfold evalAll
    rw [Find.bind_apply]
    split
    · exact next
    · exact ih skips _ next

theorem exists_evalAll {n : Nat} {tokens : Vector Text n}
    {call : Fin rules → Spot n → Find rules n} {last : Node rules} {p : Spot n} {ends : Ends n}
    (skips : ∀ item ∈ items, item.Skips)
    (takes : ∀ p, (last.eval tokens call p).Takes (Find.Later call)) (search : Search rules n)
    (here : p ∈ ends) : ∃ mid,
      (last.eval tokens call p mid).1 ⊆ (evalAll tokens call (items ++ [last]) ends search).1 ∧
        Find.Later call (last.eval tokens call p mid).2
          (evalAll tokens call (items ++ [last]) ends search).2 := by
  induction items generalizing ends search with
  | nil =>
    have only : evalAll tokens call [last] ends =
        Find.each (last.eval tokens call) ends.toList := by
      funext search
      unfold evalAll
      rw [Find.bind_apply]
      split <;> rfl
    rw [List.nil_append, only]
    exact Find.exists_each takes search here
  | cons item items ih =>
    obtain ⟨first, skips⟩ := List.forall_mem_cons.mp skips
    have next := Find.mem_each (first tokens call) search here
    rw [List.cons_append, evalAll, Find.bind_apply, if_neg (Ends.ne_empty_of_mem next)]
    exact ih skips _ next

theorem Skips.sequence (skips : ∀ item ∈ items, item.Skips) : (Node.sequence items).Skips :=
  fun _ _ _ _ search => mem_evalAll skips search (Ends.mem_singleton.mpr rfl)

def Contains (node other : Node rules) : Prop :=
  ∀ ⦃n : Nat⦄ (tokens : Vector Text n) (call : Fin rules → Spot n → Find rules n) (p : Spot n)
    (search : Search rules n),
    (other.eval tokens call p search).1 ⊆ (node.eval tokens call p search).1

theorem contains_optional (inner : Node rules) : (optional inner).Contains inner :=
  fun _ _ _ _ _ _ member => Ends.mem_union.mpr (Or.inr member)

theorem mem_times {n : Nat} {tokens : Vector Text n} {call : Fin rules → Spot n → Find rules n}
    {p e : Spot n} {search : Search rules n} (skips : node.Skips) (count : Nat)
    (found : e ∈ (node.eval tokens call p search).1) :
    e ∈ ((times (count + 1) node).eval tokens call p search).1 := by
  have first : e ∈ (Find.each (node.eval tokens call) [p] search).1 :=
    Ends.mem_union.mpr (Or.inl found)
  change e ∈ (Find.rounds (node.eval tokens call) (count + 1) {p} search).1
  unfold Find.rounds
  rw [Find.bind_apply]
  split
  · exact first
  · exact Find.mem_rounds (skips tokens call) count _ first

theorem Contains.times (contains : node.Contains other) (skips : node.Skips) (count : Nat) :
    (times (count + 1) node).Contains other :=
  fun _ tokens call p search e member =>
    mem_times skips count (contains tokens call p search e member)

/-- The node matches the empty input, nothing else, and looks at no token. -/
def Still (node : Node rules) : Prop :=
  ∀ ⦃n : Nat⦄ (tokens : Vector Text n) (call : Fin rules → Spot n → Find rules n) (p : Spot n),
    node.eval tokens call p = pure {p}

theorem still_empty : (empty : Node rules).Still := fun _ _ _ _ => rfl

theorem still_sequence (all : ∀ item ∈ items, item.Still) : (sequence items).Still := by
  intro n tokens call p
  change evalAll tokens call items {p} = pure {p}
  induction items with
  | nil => rfl
  | cons item items ih =>
    obtain ⟨still, all⟩ := List.forall_mem_cons.mp all
    have once : Find.each (item.eval tokens call) ({p} : Ends n).toList = pure {p} := by
      change (item.eval tokens call p >>= fun first => pure ∅ >>= fun others =>
        pure (first ∪ others)) = pure {p}
      rw [still]
      funext search
      exact congrArg (·, search) (Ends.union_empty {p})
    rw [evalAll, once, pure_bind, if_neg (Ends.singleton_ne_empty p)]
    exact ih all

theorem Contains.of_still (skips : node.Skips) (still : other.Still) : node.Contains other := by
  intro n tokens call p search e member
  rw [still] at member
  cases Ends.mem_singleton.mp member
  exact skips tokens call p search

/-- Once the node has been evaluated, whatever rules are searched for next, the
other one finds only ends that it found, and notes nothing new. -/
def Covers (node other : Node rules) : Prop :=
  ∀ ⦃n : Nat⦄ (tokens : Vector Text n) {call call' : Fin rules → Spot n → Find rules n},
    Find.Twins call call' → ∀ p search after,
      Find.Later call (node.eval tokens call p search).2 after →
        (other.eval tokens call p after).1 ⊆ (node.eval tokens call p search).1 ∧
          (other.eval tokens call p after).2.Alike after

namespace Covers

theorem optional (covers : node.Covers other) : (optional node).Covers other := by
  intro n tokens call call' twins p search after later
  obtain ⟨sub, alike⟩ := covers tokens twins p search after later
  exact ⟨fun e member => Ends.mem_union.mpr (Or.inr (sub e member)), alike⟩

theorem times (covers : node.Covers other) (skips : node.Skips) (count : Nat) :
    (times (count + 1) node).Covers other := by
  intro n tokens call call' twins p search after later
  have more : Find.Later call (node.eval tokens call p search).2
      ((Node.times (count + 1) node).eval tokens call p search).2 := by
    change Find.Later call _ (Find.rounds (node.eval tokens call) (count + 1) {p} search).2
    unfold Find.rounds
    rw [Find.bind_apply]
    split
    · exact .refl _
    · exact Find.takes_rounds (Find.Later.steps call)
        (takes_eval (Find.Later.steps call) Find.Later.takes node) count _ _
  obtain ⟨sub, alike⟩ := covers tokens twins p search after (more.trans later)
  exact ⟨fun e member => mem_times skips count (sub e member), alike⟩

theorem sequence {items : List (Node rules)} {last other : Node rules}
    (skips : ∀ item ∈ items, item.Skips) (covers : last.Covers other) :
    (sequence (items ++ [last])).Covers other := by
  intro n tokens call call' twins p search after later
  obtain ⟨mid, sub, inside⟩ := exists_evalAll skips
    (takes_eval (Find.Later.steps call) Find.Later.takes last) search
    (Ends.mem_singleton.mpr (rfl : p = p))
  obtain ⟨sub', alike⟩ := covers tokens twins p mid after (inside.trans later)
  exact ⟨fun e member => sub e (sub' e member), alike⟩

theorem of_still (skips : node.Skips) (still : other.Still) : node.Covers other := by
  intro n tokens call call' twins p search after later
  rw [still]
  refine ⟨fun e member => ?_, .refl after⟩
  cases Ends.mem_singleton.mp member
  exact skips tokens call p search

theorem refl (node : Node rules) : node.Covers node := by
  intro n tokens call call' twins p search after later
  obtain ⟨ends, alike⟩ := (node.lasting_eval twins p).again search after later
  exact ⟨fun e member => ends ▸ member, alike⟩

end Covers

/-- An alternative may be left out if the one before it covers it. -/
theorem AnyLike.drop {item : Node rules} (covers : node.Covers item)
    (like : AnyLike (node :: items) others) : AnyLike (node :: item :: items) others := by
  refine ⟨fun tokens call call' twins p search same start => ?_⟩
  obtain ⟨sub, still⟩ := covers tokens twins p search _ (.refl _)
  obtain ⟨rest, moved⟩ := (anyLike_refl items).alike tokens twins.left p _ _ still
  obtain ⟨ends, states⟩ := like.alike tokens twins p search same start
  refine ⟨?_, moved.trans states⟩
  rw [← ends]
  refine Ends.ext fun e => ?_
  change e ∈ _ ∪ (_ ∪ (evalAny tokens call items p _).1) ↔ e ∈ _ ∪ (evalAny tokens call items p _).1
  rw [rest, Ends.mem_union, Ends.mem_union, Ends.mem_union]
  exact ⟨fun found => found.elim Or.inl fun found => found.imp_left (sub e),
    fun found => found.imp_right Or.inr⟩

end Node

namespace Program

open Search

variable {program : Program} {n : Nat} {tokens : Vector Text n}

/-- What a state holds of a goal that rules have been searched for: all its ends,
the seed it came back to, or that rules nest too deep for it. -/
inductive Answered (depth : Nat) (goal : Goal program.names.length n) (ends : Ends n)
    (search : Search program.names.length n) : Prop where
  | settled : search.memo? goal = some (.settled ends) → Answered depth goal ends search
  | growing : search.memo? goal = some (.growing ends true) → Answered depth goal ends search
  | refused : depth = 0 → search.memo? goal = none → ends = ∅ → search.Looked goal.2 →
      Answered depth goal ends search

namespace Answered

variable {depth : Nat} {index : Fin program.names.length} {p : Spot n} {ends : Ends n}
  {goal : Goal program.names.length n} {search after : Search program.names.length n}

theorem of_rule (depth : Nat) (index : Fin program.names.length) (p : Spot n)
    (search : Search program.names.length n) :
    Answered depth (index, p) (program.rule tokens depth index p search).1
      (program.rule tokens depth index p search).2 := by
  cases known : search.memo? (index, p) with
  | some entry =>
    cases entry with
    | settled ends =>
      rw [rule_of_settled known]
      exact .settled known
    | growing seed flag =>
      rw [rule_of_growing known]
      exact .growing (by simp)
  | none =>
    cases depth with
    | zero =>
      rw [rule_of_refused known]
      exact .refused rfl (by simpa using known) rfl (looked_fail _ p)
    | succ depth =>
      rw [rule_of_unknown known, Find.goal_eq]
      exact .settled (by simp)

theorem unknown_rule_zero (unknown : search.memo? goal = none) (index : Fin program.names.length)
    (p : Spot n) : (program.rule tokens 0 index p search).2.memo? goal = none := by
  cases known : search.memo? (index, p) with
  | some entry =>
    cases entry with
    | settled ends => rwa [rule_of_settled known]
    | growing seed flag =>
      rw [rule_of_growing known, memo?_grow, if_neg (by rintro rfl; cases known.symm.trans unknown)]
      exact unknown
  | none => simpa [rule_of_refused known] using unknown

theorem call (answered : Answered depth goal ends search) (index : Fin program.names.length)
    (p : Spot n) : Answered depth goal ends (program.rule tokens depth index p search).2 := by
  have extended : Search.Extends search (program.rule tokens depth index p search).2 :=
    adding_rule depth index p search
  cases answered with
  | settled known => exact .settled (extended.kept known)
  | growing known =>
    obtain ⟨again, still, known⟩ := extended.growing known
    rw [still rfl] at known
    exact .growing known
  | refused none unknown empty looked =>
    subst none
    exact .refused rfl (unknown_rule_zero unknown index p) empty (extended.looked looked)

theorem fail (answered : Answered depth goal ends search) (p : Spot n) :
    Answered depth goal ends (search.fail p) := by
  cases answered with
  | settled known => exact .settled (by simpa using known)
  | growing known => exact .growing (by simpa using known)
  | refused none unknown empty looked =>
    exact .refused none (by simpa using unknown) empty looked.fail

theorem later (answered : Answered depth goal ends search)
    (later : Find.Later (program.rule tokens depth) search after) :
    Answered depth goal ends after := by
  induction later with
  | refl => exact answered
  | call _ index p ih => exact ih.call index p
  | fail _ p ih => exact ih.fail p

/-- A goal that has its answer is found as it was, with nothing new to note. -/
theorem again (answered : Answered depth (index, p) ends search) :
    (program.rule tokens depth index p search).1 = ends ∧
      (program.rule tokens depth index p search).2.Alike search := by
  cases answered with
  | settled known =>
    rw [rule_of_settled known]
    exact ⟨rfl, .refl search⟩
  | growing known =>
    rw [rule_of_growing known]
    refine ⟨rfl, fun goal => ?_, rfl, rfl⟩
    rw [memo?_grow]
    split
    · subst goal
      exact known.symm
    · rfl
  | refused none unknown empty looked =>
    subst none
    have noted : (search.refuse (index, p)).Looked p := looked
    rw [rule_of_refused unknown, fail_of_looked noted]
    exact ⟨empty.symm, (Alike.refl search).refuse (index, p)⟩

end Answered

theorem again_rule (depth : Nat) (index : Fin program.names.length) (p : Spot n)
    (search after : Search program.names.length n)
    (later : Find.Later (program.rule tokens depth)
      (program.rule tokens depth index p search).2 after) :
    (program.rule tokens depth index p after).1 = (program.rule tokens depth index p search).1 ∧
      (program.rule tokens depth index p after).2.Alike after :=
  ((Answered.of_rule depth index p search).later later).again

section Bodies

variable {names : List Text} {bodies others : Vector (Node names.length) names.length}
  {start : 0 < names.length} {depth : Nat}

theorem alike_rule_of_memo {depth : Nat} {index : Fin names.length} {p : Spot n}
    {search same : Search names.length n} {entry : Entry n} (alike : search.Alike same)
    (known : search.memo? (index, p) = some entry) :
    (rule ⟨names, bodies, start⟩ tokens depth index p search).1 =
        (rule ⟨names, others, start⟩ tokens depth index p same).1 ∧
      (rule ⟨names, bodies, start⟩ tokens depth index p search).2.Alike
        (rule ⟨names, others, start⟩ tokens depth index p same).2 := by
  have known' := (alike.memo _).symm.trans known
  cases entry with
  | settled ends =>
    rw [rule_of_settled known, rule_of_settled known']
    exact ⟨rfl, alike⟩
  | growing seed flag =>
    rw [rule_of_growing known, rule_of_growing known']
    exact ⟨rfl, alike.grow _ seed true⟩

theorem alike_rule_zero (index : Fin names.length) (p : Spot n) :
    (rule ⟨names, bodies, start⟩ tokens 0 index p).Alike
      (rule ⟨names, others, start⟩ tokens 0 index p) := by
  intro search same alike
  cases known : search.memo? (index, p) with
  | some entry => exact alike_rule_of_memo alike known
  | none =>
    have known' : same.memo? (index, p) = none := (alike.memo _).symm.trans known
    have turned : rule ⟨names, others, start⟩ tokens 0 index p same = _ := rule_of_refused known'
    rw [rule_of_refused known, turned]
    exact ⟨rfl, ((alike.refuse _).symm.refuse _).symm.fail p⟩

theorem alike_rule_succ {index : Fin names.length}
    (twins : Find.Twins (rule ⟨names, bodies, start⟩ tokens depth)
      (rule ⟨names, others, start⟩ tokens depth))
    (like : (bodies.get index).Like (others.get index)) (p : Spot n) :
    (rule ⟨names, bodies, start⟩ tokens (depth + 1) index p).Alike
      (rule ⟨names, others, start⟩ tokens (depth + 1) index p) := by
  intro search same alike
  cases known : search.memo? (index, p) with
  | some entry => exact alike_rule_of_memo alike known
  | none =>
    have known' : same.memo? (index, p) = none := (alike.memo _).symm.trans known
    have searched : rule ⟨names, others, start⟩ tokens (depth + 1) index p same = _ :=
      rule_of_unknown known'
    rw [rule_of_unknown known, searched]
    exact Find.alike_goal (like.alike tokens twins p) _ _ _ alike

theorem twins_rule (like : ∀ index, (bodies.get index).Like (others.get index)) (depth : Nat) :
    Find.Twins (rule ⟨names, bodies, start⟩ tokens depth)
      (rule ⟨names, others, start⟩ tokens depth) := by
  induction depth with
  | zero => exact ⟨alike_rule_zero, alike_rule_zero, adding_rule 0, again_rule 0⟩
  | succ depth ih =>
    exact ⟨fun index => alike_rule_succ ih.left (Node.like_refl _),
      fun index => alike_rule_succ ih (like index), adding_rule (depth + 1),
        again_rule (depth + 1)⟩

/-- Programs with such bodies get equally far on all tokens. -/
theorem outcome_eq_of_like (like : ∀ index, (bodies.get index).Like (others.get index))
    (tokens : List Text) :
    outcome ⟨names, bodies, start⟩ tokens = outcome ⟨names, others, start⟩ tokens := by
  have twins : Find.Twins (rule ⟨names, bodies, start⟩ tokens.toArray.toVector maxDepth)
      (rule ⟨names, others, start⟩ tokens.toArray.toVector maxDepth) := twins_rule like maxDepth
  obtain ⟨ends, states⟩ := twins.agree ⟨0, start⟩ 0 _ _ (.refl {})
  have same : reached (run ⟨names, bodies, start⟩ tokens.toArray.toVector).1
        (run ⟨names, bodies, start⟩ tokens.toArray.toVector).2 =
      reached (run ⟨names, others, start⟩ tokens.toArray.toVector).1
        (run ⟨names, others, start⟩ tokens.toArray.toVector).2 := by
    unfold reached run
    exact congrArg₂ (fun ends furthest => max ((ends.toList.getLast?.map Fin.val).getD 0)
      ((furthest.map Fin.val).getD 0)) ends states.furthest
  unfold outcome
  dsimp only
  rw [same]

end Bodies

end Program

end GrammarDesk
