import GrammarDesk.Proofs.Match.Exactness

/-! What the cap on nesting costs. A derivation is found whatever its own
nesting, as long as it applies no rule at a spot where the run refused that
rule. A shallow derivation that does so can be lost: ends that a rule was left
with near the cap are remembered, and serve where there was room for more. -/
namespace GrammarDesk

namespace Program

section Within

variable (program : Program) {n : Nat} (tokens : Vector Text n)
  (excluded : Node.Exceptions program.names.length n)

/-- What rules derive with at most so many of them nested inside one another. -/
def DerivesWithin : Nat → Node.Call program.names.length n
  | 0 => fun _ _ _ => False
  | depth + 1 => fun index p e =>
    (program.body index).Derives tokens (DerivesWithin depth) excluded p e

variable {program tokens excluded} {index : Fin program.names.length} {p e : Spot n}

theorem DerivesWithin.succ {depth : Nat}
    (derives : program.DerivesWithin tokens excluded depth index p e) :
    program.DerivesWithin tokens excluded (depth + 1) index p e := by
  induction depth generalizing index p e with
  | zero => exact derives.elim
  | succ depth ih => exact Node.Derives.mono (fun _ _ _ => ih) derives

theorem DerivesWithin.mono {depth more : Nat} (le : depth ≤ more)
    (derives : program.DerivesWithin tokens excluded depth index p e) :
    program.DerivesWithin tokens excluded more index p e := by
  induction le with
  | refl => exact derives
  | step _ ih => exact ih.succ

end Within

/-- Four rules with two ways to the same goal: `z = s | { 'a' }, 'b', t ;
s = 'a', s | 'b', t ; t = u ; u = 'y' ;`. The first one nests for every token. -/
abbrev detour : Program where
  names := ["z".toList, "s".toList, "t".toList, "u".toList]
  bodies := #v[
    .alternation [.rule ⟨1, by decide⟩,
      .sequence [.repeated (.terminal ['a']), .terminal ['b'], .rule ⟨2, by decide⟩]],
    .alternation [.sequence [.terminal ['a'], .rule ⟨1, by decide⟩],
      .sequence [.terminal ['b'], .rule ⟨2, by decide⟩]],
    .rule ⟨3, by decide⟩,
    .terminal ['y']]
  start := by decide

abbrev detour.line : Fin detour.names.length := ⟨1, by decide⟩

abbrev detour.goal : Fin detour.names.length := ⟨2, by decide⟩

abbrev detour.leaf : Fin detour.names.length := ⟨3, by decide⟩

section Detour

open Node (eval_sequence each_singleton evalAny_cons evalAll_none evalAll_some)

variable {n m : Nat} {tokens : Vector Text n} {search after : Search detour.names.length n}
  {p q last : Spot n}

/-- Tokens `a`, so many of them, and a `b`, and one more. -/
structure Lane (tokens : Vector Text n) (m : Nat) : Prop where
  size : n = m + 2
  line : ∀ i < m, tokens[i]? = some ['a']
  turn : tokens[m]? = some ['b']

/-- The goal at the end was left without ends, and nothing was looked for beyond. -/
structure Sealed (search : Search detour.names.length n) (last : Spot n) : Prop where
  found : search.memo? (detour.goal, last) = some (.settled ∅)
  furthest : search.furthest = some last

theorem rule_last (fresh : search.memo? (detour.goal, last) = none)
    (fresh' : search.memo? (detour.leaf, last) = none)
    (low : ∀ q, search.furthest = some q → q ≤ last) :
    ∃ after, detour.rule tokens 1 detour.goal last search = (∅, after) ∧ Sealed after last ∧
      ∀ goal ≠ (detour.goal, last), after.memo? goal = search.memo? goal := by
  have inner : (search.grow (detour.goal, last) ∅ false).memo? (detour.leaf, last) = none := by
    rw [Search.memo?_grow, if_neg (by simp)]
    exact fresh'
  have quiet : ∀ goal, (((search.grow (detour.goal, last) ∅ false).refuse
      (detour.leaf, last)).fail last).memo? goal =
        if (detour.goal, last) = goal then some (.growing ∅ false) else search.memo? goal := by
    intro goal
    rw [Search.memo?_fail, Search.memo?_refuse, Search.memo?_grow]
  refine ⟨_, rule_of_quiet fresh (rule_of_refused inner) ((quiet _).trans (if_pos rfl)),
    ⟨by simp, Search.furthest_fail_of_le low⟩, fun goal other => ?_⟩
  rw [Search.memo?_settle, if_neg (Ne.symm other), quiet, if_neg (Ne.symm other)]

section Lists

variable {rules : Nat} {call : Fin rules → Spot n → Find rules n} {item : Node rules}
  {items : List (Node rules)} {before later : Search rules n} {ends next : Ends n}

theorem each_all {find : Spot n → Find rules n} {holds : Spot n → Prop} {spots : List (Spot n)}
    (all : ∀ q ∈ spots, ∃ ends, find q before = (ends, before) ∧ ∀ e ∈ ends, holds e) :
    ∃ ends, Find.each find spots before = (ends, before) ∧ ∀ e ∈ ends, holds e := by
  induction spots with
  | nil => exact ⟨∅, rfl, fun e member => absurd member (Ends.not_mem_empty e)⟩
  | cons q spots ih =>
    obtain ⟨first, found, inside⟩ := all q (List.mem_cons_self ..)
    obtain ⟨others, found', inside'⟩ := ih fun r member => all r (List.mem_cons_of_mem q member)
    refine ⟨first ∪ others, ?_,
      fun e member => (Ends.mem_union.mp member).elim (inside e) (inside' e)⟩
    simp only [Find.each, Find.bind_apply, found, found', Find.pure_apply]

theorem reach_all {find : Spot n → Find rules n} {holds : Spot n → Prop}
    (all : ∀ q, holds q → ∃ ends, find q before = (ends, before) ∧ ∀ e ∈ ends, holds e)
    (frontier : List (Spot n)) (reached : Ends n) (waiting : ∀ q ∈ frontier, holds q)
    (inside : ∀ q ∈ reached, holds q) :
    ∃ ends, Find.reach find frontier reached before = (ends, before) ∧ ∀ e ∈ ends, holds e := by
  fun_induction Find.reach find frontier reached before with
  | case1 => exact ⟨_, rfl, inside⟩
  | case2 reached search p rest ends after found next ih =>
    obtain ⟨ends', found', inside'⟩ := all p (waiting p (List.mem_cons_self ..))
    cases found.symm.trans found'
    refine ih all (fun q member => ?_) fun q member => ?_
    · rcases Find.mem_push_frontier.mp member with member | ⟨member, _⟩
      · exact waiting q (List.mem_cons_of_mem p member)
      · exact inside' q member
    · rcases Find.mem_push_reached.mp member with member | ⟨member, _⟩
      · exact inside q member
      · exact inside' q member

section Way

variable {literal : Text} {index : Fin rules} {q : Spot n}

theorem way_of_hit (wanted : literal ≠ []) (here : tokens[p.val]? = some literal)
    (next : q.val = p.val + 1) (found : call index q before = (∅, later)) :
    Node.evalAll tokens call [.terminal literal, .rule index] {p} before = (∅, later) := by
  have step : Find.each ((Node.terminal literal).eval tokens call) ({p} : Ends n).toList before =
      ({q}, before) := by
    rw [each_singleton, Node.eval_terminal_hit wanted here next]
    rfl
  rw [evalAll_some step (Ends.singleton_ne_empty q)]
  refine evalAll_none ?_
  rw [each_singleton]
  exact found

theorem way_of_miss (wanted : literal ≠ []) (missing : tokens[p.val]? ≠ some literal) :
    Node.evalAll tokens call [.terminal literal, .rule index] {p} before =
      (∅, before.fail p) := by
  refine evalAll_none ?_
  rw [each_singleton, Node.eval_terminal_miss wanted missing]
  rfl

end Way

theorem evalAll_of_each
    (one : Find.each (item.eval tokens call) ends.toList before = (next, before))
    (rest : Node.evalAll tokens call items next before = (∅, before)) :
    Node.evalAll tokens call (item :: items) ends before = (∅, before) := by
  by_cases none : next = ∅
  · exact evalAll_none (none ▸ one)
  · exact (evalAll_some one none).trans rest

end Lists

/-- Goals of the first way that were begun before a position. -/
def Begun (position : Nat) (goal : Goal detour.names.length n) : Prop :=
  goal.1.val = 0 ∨ goal.1.val = 1 ∧ goal.2.val < position

/-- A goal of the first way that was not come back to is left without ends, and goals
that neither of its alternatives changes stay as they are. -/
theorem rule_line_of_ways {depth : Nat} {mid : Search detour.names.length n}
    {others : Goal detour.names.length n → Prop}
    (unknown : search.memo? (detour.line, p) = none)
    (one : Node.evalAll tokens (detour.rule tokens depth) [.terminal ['a'], .rule detour.line] {p}
      (search.grow (detour.line, p) ∅ false) = (∅, mid))
    (two : Node.evalAll tokens (detour.rule tokens depth) [.terminal ['b'], .rule detour.goal] {p}
      mid = (∅, after))
    (apart : ¬ others (detour.line, p))
    (same : ∀ goal, others goal ∨ goal = (detour.line, p) →
      after.memo? goal = (search.grow (detour.line, p) ∅ false).memo? goal) :
    detour.rule tokens (depth + 1) detour.line p search =
        (∅, after.settle (detour.line, p) ∅) ∧
      ∀ goal, others goal → (after.settle (detour.line, p) ∅).memo? goal = search.memo? goal := by
  have found : Node.evalAny tokens (detour.rule tokens depth)
      [.sequence [.terminal ['a'], .rule detour.line],
        .sequence [.terminal ['b'], .rule detour.goal]]
      p (search.grow (detour.line, p) ∅ false) = (∅, after) := by
    rw [evalAny_cons (eval_sequence ▸ one), evalAny_cons (eval_sequence ▸ two)]
    rfl
  have quiet : after.memo? (detour.line, p) = some (.growing ∅ false) := by
    rw [same _ (Or.inr rfl), Search.memo?_grow, if_pos rfl]
  refine ⟨rule_of_quiet unknown found quiet, fun goal other => ?_⟩
  have different : (detour.line, p) ≠ goal := fun here => apart (here ▸ other)
  rw [Search.memo?_settle, if_neg different, same goal (Or.inl other), Search.memo?_grow,
    if_neg different]

theorem unknown_line_grow (fresh : ∀ q, p ≤ q → search.memo? (detour.line, q) = none) (q : Spot n)
    (beyond : p.val + 1 ≤ q.val) :
    (search.grow (detour.line, p) ∅ false).memo? (detour.line, q) = none := by
  rw [Search.memo?_grow, if_neg fun same => ?_]
  · exact fresh q (Fin.le_def.mpr (by omega))
  · cases same
    exact Nat.lt_irrefl _ beyond

theorem Sealed.settle (sealed' : Sealed search last) (p : Spot n) (ends : Ends n) :
    Sealed (search.settle (detour.line, p) ends) last where
  found := by
    rw [Search.memo?_settle, if_neg (by simp)]
    exact sealed'.found
  furthest := sealed'.furthest

theorem Begun.apart : ¬ Begun p.val (detour.line, p) := by
  rintro (zero | ⟨_, lt⟩)
  · cases zero
  · exact Nat.lt_irrefl _ lt

theorem Begun.succ {goal : Goal detour.names.length n}
    (begun : Begun p.val goal ∨ goal = (detour.line, p)) : Begun (p.val + 1) goal := by
  rcases begun with (zero | ⟨one, lt⟩) | rfl
  · exact Or.inl zero
  · exact Or.inr ⟨one, Nat.lt_succ_of_lt lt⟩
  · exact Or.inr ⟨rfl, Nat.lt_succ_self _⟩

/-- From each spot on the line, the first way leaves the goal at its end sealed,
if just one more rule could nest there. -/
theorem rule_line (lane : Lane tokens m) (end' : last.val = m + 1) (left : Nat)
    (here : p.val + left = m)
    (fresh : ∀ q, p ≤ q → search.memo? (detour.line, q) = none)
    (fresh' : search.memo? (detour.goal, last) = none)
    (fresh'' : search.memo? (detour.leaf, last) = none)
    (low : ∀ q, search.furthest = some q → q ≤ last) :
    ∃ after, detour.rule tokens (left + 2) detour.line p search = (∅, after) ∧
      Sealed after last ∧ ∀ goal, Begun p.val goal → after.memo? goal = search.memo? goal := by
  -- The induction is on how many rules may still nest, which is how far the line goes on.
  -- At its end the second alternative comes to the goal; before it only the first one goes on.
  induction left generalizing p search with
  | zero =>
    let begun := search.grow (detour.line, p) ∅ false
    have turn : tokens[p.val]? = some ['b'] := by rw [show p.val = m by omega]; exact lane.turn
    obtain ⟨mid, found, sealed', same⟩ : ∃ after,
        detour.rule tokens 1 detour.goal last (begun.fail p) = (∅, after) ∧ Sealed after last ∧
          ∀ goal ≠ (detour.goal, last), after.memo? goal = (begun.fail p).memo? goal := by
      refine rule_last ?_ ?_ ?_
      · rw [Search.memo?_fail, Search.memo?_grow, if_neg (by simp)]
        exact fresh'
      · rw [Search.memo?_fail, Search.memo?_grow, if_neg (by simp)]
        exact fresh''
      · intro q furthest
        rcases Search.furthest_fail furthest with before | rfl
        · exact low q before
        · exact Fin.le_def.mpr (by omega)
    have kept : ∀ goal, Begun p.val goal ∨ goal = (detour.line, p) →
        mid.memo? goal = begun.memo? goal := by
      intro goal early
      rw [same goal, Search.memo?_fail]
      rintro rfl
      rcases Begun.succ early with zero | ⟨one, _⟩
      · cases zero
      · cases one
    obtain ⟨done, kept⟩ := rule_line_of_ways (fresh p (Fin.le_refl p))
      (way_of_miss (by simp) (by simp [turn])) (way_of_hit (by simp) turn (by omega) found)
      Begun.apart kept
    exact ⟨_, done, sealed'.settle p ∅, kept⟩
  | succ left ih =>
    let begun := search.grow (detour.line, p) ∅ false
    have straight : tokens[p.val]? = some ['a'] := lane.line p.val (by omega)
    have inside : p.val + 1 < n + 1 := by have := lane.size; omega
    let next : Spot n := ⟨p.val + 1, inside⟩
    obtain ⟨mid, found, sealed', same⟩ : ∃ after,
        detour.rule tokens (left + 2) detour.line next begun = (∅, after) ∧ Sealed after last ∧
          ∀ goal, Begun next.val goal → after.memo? goal = begun.memo? goal := by
      refine ih (by simp only [next]; omega) (unknown_line_grow fresh) ?_ ?_ low
      · rw [Search.memo?_grow, if_neg (by simp)]
        exact fresh'
      · rw [Search.memo?_grow, if_neg (by simp)]
        exact fresh''
    have looked : mid.fail p = mid :=
      Search.fail_of_looked ⟨last, sealed'.furthest, Fin.le_def.mpr (by omega)⟩
    have missed : Node.evalAll tokens (detour.rule tokens (left + 2))
        [.terminal ['b'], .rule detour.goal] {p} mid = (∅, mid) := by
      rw [way_of_miss (by simp) (by simp [straight]), looked]
    obtain ⟨done, kept⟩ := rule_line_of_ways (fresh p (Fin.le_refl p))
      (way_of_hit (by simp) straight rfl found) missed Begun.apart
      fun goal early => same goal (Begun.succ early)
    exact ⟨_, done, sealed'.settle p ∅, kept⟩

theorem second_way (lane : Lane tokens m) (end' : last.val = m + 1) (sealed' : Sealed search last)
    (depth : Nat) (start : p.val ≤ m) :
    Node.evalAll tokens (detour.rule tokens depth)
      [.repeated (.terminal ['a']), .terminal ['b'], .rule detour.goal] {p} search =
        (∅, search) := by
  have looked : ∀ q : Spot n, q.val ≤ m → search.fail q = search := fun q le =>
    Search.fail_of_looked ⟨last, sealed'.furthest, Fin.le_def.mpr (by omega)⟩
  have straight : ∀ q : Spot n, q.val ≤ m → ∃ ends,
      (Node.terminal ['a']).eval tokens (detour.rule tokens depth) q search = (ends, search) ∧
        ∀ e ∈ ends, e.val ≤ m := by
    intro q le
    rcases Nat.lt_or_eq_of_le le with lt | same
    · have inside : q.val + 1 < n + 1 := by have := lane.size; omega
      let next : Spot n := ⟨q.val + 1, inside⟩
      refine ⟨{next}, ?_, fun e member => ?_⟩
      · rw [Node.eval_terminal_hit (by simp) (lane.line q.val lt) (rfl : next.val = q.val + 1)]
        rfl
      · rw [Ends.mem_singleton.mp member]
        exact lt
    · refine ⟨∅, ?_, fun e member => absurd member (Ends.not_mem_empty e)⟩
      rw [Node.eval_terminal_miss (by simp) (by simp [same, lane.turn])]
      exact congrArg (Prod.mk ∅) (looked q le)
  have turn : ∀ q : Spot n, q.val ≤ m → ∃ ends,
      (Node.terminal ['b']).eval tokens (detour.rule tokens depth) q search = (ends, search) ∧
        ∀ e ∈ ends, e = last := by
    intro q le
    rcases Nat.lt_or_eq_of_le le with lt | same
    · refine ⟨∅, ?_, fun e member => absurd member (Ends.not_mem_empty e)⟩
      rw [Node.eval_terminal_miss (by simp) (by simp [lane.line q.val lt])]
      exact congrArg (Prod.mk ∅) (looked q le)
    · refine ⟨{last}, ?_, fun e member => Ends.mem_singleton.mp member⟩
      rw [Node.eval_terminal_hit (by simp) (same ▸ lane.turn) (by omega : last.val = q.val + 1)]
      rfl
  obtain ⟨reached, found, inside⟩ := reach_all straight [p] {p}
    (fun q member => List.mem_singleton.mp member ▸ start)
    (fun q member => Ends.mem_singleton.mp member ▸ start)
  obtain ⟨next, found', only⟩ := each_all fun q member => turn q (inside q member)
  have blocked : ∀ q ∈ next.toList, ∃ ends,
      detour.rule tokens depth detour.goal q search = (ends, search) ∧ ∀ e ∈ ends, False := by
    intro q member
    rw [only q member]
    exact ⟨∅, rule_of_settled sealed'.found, fun e member => Ends.not_mem_empty e member⟩
  obtain ⟨none, found'', nothing⟩ := each_all blocked
  refine evalAll_of_each ?_ (evalAll_of_each found' (evalAll_of_each found'' ?_))
  · rw [each_singleton, Node.eval]
    exact found
  · rw [Ends.eq_empty_of_forall_not_mem nothing]
    rfl

theorem rule_start (lane : Lane tokens m) (end' : last.val = m + 1) :
    ∃ after, detour.rule tokens (m + 3) detour.startRule 0 {} = (∅, after) ∧
      after.furthest = some last := by
  let begun : Search detour.names.length n := Search.grow (detour.startRule, 0) ∅ false {}
  have fresh : ∀ goal : Goal detour.names.length n, goal ≠ (detour.startRule, 0) →
      begun.memo? goal = none := by
    intro goal different
    rw [Search.memo?_grow, if_neg (Ne.symm different)]
    simp [Search.memo?]
  obtain ⟨after, found, sealed', same⟩ : ∃ after,
      detour.rule tokens (m + 2) detour.line 0 begun = (∅, after) ∧ Sealed after last ∧
        ∀ goal, Begun 0 goal → after.memo? goal = begun.memo? goal :=
    rule_line lane end' m (Nat.zero_add m) (fun q _ => fresh _ (by simp [startRule]))
      (fresh _ (by simp [startRule])) (fresh _ (by simp [startRule]))
      (fun q furthest => by cases furthest)
  have body : Node.evalAny tokens (detour.rule tokens (m + 2))
      [.rule detour.line,
        .sequence [.repeated (.terminal ['a']), .terminal ['b'], .rule detour.goal]]
      0 begun = (∅, after) := by
    have start : (0 : Spot n).val ≤ m := Nat.zero_le m
    have second := second_way lane end' sealed' (m + 2) start
    have first : (Node.rule detour.line).eval tokens (detour.rule tokens (m + 2)) 0 begun =
        (∅, after) := found
    rw [evalAny_cons first, evalAny_cons (eval_sequence ▸ second)]
    rfl
  have quiet : after.memo? (detour.startRule, 0) = some (.growing ∅ false) := by
    rw [same _ (Or.inl rfl), Search.memo?_grow, if_pos rfl]
  exact ⟨_, rule_of_quiet (by simp [Search.memo?]) body quiet, sealed'.furthest⟩

/-- Where the line goes on for longer than rules may nest, the first way ends at the
goal of the line that is turned away, and keeps all others. -/
theorem rule_line_refused (lane : Lane tokens m) {stop : Spot n} (left : Nat)
    (here : p.val + left = stop.val) (long : stop.val ≤ m)
    (fresh : ∀ q, p ≤ q → search.memo? (detour.line, q) = none) :
    ∃ after, detour.rule tokens left detour.line p search = (∅, after) ∧
      after.refused = (detour.line, stop) :: search.refused ∧
      ∀ goal, (goal.1 = detour.line → goal.2.val < p.val) →
        after.memo? goal = search.memo? goal := by
  -- As before, but the rules run out before the line does.
  induction left generalizing p search with
  | zero =>
    obtain rfl : p = stop := Fin.ext here
    exact ⟨_, rule_of_refused (fresh p (Fin.le_refl p)), by simp [Search.refuse],
      fun goal _ => by simp⟩
  | succ left ih =>
    let begun := search.grow (detour.line, p) ∅ false
    have straight : tokens[p.val]? = some ['a'] := lane.line p.val (by omega)
    have inside : p.val + 1 < n + 1 := by have := lane.size; omega
    let next : Spot n := ⟨p.val + 1, inside⟩
    obtain ⟨mid, found, refused, same⟩ : ∃ after,
        detour.rule tokens left detour.line next begun = (∅, after) ∧
          after.refused = (detour.line, stop) :: begun.refused ∧
          ∀ goal, (goal.1 = detour.line → goal.2.val < next.val) →
            after.memo? goal = begun.memo? goal :=
      ih (by simp only [next]; omega) (unknown_line_grow fresh)
    have missed : Node.evalAll tokens (detour.rule tokens left)
        [.terminal ['b'], .rule detour.goal] {p} mid = (∅, mid.fail p) :=
      way_of_miss (by simp) (by simp [straight])
    have kept : ∀ goal, (goal.1 = detour.line → goal.2.val < p.val) ∨ goal = (detour.line, p) →
        (mid.fail p).memo? goal = begun.memo? goal := by
      intro goal early
      rw [Search.memo?_fail]
      refine same goal fun line => ?_
      rcases early with early | rfl
      · exact Nat.lt_succ_of_lt (early line)
      · exact Nat.lt_succ_self _
    obtain ⟨done, kept⟩ := rule_line_of_ways (fresh p (Fin.le_refl p))
      (way_of_hit (by simp) straight rfl found) missed (fun early => Nat.lt_irrefl _ (early rfl))
      kept
    refine ⟨_, done, ?_, kept⟩
    change (mid.fail p).refused = _
    rw [Search.refused_fail]
    exact refused

/-- What is searched for aside from the first rules: nothing is turned away, and what
is known of those rules stays. -/
structure Aside (low : Nat) (old new : Search detour.names.length n) : Prop where
  refused : new.refused = old.refused
  kept : ∀ goal : Goal detour.names.length n, goal.1.val < low → new.memo? goal = old.memo? goal

theorem steps_aside (low : Nat) : Find.Steps (@Aside n low) where
  refl _ := ⟨rfl, fun _ _ => rfl⟩
  trans first second := ⟨second.refused.trans first.refused,
    fun goal early => (second.kept goal early).trans (first.kept goal early)⟩
  fail _ _ := ⟨Search.refused_fail, fun _ _ => Search.memo?_fail⟩

theorem takes_terminal {rules : Nat} {call : Fin rules → Spot n → Find rules n}
    {step : Search rules n → Search rules n → Prop} (steps : Find.Steps step) (literal : Text)
    (p : Spot n) : ((Node.terminal literal).eval tokens call p).Takes step := by
  unfold Node.eval
  exact (Find.takes_pure steps _).ite (Find.takes_token steps tokens _ p)

theorem takes_rule_aside {depth : Nat} (index : Fin detour.names.length)
    (body : ∀ p, ((detour.body index).eval tokens (detour.rule tokens depth) p).Takes
      (Aside (index.val + 1))) (p : Spot n) :
    (detour.rule tokens (depth + 1) index p).Takes (Aside index.val) := by
  intro search
  have apart : ∀ goal : Goal detour.names.length n, goal.1.val < index.val →
      (index, p) ≠ goal := by
    rintro goal early rfl
    exact Nat.lt_irrefl _ early
  cases known : search.memo? (index, p) with
  | some entry =>
    cases entry with
    | settled ends =>
      rw [rule_of_settled known]
      exact (steps_aside _).refl search
    | growing seed again =>
      rw [rule_of_growing known]
      exact ⟨rfl, fun goal early => by rw [Search.memo?_grow, if_neg (apart goal early)]⟩
  | none =>
    have aside := body p (search.grow (index, p) ∅ false)
    have quiet : (((detour.body index).eval tokens (detour.rule tokens depth) p)
        (search.grow (index, p) ∅ false)).2.memo? (index, p) = some (.growing ∅ false) := by
      rw [aside.kept _ (Nat.lt_succ_self _), Search.memo?_grow, if_pos rfl]
    rw [rule_of_quiet known Prod.mk.eta.symm quiet]
    refine ⟨aside.refused, fun goal early => ?_⟩
    rw [Search.memo?_settle, if_neg (apart goal early), aside.kept goal (Nat.lt_succ_of_lt early),
      Search.memo?_grow, if_neg (apart goal early)]

theorem takes_evalAll_of_items {rules : Nat} {call : Fin rules → Spot n → Find rules n}
    {step : Search rules n → Search rules n → Prop} (steps : Find.Steps step)
    {items : List (Node rules)}
    (takes : ∀ item ∈ items, ∀ p, (item.eval tokens call p).Takes step) (ends : Ends n) :
    (Node.evalAll tokens call items ends).Takes step := by
  induction items generalizing ends with
  | nil => exact Find.takes_pure steps ends
  | cons item items ih =>
    obtain ⟨first, rest⟩ := List.forall_mem_cons.mp takes
    unfold Node.evalAll
    exact Find.takes_bind steps (Find.takes_each steps first ends.toList) fun next =>
      (Find.takes_pure steps next).ite (ih rest next)

/-- With room for two more rules, the second way stays aside from the first one. -/
theorem takes_second_way (depth : Nat) :
    (Node.evalAll tokens (detour.rule tokens (depth + 2))
      [.repeated (.terminal ['a']), .terminal ['b'], .rule detour.goal] {p}).Takes (Aside 2) := by
  have leaf : ∀ q, (detour.rule tokens (depth + 1) detour.leaf q).Takes (Aside 3) :=
    takes_rule_aside detour.leaf (takes_terminal (steps_aside 4) ['y'])
  have goal : ∀ q, (detour.rule tokens (depth + 2) detour.goal q).Takes (Aside 2) :=
    takes_rule_aside detour.goal leaf
  refine takes_evalAll_of_items (steps_aside 2) ?_ {p}
  simp only [List.forall_mem_cons]
  exact ⟨fun q => Find.takes_closure (steps_aside 2) (takes_terminal (steps_aside 2) ['a']) {q},
    takes_terminal (steps_aside 2) ['b'], goal, fun _ member => (List.not_mem_nil member).elim⟩

theorem refused_rule_start (lane : Lane tokens m) {stop : Spot n} (depth : Nat)
    (here : depth + 2 = stop.val) (long : stop.val ≤ m) :
    (detour.rule tokens (depth + 3) detour.startRule 0 {}).2.refused = [(detour.line, stop)] := by
  let begun : Search detour.names.length n := Search.grow (detour.startRule, 0) ∅ false {}
  let ways : List (Node detour.names.length) := [.rule detour.line,
    .sequence [.repeated (.terminal ['a']), .terminal ['b'], .rule detour.goal]]
  have fresh : ∀ q, (0 : Spot n) ≤ q → begun.memo? (detour.line, q) = none := by
    intro q _
    rw [Search.memo?_grow, if_neg (by simp [startRule])]
    simp [Search.memo?]
  obtain ⟨mid, first, refused, same⟩ :=
    rule_line_refused lane (depth + 2) (by simpa using here) long fresh
  have second : Aside 2 mid
      (Node.evalAny tokens (detour.rule tokens (depth + 2)) ways 0 begun).2 := by
    have ends : (Node.rule detour.line).eval tokens (detour.rule tokens (depth + 2)) 0 begun =
        (∅, mid) := first
    rw [evalAny_cons ends]
    refine Find.takes_bind (steps_aside 2) ?_ (fun _ => Find.takes_bind (steps_aside 2)
      (Find.takes_pure (steps_aside 2) ∅) fun _ => Find.takes_pure (steps_aside 2) _) mid
    rw [eval_sequence]
    exact takes_second_way depth
  have quiet : (Node.evalAny tokens (detour.rule tokens (depth + 2)) ways 0 begun).2.memo?
      (detour.startRule, 0) = some (.growing ∅ false) := by
    rw [second.kept _ Nat.two_pos, same _ (by simp [startRule]), Search.memo?_grow, if_pos rfl]
  have run : detour.rule tokens (depth + 3) detour.startRule 0 {} =
      (_, Search.settle (detour.startRule, 0) _ _) :=
    rule_of_quiet (by simp [Search.memo?]) Prod.mk.eta.symm quiet
  rw [run]
  exact second.refused.trans refused

theorem derives_second_way {call : Node.Call detour.names.length n}
    {excluded : Node.Exceptions detour.names.length n} (lane : Lane tokens m)
    (end' : last.val = m + 1) (goal : call detour.goal last (Fin.last n)) :
    (detour.body detour.startRule).Derives tokens call excluded 0 (Fin.last n) := by
  have size := lane.size
  have many : ∀ q : Spot n, q.val ≤ m →
      (Node.repeated (.terminal ['a'])).Derives tokens call excluded 0 q := by
    intro q le
    induction at' : q.val generalizing q with
    | zero => exact (Fin.ext at' : q = 0) ▸ .stop
    | succ i ih =>
      have inside : i < n + 1 := by omega
      refine (ih ⟨i, inside⟩ (by simp only; omega) rfl).snoc (.terminal (by simp) ?_ at')
      exact lane.line i (by omega)
  have before : m < n + 1 := by omega
  refine .alternation (List.mem_cons_of_mem _ (List.mem_cons_self ..)) ?_
  refine .advance (many ⟨m, before⟩ (Nat.le_refl m)) ?_
  exact .advance (.terminal (by simp) lane.turn end') (.advance (.rule goal) .finish)

theorem derives_leaf {call : Node.Call detour.names.length n}
    {excluded : Node.Exceptions detour.names.length n} (lane : Lane tokens m)
    (end' : last.val = m + 1) (leaf : tokens[m + 1]? = some ['y']) :
    (detour.body detour.leaf).Derives tokens call excluded last (Fin.last n) := by
  have size := lane.size
  refine .terminal (by simp) (end' ▸ leaf) ?_
  rw [Fin.val_last]
  omega

end Detour

def laneTokens (m : Nat) : List Text := List.replicate m ['a'] ++ [['b'], ['y']]

theorem getElem?_toVector (list : List Text) (i : Nat) :
    list.toArray.toVector[i]? = list[i]? := by
  rw [← Vector.getElem?_toArray]
  simp

theorem length_laneTokens (m : Nat) : (laneTokens m).length = m + 2 := by simp [laneTokens]

theorem lane_laneTokens (m : Nat) : Lane (laneTokens m).toArray.toVector m where
  size := length_laneTokens m
  line i lt := by
    rw [getElem?_toVector]
    simp [laneTokens, List.getElem?_append, lt]
  turn := by
    rw [getElem?_toVector]
    simp [laneTokens]

theorem exceptFree_detour : detour.ExceptFree := by
  intro index kept dropped
  have body := detour.body_mem_bodies index
  generalize detour.body index = found at body
  rcases List.mem_cons.mp body with rfl | body
  · simp
  rcases List.mem_cons.mp body with rfl | body
  · simp
  rcases List.mem_cons.mp body with rfl | body
  · simp
  · cases List.mem_singleton.mp body
    simp

section LaneTokens

variable {m : Nat} {last : Spot (laneTokens m).toArray.size}
  {excluded : Node.Exceptions detour.names.length (laneTokens m).toArray.size}

theorem leaf_laneTokens (m : Nat) : (laneTokens m).toArray.toVector[m + 1]? = some ['y'] := by
  rw [getElem?_toVector]
  simp [laneTokens]

theorem laneTokens_derivesWithin (end' : last.val = m + 1) :
    detour.DerivesWithin (laneTokens m).toArray.toVector excluded 3 detour.startRule 0
      (Fin.last _) :=
  derives_second_way (lane_laneTokens m) end'
    (.rule (derives_leaf (lane_laneTokens m) end' (leaf_laneTokens m)))

theorem laneTokens_derivesAvoiding (end' : last.val = m + 1)
    {avoided : List (Goal detour.names.length (laneTokens m).toArray.size)}
    (line : ∀ goal ∈ avoided, goal.1 = detour.line) :
    detour.DerivesAvoiding (laneTokens m).toArray.toVector excluded avoided detour.startRule 0
      (Fin.last _) := by
  refine .apply (fun member => ?_) (derives_second_way (lane_laneTokens m) end'
    (.apply (fun member => ?_) (.rule (.apply (fun member => ?_)
      (derives_leaf (lane_laneTokens m) end' (leaf_laneTokens m))))))
  all_goals cases line _ member

end LaneTokens

/-- A derivation that applies no rule where the run refused it is found. -/
theorem outcome_complete_of_derivesAvoiding (program : Program) (free : program.ExceptFree)
    (tokens : List Text)
    (derives : program.DerivesAvoiding tokens.toArray.toVector
      (program.Yields tokens.toArray.toVector)
      (program.run tokens.toArray.toVector).2.refused program.startRule 0 (Fin.last _)) :
    program.outcome tokens = .complete := by
  have law := lawful_yields tokens.toArray.toVector free.stratified
  exact outcome_complete_of_mem (mem_run_of_derivesAvoiding free.stratified law
    (Or.inr ⟨free, fun _ _ => by simp⟩) derives)

/-- The rule of the line is refused far down the line, and the second way, which does
not use that rule, is found all the same. -/
theorem detour_complete : detour.ExceptFree ∧
    (detour.run (laneTokens 2100).toArray.toVector).2.refused.map
      (fun goal => (goal.1, goal.2.val)) = [(detour.line, 2047)] ∧
    detour.DerivesAvoiding (laneTokens 2100).toArray.toVector
      (detour.Yields (laneTokens 2100).toArray.toVector)
      (detour.run (laneTokens 2100).toArray.toVector).2.refused detour.startRule 0
      (Fin.last _) ∧
    detour.outcome (laneTokens 2100) = .complete := by
  have size : (laneTokens 2100).toArray.size = 2102 := length_laneTokens 2100
  let stop : Spot (laneTokens 2100).toArray.size := ⟨2047, by omega⟩
  let last : Spot (laneTokens 2100).toArray.size := ⟨2101, by omega⟩
  have refused : (detour.run (laneTokens 2100).toArray.toVector).2.refused =
      [(detour.line, stop)] :=
    refused_rule_start (lane_laneTokens 2100) 2045 rfl (Nat.le_of_ble_eq_true rfl)
  have derives : detour.DerivesAvoiding (laneTokens 2100).toArray.toVector
      (detour.Yields (laneTokens 2100).toArray.toVector)
      (detour.run (laneTokens 2100).toArray.toVector).2.refused detour.startRule 0
      (Fin.last _) := by
    rw [refused]
    exact laneTokens_derivesAvoiding (rfl : last.val = 2100 + 1) (by simp)
  exact ⟨exceptFree_detour, by rw [refused]; rfl, derives,
    outcome_complete_of_derivesAvoiding detour exceptFree_detour (laneTokens 2100) derives⟩

/-- A derivation that nests three rules is lost. -/
theorem detour_haltedAt : detour.ExceptFree ∧
    detour.DerivesWithin (laneTokens 2045).toArray.toVector
      (detour.Yields (laneTokens 2045).toArray.toVector) maxDepth detour.startRule 0
      (Fin.last _) ∧
    detour.outcome (laneTokens 2045) = .haltedAt 2046 := by
  have size := length_laneTokens 2045
  have inside : 2046 < (laneTokens 2045).toArray.size + 1 := by rw [List.size_toArray]; omega
  let last : Spot (laneTokens 2045).toArray.size := ⟨2046, inside⟩
  refine ⟨exceptFree_detour,
    (laneTokens_derivesWithin (rfl : last.val = 2045 + 1)).mono (by decide), ?_⟩
  obtain ⟨after, found, furthest⟩ :=
    rule_start (lane_laneTokens 2045) (rfl : last.val = 2045 + 1)
  have run : detour.run (laneTokens 2045).toArray.toVector = (∅, after) := found
  have far : reached (∅ : Ends (laneTokens 2045).toArray.size) after = 2046 := by
    unfold reached
    rw [furthest]
    rfl
  rw [outcome_eq, run]
  simp only [far, size]
  rfl

end Program
end GrammarDesk
