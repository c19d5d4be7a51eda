import GrammarDesk.Proofs.Match.Account
import GrammarDesk.Proofs.Match.Strata

/-! Every search serves the node it evaluates. A sane search remembers ends of
settled goals that cover their bodies, and seeds and missing tokens that are
true. Evaluation of a node keeps a search sane and finds ends that cover the
node; that is shown for the combinators, for nodes by structure, for a growing
goal by its rounds, and for rules by the nesting that is left. -/
namespace GrammarDesk

namespace Find

theorem mem_push_reached {n : Nat} {p q : Spot n} {es frontier : List (Spot n)}
    {reached : Ends n} :
    q ∈ (push p es (frontier, reached)).2 ↔ q ∈ reached ∨ (q ∈ es ∧ p < q) := by
  induction es generalizing frontier reached with
  | nil => simp [push]
  | cons e es ih =>
    unfold push
    split
    · rw [ih, Ends.mem_union, Ends.mem_singleton, List.mem_cons]
      grind
    · rw [ih, List.mem_cons]
      grind

theorem mem_push_frontier {n : Nat} {p q : Spot n} {es frontier : List (Spot n)}
    {reached : Ends n} :
    q ∈ (push p es (frontier, reached)).1 ↔ q ∈ frontier ∨ (q ∈ es ∧ p < q ∧ q ∉ reached) := by
  induction es generalizing frontier reached with
  | nil => simp [push]
  | cons e es ih =>
    unfold push
    split
    · rw [ih, Ends.mem_union, Ends.mem_singleton, List.mem_cons, List.mem_cons]
      grind
    · rw [ih, List.mem_cons]
      grind

end Find

namespace Program

variable (program : Program) {n : Nat} (tokens : Vector Text n)
  (excluded : Node.Exceptions program.names.length n)

inductive Comes : Node program.names.length → Spot n → Prop where
  | start : Comes (.rule program.startRule) 0
  | visit : Comes node p →
      node.Visits tokens (program.Derives tokens excluded) excluded p part q → Comes part q
  | body : Comes (.rule index) p → Comes (program.body index) p

/-- A token is missing at `p` that the search looks for. -/
def Wants (p : Spot n) : Prop :=
  ∃ part, program.Comes tokens excluded part p ∧ part.Misses tokens p

/-- All that a search remembers is in order. -/
structure Sane (search : Search program.names.length n) : Prop where
  settled : ∀ index p ends, search.memo? (index, p) = some (.settled ends) →
    Covers program tokens excluded search (program.body index) [p] ends
  growing : ∀ index p seed reentered, search.memo? (index, p) = some (.growing seed reentered) →
    ∀ e ∈ seed, program.Derives tokens excluded index p e
  looked : search.refused = [] → ∀ p, search.furthest = some p → program.Wants tokens excluded p

/-- Rules that are still growing lead to what the node mentions, and what its
right operands mention does not lead back to them. -/
structure Guards (search : Search program.names.length n) (node : Node program.names.length) :
    Prop where
  leads : ∀ index q, search.Growing (index, q) →
    ∀ other, Node.Occurs (.rule other) node → Relation.ReflTransGen program.Refers index other
  apart : ∀ index q, search.Growing (index, q) →
    ∀ kept dropped other, Node.Occurs (.except kept dropped) node →
      Node.Occurs (.rule other) dropped → ¬ Relation.ReflTransGen program.Refers other index

/-- Right operands can be judged: nothing was refused, or there are none. -/
def Judges (search : Search program.names.length n) (node : Node program.names.length) : Prop :=
  search.refused = [] ∨ program.ExceptFree ∧ node.ExceptFree

structure Ready (search : Search program.names.length n) (node : Node program.names.length)
    (starts : List (Spot n)) : Prop where
  sane : program.Sane tokens excluded search
  guards : program.Guards search node
  comes : ∀ p ∈ starts, program.Comes tokens excluded node p

/-- A search finds ends that cover the node, and stays sane. -/
def Serves (find : Find program.names.length n) (node : Node program.names.length)
    (starts : List (Spot n)) : Prop :=
  ∀ search, program.Ready tokens excluded search node starts →
    program.Judges (find search).2 node →
    program.Sane tokens excluded (find search).2 ∧
      Covers program tokens excluded (find search).2 node starts (find search).1

variable {program tokens excluded} {search old new : Search program.names.length n}
  {node first rest inner : Node program.names.length} {starts : List (Spot n)} {p q e : Spot n}
  {index : Fin program.names.length} {ends seed : Ends n}

theorem sane_initial : program.Sane tokens excluded {} where
  settled _ _ _ known := by simp [Search.memo?] at known
  growing _ _ _ _ known := by simp [Search.memo?] at known
  looked _ _ known := by cases known

/-- A search stays sane when what was relied on is kept and what is new is in order. -/
theorem Sane.step (sane : program.Sane tokens excluded old) (keeps : Search.Keeps old new)
    (settled : ∀ index p ends, new.memo? (index, p) = some (.settled ends) →
      old.memo? (index, p) = some (.settled ends) ∨
        Covers program tokens excluded new (program.body index) [p] ends)
    (growing : ∀ index p seed reentered, new.memo? (index, p) = some (.growing seed reentered) →
      (∃ before, old.memo? (index, p) = some (.growing seed before)) ∨
        ∀ e ∈ seed, program.Derives tokens excluded index p e)
    (looked : new.refused = [] → ∀ p, new.furthest = some p → program.Wants tokens excluded p) :
    program.Sane tokens excluded new where
  settled index p ends known := (settled index p ends known).elim
    (fun before => (sane.settled index p ends before).keep keeps) id
  growing index p seed reentered known := (growing index p seed reentered known).elim
    (fun ⟨_, before⟩ => sane.growing index p seed _ before) id
  looked := looked

theorem Guards.mono (guards : program.Guards search node) (includes : node.Includes inner) :
    program.Guards search inner where
  leads index q growing other inside :=
    guards.leads index q growing other (includes.rules other inside)
  apart index q growing kept dropped other outside :=
    guards.apart index q growing kept dropped other (includes.excepts _ _ outside)

theorem Guards.extend (guards : program.Guards old node) (extended : old.Extends new) :
    program.Guards new node where
  leads index q growing := guards.leads index q (extended.growing_iff.mp growing)
  apart index q growing := guards.apart index q (extended.growing_iff.mp growing)

theorem Judges.mono (judges : program.Judges search node) (includes : node.Includes inner) :
    program.Judges search inner :=
  judges.imp id fun ⟨all, free⟩ => ⟨all, free.mono includes⟩

theorem refused_nil (extended : old.refused <:+ new.refused) (none : new.refused = []) :
    old.refused = [] :=
  List.suffix_nil.mp (none ▸ extended)

theorem Judges.back (judges : program.Judges new node) (extended : old.Extends new) :
    program.Judges old node :=
  judges.imp (refused_nil extended.refused) id

theorem Ready.extend (ready : program.Ready tokens excluded old node starts)
    (extended : old.Extends new) (sane : program.Sane tokens excluded new) :
    program.Ready tokens excluded new node starts :=
  ⟨sane, ready.guards.extend extended, ready.comes⟩

theorem Ready.visit (ready : program.Ready tokens excluded search node starts)
    (includes : node.Includes inner) {others : List (Spot n)}
    (visits : ∀ q ∈ others, ∃ p ∈ starts,
      node.Visits tokens (program.Derives tokens excluded) excluded p inner q) :
    program.Ready tokens excluded search inner others where
  sane := ready.sane
  guards := ready.guards.mono includes
  comes q member := by
    obtain ⟨p, start, visits⟩ := visits q member
    exact .visit (ready.comes p start) visits

theorem Ready.fewer (ready : program.Ready tokens excluded search node starts)
    {others : List (Spot n)} (sub : ∀ q ∈ others, q ∈ starts) :
    program.Ready tokens excluded search node others :=
  ⟨ready.sane, ready.guards, fun q member => ready.comes q (sub q member)⟩

section Combinators

variable {find : Spot n → Find program.names.length n}

theorem serves_pure (covers : ∀ search, Covers program tokens excluded search node starts ends) :
    program.Serves tokens excluded (pure ends) node starts :=
  fun search ready _ => ⟨ready.sane, covers search⟩

theorem serves_each (adding : ∀ p, (find p).Adding)
    (serves : ∀ p, program.Serves tokens excluded (find p) inner [p]) :
    ∀ spots, program.Serves tokens excluded (Find.each find spots) inner spots
  | [] => serves_pure fun _ => .nil
  | p :: ps => by
    intro search ready judges
    have later := Find.takes_each Find.steps_extends adding ps (find p search).2
    obtain ⟨sane, covers⟩ := serves p search (ready.fewer fun q member =>
      List.mem_cons.mpr (Or.inl (List.mem_singleton.mp member))) (judges.back later)
    obtain ⟨sane', covers'⟩ := serves_each adding serves ps (find p search).2
      ((ready.extend (adding p search) sane).fewer fun q => List.mem_cons_of_mem p) judges
    exact ⟨sane', (covers.keep later.keeps).append covers'⟩

theorem serves_chain {one : Find program.names.length n}
    {two : Ends n → Find program.names.length n}
    (chains : Node.Chains tokens excluded node first rest)
    (plain : ∀ search q, Search.Accounts tokens search node q)
    (includes₁ : node.Includes first) (includes₂ : node.Includes rest)
    (adding₁ : one.Adding) (adding₂ : ∀ ends, (two ends).Adding)
    (serves₁ : program.Serves tokens excluded one first starts)
    (serves₂ : ∀ mid search, Covers program tokens excluded search first starts mid →
      program.Ready tokens excluded search rest mid.toList →
      program.Judges (two mid search).2 rest →
      program.Sane tokens excluded (two mid search).2 ∧
        Covers program tokens excluded (two mid search).2 rest mid.toList (two mid search).1) :
    program.Serves tokens excluded (one >>= two) node starts := by
  intro search ready judges
  have later := adding₂ (one search).1 (one search).2
  obtain ⟨sane, head⟩ := serves₁ search
    (ready.visit includes₁ fun q member => ⟨q, member, (chains.visits _ _ _ _).mpr
      (Or.inr (Or.inl .here))⟩) ((judges.mono includes₁).back later)
  have ready₂ := (ready.extend (adding₁ search) sane).visit includes₂ fun q member => by
    obtain ⟨p, start, derives⟩ := head.sound q member
    exact ⟨p, start, (chains.visits _ _ _ _).mpr (Or.inr (Or.inr ⟨q, derives, .here⟩))⟩
  obtain ⟨sane', tail⟩ := serves₂ _ _ head ready₂ (judges.mono includes₂)
  exact ⟨sane', .chain chains (plain _) (head.keep later.keeps) tail⟩

theorem serves_rounds (adding : ∀ p, (find p).Adding)
    (serves : ∀ p, program.Serves tokens excluded (find p) inner [p]) :
    ∀ (count : Nat) (ends : Ends n),
      program.Serves tokens excluded (Find.rounds find count ends) (.times count inner) ends.toList
  | 0, ends => serves_pure fun _ => .times_zero
  | count + 1, ends => by
    unfold Find.rounds
    refine serves_chain (Node.chains_times count inner)
      (fun _ => Covers.plain (by simp) fun _ => id)
      (Node.includes_of_occurs fun _ => .times) Node.includes_times
      (Find.takes_each Find.steps_extends adding _)
      (fun next => .ite (Find.takes_pure Find.steps_extends next)
        (Find.takes_rounds Find.steps_extends adding _ _))
      (serves_each adding serves _) ?_
    intro next search covers ready judges
    by_cases stop : next = ∅ ∨ next = ends
    · rw [if_pos stop]
      refine ⟨ready.sane, ?_⟩
      rcases stop with rfl | rfl
      · exact .nil
      · exact .times_fixed covers count
    · rw [if_neg stop] at judges ⊢
      exact serves_rounds adding serves count next search ready judges

variable (program tokens excluded) in
/-- Where a repetition is: every spot that was reached is on the frontier, or
was searched from and no end beyond it was lost. -/
structure Looping (inner : Node program.names.length) (starts : List (Spot n))
    (search : Search program.names.length n) (frontier : List (Spot n)) (reached : Ends n) :
    Prop where
  start : ∀ p ∈ starts, p ∈ reached
  sound : ∀ q ∈ reached, ∃ p ∈ starts,
    (Node.repeated inner).Derives tokens (program.Derives tokens excluded) excluded p q
  waiting : ∀ q ∈ frontier, q ∈ reached
  searched : ∀ q ∈ reached, q ∈ frontier ∨ ∃ next,
    Covers program tokens excluded search inner [q] next ∧ ∀ e ∈ next, q < e → e ∈ reached

theorem looping_initial (start : Ends n) :
    Looping program tokens excluded inner start.toList search start.toList.reverse start where
  start _ := id
  sound q member := ⟨q, member, .stop⟩
  waiting _ := List.mem_reverse.mp
  searched _ member := Or.inl (List.mem_reverse.mpr member)

theorem Looping.step {frontier : List (Spot n)} {reached next : Ends n}
    (looping : Looping program tokens excluded inner starts old (p :: frontier) reached)
    (keeps : Search.Keeps old new) (covers : Covers program tokens excluded new inner [p] next) :
    Looping program tokens excluded inner starts new (Find.push p next.toList (frontier, reached)).1
      (Find.push p next.toList (frontier, reached)).2 where
  start q member := Find.mem_push_reached.mpr (Or.inl (looping.start q member))
  sound q member := by
    rcases Find.mem_push_reached.mp member with member | ⟨member, _⟩
    · exact looping.sound q member
    · obtain ⟨s, start, many⟩ := looping.sound p (looping.waiting p (List.mem_cons_self ..))
      obtain ⟨r, here, one⟩ := covers.sound q member
      cases List.mem_singleton.mp here
      exact ⟨s, start, many.snoc one⟩
  waiting q member := by
    refine Find.mem_push_reached.mpr ?_
    rcases Find.mem_push_frontier.mp member with member | ⟨member, beyond, _⟩
    · exact Or.inl (looping.waiting q (List.mem_cons_of_mem p member))
    · exact Or.inr ⟨member, beyond⟩
  searched q member := by
    by_cases before : q ∈ reached
    · rcases looping.searched q before with member | ⟨ends, covered, beyond⟩
      · rcases List.mem_cons.mp member with rfl | member
        · exact Or.inr ⟨next, covers, fun e found lt =>
            Find.mem_push_reached.mpr (Or.inr ⟨found, lt⟩)⟩
        · exact Or.inl (Find.mem_push_frontier.mpr (Or.inl member))
      · exact Or.inr ⟨ends, covered.keep keeps, fun e found lt =>
          Find.mem_push_reached.mpr (Or.inl (beyond e found lt))⟩
    · rcases Find.mem_push_reached.mp member with member | ⟨member, beyond⟩
      · exact absurd member before
      · exact Or.inl (Find.mem_push_frontier.mpr (Or.inr ⟨member, beyond, before⟩))

theorem Looping.covers {reached : Ends n}
    (looping : Looping program tokens excluded inner starts search [] reached) :
    Covers program tokens excluded search (.repeated inner) starts reached :=
  .repeated looping.start
    (fun q member => (looping.searched q member).resolve_left List.not_mem_nil) looping.sound

theorem serves_reach (adding : ∀ p, (find p).Adding)
    (serves : ∀ p, program.Serves tokens excluded (find p) inner [p])
    (frontier : List (Spot n)) (reached : Ends n)
    (ready : program.Ready tokens excluded search (.repeated inner) starts)
    (looping : Looping program tokens excluded inner starts search frontier reached)
    (judges : program.Judges (Find.reach find frontier reached search).2 (.repeated inner)) :
    program.Sane tokens excluded (Find.reach find frontier reached search).2 ∧
      Covers program tokens excluded (Find.reach find frontier reached search).2 (.repeated inner)
        starts (Find.reach find frontier reached search).1 := by
  fun_induction Find.reach find frontier reached search with
  | case1 reached search => exact ⟨ready.sane, looping.covers⟩
  | case2 reached search p rest ends after found next ih =>
    have includes : (Node.repeated inner).Includes inner :=
      Node.includes_of_occurs fun _ => .repeated
    have extended := adding p search
    have served := serves p search (ready.visit includes fun q member => by
      obtain ⟨s, start, many⟩ := looping.sound p (looping.waiting p (List.mem_cons_self ..))
      cases List.mem_singleton.mp member
      exact ⟨s, start, Node.visits_of_repeated many⟩)
    rw [found] at extended served
    obtain ⟨sane, covers⟩ := served
      ((judges.mono includes).back (Find.takes_reach Find.steps_extends adding next.1 next.2 after))
    exact ih (ready.extend extended sane) (looping.step extended.keeps covers) judges

theorem serves_closure (adding : ∀ p, (find p).Adding)
    (serves : ∀ p, program.Serves tokens excluded (find p) inner [p]) (start : Ends n) :
    program.Serves tokens excluded (Find.closure find start) (.repeated inner) start.toList :=
  fun _ ready => serves_reach adding serves _ _ ready (looping_initial start)

end Combinators

section Leaves

theorem serves_miss (stuck : ∀ call e, ¬ node.Derives tokens call excluded p e)
    (alone : ∀ call part q, node.Visits tokens call excluded p part q → part = node ∧ q = p)
    (inside : ∀ index, node ≠ .rule index) (misses : node.Misses tokens p) :
    program.Serves tokens excluded (Find.miss p) node [p] := by
  intro search ready judges
  have keeps := (Search.extends_fail search p).keeps
  refine ⟨ready.sane.step keeps ?_ ?_ ?_, ?_⟩
  · exact fun index q ends known => Or.inl (by simpa [Find.miss] using known)
  · exact fun index q seed reentered known => Or.inl ⟨reentered, by simpa [Find.miss] using known⟩
  · intro none q furthest
    rcases Search.furthest_fail furthest with before | rfl
    · exact ready.sane.looked (by simpa [Find.miss] using none) q before
    · exact ⟨node, ready.comes p (List.mem_singleton_self p), misses⟩
  · exact .leaf (fun call e => ⟨fun derives => absurd derives (stuck call e),
      fun member => absurd member (Ends.not_mem_empty e)⟩) alone
      ⟨fun index same => absurd same (inside index), fun _ => Search.looked_fail search p⟩

theorem serves_token {test : Text → Bool}
    (all : ∀ call e, node.Derives tokens call excluded p e ↔
      (∃ h : p.val < n, test tokens[p.val] = true) ∧ e.val = p.val + 1)
    (alone : ∀ call part q, node.Visits tokens call excluded p part q → part = node ∧ q = p)
    (inside : ∀ index, node ≠ .rule index)
    (misses : node.Misses tokens p ↔ ¬ ∃ h : p.val < n, test tokens[p.val] = true) :
    program.Serves tokens excluded (Find.token tokens test p) node [p] := by
  by_cases passes : ∃ h : p.val < n, test tokens[p.val] = true
  · obtain ⟨h, passed⟩ := passes
    rw [Find.token, dif_pos h, if_pos passed]
    refine serves_pure fun search => .leaf (fun call e => ?_) alone
      ⟨fun index same => absurd same (inside index),
        fun missing => absurd ⟨h, passed⟩ (misses.mp missing)⟩
    rw [all, Ends.mem_singleton, Fin.ext_iff]
    exact and_iff_right ⟨h, passed⟩
  · have missed : Find.token tokens test p = (Find.miss p : Find program.names.length n) := by
      unfold Find.token
      split
      · rw [if_neg fun passed => passes ⟨by assumption, passed⟩]
      · rfl
    rw [missed]
    exact serves_miss (fun call e derives => passes ((all call e).mp derives).1) alone inside
      (misses.mpr passes)

theorem serves_terminal {literal : Text} (wanted : literal ≠ []) :
    program.Serves tokens excluded (Find.token tokens (· == literal) p) (.terminal literal)
      [p] := by
  have found : (∃ h : p.val < n, (tokens[p.val] == literal) = true) ↔
      tokens[p.val]? = some literal := by
    simp [Vector.getElem?_eq_some_iff]
  refine serves_token (fun call e => ?_) (fun call part q visits => ?_) (by simp) ?_
  · rw [found]
    constructor
    · intro derives
      cases derives with
      | blank => exact absurd rfl wanted
      | terminal _ here next => exact ⟨here, next⟩
    · exact fun ⟨here, next⟩ => .terminal wanted here next
  · cases visits with
    | here => exact ⟨rfl, rfl⟩
  · rw [found]
    exact and_iff_right wanted

theorem serves_anyToken :
    program.Serves tokens excluded (Find.token tokens (fun _ => true) p) .anyToken [p] := by
  refine serves_token (fun call e => ?_) (fun call part q visits => ?_) (by simp) ?_
  · constructor
    · intro derives
      cases derives with
      | anyToken inside next => exact ⟨⟨inside, rfl⟩, next⟩
    · exact fun ⟨⟨inside, _⟩, next⟩ => .anyToken inside next
  · cases visits with
    | here => exact ⟨rfl, rfl⟩
  · have := p.isLt
    simp only [Node.Misses, exists_prop, and_true]
    omega

end Leaves

/-- A rule that does not lead to any growing goal is answered in full, refused
goals apart. -/
theorem Sane.answers (sane : program.Sane tokens excluded search)
    (clean : ∀ other q, search.Growing (other, q) →
      ¬ Relation.ReflTransGen program.Refers index other)
    (accounts : Search.Accounts tokens search (.rule index) p)
    (derives : program.DerivesAvoiding tokens excluded search.refused index p e) :
    search.answers index p e := by
  let call : Node.Call program.names.length n := fun index p e =>
    (index, p) ∉ search.refused ∧
      ((∀ other q, search.Growing (other, q) → ¬ Relation.ReflTransGen program.Refers index other) →
        Search.Accounts tokens search (.rule index) p → search.answers index p e)
  suffices call index p e from this.2 clean accounts
  refine derives.least fun index p e allowed body => ⟨allowed, fun clean accounts => ?_⟩
  obtain ⟨ends, offered⟩ := (accounts.rule index rfl).resolve_right allowed
  refine ⟨allowed, ends, offered, ?_⟩
  have known : search.memo? (index, p) = some (.settled ends) :=
    offered.resolve_right fun growing => clean index p ⟨ends, true, growing⟩ .refl
  have covers := sane.settled index p ends known
  refine covers.complete p (List.mem_singleton_self p) e
    (body.transfer fun other q r visits answer => answer.2 ?_ ?_)
  · exact fun goal s growing path =>
      clean goal s growing (.head (visits.includes.rules _ .here) path)
  · exact covers.accounted p (List.mem_singleton_self p) _ q visits

/-- The ends of a node that does not lead to any growing goal miss nothing that
can be derived without refused goals. -/
theorem Sane.complete (sane : program.Sane tokens excluded search)
    (clean : ∀ index, Node.Occurs (.rule index) node → ∀ other q, search.Growing (other, q) →
      ¬ Relation.ReflTransGen program.Refers index other)
    (covers : Covers program tokens excluded search node starts ends) (start : p ∈ starts)
    (derives : node.Derives tokens
      (program.DerivesAvoiding tokens excluded search.refused) excluded p e) : e ∈ ends :=
  covers.complete p start e (derives.transfer fun index q _ visits answer =>
    sane.answers (clean index (visits.includes.rules _ .here))
      (covers.accounted p start _ q visits) answer)

section Nodes

variable (law : program.Lawful tokens excluded)
  {call : Fin program.names.length → Spot n → Find program.names.length n}

include law in
theorem judged {kept dropped : Node program.names.length}
    (ready : program.Ready tokens excluded old (.except kept dropped) starts)
    (extended : old.Extends search) (sane : program.Sane tokens excluded search)
    (judges : program.Judges search (.except kept dropped))
    (covers : Covers program tokens excluded search dropped [p] ends) :
    e ∈ ends ↔ excluded dropped p e := by
  have none : search.refused = [] := judges.resolve_right fun free => free.2 _ _ .here
  rw [law]
  constructor
  · intro member
    obtain ⟨q, start, derives⟩ := covers.sound e member
    cases List.mem_singleton.mp start
    exact derives
  · intro derives
    refine sane.complete (fun index inside other q growing path => ?_) covers
      (List.mem_singleton_self p) (none ▸ derives)
    exact (ready.guards.extend extended).apart other q growing kept dropped index .here inside path

-- By recursion on nodes. Each part starts from what its predecessors promise, and what is
-- searched for after it keeps its promise.
mutual

theorem serves_eval (law : program.Lawful tokens excluded)
    (adding : ∀ index p, (call index p).Adding)
    (serves : ∀ index p, program.Serves tokens excluded (call index p) (.rule index) [p]) :
    ∀ (node : Node program.names.length) (p : Spot n),
      program.Serves tokens excluded (node.eval tokens call p) node [p]
  | .alternation items, p => fun search =>
    serves_evalAny law adding serves items p search items fun _ => id
  | .sequence items, p => serves_evalAll law adding serves items {p}
  | .optional inner, p => by
    intro search ready judges
    have includes : (Node.optional inner).Includes inner :=
      Node.includes_of_occurs fun _ => .optional
    obtain ⟨sane, covers⟩ := serves_eval law adding serves inner p search
      (ready.visit includes fun q member => ⟨q, member, .optional .here⟩) (judges.mono includes)
    exact ⟨sane, covers.optional⟩
  | .repeated inner, p => serves_closure (Node.takes_eval Find.steps_extends adding inner)
      (serves_eval law adding serves inner) {p}
  | .oneOrMore inner, p =>
    serves_chain (Node.chains_oneOrMore inner) (fun _ => Covers.plain (by simp) fun _ => id)
      (Node.includes_of_occurs fun _ => .oneOrMore) Node.includes_oneOrMore
      (Node.takes_eval Find.steps_extends adding inner p)
      (Find.takes_closure Find.steps_extends (Node.takes_eval Find.steps_extends adding inner))
      (serves_eval law adding serves inner p) fun ends search _ =>
        serves_closure (Node.takes_eval Find.steps_extends adding inner)
          (serves_eval law adding serves inner) ends
          search
  | .times count inner, p => serves_rounds (Node.takes_eval Find.steps_extends adding inner)
      (serves_eval law adding serves inner) count {p}
  | .except kept dropped, p => by
    intro search ready judges
    have includes₁ : (Node.except kept dropped).Includes kept :=
      Node.includes_of_occurs fun _ => .kept
    have includes₂ : (Node.except kept dropped).Includes dropped :=
      Node.includes_of_occurs fun _ => .dropped
    have first : (kept.eval tokens call p).Adding :=
      Node.takes_eval Find.steps_extends adding kept p
    have later : (dropped.eval tokens call p).Adding :=
      Node.takes_eval Find.steps_extends adding dropped p
    obtain ⟨sane, left⟩ := serves_eval law adding serves kept p search
      (ready.visit includes₁ fun q member => ⟨q, member, .kept .here⟩)
      ((judges.mono includes₁).back (later _))
    obtain ⟨sane', right⟩ := serves_eval law adding serves dropped p _
      ((ready.extend (first search) sane).visit includes₂
        fun q member => ⟨q, member, .dropped .here⟩)
      (judges.mono includes₂)
    exact ⟨sane', .except (left.keep (later _).keeps) right fun e =>
      judged law ready ((first search).trans (later _)) sane' judges right⟩
  | .terminal literal, p => by
    unfold Node.eval
    by_cases blank : literal = []
    · subst blank
      exact serves_pure fun search => show Covers program tokens excluded search _
        ({p} : Ends n).toList {p} from .blank
    · rw [if_neg (by simpa using blank)]
      exact serves_terminal blank
  | .rule index, p => serves index p
  | .anyToken, p => serves_anyToken
  | .empty, p => serves_pure fun search => show Covers program tokens excluded search _
      ({p} : Ends n).toList {p} from .empty

theorem serves_evalAny (law : program.Lawful tokens excluded)
    (adding : ∀ index p, (call index p).Adding)
    (serves : ∀ index p, program.Serves tokens excluded (call index p) (.rule index) [p]) :
    ∀ (items : List (Node program.names.length)) (p : Spot n)
      (search : Search program.names.length n) (all : List (Node program.names.length)),
      (∀ item ∈ items, item ∈ all) → program.Ready tokens excluded search (.alternation all) [p] →
      program.Judges (Node.evalAny tokens call items p search).2 (.alternation all) →
      program.Sane tokens excluded (Node.evalAny tokens call items p search).2 ∧
        Covers program tokens excluded (Node.evalAny tokens call items p search).2
          (.alternation items) [p] (Node.evalAny tokens call items p search).1
  | [], p, search, all, _, ready, _ => ⟨ready.sane, .alternation_nil⟩
  | item :: items, p, search, all, sub, ready, judges => by
    have member : item ∈ all := sub item (List.mem_cons_self ..)
    have includes : (Node.alternation all).Includes item :=
      Node.includes_of_occurs fun _ => .alternation member
    have first : (item.eval tokens call p).Adding :=
      Node.takes_eval Find.steps_extends adding item p
    have later : (Node.evalAny tokens call items p).Adding :=
      Node.takes_evalAny Find.steps_extends adding items p
    obtain ⟨sane, one⟩ := serves_eval law adding serves item p search
      (ready.visit includes fun q start => ⟨q, start, .alternation member .here⟩)
      ((judges.mono includes).back (later _))
    obtain ⟨sane', others⟩ := serves_evalAny law adding serves items p _ all
      (fun other found => sub other (List.mem_cons_of_mem item found))
      (ready.extend (first search) sane) judges
    exact ⟨sane', .alternation_cons (one.keep (later _).keeps) others⟩

theorem serves_evalAll (law : program.Lawful tokens excluded)
    (adding : ∀ index p, (call index p).Adding)
    (serves : ∀ index p, program.Serves tokens excluded (call index p) (.rule index) [p]) :
    ∀ (items : List (Node program.names.length)) (ends : Ends n),
      program.Serves tokens excluded (Node.evalAll tokens call items ends) (.sequence items)
        ends.toList
  | [], ends => serves_pure fun _ => .sequence_nil
  | item :: items, ends => by
    unfold Node.evalAll
    refine serves_chain (Node.chains_sequence item items)
      (fun _ => Covers.plain (by simp) fun _ => id)
      Node.includes_head Node.includes_sequence
      (Find.takes_each Find.steps_extends (Node.takes_eval Find.steps_extends adding item) _)
      (fun next => .ite (Find.takes_pure Find.steps_extends next)
        (Node.takes_evalAll Find.steps_extends adding items next))
      (serves_each (Node.takes_eval Find.steps_extends adding item)
        (serves_eval law adding serves item) _) ?_
    intro next search covers ready judges
    by_cases stop : next = ∅
    · subst stop
      exact ⟨ready.sane, .nil⟩
    · rw [if_neg stop] at judges ⊢
      exact serves_evalAll law adding serves items next search ready judges

end

end Nodes

end Program
end GrammarDesk
