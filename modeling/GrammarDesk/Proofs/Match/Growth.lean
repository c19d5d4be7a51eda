import GrammarDesk.Proofs.Match.Evaluation

/-! Rules serve what calls them. A goal that grows sees true ends as its seed;
in the last round nobody has relied on a smaller one. From goals to rules it is
an induction on the nesting that is left. -/
namespace GrammarDesk.Program

variable {program : Program} {n : Nat} {tokens : Vector Text n}
  {excluded : Node.Exceptions program.names.length n}
  {search old new : Search program.names.length n} {find : Find program.names.length n}
  {index : Fin program.names.length} {p : Spot n} {ends seed next : Ends n}

theorem Guards.grow (stratified : program.Stratified)
    (guards : program.Guards search (.rule index)) (seed : Ends n) (reentered : Bool) :
    program.Guards (search.grow (index, p) seed reentered) (program.body index) := by
  have leads : ∀ other q, (search.grow (index, p) seed reentered).Growing (other, q) →
      Relation.ReflTransGen program.Refers other index := by
    intro other q ⟨s, r, known⟩
    rw [Search.memo?_grow] at known
    split at known
    · rename_i same
      cases same
      exact .refl
    · exact guards.leads other q ⟨s, r, known⟩ index .here
  exact {
    leads := fun other q growing mentioned inside => (leads other q growing).tail inside
    apart := fun other q growing kept dropped mentioned outside inside path =>
      stratified index mentioned ⟨kept, dropped, outside, inside⟩
        (path.trans (leads other q growing)) }

theorem sane_seeded (sane : program.Sane tokens excluded old)
    (unknown : old.memo? (index, p) = none)
    (adds : Search.Adds [] (old.grow (index, p) seed false) new)
    (sound : ∀ e ∈ seed, program.Derives tokens excluded index p e)
    (looked : new.refused = [] → ∀ p, new.furthest = some p → program.Wants tokens excluded p) :
    program.Sane tokens excluded new := by
  -- Nobody relies on a goal that is unknown, so its seed may be set to anything true.
  have unused : ∀ ends, ¬ old.Offers (index, p) ends := fun ends offered =>
    offered.elim (fun known => by cases unknown.symm.trans known)
      (fun known => by cases unknown.symm.trans known)
  have extended : (old.grow (index, p) seed false).Extends new := ⟨[], adds⟩
  refine sane.step ((Search.keeps_grow unused seed false).trans extended.keeps) ?_ ?_ looked
  · intro other q ends known
    refine Or.inl ?_
    cases before : (old.grow (index, p) seed false).memo? (other, q) with
    | none => cases known.symm.trans (adds.rest _ List.not_mem_nil before)
    | some entry =>
      cases entry with
      | growing s r =>
        obtain ⟨_, _, after⟩ := extended.growing before
        cases known.symm.trans after
      | settled others =>
        cases known.symm.trans (extended.kept before)
        rw [Search.memo?_grow] at before
        split at before
        · cases before
        · exact before
  · intro other q s r known
    obtain ⟨flag, before⟩ := extended.growing_of_growing known
    rw [Search.memo?_grow] at before
    split at before
    · rename_i same
      cases same
      cases before
      exact Or.inr sound
    · exact Or.inl ⟨flag, before⟩

theorem settle_serves (sane : program.Sane tokens excluded search)
    (covers : Covers program tokens excluded search (program.body index) [p] ends)
    (used : ∀ other, search.Offers (index, p) other → other = ends) :
    program.Sane tokens excluded (search.settle (index, p) ends) ∧
      Covers program tokens excluded (search.settle (index, p) ends) (.rule index) [p] ends := by
  have keeps := Search.keeps_settle used
  have offered : (search.settle (index, p) ends).Offers (index, p) ends := Or.inl (by simp)
  constructor
  · refine sane.step keeps ?_ ?_ sane.looked
    · intro other q others known
      rw [Search.memo?_settle] at known
      split at known
      · rename_i same
        cases same
        cases known
        exact Or.inr (covers.keep keeps)
      · exact Or.inl known
    · intro other q s r known
      rw [Search.memo?_settle] at known
      split at known
      · cases known
      · exact Or.inl ⟨r, known⟩
  · refine .rule ⟨fun others other => ?_, Or.inl ⟨ends, offered⟩⟩ covers.body_sound
    exact other.unique offered ▸ fun _ => id

structure Opens (program : Program) (tokens : Vector Text n)
    (excluded : Node.Exceptions program.names.length n) (old : Search program.names.length n)
    (index : Fin program.names.length) (p : Spot n) : Prop where
  stratified : program.Stratified
  ready : program.Ready tokens excluded old (.rule index) [p]
  unknown : old.memo? (index, p) = none

/-- The body of a goal may be searched from any true seed. -/
theorem Opens.ready_body (opens : Opens program tokens excluded old index p)
    (adds : Search.Adds [] (old.grow (index, p) seed false) new)
    (sound : ∀ e ∈ seed, program.Derives tokens excluded index p e)
    (looked : new.refused = [] → ∀ p, new.furthest = some p → program.Wants tokens excluded p) :
    program.Ready tokens excluded new (program.body index) [p] where
  sane := sane_seeded opens.ready.sane opens.unknown adds sound looked
  guards := (opens.ready.guards.grow opens.stratified seed false).extend ⟨[], adds⟩
  comes q start := by
    cases List.mem_singleton.mp start
    exact .body (opens.ready.comes p (List.mem_singleton_self p))

/-- Where the rounds for a goal are: the body was searched from the seed, and
the ends are the seed and what was found. -/
structure Round (program : Program) (tokens : Vector Text n)
    (excluded : Node.Exceptions program.names.length n) (old : Search program.names.length n)
    (index : Fin program.names.length) (p : Spot n) (ends : Ends n)
    (search : Search program.names.length n) : Prop where
  sane : program.Sane tokens excluded search
  sound : ∀ e ∈ ends, program.Derives tokens excluded index p e
  found : ∃ fresh seed next, Search.Adds fresh (old.grow (index, p) seed false) search ∧
    Covers program tokens excluded search (program.body index) [p] next ∧ next ⊆ ends

/-- The ends of a goal have settled: they cover its body, and nobody relied on
any other seed. -/
structure Grown (program : Program) (tokens : Vector Text n)
    (excluded : Node.Exceptions program.names.length n) (index : Fin program.names.length)
    (p : Spot n) (ends : Ends n) (search : Search program.names.length n) : Prop where
  sane : program.Sane tokens excluded search
  covers : Covers program tokens excluded search (program.body index) [p] ends
  used : ∀ other, search.Offers (index, p) other → other = ends

theorem Round.again (round : Round program tokens excluded old index p ends search)
    (opens : Opens program tokens excluded old index p) (adding : find.Adding)
    (serves : program.Serves tokens excluded find (program.body index) [p])
    (found : find ((search.forget old.settled.length).grow (index, p) ends false) = (next, new))
    (judges : program.Judges new (program.body index)) :
    Search.Adds [] (old.grow (index, p) ends false)
        ((search.forget old.settled.length).grow (index, p) ends false) ∧
      ((search.forget old.settled.length).grow (index, p) ends false).Extends new ∧
      program.Sane tokens excluded new ∧
      Covers program tokens excluded new (program.body index) [p] next := by
  obtain ⟨fresh, seed, others, adds, _, _⟩ := round.found
  have seeded : Search.Adds [] (old.grow (index, p) ends false)
      ((search.forget old.settled.length).grow (index, p) ends false) := adds.forget.grow ends
  have served := serves _ (opens.ready_body seeded round.sound round.sane.looked)
  have extended := adding ((search.forget old.settled.length).grow (index, p) ends false)
  rw [found] at served extended
  exact ⟨seeded, extended, served judges⟩

theorem serves_regrow (opens : Opens program tokens excluded old index p) (adding : find.Adding)
    (serves : program.Serves tokens excluded find (program.body index) [p])
    (round : Round program tokens excluded old index p ends search)
    (judges : program.Judges
      (Find.regrow (index, p) old.settled.length find ends search).2 (program.body index)) :
    Grown program tokens excluded index p
      (Find.regrow (index, p) old.settled.length find ends search).1
      (Find.regrow (index, p) old.settled.length find ends search).2 := by
  fun_induction Find.regrow (index, p) old.settled.length find ends search with
  | case1 ends search again next after found sub =>
    obtain ⟨_, extended, sane, covers⟩ := round.again opens adding serves found judges
    exact ⟨sane, covers.widen sub fun e member =>
      ⟨p, List.mem_singleton_self p, (round.sound e member).body⟩,
      fun other offered => (extended.seeded offered).1⟩
  | case2 ends search again next after found more ih =>
    have judges' : program.Judges after (program.body index) :=
      judges.imp (refused_nil (Find.refused_regrow adding _ after)) id
    obtain ⟨seeded, extended, sane, covers⟩ := round.again opens adding serves found judges'
    obtain ⟨fresh, adds⟩ := extended
    refine ih ⟨sane, fun e member => ?_, _, ends, next, seeded.trans adds, covers,
      fun e member => Ends.mem_union.mpr (Or.inr member)⟩ judges
    rcases Ends.mem_union.mp member with member | member
    · exact round.sound e member
    · exact covers.body_sound e member
  | case3 ends search done =>
    obtain ⟨fresh, seed, next, adds, covers, sub⟩ := round.found
    refine ⟨round.sane, covers.widen sub fun e member =>
      ⟨p, List.mem_singleton_self p, (round.sound e member).body⟩, fun other offered => ?_⟩
    exact absurd (Search.Extends.seeded ⟨fresh, adds⟩ offered).2 done

theorem serves_goal (opens : Opens program tokens excluded old index p) (adding : find.Adding)
    (serves : program.Serves tokens excluded find (program.body index) [p])
    (judges : program.Judges (Find.goal (index, p) find old).2 (.rule index)) :
    program.Sane tokens excluded (Find.goal (index, p) find old).2 ∧
      Covers program tokens excluded (Find.goal (index, p) find old).2 (.rule index) [p]
        (Find.goal (index, p) find old).1 := by
  unfold Find.goal at judges ⊢
  obtain ⟨fresh, adds⟩ := adding (old.grow (index, p) ∅ false)
  have judges' : program.Judges _ (program.body index) :=
    judges.imp id fun free => ⟨free.1, free.1 index⟩
  obtain ⟨sane, covers⟩ := serves (old.grow (index, p) ∅ false)
    (opens.ready_body (.refl _) (fun e member => absurd member (Ends.not_mem_empty e))
      opens.ready.sane.looked)
    (judges'.imp (refused_nil (Find.refused_regrow adding _ _)) id)
  have grown := serves_regrow opens adding serves
    ⟨sane, covers.body_sound, fresh, ∅, _, adds, covers, fun _ => id⟩ judges'
  exact settle_serves grown.sane grown.covers grown.used

theorem serves_known (ready : program.Ready tokens excluded search (.rule index) [p])
    (known : search.memo? (index, p) = some (.settled ends)) :
    program.Sane tokens excluded search ∧
      Covers program tokens excluded search (.rule index) [p] ends := by
  have offered : search.Offers (index, p) ends := Or.inl known
  refine ⟨ready.sane, .rule ⟨fun others other => ?_, Or.inl ⟨ends, offered⟩⟩
    (ready.sane.settled _ _ _ known).body_sound⟩
  exact offered.unique other ▸ fun _ => id

theorem serves_reenter (ready : program.Ready tokens excluded search (.rule index) [p])
    {reentered : Bool} (known : search.memo? (index, p) = some (.growing seed reentered)) :
    program.Sane tokens excluded (search.grow (index, p) seed true) ∧
      Covers program tokens excluded (search.grow (index, p) seed true) (.rule index) [p] seed := by
  have sound := ready.sane.growing index p seed reentered known
  have offered : (search.grow (index, p) seed true).Offers (index, p) seed := Or.inr (by simp)
  constructor
  · refine ready.sane.step (Search.extends_reenter known).keeps ?_ ?_ ready.sane.looked
    · intro other q ends found
      rw [Search.memo?_grow] at found
      split at found
      · cases found
      · exact Or.inl found
    · intro other q s r found
      rw [Search.memo?_grow] at found
      split at found
      · rename_i same
        cases same
        cases found
        exact Or.inr sound
      · exact Or.inl ⟨r, found⟩
  · refine .rule ⟨fun others other => ?_, Or.inl ⟨seed, offered⟩⟩ sound
    exact offered.unique other ▸ fun _ => id

theorem serves_refuse (ready : program.Ready tokens excluded search (.rule index) [p])
    (unknown : search.memo? (index, p) = none) :
    program.Sane tokens excluded ((search.refuse (index, p)).fail p) ∧
      Covers program tokens excluded ((search.refuse (index, p)).fail p) (.rule index) [p] ∅ := by
  have extended := (Search.extends_refuse search (index, p)).trans
    (Search.extends_fail (search.refuse (index, p)) p)
  have same : ∀ goal, ((search.refuse (index, p)).fail p).memo? goal = search.memo? goal :=
    fun _ => Search.memo?_fail
  have refused : (index, p) ∈ ((search.refuse (index, p)).fail p).refused := by
    rw [Search.refused_fail]
    exact List.mem_cons_self ..
  constructor
  · exact ready.sane.step extended.keeps (fun _ _ _ known => Or.inl (same _ ▸ known))
      (fun _ _ _ _ known => Or.inl ⟨_, same _ ▸ known⟩)
      (fun none => absurd (none ▸ refused) List.not_mem_nil)
  · refine .rule ⟨fun others offered => ?_, Or.inr refused⟩
      fun e member => absurd member (Ends.not_mem_empty e)
    unfold Search.Offers at offered
    rw [same, unknown] at offered
    simp at offered

/-- Every rule serves what calls it, however deep it may nest. -/
theorem serves_rule (stratified : program.Stratified)
    (law : program.Lawful tokens excluded)
    (depth : Nat) (index : Fin program.names.length) (p : Spot n) :
    program.Serves tokens excluded (program.rule tokens depth index p) (.rule index) [p] := by
  induction depth generalizing index p with
  | zero =>
    intro search ready judges
    unfold rule
    split
    · exact serves_known ready (by assumption)
    · exact serves_reenter ready (by assumption)
    · exact serves_refuse ready (by assumption)
  | succ depth ih =>
    intro search ready judges
    unfold rule at judges ⊢
    split
    · exact serves_known ready (by assumption)
    · exact serves_reenter ready (by assumption)
    · rename_i unknown
      rw [unknown] at judges
      exact serves_goal ⟨stratified, ready, unknown⟩
        (Node.takes_eval Find.steps_extends (adding_rule depth) _ p)
        (serves_eval law (adding_rule depth) ih _ p) judges

end GrammarDesk.Program
