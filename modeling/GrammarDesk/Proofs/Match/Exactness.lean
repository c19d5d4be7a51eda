import GrammarDesk.Proofs.Match.Growth
import GrammarDesk.Proofs.Match.Nesting

/-! A run finds exactly what the start rule derives. No goal is left growing at
the end, so the ends miss nothing that can be derived without refused goals. -/
namespace GrammarDesk.Program

variable {program : Program} {n : Nat} {tokens : Vector Text n}
  {excluded : Node.Exceptions program.names.length n} {e : Spot n}

theorem not_growing_initial (goal : Goal program.names.length n) :
    ¬ Search.Growing {} goal := by
  intro ⟨_, _, known⟩
  simp [Search.memo?] at known

theorem not_growing_run (goal : Goal program.names.length n) :
    ¬ (program.run tokens).2.Growing goal := by
  have extended : Search.Extends {} (program.run tokens).2 :=
    adding_rule maxDepth program.startRule 0 {}
  rw [extended.growing_iff]
  exact not_growing_initial goal

/-- A run ends sane, with ends that cover the start rule. -/
theorem run_covers (stratified : program.Stratified)
    (law : program.Lawful tokens excluded)
    (judges : program.Judges (program.run tokens).2 (.rule program.startRule)) :
    program.Sane tokens excluded (program.run tokens).2 ∧
      Covers program tokens excluded (program.run tokens).2 (.rule program.startRule) [0]
        (program.run tokens).1 := by
  refine serves_rule stratified law maxDepth program.startRule 0 {}
    ⟨sane_initial, ⟨fun index q growing => absurd growing (not_growing_initial (index, q)),
      fun index q growing => absurd growing (not_growing_initial (index, q))⟩, fun p start => ?_⟩
    judges
  cases List.mem_singleton.mp start
  exact .start

theorem mem_run_of_derivesAvoiding (stratified : program.Stratified)
    (law : program.Lawful tokens excluded)
    (judges : program.Judges (program.run tokens).2 (.rule program.startRule))
    (derives : program.DerivesAvoiding tokens excluded (program.run tokens).2.refused
      program.startRule 0 e) : e ∈ (program.run tokens).1 := by
  obtain ⟨sane, covers⟩ := run_covers stratified law judges
  exact sane.complete (fun _ _ other q growing => absurd growing (not_growing_run (other, q)))
    covers (List.mem_singleton_self 0) (.rule derives)

/-- The ends of a run are the ends that the start rule yields. -/
theorem mem_run_iff_yields (stratified : program.Stratified)
    (calm : (program.run tokens).2.refused = []) :
    e ∈ (program.run tokens).1 ↔ program.Yields tokens (.rule program.startRule) 0 e := by
  have law := lawful_yields tokens stratified
  rw [law]
  constructor
  · intro member
    obtain ⟨p, start, derives⟩ := (run_covers stratified law (Or.inl calm)).2.sound e member
    cases List.mem_singleton.mp start
    exact derives
  · intro derives
    cases derives with
    | rule derives =>
      exact mem_run_of_derivesAvoiding stratified law (Or.inl calm) (calm ▸ derives)

/-- Sums: `sum = sum, '+', name | name ; name = ? any ? - '+' ;`. -/
abbrev sums : Program where
  names := ["sum".toList, "name".toList]
  bodies := #v[
    .alternation [.sequence [.rule ⟨0, by decide⟩, .terminal ['+'], .rule ⟨1, by decide⟩],
      .rule ⟨1, by decide⟩],
    .except .anyToken (.terminal ['+'])]
  start := by decide

theorem stratified_sums : sums.Stratified := by
  intro index other ⟨kept, dropped, outside, inside⟩
  have body := sums.body_mem_bodies index
  generalize sums.body index = found at body outside
  rcases List.mem_cons.mp body with rfl | body
  · simp at outside
  · cases List.mem_singleton.mp body
    obtain ⟨rfl, rfl⟩ : kept = .anyToken ∧ dropped = .terminal ['+'] := by simpa using outside
    simp at inside

theorem mem_run_sums_iff_yields :
    sums.Stratified ∧ (sums.run #v["n".toList, "+".toList, "n".toList]).2.refused = [] ∧
      (3 ∈ (sums.run #v["n".toList, "+".toList, "n".toList]).1 ↔
        sums.Yields #v["n".toList, "+".toList, "n".toList] (.rule sums.startRule) 0 3) :=
  have calm := refused_run_eq_nil (by decide)
  ⟨stratified_sums, calm, mem_run_iff_yields stratified_sums calm⟩

section Reached

variable {rules n : Nat} {ends : Ends n} {search : Search rules n} {p : Spot n}

theorem le_reached_of_mem (member : p ∈ ends) : p.val ≤ reached ends search := by
  refine Nat.le_trans ?_ (Nat.le_max_left _ _)
  cases found : ends.toList.getLast? with
  | none => simp [Ends.mem_def, List.getLast?_eq_none_iff.mp found] at member
  | some last =>
    obtain ⟨initial, split⟩ := List.getLast?_eq_some_iff.mp found
    have sorted := ends.sorted
    rw [Ends.mem_def, split] at member
    rw [split] at sorted
    rcases List.mem_append.mp member with member | member
    · exact Nat.le_of_lt ((List.pairwise_append.mp sorted).2.2 p member last (by simp))
    · exact Nat.le_of_eq (congrArg Fin.val (List.mem_singleton.mp member))

theorem le_reached_of_looked (looked : search.Looked p) : p.val ≤ reached ends search := by
  obtain ⟨q, furthest, le⟩ := looked
  refine Nat.le_trans ?_ (Nat.le_max_right _ _)
  simpa [furthest] using le

theorem reached_cases (ends : Ends n) (search : Search rules n) :
    (∃ e ∈ ends, reached ends search = e.val) ∨
      (∃ p, search.furthest = some p ∧ reached ends search = p.val) ∨ reached ends search = 0 := by
  unfold reached
  cases last : ends.toList.getLast? <;> cases furthest : search.furthest
  · exact Or.inr (Or.inr rfl)
  · exact Or.inr (Or.inl ⟨_, rfl, by simp⟩)
  · exact Or.inl ⟨_, List.mem_of_getLast? last, by simp⟩
  · rename_i e p
    rcases Nat.le_total e.val p.val with le | le
    · exact Or.inr (Or.inl ⟨p, rfl, by simpa using le⟩)
    · exact Or.inl ⟨e, List.mem_of_getLast? last, by simpa using le⟩

end Reached

theorem outcome_eq (program : Program) (tokens : List Text) :
    program.outcome tokens =
      if reached (program.run tokens.toArray.toVector).1
          (program.run tokens.toArray.toVector).2 < tokens.length
        then .haltedAt (reached (program.run tokens.toArray.toVector).1
          (program.run tokens.toArray.toVector).2)
        else .complete := by
  cases run : program.run tokens.toArray.toVector with
  | mk ends search => simp only [outcome, run]

theorem outcome_complete_of_mem {tokens : List Text}
    (member : Fin.last _ ∈ (program.run tokens.toArray.toVector).1) :
    program.outcome tokens = .complete := by
  rw [outcome_eq]
  exact if_neg (Nat.not_lt.mpr (le_reached_of_mem member))

end GrammarDesk.Program
