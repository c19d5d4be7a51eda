import GrammarDesk.Proofs.Match.Idempotence

/-! Counted repetition. A round takes each end to the ends of the node from there, and never
back, so a set of ends may lose and gain members for a while, but the spots settle one after
the other, from the first on: what reaches a spot are spots before it, which have settled,
and perhaps the spot itself. Rounds that change nothing may then be left out, because the
node has the same ends however often it is evaluated. -/
namespace GrammarDesk

namespace Find

variable {rules n : Nat}

def compose (find : Spot n → Find rules n) : Nat → Ends n → Find rules n
  | 0, ends => pure ends
  | count + 1, ends => do compose find count (← each find ends.toList)

def roundsMade (find : Spot n → Find rules n) : Nat → Ends n → Search rules n → Nat
  | 0, _, _ => 0
  | count + 1, ends, search =>
    let (next, search) := each find ends.toList search
    if next = ∅ ∨ next = ends then 1 else roundsMade find count next search + 1

section

variable {find : Spot n → Find rules n} {ends : Ends n} {search : Search rules n}

theorem compose_succ (count : Nat) : compose find (count + 1) ends search =
    compose find count (each find ends.toList search).1 (each find ends.toList search).2 := rfl

theorem compose_succ_last (count : Nat) : compose find (count + 1) ends search =
    each find (compose find count ends search).1.toList (compose find count ends search).2 := by
  induction count generalizing ends search with
  | zero => rfl
  | succ count ih => exact ih

theorem compose_empty (count : Nat) : compose find count ∅ search = (∅, search) := by
  induction count with
  | zero => rfl
  | succ count ih => exact ih

theorem rounds_succ (count : Nat) : rounds find (count + 1) ends search =
    let next := each find ends.toList search
    if next.1 = ∅ ∨ next.1 = ends then next else rounds find count next.1 next.2 := by
  rw [rounds, bind_apply]
  split
  · exact (if_pos ‹_›).symm
  · exact (if_neg ‹_›).symm

theorem roundsMade_succ (count : Nat) : roundsMade find (count + 1) ends search =
    let next := each find ends.toList search
    if next.1 = ∅ ∨ next.1 = ends then 1 else roundsMade find count next.1 next.2 + 1 := rfl

theorem rounds_eq_compose (count : Nat) : rounds find count ends search =
    compose find (roundsMade find count ends search) ends search := by
  induction count generalizing ends search with
  | zero => rfl
  | succ count ih =>
    rw [rounds_succ, roundsMade_succ]
    dsimp only
    split
    · rfl
    · rw [compose_succ]
      exact ih

theorem roundsMade_le (count : Nat) : roundsMade find count ends search ≤ count := by
  induction count generalizing ends search with
  | zero => exact Nat.le_refl 0
  | succ count ih =>
    rw [roundsMade_succ]
    dsimp only
    split
    · exact Nat.succ_le_succ (Nat.zero_le count)
    · exact Nat.succ_le_succ ih

theorem roundsMade_le_of_still {k : Nat} (count : Nat) (still :
      (compose find (k + 1) ends search).1 = (compose find k ends search).1) :
    roundsMade find count ends search ≤ k + 1 := by
  induction count generalizing k ends search with
  | zero => exact Nat.zero_le _
  | succ count ih =>
    rw [roundsMade_succ]
    dsimp only
    split
    · exact Nat.succ_le_succ (Nat.zero_le k)
    · rename_i onward
      cases k with
      | zero => exact absurd (.inr still) onward
      | succ k => exact Nat.succ_le_succ (ih still)

end

section

variable {call : Fin rules → Spot n → Find rules n} {find : Spot n → Find rules n}
  {ends : Ends n} {search last : Search rules n} {p : Spot n}

theorem takes_compose {step : Search rules n → Search rules n → Prop} (steps : Steps step)
    (takes : ∀ p, (find p).Takes step) (count : Nat) (ends : Ends n) :
    (compose find count ends).Takes step := by
  induction count generalizing ends with
  | zero => exact takes_pure steps ends
  | succ count ih => exact takes_bind steps (takes_each steps takes ends.toList) ih

theorem alike_compose (alike : ∀ p, (find p).Alike (find p)) (count : Nat) (ends : Ends n) :
    (compose find count ends).Alike (compose find count ends) := by
  induction count generalizing ends with
  | zero => exact alike_pure ends
  | succ count ih => exact alike_bind (alike_each alike ends.toList) ih

variable (lasting : ∀ p, Lasting call (find p))

include lasting

theorem later_compose {k m : Nat} (le : k ≤ m) :
    Later call (compose find k ends search).2 (compose find m ends search).2 := by
  induction le with
  | refl => exact .refl _
  | step _ ih =>
    rw [compose_succ_last]
    exact ih.trans (takes_each (Later.steps call) (fun p => (lasting p).takes) _ _)

theorem compose_of_still (count : Nat) (later : Later call (each find ends.toList search).2 last)
    (still : (each find ends.toList search).1 = ends) :
    (compose find count ends last).1 = ends ∧ (compose find count ends last).2.Alike last := by
  induction count with
  | zero => exact ⟨rfl, .refl last⟩
  | succ count ih =>
    obtain ⟨same, states⟩ := (lasting_each lasting ends.toList).again search last later
    obtain ⟨ends_eq, states'⟩ := alike_compose (fun p => (lasting p).alike) count ends _ _ states
    rw [compose_succ, same, still]
    exact ⟨ends_eq.trans ih.1, states'.trans ih.2⟩

/-- Rounds that are left out would find nothing else, and note nothing new. -/
theorem compose_alike_rounds (count : Nat) (ends : Ends n) (search : Search rules n) :
    (compose find count ends search).1 = (rounds find count ends search).1 ∧
      (compose find count ends search).2.Alike (rounds find count ends search).2 := by
  induction count generalizing ends search with
  | zero => exact ⟨rfl, .refl search⟩
  | succ count ih =>
    rw [compose_succ, rounds_succ]
    dsimp only
    split
    · rename_i done
      rcases done with none | still
      · rw [none, compose_empty]
        exact ⟨rfl, .refl _⟩
      · rw [still]
        exact compose_of_still lasting count (.refl _) still
    · exact ih _ _

theorem mem_each_iff {e : Spot n} {spots : List (Spot n)}
    (later : Later call (each find spots search).2 last) :
    e ∈ (each find spots search).1 ↔ ∃ q ∈ spots, e ∈ (find q last).1 := by
  induction spots generalizing search with
  | nil => simp [each, Ends.not_mem_empty]
  | cons q spots ih =>
    have onward : Later call (find q search).2 last :=
      (takes_each (Later.steps call) (fun p => (lasting p).takes) spots _).trans later
    have first : (find q last).1 = (find q search).1 := ((lasting q).again search last onward).1
    have others : e ∈ (each find spots (find q search).2).1 ↔ ∃ q ∈ spots, e ∈ (find q last).1 :=
      ih later
    change e ∈ (find q search).1 ∪ (each find spots (find q search).2).1 ↔ _
    rw [Ends.mem_union, others, ← first, List.exists_mem_cons_iff]

end

end Find

namespace Ends

variable {n : Nat} {p : Spot n} {last : Nat}

/-- Spots settle from the first on: after `k` rounds, those less than `k` beyond `p` are
reached or not reached for good. -/
theorem settled (sets : Nat → Ends n) (next : Spot n → Ends n) (start : sets 0 = {p})
    (forward : ∀ q, (next q).From q)
    (round : ∀ k < last, ∀ e, e ∈ sets (k + 1) ↔ ∃ q ∈ sets k, e ∈ next q) {k : Nat}
    (before : k < last) {e : Spot n} (near : e.val < p.val + k) :
    e ∈ sets (k + 1) ↔ e ∈ sets k := by
  induction k generalizing e with
  | zero =>
    have absent : e ∉ sets 0 := by
      rw [start, mem_singleton]
      rintro rfl
      omega
    refine iff_of_false (fun member => ?_) absent
    obtain ⟨q, here, found⟩ := (round 0 before e).mp member
    rw [start, mem_singleton] at here
    have le : q ≤ e := forward q e found
    rw [Fin.le_def, here] at le
    omega
  | succ k ih =>
    have earlier : k < last := Nat.lt_of_succ_lt before
    have below {q : Spot n} (le : q ≤ e) (ne : q ≠ e) : q ∈ sets (k + 1) ↔ q ∈ sets k := by
      have lt : q < e := lt_of_le_of_ne le ne
      rw [Fin.lt_def] at lt
      exact ih earlier (by omega)
    constructor
    · intro member
      obtain ⟨q, here, found⟩ := (round (k + 1) before e).mp member
      by_cases loop : q = e
      · exact loop ▸ here
      · exact (round k earlier e).mpr ⟨q, (below (forward q e found) loop).mp here, found⟩
    · intro member
      obtain ⟨q, here, found⟩ := (round k earlier e).mp member
      by_cases loop : q = e
      · -- The spot is taken to itself, so it stays.
        exact (round (k + 1) before e).mpr ⟨e, member, loop ▸ found⟩
      · exact (round (k + 1) before e).mpr ⟨q, (below (forward q e found) loop).mpr here, found⟩

end Ends

namespace Program

variable {program : Program} {n : Nat} {tokens : Vector Text n} {depth : Nat}
  {search : Search program.names.length n}

theorem eval_inRange (range : search.InRange) (node : Node program.names.length) (p : Spot n) :
    (node.eval tokens (program.rule tokens depth) p search).1.From p ∧
      (node.eval tokens (program.rule tokens depth) p search).2.InRange := by
  obtain ⟨log, ends, after, finds⟩ := answers_work (answers_rule depth) node p search
  have value : node.eval tokens (program.rule tokens depth) p search = (ends, after) :=
    finds.answer_eq
  obtain ⟨kept, behind, -⟩ := finds.inRange range (Fin.le_refl p)
  rw [value]
  exact ⟨behind, kept⟩

theorem compose_inRange (range : search.InRange) (node : Node program.names.length) (count : Nat)
    (ends : Ends n) :
    (Find.compose (node.eval tokens (program.rule tokens depth)) count ends search).2.InRange := by
  have steps : Find.Steps fun before after : Search program.names.length n =>
      before.InRange → after.InRange :=
    ⟨fun _ range => range, fun first second range => second (first range),
      fun _ p range => range.fail p⟩
  exact Find.takes_compose steps (fun p _ range => (eval_inRange range node p).2) count ends
    search range

theorem compose_still (range : search.InRange) (node : Node program.names.length) (p : Spot n) :
    let find := node.eval tokens (program.rule tokens depth)
    (Find.compose find (n - p.val + 2) {p} search).1 =
      (Find.compose find (n - p.val + 1) {p} search).1 := by
  intro find
  have lasting (q : Spot n) : Find.Lasting (program.rule tokens depth) (find q) :=
    node.lasting_eval (twins_self program tokens depth) q
  -- In the state behind the last round, all that was evaluated has the ends it had.
  let last := (Find.compose find (n - p.val + 2) {p} search).2
  have forward (q : Spot n) : (find q last).1.From q :=
    (eval_inRange (compose_inRange range node _ _) node q).1
  have round (k : Nat) (before : k < n - p.val + 2) (e : Spot n) :
      e ∈ (Find.compose find (k + 1) {p} search).1 ↔
        ∃ q ∈ (Find.compose find k {p} search).1, e ∈ (find q last).1 := by
    have later : Find.Later (program.rule tokens depth)
        (Find.compose find (k + 1) {p} search).2 last := Find.later_compose lasting before
    rw [Find.compose_succ_last] at later ⊢
    exact Find.mem_each_iff lasting later
  exact Ends.ext fun e => Ends.settled (fun k => (Find.compose find k {p} search).1)
    (fun q => (find q last).1) rfl forward round (Nat.lt_succ_self _) (by omega)

theorem Matches.inRange {tokens : List Text} {outcome : Outcome}
    {log : List (Find.Note program.names.length tokens.toArray.size)}
    {note : Find.Note program.names.length tokens.toArray.size}
    (run : program.Matches tokens log outcome) (noted : note ∈ log) : note.InRange := by
  obtain ⟨finds⟩ := run
  exact ((finds.staysInRange Search.inRange_empty (Fin.zero_le _)).2.2 note noted).2

/-- There is a run, and it evaluates the body of the start rule with nothing known but that
the rule is in progress. -/
theorem exists_visited_body (program : Program) (tokens : List Text) :
    ∃ log outcome found, program.Matches tokens log outcome ∧
      .evaluated 2047 (program.body program.startRule) 0
        (Search.grow (program.startRule, 0) ∅ false {}) found ∈ log := by
  have nested : ∀ index p before,
      program.Answers tokens.toArray.toVector 2047 (.work (.rule index) p) before :=
    answers_rule 2047
  obtain ⟨log, found, mid, body⟩ := answers_work nested (program.body program.startRule) 0
    (Search.grow (program.startRule, 0) ∅ false {})
  obtain ⟨again, _, _, _, regrown⟩ := answers_regrow (program.startRule, 0)
    (answers_node nested _ 0) 0 found mid
  have unknown : ({} : Search program.names.length tokens.toArray.size).memo?
      (program.startRule, 0) = none := by simp [Search.memo?]
  exact ⟨_, _, found, .intro (.node (.rule unknown (.node body) regrown)), by simp⟩

/-- In every state in which a run evaluates a node, a counted repetition of any node has the
ends of all its rounds, one after the other, and leaves a state that no search tells from
theirs. It does no more than the rounds that it makes, and whatever the count is, those are
at most two more than the tokens behind its start. -/
theorem times_composed {program : Program} {tokens : List Text} {outcome : Outcome}
    {log : List (Find.Note program.names.length tokens.toArray.size)}
    (run : program.Matches tokens log outcome) {depth : Nat} {part : Node program.names.length}
    {q : Spot tokens.toArray.size} {search : Search program.names.length tokens.toArray.size}
    {found : Ends tokens.toArray.size} (visited : .evaluated depth part q search found ∈ log)
    (node : Node program.names.length) (count : Nat) (p : Spot tokens.toArray.size) :
    let call := program.rule tokens.toArray.toVector depth
    let find := node.eval tokens.toArray.toVector call
    let made := Find.roundsMade find count {p} search
    ∃ ends after, (Node.times count node).eval tokens.toArray.toVector call p search =
        (ends, after) ∧
      (Find.compose find count {p} search).1 = ends ∧
      (Find.compose find count {p} search).2.Alike after ∧
      Find.compose find made {p} search = (ends, after) ∧
      made ≤ count ∧ made ≤ tokens.length - p.val + 2 := by
  intro call find made
  have lasting (q : Spot tokens.toArray.size) : Find.Lasting call (find q) :=
    node.lasting_eval (twins_self program tokens.toArray.toVector depth) q
  have range : search.InRange := run.inRange visited
  have value : (Node.times count node).eval tokens.toArray.toVector call p search =
      Find.compose find made {p} search := Find.rounds_eq_compose count
  obtain ⟨ends, states⟩ := Find.compose_alike_rounds lasting count {p} search
  exact ⟨_, _, rfl, ends, states, value.symm, Find.roundsMade_le count,
    Find.roundsMade_le_of_still count (compose_still range node p)⟩

/-- As many options as can be counted: `s = 4294967295 * [ 'a' ] ;`. -/
abbrev manyOptions : Program where
  names := ["s".toList]
  bodies := #v[.times 4294967295 (.optional (.terminal ['a']))]
  start := by decide

theorem times_composed_manyOptions :
    let tokens := [['a'], ['a']]
    let search := Search.grow (manyOptions.startRule, 0) ∅ false {}
    let find := (Node.optional (.terminal ['a'])).eval tokens.toArray.toVector
      (manyOptions.rule tokens.toArray.toVector 2047)
    (∃ log outcome found, manyOptions.Matches tokens log outcome ∧
      .evaluated 2047 (manyOptions.body manyOptions.startRule) 0 search found ∈ log) ∧
    Find.roundsMade find 4294967295 {0} search = 3 ∧
    (Find.compose find 4294967295 {0} search).1 = {0} ∪ ({1} ∪ {2}) := by
  intro tokens search find
  have visits := exists_visited_body manyOptions tokens
  have made : Find.roundsMade find 4294967295 {0} search = 3 := by decide
  refine ⟨visits, made, ?_⟩
  obtain ⟨_, _, _, run, visited⟩ := visits
  obtain ⟨ends, after, -, composed, -, once, -⟩ :=
    times_composed run visited (.optional (.terminal ['a'])) 4294967295 0
  calc (Find.compose find 4294967295 {0} search).1
    _ = ends := composed
    _ = (Find.compose find 3 {0} search).1 := made ▸ (congrArg Prod.fst once).symm
    _ = {0} ∪ ({1} ∪ {2}) := by decide

end Program

end GrammarDesk
