import GrammarDesk.Proofs.Match.Exactness

/-! Runs of the matcher as finite derivations that note every node they evaluate
and every goal they search again. A derivation exists for each search and has
its result, so whatever holds of the notes of all derivations holds of all that
a run does: ends lie between where their node was started and the last token,
and a goal is searched again for at most two rounds more than there are tokens. -/
namespace GrammarDesk

def Ends.From {n : Nat} (p : Spot n) (ends : Ends n) : Prop := ∀ e ∈ ends, p ≤ e

namespace Ends.From

variable {n : Nat} {p q : Spot n} {a b : Ends n}

theorem mono (le : p ≤ q) (behind : a.From q) : a.From p :=
  fun e member => Fin.le_trans le (behind e member)

theorem empty (p : Spot n) : (∅ : Ends n).From p := fun e member => absurd member (not_mem_empty e)

theorem singleton (le : p ≤ q) : ({q} : Ends n).From p :=
  fun _ member => mem_singleton.mp member ▸ le

theorem union (left : a.From p) (right : b.From p) : (a ∪ b).From p :=
  fun e member => (mem_union.mp member).elim (left e) (right e)

theorem sdiff (left : a.From p) (b : Ends n) : (a \ b).From p :=
  fun e member => left e (mem_sdiff.mp member).1

end Ends.From

def Entry.ends {n : Nat} : Entry n → Ends n
  | .growing seed _ => seed
  | .settled ends => ends

namespace Search

variable {rules n : Nat} {search : Search rules n}

/-- No goal is remembered to end before it starts. -/
def InRange (search : Search rules n) : Prop :=
  ∀ goal entry, search.memo? goal = some entry → entry.ends.From goal.2

theorem inRange_empty : ({} : Search rules n).InRange := fun goal entry found => by
  simp [memo?] at found

theorem InRange.fail (range : search.InRange) (p : Spot n) : (search.fail p).InRange :=
  fun goal entry found => range goal entry (memo?_fail ▸ found)

theorem InRange.grow (range : search.InRange) {goal : Goal rules n} {seed : Ends n}
    (behind : seed.From goal.2) (reentered : Bool) :
    (search.grow goal seed reentered).InRange := by
  intro other entry found
  rw [memo?_grow] at found
  split at found
  · subst other
    cases found
    exact behind
  · exact range other entry found

theorem InRange.settle (range : search.InRange) {goal : Goal rules n} {ends : Ends n}
    (behind : ends.From goal.2) : (search.settle goal ends).InRange := by
  intro other entry found
  rw [memo?_settle] at found
  split at found
  · subst other
    cases found
    exact behind
  · exact range other entry found

theorem InRange.forget (range : search.InRange) (mark : Nat) : (search.forget mark).InRange := by
  intro goal entry found
  by_cases gone : goal ∈ search.settled.take (search.settled.length - mark)
  · rw [memo?_forget_of_mem gone] at found
    cases found
  · rw [memo?_forget_of_not_mem gone] at found
    exact range goal entry found

end Search

namespace Find

/-- What a search is asked for: the ends of a node, which are noted, or one of
the parts that its evaluation is made of. A goal is searched again for as many
rounds as are given. -/
inductive Query (rules n : Nat) where
  | node (node : Node rules) (p : Spot n)
  | work (node : Node rules) (p : Spot n)
  | any (items : List (Node rules)) (p : Spot n)
  | all (items : List (Node rules)) (ends : Ends n)
  | each (node : Node rules) (spots : List (Spot n))
  | rounds (node : Node rules) (count : Nat) (ends : Ends n)
  | reach (node : Node rules) (frontier : List (Spot n)) (found : Ends n)
  | regrow (goal : Goal rules n) (mark : Nat) (ends : Ends n) (rounds : Nat)

/-- What is noted of a search: a node that was evaluated, with the nesting that
was left and the state it was evaluated in, or how often a goal was searched
again. -/
inductive Note (rules n : Nat) where
  | evaluated (depth : Nat) (node : Node rules) (p : Spot n) (before : Search rules n)
    (ends : Ends n)
  | regrown (goal : Goal rules n) (rounds : Nat)

def Query.From {rules n : Nat} (low : Spot n) : Query rules n → Prop
  | .node _ p => low ≤ p
  | .work _ p => low ≤ p
  | .any _ p => low ≤ p
  | .all _ ends => ends.From low
  | .rounds _ _ ends => ends.From low
  | .each _ spots => ∀ p ∈ spots, low ≤ p
  | .reach _ frontier found => (∀ p ∈ frontier, low ≤ p) ∧ found.From low
  | .regrow goal _ ends _ => low ≤ goal.2 ∧ ends.From goal.2

def Note.InRange {rules n : Nat} : Note rules n → Prop
  | .evaluated _ _ _ before _ => before.InRange
  | .regrown .. => True

/-- Rounds that find something take room. -/
def Query.Limited {rules n : Nat} : Query rules n → Prop
  | .regrow _ _ ends again => again ≤ ends.room + 1
  | _ => True

end Find

namespace Program

variable (program : Program) {n : Nat} (tokens : Vector Text n)

/-- Derivations of searches, with the nesting that is left, the notes that are
taken, the ends that are found and the states before and after. -/
inductive Finds : Nat → Find.Query program.names.length n → Search program.names.length n →
    List (Find.Note program.names.length n) → Ends n → Search program.names.length n → Prop where
  | node : Finds depth (.work node p) before log ends after →
      Finds depth (.node node p) before (log ++ [.evaluated depth node p before ends]) ends after
  | alternation : Finds depth (.any items p) before log ends after →
      Finds depth (.work (.alternation items) p) before log ends after
  | sequence : Finds depth (.all items {p}) before log ends after →
      Finds depth (.work (.sequence items) p) before log ends after
  | optional {inner} : Finds depth (.node inner p) before log ends after →
      Finds depth (.work (.optional inner) p) before log ({p} ∪ ends) after
  | repeated {inner} : Finds depth (.reach inner [p] {p}) before log ends after →
      Finds depth (.work (.repeated inner) p) before log ends after
  | oneOrMore {inner} : Finds depth (.node inner p) before log first mid →
      Finds depth (.reach inner first.toList.reverse first) mid log' ends after →
      Finds depth (.work (.oneOrMore inner) p) before (log ++ log') ends after
  | times {inner} : Finds depth (.rounds inner count {p}) before log ends after →
      Finds depth (.work (.times count inner) p) before log ends after
  | except : Finds depth (.node kept p) before log ends mid →
      Finds depth (.node dropped p) mid log' excluded after →
      Finds depth (.work (.except kept dropped) p) before (log ++ log') (ends \ excluded) after
  | blank : Finds depth (.work (.terminal []) p) before [] {p} before
  | terminal : literal ≠ [] → tokens[p.val]? = some literal → e.val = p.val + 1 →
      Finds depth (.work (.terminal literal) p) before [] {e} before
  | missing : literal ≠ [] → tokens[p.val]? ≠ some literal →
      Finds depth (.work (.terminal literal) p) before [] ∅ (before.fail p)
  | anyToken : p.val < n → e.val = p.val + 1 →
      Finds depth (.work .anyToken p) before [] {e} before
  | noToken : ¬ p.val < n → Finds depth (.work .anyToken p) before [] ∅ (before.fail p)
  | empty : Finds depth (.work .empty p) before [] {p} before
  | settled : before.memo? (index, p) = some (.settled ends) →
      Finds depth (.work (.rule index) p) before [] ends before
  | reentered : before.memo? (index, p) = some (.growing seed again) →
      Finds depth (.work (.rule index) p) before [] seed (before.grow (index, p) seed true)
  | refused : before.memo? (index, p) = none →
      Finds 0 (.work (.rule index) p) before [] ∅ ((before.refuse (index, p)).fail p)
  | rule : before.memo? (index, p) = none →
      Finds depth (.node (program.body index) p) (before.grow (index, p) ∅ false) log first mid →
      Finds depth (.regrow (index, p) before.settled.length first rounds) mid log' ends after →
      Finds (depth + 1) (.work (.rule index) p) before
        (log ++ log' ++ [.regrown (index, p) rounds]) ends (after.settle (index, p) ends)
  | anyNil : Finds depth (.any [] p) before [] ∅ before
  | anyCons : Finds depth (.node item p) before log first mid →
      Finds depth (.any items p) mid log' others after →
      Finds depth (.any (item :: items) p) before (log ++ log') (first ∪ others) after
  | allNil : Finds depth (.all [] ends) before [] ends before
  | allStop : Finds depth (.each item ends.toList) before log ∅ after →
      Finds depth (.all (item :: items) ends) before log ∅ after
  | allCons : Finds depth (.each item ends.toList) before log next mid → next ≠ ∅ →
      Finds depth (.all items next) mid log' last after →
      Finds depth (.all (item :: items) ends) before (log ++ log') last after
  | eachNil {inner} : Finds depth (.each inner []) before [] ∅ before
  | eachCons {inner} : Finds depth (.node inner p) before log first mid →
      Finds depth (.each inner spots) mid log' others after →
      Finds depth (.each inner (p :: spots)) before (log ++ log') (first ∪ others) after
  | roundsNone {inner} : Finds depth (.rounds inner 0 ends) before [] ends before
  | roundsStop {inner} : Finds depth (.each inner ends.toList) before log next after →
      next = ∅ ∨ next = ends →
      Finds depth (.rounds inner (count + 1) ends) before log next after
  | roundsMore {inner} : Finds depth (.each inner ends.toList) before log next mid →
      ¬ (next = ∅ ∨ next = ends) → Finds depth (.rounds inner count next) mid log' last after →
      Finds depth (.rounds inner (count + 1) ends) before (log ++ log') last after
  | reachNil {inner} : Finds depth (.reach inner [] found) before [] found before
  | reachCons {inner} : Finds depth (.node inner p) before log ends mid →
      Finds depth (.reach inner (Find.push p ends.toList (rest, found)).1
        (Find.push p ends.toList (rest, found)).2) mid log' last after →
      Finds depth (.reach inner (p :: rest) found) before (log ++ log') last after
  | regrowDone : before.reentered goal = false →
      Finds depth (.regrow goal mark ends 0) before [] ends before
  | regrowLast : before.reentered goal = true →
      Finds depth (.node (program.body goal.1) goal.2) ((before.forget mark).grow goal ends false)
        log next after → next ⊆ ends →
      Finds depth (.regrow goal mark ends 1) before log ends after
  | regrowMore : before.reentered goal = true →
      Finds depth (.node (program.body goal.1) goal.2) ((before.forget mark).grow goal ends false)
        log next mid → ¬ next ⊆ ends →
      Finds depth (.regrow goal mark (ends ∪ next) rounds) mid log' last after →
      Finds depth (.regrow goal mark ends (rounds + 1)) before (log ++ log') last after

def answer (depth : Nat) : Find.Query program.names.length n → Find program.names.length n
  | .node node p => node.eval tokens (program.rule tokens depth) p
  | .work node p => node.eval tokens (program.rule tokens depth) p
  | .any items p => Node.evalAny tokens (program.rule tokens depth) items p
  | .all items ends => Node.evalAll tokens (program.rule tokens depth) items ends
  | .each node spots => Find.each (node.eval tokens (program.rule tokens depth)) spots
  | .rounds node count ends => Find.rounds (node.eval tokens (program.rule tokens depth)) count ends
  | .reach node frontier found =>
    Find.reach (node.eval tokens (program.rule tokens depth)) frontier found
  | .regrow goal mark ends _ => Find.regrow goal mark
      ((program.body goal.1).eval tokens (program.rule tokens depth) goal.2) ends

variable {program tokens} {depth : Nat}

section

variable {before mid after : Search program.names.length n} {index : Fin program.names.length}
  {p : Spot n}

theorem rule_of_regrow {first ends : Ends n} (unknown : before.memo? (index, p) = none)
    (once : (program.body index).eval tokens (program.rule tokens depth) p
      (before.grow (index, p) ∅ false) = (first, mid))
    (again : Find.regrow (index, p) before.settled.length
      ((program.body index).eval tokens (program.rule tokens depth) p) first mid = (ends, after)) :
    program.rule tokens (depth + 1) index p before = (ends, after.settle (index, p) ends) := by
  simp [rule_of_unknown unknown, Find.goal, once, again]

end

theorem Finds.answer_eq {query : Find.Query program.names.length n}
    {before after : Search program.names.length n} {log : List (Find.Note program.names.length n)}
    {ends : Ends n} (finds : program.Finds tokens depth query before log ends after) :
    program.answer tokens depth query before = (ends, after) := by
  induction finds with
  | node _ ih => exact ih
  | alternation _ ih => exact ih
  | sequence _ ih => exact ih
  | optional _ ih =>
    simp only [answer] at ih
    simp [answer, Node.eval, ih]
  | repeated _ ih => exact ih
  | oneOrMore _ _ ih₁ ih₂ =>
    simp only [answer] at ih₁ ih₂
    simp [answer, Node.eval, Find.closure, ih₁, ih₂]
  | times _ ih => exact ih
  | except _ _ ih₁ ih₂ =>
    simp only [answer] at ih₁ ih₂
    simp only [answer, Node.eval, Find.bind_apply, ih₁, ih₂, Find.pure_apply]
  | blank => rfl
  | terminal wanted found next => rw [answer, Node.eval_terminal_hit wanted found next]; rfl
  | missing wanted absent => rw [answer, Node.eval_terminal_miss wanted absent]; rfl
  | anyToken inside next =>
    rw [← Fin.ext (a := ⟨_, Nat.succ_lt_succ inside⟩) next.symm]
    simp [answer, Node.eval, Find.token, inside]
  | noToken outside => simp [answer, Node.eval, Find.token, outside, Find.miss]
  | empty => rfl
  | settled known => exact rule_of_settled known
  | reentered known => exact rule_of_growing known
  | refused unknown => exact rule_of_refused unknown
  | rule unknown _ _ ih₁ ih₂ => exact rule_of_regrow unknown ih₁ ih₂
  | anyNil => rfl
  | anyCons _ _ ih₁ ih₂ =>
    simp only [answer] at ih₁ ih₂
    simp only [answer, Node.evalAny, Find.bind_apply, ih₁, ih₂, Find.pure_apply]
  | allNil => rfl
  | allStop _ ih =>
    simp only [answer] at ih
    simp [answer, Node.evalAll, ih]
  | allCons _ some_ends _ ih₁ ih₂ =>
    simp only [answer] at ih₁ ih₂
    simp [answer, Node.evalAll, ih₁, ih₂, some_ends]
  | eachNil => rfl
  | eachCons _ _ ih₁ ih₂ =>
    simp only [answer] at ih₁ ih₂
    simp only [answer, Find.each, Find.bind_apply, ih₁, ih₂, Find.pure_apply]
  | roundsNone => rfl
  | roundsStop _ stop ih =>
    simp only [answer] at ih
    simp [answer, Find.rounds, ih, stop]
  | roundsMore _ more _ ih₁ ih₂ =>
    simp only [answer] at ih₁ ih₂
    simp [answer, Find.rounds, ih₁, ih₂, more]
  | reachNil => simp [answer, Find.reach]
  | reachCons _ _ ih₁ ih₂ =>
    simp only [answer] at ih₁ ih₂
    simp [answer, Find.reach, ih₁, ih₂]
  | regrowDone done => simp [answer, Find.regrow, done]
  | regrowLast back _ sub ih =>
    simp only [answer] at ih
    simp [answer, Find.regrow, back, ih, sub]
  | regrowMore back _ new _ ih₁ ih₂ =>
    simp only [answer] at ih₁ ih₂
    rw [answer, Find.regrow, if_pos back, ih₁]
    simp [new, ih₂]

variable (program tokens depth) in
def Answers (query : Find.Query program.names.length n) (before : Search program.names.length n) :
    Prop :=
  ∃ log ends after, program.Finds tokens depth query before log ends after

section

variable {node : Node program.names.length}

theorem answers_each (answers : ∀ p before, program.Answers tokens depth (.node node p) before)
    (spots : List (Spot n)) (before : Search program.names.length n) :
    program.Answers tokens depth (.each node spots) before := by
  induction spots generalizing before with
  | nil => exact ⟨_, _, _, .eachNil⟩
  | cons p spots ih =>
    obtain ⟨_, _, mid, first⟩ := answers p before
    obtain ⟨_, _, _, others⟩ := ih mid
    exact ⟨_, _, _, .eachCons first others⟩

theorem answers_rounds (answers : ∀ p before, program.Answers tokens depth (.node node p) before)
    (count : Nat) (ends : Ends n) (before : Search program.names.length n) :
    program.Answers tokens depth (.rounds node count ends) before := by
  induction count generalizing ends before with
  | zero => exact ⟨_, _, _, .roundsNone⟩
  | succ count ih =>
    obtain ⟨_, next, mid, first⟩ := answers_each answers ends.toList before
    by_cases stop : next = ∅ ∨ next = ends
    · exact ⟨_, _, _, .roundsStop first stop⟩
    · obtain ⟨_, _, _, last⟩ := ih next mid
      exact ⟨_, _, _, .roundsMore first stop last⟩

/-- The worklist runs empty: each spot that is put on it takes room. -/
theorem answers_reach (answers : ∀ p before, program.Answers tokens depth (.node node p) before)
    (frontier : List (Spot n)) (found : Ends n) (before : Search program.names.length n) :
    program.Answers tokens depth (.reach node frontier found) before := by
  induction size : frontier.length + found.room using Nat.strongRecOn
    generalizing frontier found before with
  | ind size ih =>
    cases frontier with
    | nil => exact ⟨_, _, _, .reachNil⟩
    | cons p rest =>
      obtain ⟨_, ends, mid, first⟩ := answers p before
      let next := Find.push p ends.toList (rest, found)
      have less : next.1.length + next.2.room ≤ rest.length + found.room :=
        Find.push_size p ends.toList rest found
      rw [List.length_cons] at size
      obtain ⟨_, _, _, last⟩ := ih (next.1.length + next.2.room) (by omega) next.1 next.2 mid rfl
      exact ⟨_, _, _, .reachCons first last⟩

/-- A goal is searched again until nothing is new: what is new takes room. -/
theorem answers_regrow (goal : Goal program.names.length n) (answers : ∀ before,
      program.Answers tokens depth (.node (program.body goal.1) goal.2) before)
    (mark : Nat) (ends : Ends n) (before : Search program.names.length n) :
    ∃ again, program.Answers tokens depth (.regrow goal mark ends again) before := by
  induction size : ends.room using Nat.strongRecOn generalizing ends before with
  | ind size ih =>
    cases back : before.reentered goal with
    | false => exact ⟨_, _, _, _, .regrowDone back⟩
    | true =>
      obtain ⟨_, next, mid, first⟩ := answers ((before.forget mark).grow goal ends false)
      by_cases sub : next ⊆ ends
      · exact ⟨_, _, _, _, .regrowLast back first sub⟩
      · obtain ⟨_, _, _, _, last⟩ := ih _ (size ▸ Ends.room_union_lt sub) (ends ∪ next) mid rfl
        exact ⟨_, _, _, _, .regrowMore back first sub last⟩

end

mutual

theorem answers_node
    (calls : ∀ index p before, program.Answers tokens depth (.work (.rule index) p) before)
    (node : Node program.names.length) (p : Spot n)
    (before : Search program.names.length n) :
    program.Answers tokens depth (.node node p) before := by
  obtain ⟨_, _, _, finds⟩ := answers_work calls node p before
  exact ⟨_, _, _, .node finds⟩

theorem answers_work
    (calls : ∀ index p before, program.Answers tokens depth (.work (.rule index) p) before)
    (node : Node program.names.length) (p : Spot n)
    (before : Search program.names.length n) :
    program.Answers tokens depth (.work node p) before := by
  cases node with
  | alternation items =>
    obtain ⟨_, _, _, finds⟩ := answers_any calls items p before
    exact ⟨_, _, _, .alternation finds⟩
  | sequence items =>
    obtain ⟨_, _, _, finds⟩ := answers_all calls items {p} before
    exact ⟨_, _, _, .sequence finds⟩
  | optional inner =>
    obtain ⟨_, _, _, finds⟩ := answers_node calls inner p before
    exact ⟨_, _, _, .optional finds⟩
  | repeated inner =>
    obtain ⟨_, _, _, finds⟩ := answers_reach (answers_node calls inner) [p] {p} before
    exact ⟨_, _, _, .repeated finds⟩
  | oneOrMore inner =>
    obtain ⟨_, _, _, first⟩ := answers_node calls inner p before
    obtain ⟨_, _, _, last⟩ := answers_reach (answers_node calls inner) _ _ _
    exact ⟨_, _, _, .oneOrMore first last⟩
  | times count inner =>
    obtain ⟨_, _, _, finds⟩ := answers_rounds (answers_node calls inner) count {p} before
    exact ⟨_, _, _, .times finds⟩
  | except kept dropped =>
    obtain ⟨_, _, mid, first⟩ := answers_node calls kept p before
    obtain ⟨_, _, _, second⟩ := answers_node calls dropped p mid
    exact ⟨_, _, _, .except first second⟩
  | terminal literal =>
    by_cases blank : literal = []
    · subst blank
      exact ⟨_, _, _, .blank⟩
    · by_cases found : tokens[p.val]? = some literal
      · obtain ⟨inside, -⟩ := Vector.getElem?_eq_some_iff.mp found
        exact ⟨_, {⟨p.val + 1, Nat.succ_lt_succ inside⟩}, _, .terminal blank found rfl⟩
      · exact ⟨_, _, _, .missing blank found⟩
  | rule index => exact calls index p before
  | anyToken =>
    by_cases inside : p.val < n
    · exact ⟨_, {⟨p.val + 1, Nat.succ_lt_succ inside⟩}, _, .anyToken inside rfl⟩
    · exact ⟨_, _, _, .noToken inside⟩
  | empty => exact ⟨_, _, _, .empty⟩

theorem answers_any
    (calls : ∀ index p before, program.Answers tokens depth (.work (.rule index) p) before)
    (items : List (Node program.names.length)) (p : Spot n)
    (before : Search program.names.length n) :
    program.Answers tokens depth (.any items p) before := by
  cases items with
  | nil => exact ⟨_, _, _, .anyNil⟩
  | cons item items =>
    obtain ⟨_, _, mid, first⟩ := answers_node calls item p before
    obtain ⟨_, _, _, others⟩ := answers_any calls items p mid
    exact ⟨_, _, _, .anyCons first others⟩

theorem answers_all
    (calls : ∀ index p before, program.Answers tokens depth (.work (.rule index) p) before)
    (items : List (Node program.names.length)) (ends : Ends n)
    (before : Search program.names.length n) :
    program.Answers tokens depth (.all items ends) before := by
  cases items with
  | nil => exact ⟨_, _, _, .allNil⟩
  | cons item items =>
    obtain ⟨_, next, mid, first⟩ := answers_each (answers_node calls item) ends.toList before
    by_cases none : next = ∅
    · subst none
      exact ⟨_, _, _, .allStop first⟩
    · obtain ⟨_, _, _, last⟩ := answers_all calls items next mid
      exact ⟨_, _, _, .allCons first none last⟩

end

theorem answers_rule (depth : Nat) (index : Fin program.names.length) (p : Spot n)
    (before : Search program.names.length n) :
    program.Answers tokens depth (.work (.rule index) p) before := by
  induction depth generalizing index p before with
  | zero =>
    match known : before.memo? (index, p) with
    | some (.settled ends) => exact ⟨_, _, _, .settled known⟩
    | some (.growing seed again) => exact ⟨_, _, _, .reentered known⟩
    | none => exact ⟨_, _, _, .refused known⟩
  | succ depth ih =>
    match known : before.memo? (index, p) with
    | some (.settled ends) => exact ⟨_, _, _, .settled known⟩
    | some (.growing seed again) => exact ⟨_, _, _, .reentered known⟩
    | none =>
      obtain ⟨_, first, mid, body⟩ := answers_node ih (program.body index) p
        (before.grow (index, p) ∅ false)
      obtain ⟨_, _, _, _, last⟩ := answers_regrow (index, p)
        (answers_node ih (program.body index) p) before.settled.length first mid
      exact ⟨_, _, _, .rule known body last⟩

/-- A goal is not searched again more often than there is room for new ends, and
once more to see that there are none. -/
theorem Finds.limited {query : Find.Query program.names.length n}
    {before after : Search program.names.length n} {log : List (Find.Note program.names.length n)}
    {ends : Ends n} (finds : program.Finds tokens depth query before log ends after) :
    query.Limited := by
  induction finds with
  | regrowDone => exact Nat.zero_le _
  | regrowLast => exact Nat.le_add_left ..
  | regrowMore _ _ new _ _ ih =>
    have less := Ends.room_union_lt new
    simp only [Find.Query.Limited] at ih ⊢
    omega
  | _ => trivial

variable (program tokens) in
/-- What holds of everything that is noted: the ends are those of the node in
that state, none lies before its start or behind the last token, and a goal is
searched again for at most two rounds more than there are tokens. -/
def Holds : Find.Note program.names.length n → Prop
  | .evaluated depth node p before ends =>
    (node.eval tokens (program.rule tokens depth) p before).1 = ends ∧
      ∀ e ∈ ends, p.val ≤ e.val ∧ e.val ≤ n
  | .regrown _ again => again ≤ n + 2

theorem from_push {low p : Spot n} (le : low ≤ p) (es : List (Spot n))
    {frontier : List (Spot n)} {found : Ends n} (behind : ∀ q ∈ frontier, low ≤ q)
    (range : found.From low) :
    (∀ q ∈ (Find.push p es (frontier, found)).1, low ≤ q) ∧
      (Find.push p es (frontier, found)).2.From low := by
  induction es generalizing frontier found with
  | nil => exact ⟨behind, range⟩
  | cons e es ih =>
    unfold Find.push
    split
    · rename_i new
      have later : low ≤ e := Fin.le_trans le (Fin.le_of_lt new.1)
      exact ih (List.forall_mem_cons.mpr ⟨later, behind⟩) (range.union (.singleton later))
    · exact ih behind range

theorem le_of_next {low p e : Spot n} (le : low ≤ p) (next : e.val = p.val + 1) : low ≤ e := by
  rw [Fin.le_def] at le ⊢
  omega

theorem Finds.staysInRange {query : Find.Query program.names.length n}
    {before after : Search program.names.length n} {log : List (Find.Note program.names.length n)}
    {ends : Ends n} (finds : program.Finds tokens depth query before log ends after)
    (range : before.InRange) {low : Spot n} (behind : query.From low) :
    after.InRange ∧ ends.From low ∧ ∀ note ∈ log, program.Holds tokens note ∧ note.InRange := by
  -- The induction is on the derivation. Every part is asked for at or behind `low`, and what
  -- it remembers is in range for the next one.
  induction finds generalizing low with
  | @node depth node p before log ends after work ih =>
    obtain ⟨kept, here, notes⟩ := ih range (Fin.le_refl p)
    refine ⟨kept, here.mono behind, List.forall_mem_append.mpr ⟨notes, ?_⟩⟩
    rw [List.forall_mem_singleton]
    have value := work.answer_eq
    exact ⟨⟨congrArg Prod.fst value, fun e member => ⟨here e member, Nat.le_of_lt_succ e.isLt⟩⟩,
      range⟩
  | alternation _ ih => exact ih range behind
  | sequence _ ih => exact ih range (.singleton behind)
  | optional _ ih =>
    obtain ⟨kept, ends, notes⟩ := ih range behind
    exact ⟨kept, (Ends.From.singleton behind).union ends, notes⟩
  | repeated _ ih => exact ih range ⟨List.forall_mem_singleton.mpr behind, .singleton behind⟩
  | oneOrMore _ _ ih₁ ih₂ =>
    obtain ⟨kept, first, notes⟩ := ih₁ range behind
    obtain ⟨kept, last, notes'⟩ :=
      ih₂ kept ⟨fun p member => first p (List.mem_reverse.mp member), first⟩
    exact ⟨kept, last, List.forall_mem_append.mpr ⟨notes, notes'⟩⟩
  | times _ ih => exact ih range (.singleton behind)
  | except _ _ ih₁ ih₂ =>
    obtain ⟨kept, first, notes⟩ := ih₁ range behind
    obtain ⟨kept, -, notes'⟩ := ih₂ kept behind
    exact ⟨kept, first.sdiff _, List.forall_mem_append.mpr ⟨notes, notes'⟩⟩
  | blank => exact ⟨range, .singleton behind, by simp⟩
  | terminal _ _ next => exact ⟨range, .singleton (le_of_next behind next), by simp⟩
  | missing => exact ⟨range.fail _, .empty _, by simp⟩
  | anyToken _ next => exact ⟨range, .singleton (le_of_next behind next), by simp⟩
  | noToken => exact ⟨range.fail _, .empty _, by simp⟩
  | empty => exact ⟨range, .singleton behind, by simp⟩
  | settled known => exact ⟨range, (range _ _ known).mono behind, by simp⟩
  | reentered known =>
    exact ⟨range.grow (range _ _ known) true, (range _ _ known).mono behind, by simp⟩
  | refused =>
    refine ⟨Search.InRange.fail ?_ _, .empty _, by simp⟩
    exact range
  | rule unknown _ again ih₁ ih₂ =>
    obtain ⟨kept, first, notes⟩ := ih₁ (range.grow (.empty _) false) (Fin.le_refl _)
    obtain ⟨kept, last, notes'⟩ := ih₂ kept ⟨Fin.le_refl _, first⟩
    refine ⟨kept.settle last, last.mono behind, ?_⟩
    have limit := again.limited
    simp only [Find.Query.Limited, Ends.room] at limit
    simp only [List.forall_mem_append, List.forall_mem_singleton]
    exact ⟨⟨notes, notes'⟩, by simp only [Holds]; omega, trivial⟩
  | anyNil => exact ⟨range, .empty _, by simp⟩
  | anyCons _ _ ih₁ ih₂ =>
    obtain ⟨kept, first, notes⟩ := ih₁ range behind
    obtain ⟨kept, others, notes'⟩ := ih₂ kept behind
    exact ⟨kept, first.union others, List.forall_mem_append.mpr ⟨notes, notes'⟩⟩
  | allNil => exact ⟨range, behind, by simp⟩
  | allStop _ ih => exact ih range behind
  | allCons _ _ _ ih₁ ih₂ =>
    obtain ⟨kept, next, notes⟩ := ih₁ range behind
    obtain ⟨kept, last, notes'⟩ := ih₂ kept next
    exact ⟨kept, last, List.forall_mem_append.mpr ⟨notes, notes'⟩⟩
  | eachNil => exact ⟨range, .empty _, by simp⟩
  | eachCons _ _ ih₁ ih₂ =>
    obtain ⟨here, others⟩ := List.forall_mem_cons.mp behind
    obtain ⟨kept, first, notes⟩ := ih₁ range here
    obtain ⟨kept, rest, notes'⟩ := ih₂ kept others
    exact ⟨kept, first.union rest, List.forall_mem_append.mpr ⟨notes, notes'⟩⟩
  | roundsNone => exact ⟨range, behind, by simp⟩
  | roundsStop _ _ ih => exact ih range behind
  | roundsMore _ _ _ ih₁ ih₂ =>
    obtain ⟨kept, next, notes⟩ := ih₁ range behind
    obtain ⟨kept, last, notes'⟩ := ih₂ kept next
    exact ⟨kept, last, List.forall_mem_append.mpr ⟨notes, notes'⟩⟩
  | reachNil => exact ⟨range, behind.2, by simp⟩
  | reachCons _ _ ih₁ ih₂ =>
    obtain ⟨here, others⟩ := List.forall_mem_cons.mp behind.1
    obtain ⟨kept, -, notes⟩ := ih₁ range here
    obtain ⟨kept, last, notes'⟩ := ih₂ kept (from_push here _ others behind.2)
    exact ⟨kept, last, List.forall_mem_append.mpr ⟨notes, notes'⟩⟩
  | regrowDone => exact ⟨range, behind.2.mono behind.1, by simp⟩
  | regrowLast _ _ _ ih =>
    obtain ⟨kept, -, notes⟩ := ih ((range.forget _).grow behind.2 false) (Fin.le_refl _)
    exact ⟨kept, behind.2.mono behind.1, notes⟩
  | regrowMore _ _ _ _ ih₁ ih₂ =>
    obtain ⟨kept, next, notes⟩ := ih₁ ((range.forget _).grow behind.2 false) (Fin.le_refl _)
    obtain ⟨kept, last, notes'⟩ := ih₂ kept ⟨behind.1, behind.2.union next⟩
    exact ⟨kept, last, List.forall_mem_append.mpr ⟨notes, notes'⟩⟩

theorem Finds.inRange {query : Find.Query program.names.length n}
    {before after : Search program.names.length n} {log : List (Find.Note program.names.length n)}
    {ends : Ends n} (finds : program.Finds tokens depth query before log ends after)
    (range : before.InRange) {low : Spot n} (behind : query.From low) :
    after.InRange ∧ ends.From low ∧ ∀ note ∈ log, program.Holds tokens note := by
  obtain ⟨kept, here, notes⟩ := finds.staysInRange range behind
  exact ⟨kept, here, fun note found => (notes note found).1⟩

variable (program) in
/-- A finite run over all tokens, with what was noted and the outcome. -/
inductive Matches (tokens : List Text) :
    List (Find.Note program.names.length tokens.toArray.size) → Outcome → Prop where
  | intro : program.Finds tokens.toArray.toVector maxDepth (.node (.rule program.startRule) 0)
      {} log ends search →
    Matches tokens log (if reached ends search < tokens.length then .haltedAt (reached ends search)
      else .complete)

/-- Every match has a finite run, and in every run all ends are in range and no
goal is searched again for more than two rounds beyond the number of tokens. A match
halts at one of its tokens. -/
theorem outcome_terminates (program : Program) (tokens : List Text) :
    (∃ log, program.Matches tokens log (program.outcome tokens)) ∧
      ∀ log outcome, program.Matches tokens log outcome → outcome = program.outcome tokens ∧
        (∀ note ∈ log, program.Holds tokens.toArray.toVector note) ∧
        ∀ index, outcome = .haltedAt index → index < tokens.length := by
  have value {log : List (Find.Note program.names.length tokens.toArray.size)} {ends search}
      (finds : program.Finds tokens.toArray.toVector maxDepth
        (.node (.rule program.startRule) 0) {} log ends search) :
      program.run tokens.toArray.toVector = (ends, search) := finds.answer_eq
  constructor
  · have answers : program.Answers tokens.toArray.toVector maxDepth
        (.work (.rule program.startRule) 0) {} := answers_rule maxDepth program.startRule 0 {}
    obtain ⟨log, ends, search, work⟩ := answers
    have same : program.outcome tokens = if reached ends search < tokens.length
        then .haltedAt (reached ends search) else .complete := by
      simp only [outcome, value (.node work)]
    rw [same]
    exact ⟨_, .intro (.node work)⟩
  · rintro log outcome ⟨finds⟩
    obtain ⟨-, -, notes⟩ := finds.inRange Search.inRange_empty (Fin.zero_le _)
    refine ⟨by simp only [Program.outcome, value finds], notes, fun index halted => ?_⟩
    split at halted
    · cases halted
      assumption
    · cases halted

end Program
end GrammarDesk
