import GrammarDesk.Proofs.Match.Exactness
import GrammarDesk.Proofs.Match.Language

/-! A run gets as far as the tokens begin a sentence. Whatever the search comes
to can be completed to a sentence, so it looks nowhere beyond; and where a
sentence goes on, some leaf asks for its next token, so the search gets there. -/
namespace GrammarDesk

namespace Node

variable {rules n : Nat} (tokens : Vector Text n) (spelled : Fin rules → List Text → Prop)

structure Completes (node : Node rules) (p : Spot n) (part : Node rules) (q : Spot n) : Prop where
  le : p ≤ q
  around : ∃ rest, ∀ word, part.Spells spelled word →
    node.Spells spelled (slice tokens p q ++ word ++ rest)

variable {tokens spelled} {call : Call rules n} {excluded : Exceptions rules n}
  {node part first rest inner : Node rules} {p q r : Spot n} {word : List Text}

theorem Completes.map (completes : Completes tokens spelled inner p part q)
    (spells : ∀ word, inner.Spells spelled word → node.Spells spelled word) :
    Completes tokens spelled node p part q where
  le := completes.le
  around := completes.around.imp fun _ around word part => spells _ (around word part)

theorem Completes.before (completes : Completes tokens spelled first p part q)
    (join : ∀ u v, first.Spells spelled u → rest.Spells spelled v → node.Spells spelled (u ++ v))
    (after : ∃ word, rest.Spells spelled word) : Completes tokens spelled node p part q where
  le := completes.le
  around := by
    obtain ⟨more, around⟩ := completes.around
    obtain ⟨last, spells⟩ := after
    refine ⟨more ++ last, fun word part => ?_⟩
    rw [← List.append_assoc]
    exact join _ _ (around word part) spells

theorem Completes.after (completes : Completes tokens spelled rest r part q)
    (join : ∀ u v, first.Spells spelled u → rest.Spells spelled v → node.Spells spelled (u ++ v))
    (le : p ≤ r) (before : first.Spells spelled (slice tokens p r)) :
    Completes tokens spelled node p part q where
  le := Fin.le_trans le completes.le
  around := by
    obtain ⟨more, around⟩ := completes.around
    refine ⟨more, fun word part => ?_⟩
    rw [← slice_append le completes.le, List.append_assoc, List.append_assoc]
    refine join _ _ before ?_
    rw [← List.append_assoc]
    exact around word part

theorem Completes.trans (outer : Completes tokens spelled node p inner q)
    (completes : Completes tokens spelled inner q part r) :
    Completes tokens spelled node p part r where
  le := Fin.le_trans outer.le completes.le
  around := by
    obtain ⟨last, around⟩ := outer.around
    obtain ⟨more, around'⟩ := completes.around
    refine ⟨more ++ last, fun word part => ?_⟩
    rw [← slice_append outer.le completes.le]
    simpa only [List.append_assoc] using around _ (around' word part)

theorem Visits.completes (plain : node.Plain) (fertile : ∀ index, ∃ word, spelled index word)
    (forward : ∀ index p e, call index p e → p ≤ e)
    (answers : ∀ index p e, call index p e → spelled index (slice tokens p e))
    (visits : node.Visits tokens call excluded p part q) :
    Completes tokens spelled node p part q := by
  have spells : ∀ {item : Node rules} {p r}, item.Plain →
      item.Derives tokens call excluded p r → item.Spells spelled (slice tokens p r) :=
    fun plain derives => derives.spells plain.free forward answers
  -- What stands in front of the part has spelled its tokens, and what follows it has some word.
  induction visits with
  | here => exact ⟨Fin.le_refl _, [], fun word part => by simpa using part⟩
  | alternation member _ ih =>
    exact (ih (plain.mono (includes_of_occurs fun _ => .alternation member))).map
      fun _ => .alternation member
  | first _ ih =>
    exact (ih (plain.mono includes_head)).before (fun _ _ => .advance)
      (exists_spells fertile _ (plain.mono includes_sequence))
  | later head _ ih =>
    exact (ih (plain.mono includes_sequence)).after (fun _ _ => .advance) (head.le forward)
      (spells (plain.mono includes_head) head)
  | optional _ ih =>
    exact (ih (plain.mono (includes_of_occurs fun _ => .optional))).map fun _ => .take
  | repeated _ ih =>
    exact (ih (plain.mono (includes_of_occurs fun _ => .repeated))).before (fun _ _ => .again)
      ⟨[], .stop⟩
  | again head _ ih =>
    exact (ih plain).after (fun _ _ => .again) (head.le forward)
      (spells (plain.mono (includes_of_occurs fun _ => .repeated)) head)
  | oneOrMore _ ih =>
    exact (ih (plain.mono (includes_of_occurs fun _ => .oneOrMore))).before
      (fun _ _ => .oneOrMore) ⟨[], .stop⟩
  | more head _ ih =>
    exact (ih (plain.mono includes_oneOrMore)).after (fun _ _ => .oneOrMore) (head.le forward)
      (spells (plain.mono (includes_of_occurs fun _ => .oneOrMore)) head)
  | times _ ih =>
    exact (ih (plain.mono (includes_of_occurs fun _ => .times))).before (fun _ _ => .once)
      (exists_spells fertile _ (plain.mono includes_times))
  | once head _ ih =>
    exact (ih (plain.mono includes_times)).after (fun _ _ => .once) (head.le forward)
      (spells (plain.mono (includes_of_occurs fun _ => .times)) head)
  | kept | dropped => exact absurd .here (plain.free _ _)

def Asks : Node rules → Prop
  | .terminal literal => literal ≠ []
  | .anyToken => True
  | _ => False

theorem Asks.spells_or_misses (asks : node.Asks) :
    (∃ token, tokens[p.val]? = some token ∧ node.Spells spelled [token]) ∨
      node.Misses tokens p := by
  cases node with
  | terminal literal =>
    by_cases found : tokens[p.val]? = some literal
    · exact Or.inl ⟨literal, found, .terminal asks⟩
    · exact Or.inr ⟨asks, found⟩
  | anyToken =>
    by_cases inside : p.val < n
    · exact Or.inl ⟨_, Vector.getElem?_eq_some_iff.mpr ⟨inside, rfl⟩, .anyToken _⟩
    · exact Or.inr (show p.val = n by omega)
  | _ => exact asks.elim

end Node

namespace Program

open Node

section Leads

variable (program : Program) {n : Nat} (tokens : Vector Text n)
  (excluded : Exceptions program.names.length n)

/-- Where a word of the node goes on after `q`, a token is asked for there. -/
def Leads (node : Node program.names.length) (word : List Text) : Prop :=
  ∀ p q more, program.Comes tokens excluded node p → p ≤ q → word = slice tokens p q ++ more →
    more ≠ [] → ∃ part, program.Comes tokens excluded part q ∧ part.Asks

variable {program tokens excluded} {node first rest inner item : Node program.names.length}
  {index : Fin program.names.length} {p q r : Spot n} {u v word : List Text}

theorem Leads.map (leads : program.Leads tokens excluded inner word)
    (visits : ∀ p, node.Visits tokens (program.Derives tokens excluded) excluded p inner p) :
    program.Leads tokens excluded node word :=
  fun p q more comes => leads p q more (.visit comes (visits p))

theorem leads_nil : program.Leads tokens excluded node [] :=
  fun _ _ _ _ _ split nonempty => absurd (List.append_eq_nil_iff.mp split.symm).2 nonempty

theorem leads_singleton {token : Text} (asks : node.Asks) :
    program.Leads tokens excluded node [token] := by
  intro p q more comes le split nonempty
  rcases List.append_eq_singleton_iff.mp split.symm with ⟨here, _⟩ | ⟨_, none⟩
  · cases eq_of_slice_eq_nil le here
    exact ⟨node, comes, asks⟩
  · exact absurd none nonempty

theorem Leads.append (head : first.Spells program.Spells u)
    (visits : ∀ p, node.Visits tokens (program.Derives tokens excluded) excluded p first p)
    (visits' : ∀ p q, first.Derives tokens (program.Derives tokens excluded) excluded p q →
      node.Visits tokens (program.Derives tokens excluded) excluded p rest q)
    (leads : program.Leads tokens excluded first u)
    (leads' : program.Leads tokens excluded rest v) :
    program.Leads tokens excluded node (u ++ v) := by
  intro p q more comes le split nonempty
  have go : ∀ r between, p ≤ r → slice tokens p r = u → r ≤ q → slice tokens r q = between →
      v = between ++ more → ∃ part, program.Comes tokens excluded part q ∧ part.Asks :=
    fun r between le₁ done le₂ here split => leads' r q more
      (.visit comes (visits' p r (node_derives_of_spells head le₁ done))) le₂ (here ▸ split)
      nonempty
  rcases List.append_eq_append_iff.mp split.symm with ⟨more', done, rfl⟩ | ⟨between, here, split⟩
  · by_cases spent : more' = []
    · subst spent
      exact go q [] le (by simpa using done.symm) (Fin.le_refl q) slice_self (by simp)
    · exact leads p q more' (.visit comes (visits p)) le done spent
  · obtain ⟨r, le₁, le₂, done, here⟩ := exists_spot_of_slice_eq_append le here
    exact go r between le₁ done le₂ here split

theorem leads_of_node_spells {spelled : Fin program.names.length → List Text → Prop}
    (rules : ∀ index word, spelled index word →
      program.Spells index word ∧ program.Leads tokens excluded (.rule index) word)
    (spells : node.Spells spelled word) : program.Leads tokens excluded node word := by
  have mono : ∀ {node : Node program.names.length} {word}, node.Spells spelled word →
      node.Spells program.Spells word :=
    fun spells => spells.mono fun index word answer => (rules index word answer).1
  induction spells with
  | alternation member _ ih => exact ih.map fun _ => .alternation member .here
  | finish | skip | stop | never | blank | empty => exact leads_nil
  | advance head _ ih₁ ih₂ =>
    exact ih₁.append (mono head) (fun _ => .first .here) (fun _ _ one => .later one .here) ih₂
  | take _ ih => exact ih.map fun _ => .optional .here
  | again head _ ih₁ ih₂ =>
    exact ih₁.append (mono head) (fun _ => .repeated .here) (fun _ _ one => .again one .here) ih₂
  | oneOrMore head _ ih₁ ih₂ =>
    exact ih₁.append (mono head) (fun _ => .oneOrMore .here) (fun _ _ one => .more one .here) ih₂
  | once head _ ih₁ ih₂ =>
    exact ih₁.append (mono head) (fun _ => .times .here) (fun _ _ one => .once one .here) ih₂
  | terminal wanted => exact leads_singleton wanted
  | rule answer => exact (rules _ _ answer).2
  | anyToken token => exact leads_singleton trivial

theorem leads_of_spells (spells : program.Spells index word) :
    program.Leads tokens excluded (.rule index) word := by
  let spelled : Fin program.names.length → List Text → Prop := fun index word =>
    program.Spells index word ∧ program.Leads tokens excluded (.rule index) word
  suffices spelled index word from this.2
  refine spells.least fun index word body => ⟨.apply (body.mono fun _ _ answer => answer.1), ?_⟩
  exact fun p q more comes => leads_of_node_spells (fun _ _ => id) body p q more (.body comes)

theorem Comes.completes (free : program.ExceptFree) (choices : program.NonemptyAlternations)
    (fertile : ∀ index, ∃ word, program.Spells index word)
    (comes : program.Comes tokens excluded node p) :
    node.Plain ∧ Completes tokens program.Spells (.rule program.startRule) 0 node p := by
  induction comes with
  | start =>
    exact ⟨⟨fun _ _ => by simp, by simp⟩, Fin.le_refl _, [], fun word part => by simpa using part⟩
  | visit _ visits ih =>
    obtain ⟨plain, outer⟩ := ih
    have inner := visits.completes plain fertile (fun _ _ _ answer => answer.le)
      (fun _ _ _ => spells_of_derives free)
    exact ⟨plain.mono visits.includes, outer.trans inner⟩
  | body _ ih =>
    exact ⟨⟨free _, choices _⟩, ih.2.le, ih.2.around.imp fun _ around word part =>
      around word (.rule (.apply part))⟩

end Leads

section Run

variable {program : Program} {n : Nat} {tokens : Vector Text n}
  {excluded : Exceptions program.names.length n} {node part : Node program.names.length}
  {p q : Spot n}

theorem accounts_of_comes (stratified : program.Stratified)
    (law : program.Lawful tokens excluded)
    (calm : (program.run tokens).2.refused = [])
    (comes : program.Comes tokens excluded node p) :
    ∀ part q, node.Visits tokens (program.run tokens).2.answers excluded p part q →
      Search.Accounts tokens (program.run tokens).2 part q := by
  obtain ⟨sane, covers⟩ := run_covers stratified law (Or.inl calm)
  have clean : ∀ index other q, (program.run tokens).2.Growing (other, q) →
      ¬ Relation.ReflTransGen program.Refers index other :=
    fun _ other q growing => absurd growing (not_growing_run (other, q))
  induction comes with
  | start => exact covers.accounted 0 (List.mem_singleton_self 0)
  | @visit node p part q _ visits ih =>
    intro inner r inside
    have visits : node.Visits tokens (program.run tokens).2.answers excluded p part q :=
      visits.transfer fun index s e found derives =>
        sane.answers (clean index) (ih _ s found) (by rwa [calm])
    exact ih inner r (visits.trans inside)
  | @body index p _ ih =>
    obtain ⟨ends, offered⟩ := ((ih _ p .here).rule index rfl).resolve_right (by simp [calm])
    have known := offered.resolve_right fun growing =>
      not_growing_run (index, p) ⟨ends, true, growing⟩
    exact (sane.settled index p ends known).accounted p (List.mem_singleton_self p)

/-- Where a sentence begins, the run gets, or the next token is in a sentence
too: a leaf asks for it, and misses it or finds it. -/
theorem le_reached_or_viable_succ (free : program.ExceptFree)
    (choices : program.NonemptyAlternations)
    (fertile : ∀ index, ∃ word, program.Spells index word)
    (calm : (program.run tokens).2.refused = []) (viable : program.Viable (slice tokens 0 p)) :
    p.val ≤ reached (program.run tokens).1 (program.run tokens).2 ∨
      p.val < n ∧ program.Viable (slice tokens 0 (p.val + 1)) := by
  have law := lawful_yields tokens free.stratified
  obtain ⟨rest, sentence⟩ := viable
  rw [generates_rule_iff_spells free] at sentence
  by_cases spent : rest = []
  · subst spent
    have derives : program.Derives tokens (program.Yields tokens) program.startRule 0 p :=
      derives_of_spells sentence (Fin.zero_le p) (by simp)
    rw [Derives, ← calm] at derives
    exact Or.inl (le_reached_of_mem
      (mem_run_of_derivesAvoiding free.stratified law (Or.inl calm) derives))
  · obtain ⟨part, comes, asks⟩ :=
      leads_of_spells sentence 0 p rest .start (Fin.zero_le p) rfl spent
    rcases asks.spells_or_misses with ⟨token, found, spells⟩ | misses
    · obtain ⟨inside, rfl⟩ := Vector.getElem?_eq_some_iff.mp found
      obtain ⟨more, around⟩ := (comes.completes free choices fertile).2.around
      refine Or.inr ⟨inside, more, ?_⟩
      rw [generates_iff_spells free fun _ _ => by simp,
        ← slice_append (Nat.zero_le p.val) (Nat.le_succ p.val), slice_succ inside]
      exact around _ spells
    · exact Or.inl (le_reached_of_looked
        ((accounts_of_comes free.stratified law calm comes part p .here).misses misses))

theorem le_reached_of_viable (free : program.ExceptFree) (choices : program.NonemptyAlternations)
    (fertile : ∀ index, ∃ word, program.Spells index word)
    (calm : (program.run tokens).2.refused = []) (p : Spot n)
    (viable : program.Viable (slice tokens 0 p)) :
    p.val ≤ reached (program.run tokens).1 (program.run tokens).2 := by
  -- The induction is on the tokens that are left.
  induction left : n - p.val generalizing p with
  | zero =>
    rcases le_reached_or_viable_succ free choices fertile calm viable with le | ⟨inside, _⟩
    · exact le
    · omega
  | succ left ih =>
    rcases le_reached_or_viable_succ free choices fertile calm viable with le | ⟨inside, next⟩
    · exact le
    · exact Nat.le_of_succ_le (ih ⟨p.val + 1, by omega⟩ next (by simp only; omega))

theorem viable_reached (free : program.ExceptFree) (choices : program.NonemptyAlternations)
    (fertile : ∀ index, ∃ word, program.Spells index word)
    (calm : (program.run tokens).2.refused = []) :
    program.Viable (slice tokens 0 (reached (program.run tokens).1 (program.run tokens).2)) := by
  have law := lawful_yields tokens free.stratified
  obtain ⟨sane, covers⟩ := run_covers free.stratified law (Or.inl calm)
  rcases reached_cases (program.run tokens).1 (program.run tokens).2 with
    ⟨e, member, same⟩ | ⟨p, furthest, same⟩ | same
  · obtain ⟨q, start, derives⟩ := covers.sound e member
    cases List.mem_singleton.mp start
    have spells := spells_of_node_derives free (fun _ _ => by simp) derives
    refine ⟨[], ?_⟩
    rw [generates_iff_spells free fun _ _ => by simp, List.append_nil, same]
    exact spells
  · obtain ⟨part, comes, _⟩ := sane.looked calm p furthest
    obtain ⟨plain, completes⟩ := comes.completes free choices fertile
    obtain ⟨word, spells⟩ := exists_spells fertile part plain
    obtain ⟨rest, around⟩ := completes.around
    refine ⟨word ++ rest, ?_⟩
    rw [generates_iff_spells free fun _ _ => by simp, same, ← List.append_assoc]
    exact around word spells
  · obtain ⟨word, spells⟩ := fertile program.startRule
    refine ⟨word, ?_⟩
    rw [same, slice_self, List.nil_append, generates_rule_iff_spells free]
    exact spells

theorem Viable.of_append {u v : List Text} (viable : program.Viable (u ++ v)) :
    program.Viable u := by
  obtain ⟨rest, sentence⟩ := viable
  exact ⟨v ++ rest, by rwa [← List.append_assoc]⟩

theorem viable_slice_iff (free : program.ExceptFree) (choices : program.NonemptyAlternations)
    (fertile : ∀ index, ∃ word, program.Spells index word)
    (calm : (program.run tokens).2.refused = []) {m : Nat} (inside : m ≤ n) :
    program.Viable (slice tokens 0 m) ↔
      m ≤ reached (program.run tokens).1 (program.run tokens).2 := by
  constructor
  · exact le_reached_of_viable free choices fertile calm ⟨m, by omega⟩
  · intro le
    have viable := viable_reached free choices fertile calm
    rw [← slice_append (Nat.zero_le m) le] at viable
    exact viable.of_append

end Run

/-- A match is complete if the tokens begin a sentence; otherwise it halts at
the first token that no sentence has there. -/
theorem outcome_iff_viable (program : Program) (free : program.ExceptFree)
    (choices : program.NonemptyAlternations)
    (fertile : ∀ index, ∃ word, program.Generates (.rule index) word) (tokens : List Text)
    (calm : (program.run tokens.toArray.toVector).2.refused = []) :
    (program.outcome tokens = .complete ↔ program.Viable tokens) ∧
      ∀ i, program.outcome tokens = .haltedAt i ↔ i < tokens.length ∧
        program.Viable (tokens.take i) ∧ ¬ program.Viable (tokens.take (i + 1)) := by
  have fertile : ∀ index, ∃ word, program.Spells index word := fun index =>
    (fertile index).imp fun _ => (generates_rule_iff_spells free).mp
  have begins : ∀ m ≤ tokens.length, program.Viable (tokens.take m) ↔
      m ≤ reached (program.run tokens.toArray.toVector).1
        (program.run tokens.toArray.toVector).2 := by
    intro m inside
    rw [← viable_slice_iff free choices fertile calm inside, slice_zero]
    rfl
  -- So the outcome is a comparison of numbers.
  rw [outcome_eq]
  generalize reached (program.run tokens.toArray.toVector).1
    (program.run tokens.toArray.toVector).2 = far at begins ⊢
  have all := begins tokens.length (Nat.le_refl _)
  rw [List.take_length] at all
  constructor
  · rw [all]
    split
    · simp only [reduceCtorEq, false_iff]
      omega
    · simp only [true_iff]
      omega
  · intro i
    by_cases inside : i < tokens.length
    · rw [begins i (Nat.le_of_lt inside), begins (i + 1) inside]
      split
      · simp only [Outcome.haltedAt.injEq]
        omega
      · simp only [reduceCtorEq, false_iff]
        omega
    · refine ⟨fun halted => ?_, fun ⟨lt, _⟩ => absurd lt inside⟩
      split at halted
      · cases halted
        contradiction
      · cases halted

/-- Names in brackets: `name = '(', name, ')' | name, '!' | 'n' ;`. -/
abbrev brackets : Program where
  names := ["name".toList]
  bodies := #v[
    .alternation [.sequence [.terminal ['('], .rule ⟨0, by decide⟩, .terminal [')']],
      .sequence [.rule ⟨0, by decide⟩, .terminal ['!']], .terminal ['n']]]
  start := by decide

theorem body_brackets (index : Fin brackets.names.length) :
    brackets.body index = .alternation
      [.sequence [.terminal ['('], .rule ⟨0, by decide⟩, .terminal [')']],
        .sequence [.rule ⟨0, by decide⟩, .terminal ['!']], .terminal ['n']] := by
  have only : index = ⟨0, by decide⟩ := Fin.ext (Nat.lt_one_iff.mp index.isLt)
  rw [only]
  rfl

theorem brackets_outcome_iff_viable :
    brackets.ExceptFree ∧ brackets.NonemptyAlternations ∧
      (∀ index, ∃ word, brackets.Generates (.rule index) word) ∧
      (brackets.run [['('], ['n'], ['x']].toArray.toVector).2.refused = [] ∧
      (brackets.outcome [['('], ['n'], ['x']] = .complete ↔
        brackets.Viable [['('], ['n'], ['x']]) ∧
      ∀ i, brackets.outcome [['('], ['n'], ['x']] = .haltedAt i ↔ i < 3 ∧
        brackets.Viable ([['('], ['n'], ['x']].take i) ∧
        ¬ brackets.Viable ([['('], ['n'], ['x']].take (i + 1)) := by
  have free : brackets.ExceptFree := fun index kept dropped => by simp [body_brackets]
  have choices : brackets.NonemptyAlternations := fun index => by simp [body_brackets]
  have fertile : ∀ index, ∃ word, brackets.Generates (.rule index) word := fun index => by
    refine ⟨[['n']], (generates_rule_iff_spells free).mpr (.apply ?_)⟩
    rw [body_brackets]
    exact .alternation (by simp) (.terminal (by simp))
  have calm : (brackets.run [['('], ['n'], ['x']].toArray.toVector).2.refused = [] :=
    refused_run_eq_nil (by decide)
  exact ⟨free, choices, fertile, calm,
    outcome_iff_viable brackets free choices fertile [['('], ['n'], ['x']] calm⟩

end Program
end GrammarDesk
