import GrammarDesk.Proofs.Match.Strata
import GrammarDesk.Proofs.Reading.References

/-! What grammars mean as they are written: phrases call rules by their names,
and a name derives whatever one of its rules does. Resolving the names keeps
the meaning. Right operands of exceptions are judged stratum by stratum on
either side. -/
namespace GrammarDesk

namespace Phrase

/-- What names may derive, as seen from a phrase. -/
abbrev Call (n : Nat) := Text → Spot n → Spot n → Prop

/-- What right operands of exceptions derive. -/
abbrev Exceptions (n : Nat) := Phrase → Spot n → Spot n → Prop

variable {n : Nat} (tokens : Vector Text n) (call : Call n) (excluded : Exceptions n)

inductive Derives : Phrase → Spot n → Spot n → Prop where
  | alternation : item ∈ items → Derives item p e → Derives (.alternation items) p e
  | finish : Derives (.sequence []) p p
  | advance : Derives item p q → Derives (.sequence items) q e →
      Derives (.sequence (item :: items)) p e
  | skip {inner} : Derives (.optional inner) p p
  | take {inner} : Derives inner p e → Derives (.optional inner) p e
  | stop {inner} : Derives (.repeated inner) p p
  | again {inner} : Derives inner p q → Derives (.repeated inner) q e →
    Derives (.repeated inner) p e
  | zeroOrMore {inner} : Derives (.repeated inner) p e → Derives (.zeroOrMore inner) p e
  | oneOrMore {inner} : Derives inner p q → Derives (.repeated inner) q e →
      Derives (.oneOrMore inner) p e
  | never {inner} : Derives (.times 0 inner) p p
  | once {inner} : Derives inner p q → Derives (.times count inner) q e →
      Derives (.times (count + 1) inner) p e
  | except : Derives kept p e → ¬ excluded dropped p e → Derives (.except kept dropped) p e
  | blank : Derives (.terminal []) p p
  | terminal : literal ≠ [] → tokens[p.val]? = some literal → e.val = p.val + 1 →
      Derives (.terminal literal) p e
  | reference : call name p e → Derives (.reference name) p e
  | special : p.val < n → e.val = p.val + 1 → Derives (.special text) p e
  | empty : Derives .empty p p

end Phrase

namespace Grammar

variable (grammar : Grammar) {n : Nat} (tokens : Vector Text n)

/-- What names derive: all that the rules of that name do. -/
inductive Derives (excluded : Phrase.Exceptions n) : Text → Spot n → Spot n → Prop where
  | apply : ⟨name, body⟩ ∈ grammar.rules → body.Derives tokens (Derives excluded) excluded p e →
      Derives excluded name p e

/-- What phrases derive when their right operands are taken from the stratum below. -/
def stratum : Nat → Phrase.Exceptions n
  | 0 => fun _ _ _ => False
  | k + 1 => fun phrase p e =>
    phrase.Derives tokens (grammar.Derives tokens (stratum k)) (stratum k) p e

/-- What a phrase derives from some stratum on. -/
def Yields : Phrase.Exceptions n :=
  fun phrase p e => ∃ k, ∀ l ≥ k, grammar.stratum tokens l phrase p e

variable {grammar tokens} {excluded : Phrase.Exceptions n}

/-- Derivability is the least relation that the rules are closed under. -/
theorem Derives.least {call : Phrase.Call n}
    (closed : ∀ name body p e, ⟨name, body⟩ ∈ grammar.rules →
      body.Derives tokens call excluded p e → call name p e)
    (derives : grammar.Derives tokens excluded name p e) : call name p e := by
  refine @Derives.rec _ _ _ _ (fun name p e _ => call name p e)
    (fun phrase p e _ => phrase.Derives tokens call excluded p e)
    ?apply ?alternation ?finish ?advance ?skip ?take ?stop ?again ?zeroOrMore ?oneOrMore ?never
    ?once ?except ?blank ?terminal ?reference ?special ?empty _ _ _ derives
  case apply => exact fun member _ ih => closed _ _ _ _ member ih
  case alternation => exact fun member _ ih => .alternation member ih
  case finish => exact .finish
  case advance => exact fun _ _ ih₁ ih₂ => .advance ih₁ ih₂
  case skip => exact .skip
  case take => exact fun _ ih => .take ih
  case stop => exact .stop
  case again => exact fun _ _ ih₁ ih₂ => .again ih₁ ih₂
  case zeroOrMore => exact fun _ ih => .zeroOrMore ih
  case oneOrMore => exact fun _ _ ih₁ ih₂ => .oneOrMore ih₁ ih₂
  case never => exact .never
  case once => exact fun _ _ ih₁ ih₂ => .once ih₁ ih₂
  case except => exact fun _ free ih => .except ih free
  case blank => exact .blank
  case terminal => exact fun wanted found next => .terminal wanted found next
  case reference => exact fun _ ih => .reference ih
  case special => exact fun inside next => .special inside next
  case empty => exact .empty

end Grammar

inductive Resolves (names : List Text) : Phrase → Node names.length → Prop where
  | alternation : List.Forall₂ (Resolves names) items nodes →
      Resolves names (.alternation items) (.alternation nodes)
  | sequence : List.Forall₂ (Resolves names) items nodes →
      Resolves names (.sequence items) (.sequence nodes)
  | optional : Resolves names phrase node → Resolves names (.optional phrase) (.optional node)
  | repeated : Resolves names phrase node → Resolves names (.repeated phrase) (.repeated node)
  | zeroOrMore : Resolves names phrase node → Resolves names (.zeroOrMore phrase) (.repeated node)
  | oneOrMore : Resolves names phrase node → Resolves names (.oneOrMore phrase) (.oneOrMore node)
  | times : Resolves names phrase node → Resolves names (.times count phrase) (.times count node)
  | except : Resolves names kept left → Resolves names dropped right →
      Resolves names (.except kept dropped) (.except left right)
  | terminal : Resolves names (.terminal literal) (.terminal literal)
  | reference : names[index] = name → Resolves names (.reference name) (.rule index)
  | special : Resolves names (.special text) .anyToken
  | empty : Resolves names .empty .empty

theorem exists_right_of_mem {α β : Type} {relation : α → β → Prop} {lefts : List α}
    {rights : List β} (all : List.Forall₂ relation lefts rights) {left : α}
    (member : left ∈ lefts) : ∃ right ∈ rights, relation left right := by
  induction all with
  | nil => cases member
  | cons related _ ih =>
    rcases List.mem_cons.mp member with rfl | member
    · exact ⟨_, List.mem_cons_self, related⟩
    · obtain ⟨right, found, related⟩ := ih member
      exact ⟨right, List.mem_cons_of_mem _ found, related⟩

theorem exists_left_of_mem {α β : Type} {relation : α → β → Prop} {lefts : List α}
    {rights : List β} (all : List.Forall₂ relation lefts rights) {right : β}
    (member : right ∈ rights) : ∃ left ∈ lefts, relation left right :=
  exists_right_of_mem all.flip member

section

variable {names : List Text} {n : Nat} {tokens : Vector Text n}
  {call : Phrase.Call n} {other : Node.Call names.length n}
  {excluded : Phrase.Exceptions n} {removed : Node.Exceptions names.length n}
  {phrase : Phrase} {node : Node names.length} {p e : Spot n}

def Agree (names : List Text) (excluded : Phrase.Exceptions n)
    (removed : Node.Exceptions names.length n) : Prop :=
  ∀ phrase node, Resolves names phrase node → ∀ p e, excluded phrase p e ↔ removed node p e

theorem Phrase.Derives.resolve (calls : ∀ index p e, call names[index] p e → other index p e)
    (agree : Agree names excluded removed) (derives : phrase.Derives tokens call excluded p e)
    (resolves : Resolves names phrase node) : node.Derives tokens other removed p e := by
  -- The phrase tells which constructor resolved it, and the node derives by the like rule.
  induction derives generalizing node with
  | alternation member _ ih =>
    cases resolves with
    | alternation all =>
      obtain ⟨node, found, resolves⟩ := exists_right_of_mem all member
      exact .alternation found (ih resolves)
  | finish =>
    cases resolves with
    | sequence all =>
      cases all
      exact .finish
  | advance _ _ ih₁ ih₂ =>
    cases resolves with
    | sequence all =>
      cases all with
      | cons first rest => exact .advance (ih₁ first) (ih₂ (.sequence rest))
  | skip =>
    cases resolves
    exact .skip
  | take _ ih =>
    cases resolves with
    | optional inner => exact .take (ih inner)
  | stop =>
    cases resolves
    exact .stop
  | again _ _ ih₁ ih₂ =>
    cases resolves with
    | repeated inner => exact .again (ih₁ inner) (ih₂ (.repeated inner))
  | zeroOrMore _ ih =>
    cases resolves with
    | zeroOrMore inner => exact ih (.repeated inner)
  | oneOrMore _ _ ih₁ ih₂ =>
    cases resolves with
    | oneOrMore inner => exact .oneOrMore (ih₁ inner) (ih₂ (.repeated inner))
  | never =>
    cases resolves
    exact .never
  | once _ _ ih₁ ih₂ =>
    cases resolves with
    | times inner => exact .once (ih₁ inner) (ih₂ (.times inner))
  | except _ free ih =>
    cases resolves with
    | except kept right =>
      exact .except (ih kept) fun found => free ((agree _ _ right _ _).mpr found)
  | blank =>
    cases resolves
    exact .blank
  | terminal wanted found next =>
    cases resolves
    exact .terminal wanted found next
  | reference answer =>
    cases resolves with
    | reference known =>
      subst known
      exact .rule (calls _ _ _ answer)
  | special inside next =>
    cases resolves
    exact .anyToken inside next
  | empty =>
    cases resolves
    exact .empty

theorem Node.Derives.unresolve (calls : ∀ index p e, other index p e → call names[index] p e)
    (agree : Agree names excluded removed) (derives : node.Derives tokens other removed p e)
    (resolves : Resolves names phrase node) : phrase.Derives tokens call excluded p e := by
  induction derives generalizing phrase with
  | alternation member _ ih =>
    cases resolves with
    | alternation all =>
      obtain ⟨item, found, resolves⟩ := exists_left_of_mem all member
      exact .alternation found (ih resolves)
  | finish =>
    cases resolves with
    | sequence all =>
      cases all
      exact .finish
  | advance _ _ ih₁ ih₂ =>
    cases resolves with
    | sequence all =>
      cases all with
      | cons first rest => exact .advance (ih₁ first) (ih₂ (.sequence rest))
  | skip =>
    cases resolves
    exact .skip
  | take _ ih =>
    cases resolves with
    | optional inner => exact .take (ih inner)
  | stop =>
    -- Both spellings of a repetition are resolved to the same node.
    cases resolves with
    | repeated _ => exact .stop
    | zeroOrMore _ => exact .zeroOrMore .stop
  | again _ _ ih₁ ih₂ =>
    cases resolves with
    | repeated inner => exact .again (ih₁ inner) (ih₂ (.repeated inner))
    | zeroOrMore inner => exact .zeroOrMore (.again (ih₁ inner) (ih₂ (.repeated inner)))
  | oneOrMore _ _ ih₁ ih₂ =>
    cases resolves with
    | oneOrMore inner => exact .oneOrMore (ih₁ inner) (ih₂ (.repeated inner))
  | never =>
    cases resolves
    exact .never
  | once _ _ ih₁ ih₂ =>
    cases resolves with
    | times inner => exact .once (ih₁ inner) (ih₂ (.times inner))
  | except _ free ih =>
    cases resolves with
    | except kept right =>
      exact .except (ih kept) fun found => free ((agree _ _ right _ _).mp found)
  | blank =>
    cases resolves
    exact .blank
  | terminal wanted found next =>
    cases resolves
    exact .terminal wanted found next
  | rule answer =>
    cases resolves with
    | reference known =>
      subst known
      exact .reference (calls _ _ _ answer)
  | anyToken inside next =>
    cases resolves
    exact .special inside next
  | empty =>
    cases resolves
    exact .empty

theorem Resolves.derives_iff (calls : ∀ index p e, call names[index] p e ↔ other index p e)
    (agree : Agree names excluded removed) (resolves : Resolves names phrase node) :
    phrase.Derives tokens call excluded p e ↔ node.Derives tokens other removed p e :=
  ⟨fun derives => derives.resolve (fun index p e => (calls index p e).mp) agree resolves,
    fun derives => derives.unresolve (fun index p e => (calls index p e).mpr) agree resolves⟩

end

theorem Node.derives_merge_iff {rules n : Nat} {tokens : Vector Text n} {call : Call rules n}
    {excluded : Exceptions rules n} {definitions : List (Node rules)} {p e : Spot n} :
    (merge definitions).Derives tokens call excluded p e ↔
      ∃ definition ∈ definitions, definition.Derives tokens call excluded p e := by
  have alternatives : (alternation definitions).Derives tokens call excluded p e ↔
      ∃ definition ∈ definitions, definition.Derives tokens call excluded p e := by
    constructor
    · intro derives
      cases derives with
      | alternation member derives => exact ⟨_, member, derives⟩
    · rintro ⟨definition, member, derives⟩
      exact .alternation member derives
  match definitions with
  | [definition] => simp [merge]
  | [] | _ :: _ :: _ => exact alternatives

/-- A program has one body for each name of a grammar, made from all rules of
that name. -/
def Merges (grammar : Grammar) (program : Program) : Prop :=
  ∀ index, ∃ definitions, program.body index = Node.merge definitions ∧
    List.Forall₂ (fun rule => Resolves program.names rule.body)
      (grammar.rules.filter (·.name = program.names[index])) definitions

structure Preserves (grammar : Grammar) (program : Program) : Prop where
  nodup : program.names.Nodup
  mem_names : ∀ name, name ∈ program.names ↔ name ∈ grammar.names
  start : grammar.names.head? = some program.startName
  inside : ∀ body ∈ program.bodies.toList, ∀ index, Node.Occurs (.rule index) body →
    index.val < program.bodies.toList.length
  derives : ∀ {n : Nat} (tokens : Vector Text n) (excluded : Phrase.Exceptions n)
    (removed : Node.Exceptions program.names.length n), Agree program.names excluded removed →
    ∀ index p e, grammar.Derives tokens excluded program.names[index] p e ↔
      program.Derives tokens removed index p e
  yields : ∀ {n : Nat} (tokens : Vector Text n) (index : Fin program.names.length) (p e : Spot n),
    grammar.Yields tokens (.reference program.names[index]) p e ↔
      program.Yields tokens (.rule index) p e

namespace Merges

variable {grammar : Grammar} {program : Program} {n : Nat} {tokens : Vector Text n}
  {excluded : Phrase.Exceptions n} {removed : Node.Exceptions program.names.length n}
  {phrase : Phrase} {node : Node program.names.length} {index : Fin program.names.length}
  {p e : Spot n}

theorem derives_iff (merges : Merges grammar program)
    (agree : Agree program.names excluded removed) :
    grammar.Derives tokens excluded program.names[index] p e ↔
      program.Derives tokens removed index p e := by
  constructor
  · intro derives
    let call : Phrase.Call n := fun name p e => ∀ index, program.names[index] = name →
      program.Derives tokens removed index p e
    suffices call program.names[index] p e from this index rfl
    refine derives.least fun name body p e member derives index same => ?_
    have found : ⟨name, body⟩ ∈ grammar.rules.filter (·.name = program.names[index]) := by
      simp [member, same]
    obtain ⟨definitions, merged, all⟩ := merges index
    obtain ⟨definition, found, resolves⟩ := exists_right_of_mem all found
    refine .apply List.not_mem_nil ?_
    rw [merged, Node.derives_merge_iff]
    exact ⟨definition, found, derives.resolve (fun _ _ _ answer => answer _ rfl) agree resolves⟩
  · intro derives
    let call : Node.Call program.names.length n := fun index p e =>
      grammar.Derives tokens excluded program.names[index] p e
    suffices call index p e from this
    refine derives.least fun index p e _ body => ?_
    obtain ⟨definitions, merged, all⟩ := merges index
    rw [merged, Node.derives_merge_iff] at body
    obtain ⟨definition, found, derives⟩ := body
    obtain ⟨⟨name, phrase⟩, member, resolves⟩ := exists_left_of_mem all found
    obtain ⟨member, same⟩ := List.mem_filter.mp member
    have named : name = program.names[index] := by simpa using same
    subst named
    exact .apply member (derives.unresolve (fun _ _ _ => id) agree resolves)

theorem agree_stratum (merges : Merges grammar program) (k : Nat) :
    Agree program.names (grammar.stratum tokens k) (program.stratum tokens k) := by
  induction k with
  | zero => exact fun _ _ _ _ _ => Iff.rfl
  | succ k ih =>
    intro phrase node resolves p e
    exact resolves.derives_iff (fun index p e => merges.derives_iff ih) ih

theorem agree_yields (merges : Merges grammar program) :
    Agree program.names (grammar.Yields tokens) (program.Yields tokens) := by
  intro phrase node resolves p e
  simp only [Grammar.Yields, Program.Yields]
  constructor
  · rintro ⟨k, all⟩
    exact ⟨k, fun l more => (merges.agree_stratum l _ _ resolves p e).mp (all l more)⟩
  · rintro ⟨k, all⟩
    exact ⟨k, fun l more => (merges.agree_stratum l _ _ resolves p e).mpr (all l more)⟩

end Merges

end GrammarDesk
