import GrammarDesk.Proofs.Match.Strata

/-! The language of a program: the token lists that its start rule derives as a
whole. Without exceptions a list can be spelled from left to right, node by
node, wherever it stands. -/
namespace GrammarDesk

def slice (tokens : Vector Text n) (p q : Nat) : List Text := (tokens.toList.take q).drop p

section Slice

variable {n p q r : Nat} {tokens : Vector Text n}

@[simp] theorem slice_self : slice tokens p p = [] := by
  simp [slice]

theorem slice_zero : slice tokens 0 q = tokens.toList.take q := by simp [slice]

theorem length_slice (inside : q ≤ n) : (slice tokens p q).length = q - p := by
  simp [slice, Nat.min_eq_left inside]

theorem slice_append (le₁ : p ≤ q) (le₂ : q ≤ r) :
    slice tokens p q ++ slice tokens q r = slice tokens p r := by
  refine List.ext_getElem? fun i => ?_
  simp only [slice, List.getElem?_append, List.getElem?_drop, List.getElem?_take,
    List.length_drop, List.length_take, Vector.length_toList]
  grind

theorem slice_eq_append (le : p ≤ q) (inside : q ≤ n) {left right : List Text}
    (split : slice tokens p q = left ++ right) :
    ∃ r, p ≤ r ∧ r ≤ q ∧ slice tokens p r = left ∧ slice tokens r q = right := by
  have length := congrArg List.length split
  rw [length_slice inside, List.length_append] at length
  have joined : slice tokens p (p + left.length) ++ slice tokens (p + left.length) q =
      left ++ right := (slice_append (by omega) (by omega)).trans split
  have sizes : (slice tokens p (p + left.length)).length = left.length := by
    rw [length_slice (by omega)]
    omega
  obtain ⟨first, second⟩ := List.append_inj joined sizes
  exact ⟨p + left.length, by omega, by omega, first, second⟩

theorem slice_succ (h : p < n) : slice tokens p (p + 1) = [tokens[p]] := by
  refine List.ext_getElem? fun i => ?_
  simp only [slice, List.getElem?_drop, List.getElem?_take]
  cases i with
  | zero => simp [h]
  | succ i => simp [show ¬ p + (i + 1) < p + 1 by omega]

theorem exists_spot_of_slice_eq_append {p e : Spot n} {left right : List Text} (le : p ≤ e)
    (here : slice tokens p e = left ++ right) :
    ∃ q : Spot n, p ≤ q ∧ q ≤ e ∧ slice tokens p q = left ∧ slice tokens q e = right := by
  obtain ⟨r, le₁, le₂, first, second⟩ := slice_eq_append le (by omega) here
  exact ⟨⟨r, by omega⟩, le₁, le₂, first, second⟩

theorem eq_of_slice_eq_nil {p e : Spot n} (le : p ≤ e) (here : slice tokens p e = []) : p = e := by
  have length := congrArg List.length here
  rw [length_slice (by omega), List.length_nil] at length
  exact Fin.le_antisymm le (Fin.le_def.mpr (by omega))

theorem of_slice_eq_singleton {p e : Spot n} {token : Text}
    (here : slice tokens p e = [token]) : tokens[p.val]? = some token ∧ e.val = p.val + 1 := by
  have length := congrArg List.length here
  rw [length_slice (by omega), List.length_singleton] at length
  have inside : p.val < n := by omega
  rw [show e.val = p.val + 1 by omega, slice_succ inside] at here
  exact ⟨Vector.getElem?_eq_some_iff.mpr ⟨inside, List.head_eq_of_cons_eq here⟩, by omega⟩

end Slice

namespace Node

variable {rules n : Nat}

/-- What a node spells, if rules spell what they are said to. -/
inductive Spells (call : Fin rules → List Text → Prop) : Node rules → List Text → Prop where
  | alternation : item ∈ items → Spells call item word → Spells call (.alternation items) word
  | finish : Spells call (.sequence []) []
  | advance : Spells call item u → Spells call (.sequence items) v →
      Spells call (.sequence (item :: items)) (u ++ v)
  | skip {inner} : Spells call (.optional inner) []
  | take {inner} : Spells call inner word → Spells call (.optional inner) word
  | stop {inner} : Spells call (.repeated inner) []
  | again {inner} : Spells call inner u → Spells call (.repeated inner) v →
      Spells call (.repeated inner) (u ++ v)
  | oneOrMore {inner} : Spells call inner u → Spells call (.repeated inner) v →
      Spells call (.oneOrMore inner) (u ++ v)
  | never {inner} : Spells call (.times 0 inner) []
  | once {inner} : Spells call inner u → Spells call (.times count inner) v →
      Spells call (.times (count + 1) inner) (u ++ v)
  | blank : Spells call (.terminal []) []
  | terminal : literal ≠ [] → Spells call (.terminal literal) [literal]
  | rule : call index word → Spells call (.rule index) word
  | anyToken (token : Text) : Spells call .anyToken [token]
  | empty : Spells call .empty []

variable {tokens : Vector Text n} {node item : Node rules} {items : List (Node rules)}
  {call : Call rules n} {excluded : Exceptions rules n} {spelled : Fin rules → List Text → Prop}
  {p e : Spot n} {word : List Text}

theorem Derives.spells (free : node.ExceptFree) (forward : ∀ index p e, call index p e → p ≤ e)
    (rules : ∀ index p e, call index p e → spelled index (slice tokens p e))
    (derives : node.Derives tokens call excluded p e) :
    node.Spells spelled (slice tokens p e) := by
  induction derives with
  | alternation member _ ih =>
    exact .alternation member (ih (free.mono (includes_of_occurs fun _ => .alternation member)))
  | finish => exact slice_self ▸ .finish
  | advance head tail ih₁ ih₂ =>
    rw [← slice_append (head.le forward) (tail.le forward)]
    exact .advance (ih₁ (free.mono includes_head)) (ih₂ (free.mono includes_sequence))
  | skip => exact slice_self ▸ .skip
  | take _ ih => exact .take (ih (free.mono (includes_of_occurs fun _ => .optional)))
  | stop => exact slice_self ▸ .stop
  | again head tail ih₁ ih₂ =>
    rw [← slice_append (head.le forward) (tail.le forward)]
    exact .again (ih₁ (free.mono (includes_of_occurs fun _ => .repeated))) (ih₂ free)
  | oneOrMore head tail ih₁ ih₂ =>
    rw [← slice_append (head.le forward) (tail.le forward)]
    exact .oneOrMore (ih₁ (free.mono (includes_of_occurs fun _ => .oneOrMore)))
      (ih₂ (free.mono includes_oneOrMore))
  | never => exact slice_self ▸ .never
  | once head tail ih₁ ih₂ =>
    rw [← slice_append (head.le forward) (tail.le forward)]
    exact .once (ih₁ (free.mono (includes_of_occurs fun _ => .times)))
      (ih₂ (free.mono includes_times))
  | except _ _ => exact absurd .here (free _ _)
  | blank => exact slice_self ▸ .blank
  | terminal wanted found next =>
    obtain ⟨inside, rfl⟩ := Vector.getElem?_eq_some_iff.mp found
    rw [next, slice_succ inside]
    exact .terminal wanted
  | rule answer => exact .rule (rules _ _ _ answer)
  | anyToken inside next =>
    rw [next, slice_succ inside]
    exact .anyToken _
  | empty => exact slice_self ▸ .empty

theorem Spells.derives
    (rules : ∀ index (p e : Spot n), p ≤ e → spelled index (slice tokens p e) → call index p e)
    (spells : node.Spells spelled word) :
    ∀ p e : Spot n, p ≤ e → slice tokens p e = word → node.Derives tokens call excluded p e := by
  induction spells with
  | alternation member _ ih => exact fun p e le here => .alternation member (ih p e le here)
  | finish => exact fun p e le here => eq_of_slice_eq_nil le here ▸ .finish
  | advance _ _ ih₁ ih₂ =>
    intro p e le here
    obtain ⟨q, le₁, le₂, first, second⟩ := exists_spot_of_slice_eq_append le here
    exact .advance (ih₁ p q le₁ first) (ih₂ q e le₂ second)
  | skip => exact fun p e le here => eq_of_slice_eq_nil le here ▸ .skip
  | take _ ih => exact fun p e le here => .take (ih p e le here)
  | stop => exact fun p e le here => eq_of_slice_eq_nil le here ▸ .stop
  | again _ _ ih₁ ih₂ =>
    intro p e le here
    obtain ⟨q, le₁, le₂, first, second⟩ := exists_spot_of_slice_eq_append le here
    exact .again (ih₁ p q le₁ first) (ih₂ q e le₂ second)
  | oneOrMore _ _ ih₁ ih₂ =>
    intro p e le here
    obtain ⟨q, le₁, le₂, first, second⟩ := exists_spot_of_slice_eq_append le here
    exact .oneOrMore (ih₁ p q le₁ first) (ih₂ q e le₂ second)
  | never => exact fun p e le here => eq_of_slice_eq_nil le here ▸ .never
  | once _ _ ih₁ ih₂ =>
    intro p e le here
    obtain ⟨q, le₁, le₂, first, second⟩ := exists_spot_of_slice_eq_append le here
    exact .once (ih₁ p q le₁ first) (ih₂ q e le₂ second)
  | blank => exact fun p e le here => eq_of_slice_eq_nil le here ▸ .blank
  | terminal wanted =>
    intro p e le here
    obtain ⟨found, next⟩ := of_slice_eq_singleton here
    exact .terminal wanted found next
  | rule answer => exact fun p e le here => .rule (rules _ p e le (here ▸ answer))
  | anyToken token =>
    intro p e le here
    obtain ⟨found, next⟩ := of_slice_eq_singleton here
    exact .anyToken (by omega) next
  | empty => exact fun p e le here => eq_of_slice_eq_nil le here ▸ .empty

theorem Spells.mono {other : Fin rules → List Text → Prop}
    (le : ∀ index word, spelled index word → other index word) (spells : node.Spells spelled word) :
    node.Spells other word := by
  induction spells with
  | alternation member _ ih => exact .alternation member ih
  | finish => exact .finish
  | advance _ _ ih₁ ih₂ => exact .advance ih₁ ih₂
  | skip => exact .skip
  | take _ ih => exact .take ih
  | stop => exact .stop
  | again _ _ ih₁ ih₂ => exact .again ih₁ ih₂
  | oneOrMore _ _ ih₁ ih₂ => exact .oneOrMore ih₁ ih₂
  | never => exact .never
  | once _ _ ih₁ ih₂ => exact .once ih₁ ih₂
  | blank => exact .blank
  | terminal wanted => exact .terminal wanted
  | rule answer => exact .rule (le _ _ answer)
  | anyToken token => exact .anyToken token
  | empty => exact .empty

/-- Nothing inside stands in the way of a word. -/
structure Plain (node : Node rules) : Prop where
  free : node.ExceptFree
  choices : ¬ Occurs (.alternation []) node

theorem Plain.mono {inner : Node rules} (plain : node.Plain) (includes : node.Includes inner) :
    inner.Plain :=
  ⟨plain.free.mono includes, plain.choices ∘ includes.choices⟩

-- By recursion on nodes; loops have the empty word or the word of their inner node.
mutual

theorem exists_spells (fertile : ∀ index, ∃ word, spelled index word) :
    ∀ node : Node rules, node.Plain → ∃ word, node.Spells spelled word
  | alternation [], plain => absurd .here plain.choices
  | alternation (item :: items), plain => by
    have member : item ∈ item :: items := List.mem_cons_self ..
    obtain ⟨word, spells⟩ := exists_spells fertile item
      (plain.mono (includes_of_occurs fun _ => .alternation member))
    exact ⟨word, .alternation member spells⟩
  | sequence items, plain => exists_spells_sequence fertile items plain
  | optional _, _ => ⟨[], .skip⟩
  | repeated _, _ => ⟨[], .stop⟩
  | oneOrMore inner, plain => by
    obtain ⟨word, spells⟩ := exists_spells fertile inner
      (plain.mono (includes_of_occurs fun _ => .oneOrMore))
    exact ⟨word ++ [], .oneOrMore spells .stop⟩
  | times count inner, plain => by
    obtain ⟨word, spells⟩ := exists_spells fertile inner
      (plain.mono (includes_of_occurs fun _ => .times))
    induction count with
    | zero => exact ⟨[], .never⟩
    | succ count ih =>
      obtain ⟨words, many⟩ := ih (plain.mono includes_times)
      exact ⟨word ++ words, .once spells many⟩
  | except _ _, plain => absurd .here (plain.free _ _)
  | terminal literal, _ => by
    by_cases blank : literal = []
    · exact ⟨[], blank ▸ .blank⟩
    · exact ⟨[literal], .terminal blank⟩
  | rule index, _ => by
    obtain ⟨word, answer⟩ := fertile index
    exact ⟨word, .rule answer⟩
  | anyToken, _ => ⟨[[]], .anyToken []⟩
  | empty, _ => ⟨[], .empty⟩

theorem exists_spells_sequence (fertile : ∀ index, ∃ word, spelled index word) :
    ∀ items : List (Node rules), (sequence items).Plain →
      ∃ word, (sequence items).Spells spelled word
  | [], _ => ⟨[], .finish⟩
  | item :: items, plain => by
    obtain ⟨word, spells⟩ := exists_spells fertile item
      (plain.mono includes_head)
    obtain ⟨words, others⟩ := exists_spells_sequence fertile items (plain.mono includes_sequence)
    exact ⟨word ++ words, .advance spells others⟩

end

end Node

namespace Program

variable (program : Program)

def NonemptyAlternations : Prop :=
  ∀ index : Fin program.names.length, ¬ Node.Occurs (.alternation []) (program.body index)

inductive Spells : Fin program.names.length → List Text → Prop where
  | apply : (program.body index).Spells Spells word → Spells index word

def Generates (node : Node program.names.length) (word : List Text) : Prop :=
  program.Yields word.toArray.toVector node 0 (Fin.last _)

/-- The token list is a prefix of a sentence. -/
def Viable (word : List Text) : Prop :=
  ∃ rest, program.Generates (.rule program.startRule) (word ++ rest)

variable {program} {n : Nat} {tokens : Vector Text n}
  {excluded : Node.Exceptions program.names.length n}
  {index : Fin program.names.length} {node : Node program.names.length} {p e : Spot n}
  {word : List Text}

theorem Spells.least {call : Fin program.names.length → List Text → Prop}
    (closed : ∀ index word, (program.body index).Spells call word → call index word)
    (spells : program.Spells index word) : call index word := by
  refine @Spells.rec _ (fun index word _ => call index word)
    (fun node word _ => node.Spells call word)
    ?apply ?alternation ?finish ?advance ?skip ?take ?stop ?again ?oneOrMore ?never ?once
    ?blank ?terminal ?rule ?anyToken ?empty _ _ spells
  case apply => exact fun _ ih => closed _ _ ih
  case alternation => exact fun member _ ih => .alternation member ih
  case finish => exact .finish
  case advance => exact fun _ _ ih₁ ih₂ => .advance ih₁ ih₂
  case skip => exact .skip
  case take => exact fun _ ih => .take ih
  case stop => exact .stop
  case again => exact fun _ _ ih₁ ih₂ => .again ih₁ ih₂
  case oneOrMore => exact fun _ _ ih₁ ih₂ => .oneOrMore ih₁ ih₂
  case never => exact .never
  case once => exact fun _ _ ih₁ ih₂ => .once ih₁ ih₂
  case blank => exact .blank
  case terminal => exact fun wanted => .terminal wanted
  case rule => exact fun _ ih => .rule ih
  case anyToken => exact fun token => .anyToken token
  case empty => exact .empty

theorem spells_of_derives (free : program.ExceptFree)
    (derives : program.Derives tokens excluded index p e) :
    program.Spells index (slice tokens p e) := by
  let call : Node.Call program.names.length n := fun index p e =>
    p ≤ e ∧ program.Spells index (slice tokens p e)
  suffices call index p e from this.2
  refine derives.least fun index p e _ body => ?_
  have forward : ∀ index p e, call index p e → p ≤ e := fun _ _ _ answer => answer.1
  exact ⟨body.le forward, .apply (body.spells (free index) forward fun _ _ _ answer => answer.2)⟩

theorem derives_of_spells (spells : program.Spells index word) (le : p ≤ e)
    (here : slice tokens p e = word) : program.Derives tokens excluded index p e := by
  let call : Fin program.names.length → List Text → Prop := fun index word =>
    ∀ p e : Spot n, p ≤ e → slice tokens p e = word → program.Derives tokens excluded index p e
  suffices call index word from this p e le here
  refine spells.least fun index word body p e le here => .apply List.not_mem_nil ?_
  exact body.derives (fun _ p e le answer => answer p e le rfl) p e le here

theorem spells_of_node_derives (free : program.ExceptFree) (plain : node.ExceptFree)
    (derives : node.Derives tokens (program.Derives tokens excluded) excluded p e) :
    node.Spells program.Spells (slice tokens p e) :=
  derives.spells plain (fun _ _ _ answer => answer.le) fun _ _ _ => spells_of_derives free

theorem node_derives_of_spells (spells : node.Spells program.Spells word) (le : p ≤ e)
    (here : slice tokens p e = word) :
    node.Derives tokens (program.Derives tokens excluded) excluded p e := by
  have rules : ∀ index (p e : Spot n), p ≤ e → program.Spells index (slice tokens p e) →
      program.Derives tokens excluded index p e :=
    fun _ _ _ le answer => derives_of_spells answer le rfl
  exact spells.derives rules p e le here

theorem generates_iff_spells (free : program.ExceptFree) (plain : node.ExceptFree) :
    program.Generates node word ↔ node.Spells program.Spells word := by
  have all : slice word.toArray.toVector 0 (Fin.last word.toArray.size) = word := by
    simp [slice_zero]
  unfold Generates
  rw [yields_iff free.stratified]
  constructor
  · intro derives
    have spells := spells_of_node_derives free plain derives
    rwa [Fin.val_zero, all] at spells
  · exact fun spells => node_derives_of_spells spells (Fin.zero_le _) all

theorem generates_rule_iff_spells (free : program.ExceptFree) :
    program.Generates (.rule index) word ↔ program.Spells index word := by
  rw [generates_iff_spells free fun _ _ => by simp]
  constructor
  · intro spells
    cases spells with
    | rule answer => exact answer
  · exact .rule

end Program
end GrammarDesk
