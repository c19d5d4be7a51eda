import GrammarDesk.Match.Search

/-! What nodes derive, said without a search. A node relates the spots where it
starts to those where it can end. Its meaning is relative to what the rules
derive and to what right operands of exceptions derive; the rules then derive
the least relation that contains all that their bodies derive. -/
namespace GrammarDesk

namespace Node

variable {rules n : Nat}

inductive Occurs (part : Node rules) : Node rules → Prop where
  | here : Occurs part part
  | alternation : item ∈ items → Occurs part item → Occurs part (.alternation items)
  | sequence : item ∈ items → Occurs part item → Occurs part (.sequence items)
  | optional {inner} : Occurs part inner → Occurs part (.optional inner)
  | repeated {inner} : Occurs part inner → Occurs part (.repeated inner)
  | oneOrMore {inner} : Occurs part inner → Occurs part (.oneOrMore inner)
  | times {inner} : Occurs part inner → Occurs part (.times count inner)
  | kept : Occurs part kept → Occurs part (.except kept dropped)
  | dropped : Occurs part dropped → Occurs part (.except kept dropped)

section Occurs

variable {part kept dropped inner : Node rules} {items : List (Node rules)} {index : Fin rules}

@[simp] theorem occurs_alternation_iff : Occurs part (.alternation items) ↔
    part = .alternation items ∨ ∃ item ∈ items, Occurs part item := by
  constructor
  · intro h
    cases h with
    | here => exact Or.inl rfl
    | alternation member inside => exact Or.inr ⟨_, member, inside⟩
  · rintro (rfl | ⟨item, member, inside⟩)
    · exact .here
    · exact .alternation member inside

@[simp] theorem occurs_sequence_iff : Occurs part (.sequence items) ↔
    part = .sequence items ∨ ∃ item ∈ items, Occurs part item := by
  constructor
  · intro h
    cases h with
    | here => exact Or.inl rfl
    | sequence member inside => exact Or.inr ⟨_, member, inside⟩
  · rintro (rfl | ⟨item, member, inside⟩)
    · exact .here
    · exact .sequence member inside

@[simp] theorem occurs_optional_iff :
    Occurs part (.optional inner) ↔ part = .optional inner ∨ Occurs part inner := by
  constructor
  · intro h
    cases h with
    | here => exact Or.inl rfl
    | optional inside => exact Or.inr inside
  · rintro (rfl | inside)
    · exact .here
    · exact .optional inside

@[simp] theorem occurs_repeated_iff :
    Occurs part (.repeated inner) ↔ part = .repeated inner ∨ Occurs part inner := by
  constructor
  · intro h
    cases h with
    | here => exact Or.inl rfl
    | repeated inside => exact Or.inr inside
  · rintro (rfl | inside)
    · exact .here
    · exact .repeated inside

@[simp] theorem occurs_oneOrMore_iff :
    Occurs part (.oneOrMore inner) ↔ part = .oneOrMore inner ∨ Occurs part inner := by
  constructor
  · intro h
    cases h with
    | here => exact Or.inl rfl
    | oneOrMore inside => exact Or.inr inside
  · rintro (rfl | inside)
    · exact .here
    · exact .oneOrMore inside

@[simp] theorem occurs_times_iff :
    Occurs part (.times count inner) ↔ part = .times count inner ∨ Occurs part inner := by
  constructor
  · intro h
    cases h with
    | here => exact Or.inl rfl
    | times inside => exact Or.inr inside
  · rintro (rfl | inside)
    · exact .here
    · exact .times inside

@[simp] theorem occurs_except_iff : Occurs part (.except kept dropped) ↔
    part = .except kept dropped ∨ Occurs part kept ∨ Occurs part dropped := by
  constructor
  · intro h
    cases h with
    | here => exact Or.inl rfl
    | kept inside => exact Or.inr (Or.inl inside)
    | dropped inside => exact Or.inr (Or.inr inside)
  · rintro (rfl | inside | inside)
    · exact .here
    · exact .kept inside
    · exact .dropped inside

@[simp] theorem occurs_terminal_iff : Occurs part (.terminal literal) ↔ part = .terminal literal :=
  ⟨fun h => by cases h; rfl, fun h => h ▸ .here⟩

@[simp] theorem occurs_rule_iff : Occurs part (.rule index) ↔ part = .rule index :=
  ⟨fun h => by cases h; rfl, fun h => h ▸ .here⟩

@[simp] theorem occurs_anyToken_iff : Occurs part .anyToken ↔ part = .anyToken :=
  ⟨fun h => by cases h; rfl, fun h => h ▸ .here⟩

@[simp] theorem occurs_empty_iff : Occurs part .empty ↔ part = .empty :=
  ⟨fun h => by cases h; rfl, fun h => h ▸ .here⟩

end Occurs

def ExceptFree (node : Node rules) : Prop :=
  ∀ kept dropped, ¬ Occurs (.except kept dropped) node

/-- What rules may derive, as seen from a node. -/
abbrev Call (rules n : Nat) := Fin rules → Spot n → Spot n → Prop

/-- What right operands of exceptions derive. -/
abbrev Exceptions (rules n : Nat) := Node rules → Spot n → Spot n → Prop

variable (tokens : Vector Text n) (call : Call rules n) (excluded : Exceptions rules n)

inductive Derives : Node rules → Spot n → Spot n → Prop where
  | alternation : item ∈ items → Derives item p e → Derives (.alternation items) p e
  | finish : Derives (.sequence []) p p
  | advance : Derives item p q → Derives (.sequence items) q e →
      Derives (.sequence (item :: items)) p e
  | skip {inner} : Derives (.optional inner) p p
  | take {inner} : Derives inner p e → Derives (.optional inner) p e
  | stop {inner} : Derives (.repeated inner) p p
  | again {inner} : Derives inner p q → Derives (.repeated inner) q e →
    Derives (.repeated inner) p e
  | oneOrMore {inner} : Derives inner p q → Derives (.repeated inner) q e →
      Derives (.oneOrMore inner) p e
  | never {inner} : Derives (.times 0 inner) p p
  | once {inner} : Derives inner p q → Derives (.times count inner) q e →
      Derives (.times (count + 1) inner) p e
  | except : Derives kept p e → ¬ excluded dropped p e → Derives (.except kept dropped) p e
  | blank : Derives (.terminal []) p p
  | terminal : literal ≠ [] → tokens[p.val]? = some literal → e.val = p.val + 1 →
      Derives (.terminal literal) p e
  | rule : call index p e → Derives (.rule index) p e
  | anyToken : p.val < n → e.val = p.val + 1 → Derives .anyToken p e
  | empty : Derives .empty p p

/-- `Visits node p part q`: on the way from `p`, `node` comes to `part` at `q`. -/
inductive Visits : Node rules → Spot n → Node rules → Spot n → Prop where
  | here : Visits part p part p
  | alternation : item ∈ items → Visits item p part q → Visits (.alternation items) p part q
  | first : Visits item p part q → Visits (.sequence (item :: items)) p part q
  | later : Derives tokens call excluded item p r → Visits (.sequence items) r part q →
      Visits (.sequence (item :: items)) p part q
  | optional {inner} : Visits inner p part q → Visits (.optional inner) p part q
  | repeated {inner} : Visits inner p part q → Visits (.repeated inner) p part q
  | again {inner} : Derives tokens call excluded inner p r → Visits (.repeated inner) r part q →
      Visits (.repeated inner) p part q
  | oneOrMore {inner} : Visits inner p part q → Visits (.oneOrMore inner) p part q
  | more {inner} : Derives tokens call excluded inner p r → Visits (.repeated inner) r part q →
      Visits (.oneOrMore inner) p part q
  | times {inner} : Visits inner p part q → Visits (.times (count + 1) inner) p part q
  | once {inner} : Derives tokens call excluded inner p r → Visits (.times count inner) r part q →
      Visits (.times (count + 1) inner) p part q
  | kept : Visits kept p part q → Visits (.except kept dropped) p part q
  | dropped : Visits dropped p part q → Visits (.except kept dropped) p part q

def Misses : Node rules → Spot n → Prop
  | .terminal literal, p => literal ≠ [] ∧ tokens[p.val]? ≠ some literal
  | .anyToken, p => p.val = n
  | _, _ => False

variable {tokens call excluded} {node part item inner : Node rules} {items : List (Node rules)}
  {index : Fin rules} {p q e : Spot n}

theorem Derives.transfer {other : Call rules n}
    (agree : ∀ index q e, node.Visits tokens call excluded p (.rule index) q →
      other index q e → call index q e)
    (derives : node.Derives tokens other excluded p e) : node.Derives tokens call excluded p e := by
  induction derives with
  | alternation member _ ih =>
    exact .alternation member (ih fun i q e visits => agree i q e (.alternation member visits))
  | finish => exact .finish
  | advance _ _ ih₁ ih₂ =>
    have head := ih₁ fun i q e visits => agree i q e (.first visits)
    exact .advance head (ih₂ fun i q e visits => agree i q e (.later head visits))
  | skip => exact .skip
  | take _ ih => exact .take (ih fun i q e visits => agree i q e (.optional visits))
  | stop => exact .stop
  | again _ _ ih₁ ih₂ =>
    have head := ih₁ fun i q e visits => agree i q e (.repeated visits)
    exact .again head (ih₂ fun i q e visits => agree i q e (.again head visits))
  | oneOrMore _ _ ih₁ ih₂ =>
    have head := ih₁ fun i q e visits => agree i q e (.oneOrMore visits)
    exact .oneOrMore head (ih₂ fun i q e visits => agree i q e (.more head visits))
  | never => exact .never
  | once _ _ ih₁ ih₂ =>
    have head := ih₁ fun i q e visits => agree i q e (.times visits)
    exact .once head (ih₂ fun i q e visits => agree i q e (.once head visits))
  | except _ free ih => exact .except (ih fun i q e visits => agree i q e (.kept visits)) free
  | blank => exact .blank
  | terminal wanted found next => exact .terminal wanted found next
  | rule answer => exact .rule (agree _ _ _ .here answer)
  | anyToken inside next => exact .anyToken inside next
  | empty => exact .empty

theorem Derives.mono {other : Call rules n} (le : ∀ index q e, other index q e → call index q e)
    (derives : node.Derives tokens other excluded p e) : node.Derives tokens call excluded p e :=
  derives.transfer fun index q e _ => le index q e

theorem Visits.transfer {other : Call rules n}
    (agree : ∀ index q e, node.Visits tokens call excluded p (.rule index) q →
      other index q e → call index q e)
    (visits : node.Visits tokens other excluded p part q) :
    node.Visits tokens call excluded p part q := by
  induction visits with
  | here => exact .here
  | alternation member _ ih =>
    exact .alternation member (ih fun i q e visits => agree i q e (.alternation member visits))
  | first _ ih => exact .first (ih fun i q e visits => agree i q e (.first visits))
  | later head _ ih =>
    have head := head.transfer fun i q e visits => agree i q e (.first visits)
    exact .later head (ih fun i q e visits => agree i q e (.later head visits))
  | optional _ ih => exact .optional (ih fun i q e visits => agree i q e (.optional visits))
  | repeated _ ih => exact .repeated (ih fun i q e visits => agree i q e (.repeated visits))
  | again head _ ih =>
    have head := head.transfer fun i q e visits => agree i q e (.repeated visits)
    exact .again head (ih fun i q e visits => agree i q e (.again head visits))
  | oneOrMore _ ih => exact .oneOrMore (ih fun i q e visits => agree i q e (.oneOrMore visits))
  | more head _ ih =>
    have head := head.transfer fun i q e visits => agree i q e (.oneOrMore visits)
    exact .more head (ih fun i q e visits => agree i q e (.more head visits))
  | times _ ih => exact .times (ih fun i q e visits => agree i q e (.times visits))
  | once head _ ih =>
    have head := head.transfer fun i q e visits => agree i q e (.times visits)
    exact .once head (ih fun i q e visits => agree i q e (.once head visits))
  | kept _ ih => exact .kept (ih fun i q e visits => agree i q e (.kept visits))
  | dropped _ ih => exact .dropped (ih fun i q e visits => agree i q e (.dropped visits))

theorem Derives.le (forward : ∀ index p e, call index p e → p ≤ e)
    (derives : node.Derives tokens call excluded p e) : p ≤ e := by
  induction derives with
  | alternation _ _ ih | take _ ih | except _ _ ih => exact ih
  | finish | skip | stop | never | blank | empty => exact Fin.le_refl _
  | advance _ _ ih₁ ih₂ | again _ _ ih₁ ih₂ | oneOrMore _ _ ih₁ ih₂ | once _ _ ih₁ ih₂ =>
    exact Fin.le_trans ih₁ ih₂
  | terminal _ _ next | anyToken _ next => exact Fin.le_def.mpr (by omega)
  | rule answer => exact forward _ _ _ answer

theorem occurs_sequence_cons (other : ∀ items, part ≠ .sequence items)
    (h : Occurs part (.sequence items)) : Occurs part (.sequence (item :: items)) := by
  obtain ⟨_, member, inside⟩ := (occurs_sequence_iff.mp h).resolve_left (other _)
  exact .sequence (List.mem_cons_of_mem _ member) inside

theorem occurs_repeated (other : ∀ inner, part ≠ .repeated inner)
    (h : Occurs part (.repeated inner)) : Occurs part inner :=
  (occurs_repeated_iff.mp h).resolve_left (other _)

theorem occurs_times (other : ∀ count inner, part ≠ .times count inner)
    (h : Occurs part (.times count inner)) : Occurs part inner :=
  (occurs_times_iff.mp h).resolve_left (other _ _)

structure Includes (node inner : Node rules) : Prop where
  rules : ∀ index, Occurs (.rule index) inner → Occurs (.rule index) node
  excepts : ∀ kept dropped, Occurs (.except kept dropped) inner →
    Occurs (.except kept dropped) node
  choices : Occurs (.alternation []) inner → Occurs (.alternation []) node

theorem includes_of_occurs (inside : ∀ part, Occurs part inner → Occurs part node) :
    Includes node inner :=
  ⟨fun _ => inside _, fun _ _ => inside _, inside _⟩

theorem includes_refl (node : Node rules) : Includes node node := includes_of_occurs fun _ => id

theorem Includes.trans {inner part : Node rules} (outer : Includes node inner)
    (includes : Includes inner part) : Includes node part where
  rules index := outer.rules index ∘ includes.rules index
  excepts kept dropped := outer.excepts kept dropped ∘ includes.excepts kept dropped
  choices := outer.choices ∘ includes.choices

theorem includes_head : Includes (.sequence (item :: items)) item :=
  includes_of_occurs fun _ => .sequence (List.mem_cons_self ..)

theorem includes_sequence : Includes (.sequence (item :: items)) (.sequence items) :=
  ⟨fun _ => occurs_sequence_cons nofun, fun _ _ => occurs_sequence_cons nofun,
    occurs_sequence_cons nofun⟩

theorem includes_times : Includes (.times (count + 1) inner) (.times count inner) :=
  ⟨fun _ inside => .times (occurs_times nofun inside),
    fun _ _ inside => .times (occurs_times nofun inside),
    fun inside => .times (occurs_times nofun inside)⟩

theorem includes_oneOrMore : Includes (.oneOrMore inner) (.repeated inner) :=
  ⟨fun _ inside => .oneOrMore (occurs_repeated nofun inside),
    fun _ _ inside => .oneOrMore (occurs_repeated nofun inside),
    fun inside => .oneOrMore (occurs_repeated nofun inside)⟩

theorem Visits.includes (visits : node.Visits tokens call excluded p part q) :
    Includes node part := by
  induction visits with
  | here => exact includes_refl _
  | alternation member _ ih => exact (includes_of_occurs fun _ => .alternation member).trans ih
  | first _ ih => exact includes_head.trans ih
  | later _ _ ih => exact includes_sequence.trans ih
  | optional _ ih => exact (includes_of_occurs fun _ => .optional).trans ih
  | repeated _ ih => exact (includes_of_occurs fun _ => .repeated).trans ih
  | again _ _ ih => exact ih
  | oneOrMore _ ih => exact (includes_of_occurs fun _ => .oneOrMore).trans ih
  | more _ _ ih => exact includes_oneOrMore.trans ih
  | times _ ih => exact (includes_of_occurs fun _ => .times).trans ih
  | once _ _ ih => exact includes_times.trans ih
  | kept _ ih => exact (includes_of_occurs fun _ => .kept).trans ih
  | dropped _ ih => exact (includes_of_occurs fun _ => .dropped).trans ih

theorem Visits.trans {inner : Node rules} {r : Spot n}
    (outer : node.Visits tokens call excluded p part q)
    (visits : part.Visits tokens call excluded q inner r) :
    node.Visits tokens call excluded p inner r := by
  induction outer with
  | here => exact visits
  | alternation member _ ih => exact .alternation member (ih visits)
  | first _ ih => exact .first (ih visits)
  | later head _ ih => exact .later head (ih visits)
  | optional _ ih => exact .optional (ih visits)
  | repeated _ ih => exact .repeated (ih visits)
  | again head _ ih => exact .again head (ih visits)
  | oneOrMore _ ih => exact .oneOrMore (ih visits)
  | more head _ ih => exact .more head (ih visits)
  | times _ ih => exact .times (ih visits)
  | once head _ ih => exact .once head (ih visits)
  | kept _ ih => exact .kept (ih visits)
  | dropped _ ih => exact .dropped (ih visits)

theorem ExceptFree.mono {inner : Node rules} (free : node.ExceptFree)
    (includes : Includes node inner) : inner.ExceptFree :=
  fun kept dropped inside => free kept dropped (includes.excepts kept dropped inside)

structure Chains (tokens : Vector Text n) (excluded : Exceptions rules n)
    (node first rest : Node rules) : Prop where
  derives : ∀ call p e, node.Derives tokens call excluded p e ↔
    ∃ q, first.Derives tokens call excluded p q ∧ rest.Derives tokens call excluded q e
  visits : ∀ call p part q, node.Visits tokens call excluded p part q ↔
    (part = node ∧ q = p) ∨ first.Visits tokens call excluded p part q ∨
      ∃ r, first.Derives tokens call excluded p r ∧ rest.Visits tokens call excluded r part q

theorem chains_sequence (item : Node rules) (items : List (Node rules)) :
    Chains tokens excluded (.sequence (item :: items)) item (.sequence items) where
  derives call p e := by
    constructor
    · intro derives
      cases derives with
      | advance head tail => exact ⟨_, head, tail⟩
    · exact fun ⟨_, head, tail⟩ => .advance head tail
  visits call p part q := by
    constructor
    · intro visits
      cases visits with
      | here => exact Or.inl ⟨rfl, rfl⟩
      | first visits => exact Or.inr (Or.inl visits)
      | later head visits => exact Or.inr (Or.inr ⟨_, head, visits⟩)
    · rintro (⟨rfl, rfl⟩ | visits | ⟨_, head, visits⟩)
      · exact .here
      · exact .first visits
      · exact .later head visits

theorem chains_times (count : Nat) (inner : Node rules) :
    Chains tokens excluded (.times (count + 1) inner) inner (.times count inner) where
  derives call p e := by
    constructor
    · intro derives
      cases derives with
      | once head tail => exact ⟨_, head, tail⟩
    · exact fun ⟨_, head, tail⟩ => .once head tail
  visits call p part q := by
    constructor
    · intro visits
      cases visits with
      | here => exact Or.inl ⟨rfl, rfl⟩
      | times visits => exact Or.inr (Or.inl visits)
      | once head visits => exact Or.inr (Or.inr ⟨_, head, visits⟩)
    · rintro (⟨rfl, rfl⟩ | visits | ⟨_, head, visits⟩)
      · exact .here
      · exact .times visits
      · exact .once head visits

theorem chains_oneOrMore (inner : Node rules) :
    Chains tokens excluded (.oneOrMore inner) inner (.repeated inner) where
  derives call p e := by
    constructor
    · intro derives
      cases derives with
      | oneOrMore head tail => exact ⟨_, head, tail⟩
    · exact fun ⟨_, head, tail⟩ => .oneOrMore head tail
  visits call p part q := by
    constructor
    · intro visits
      cases visits with
      | here => exact Or.inl ⟨rfl, rfl⟩
      | oneOrMore visits => exact Or.inr (Or.inl visits)
      | more head visits => exact Or.inr (Or.inr ⟨_, head, visits⟩)
    · rintro (⟨rfl, rfl⟩ | visits | ⟨_, head, visits⟩)
      · exact .here
      · exact .oneOrMore visits
      · exact .more head visits

theorem Derives.snoc (many : (Node.repeated inner).Derives tokens call excluded p q)
    (one : inner.Derives tokens call excluded q e) :
    (Node.repeated inner).Derives tokens call excluded p e := by
  generalize same : Node.repeated inner = node at many
  induction many with
  | stop =>
    cases same
    exact .again one .stop
  | again head _ _ ih =>
    cases same
    exact .again head (ih one rfl)
  | _ => cases same

theorem visits_of_repeated (many : (Node.repeated inner).Derives tokens call excluded p q) :
    (Node.repeated inner).Visits tokens call excluded p inner q := by
  generalize same : Node.repeated inner = node at many
  induction many with
  | stop =>
    cases same
    exact .repeated .here
  | again head _ _ ih =>
    cases same
    exact .again head (ih rfl)
  | _ => cases same

end Node

namespace Program

theorem body_mem_bodies (program : Program) (index : Fin program.names.length) :
    program.body index ∈ program.bodies.toList := by
  change program.bodies[index] ∈ program.bodies.toList
  simp

variable (program : Program) {n : Nat} (tokens : Vector Text n)
  (excluded : Node.Exceptions program.names.length n)
  (avoided : List (Goal program.names.length n))

/-- What rules derive if some are avoided at some spots. -/
inductive DerivesAvoiding : Fin program.names.length → Spot n → Spot n → Prop where
  | apply : (index, p) ∉ avoided →
      (program.body index).Derives tokens DerivesAvoiding excluded p e →
      DerivesAvoiding index p e

abbrev Derives : Node.Call program.names.length n := program.DerivesAvoiding tokens excluded []

/-- Right operands of exceptions derive what any node does. -/
abbrev Lawful : Prop := ∀ node p e, excluded node p e ↔
  node.Derives tokens (program.Derives tokens excluded) excluded p e

variable {program tokens excluded avoided}

theorem DerivesAvoiding.least {call : Node.Call program.names.length n}
    (closed : ∀ index p e, (index, p) ∉ avoided →
      (program.body index).Derives tokens call excluded p e → call index p e)
    (derives : program.DerivesAvoiding tokens excluded avoided index p e) : call index p e := by
  refine @DerivesAvoiding.rec _ _ _ _ _ (fun index p e _ => call index p e)
    (fun node p e _ => node.Derives tokens call excluded p e)
    ?apply ?alternation ?finish ?advance ?skip ?take ?stop ?again ?oneOrMore ?never ?once ?except
    ?blank ?terminal ?rule ?anyToken ?empty _ _ _ derives
  case apply => exact fun allowed _ ih => closed _ _ _ allowed ih
  case alternation => exact fun member _ ih => .alternation member ih
  case finish => exact .finish
  case advance => exact fun _ _ ih₁ ih₂ => .advance ih₁ ih₂
  case skip => exact .skip
  case take => exact fun _ ih => .take ih
  case stop => exact .stop
  case again => exact fun _ _ ih₁ ih₂ => .again ih₁ ih₂
  case oneOrMore => exact fun _ _ ih₁ ih₂ => .oneOrMore ih₁ ih₂
  case never => exact .never
  case once => exact fun _ _ ih₁ ih₂ => .once ih₁ ih₂
  case except => exact fun _ free ih => .except ih free
  case blank => exact .blank
  case terminal => exact fun wanted found next => .terminal wanted found next
  case rule => exact fun _ ih => .rule ih
  case anyToken => exact fun inside next => .anyToken inside next
  case empty => exact .empty

theorem DerivesAvoiding.body (derives : program.DerivesAvoiding tokens excluded avoided index p e) :
    (program.body index).Derives tokens (program.DerivesAvoiding tokens excluded avoided)
      excluded p e := by
  cases derives with
  | apply _ derives => exact derives

theorem DerivesAvoiding.le (derives : program.DerivesAvoiding tokens excluded avoided index p e) :
    p ≤ e :=
  derives.least fun _ _ _ _ body => body.le fun _ _ _ le => le

end Program
end GrammarDesk
