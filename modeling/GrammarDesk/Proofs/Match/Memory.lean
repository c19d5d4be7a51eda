import GrammarDesk.Match.Search
import Std.Data.HashMap.Lemmas

/-! What a search does to its state. Whatever is evaluated, the goals that were
known stay known as they were, the goals that are found are settled on top of
the earlier ones, and forgetting them leads back. -/
namespace GrammarDesk

namespace Search

variable {rules n : Nat} {search old mid new : Search rules n} {goal other : Goal rules n}
  {fresh later : List (Goal rules n)} {seed ends : Ends n} {reentered : Bool} {p q : Spot n}

def memo? (search : Search rules n) (goal : Goal rules n) : Option (Entry n) :=
  search.memo[goal]?

def Growing (search : Search rules n) (goal : Goal rules n) : Prop :=
  ∃ seed reentered, search.memo? goal = some (.growing seed reentered)

/-- A token was missing at `p` or beyond. -/
def Looked (search : Search rules n) (p : Spot n) : Prop :=
  ∃ q, search.furthest = some q ∧ p ≤ q

/-- All that was done between two states: the fresh goals were settled, goals
may have come back to themselves, and more tokens may have been missing. -/
structure Adds (fresh : List (Goal rules n)) (old new : Search rules n) : Prop where
  settled : new.settled = fresh ++ old.settled
  unknown : ∀ goal ∈ fresh, old.memo? goal = none
  found : ∀ goal ∈ fresh, ∃ ends, new.memo? goal = some (.settled ends)
  rest : ∀ goal ∉ fresh, old.memo? goal = none → new.memo? goal = none
  kept : ∀ goal ends, old.memo? goal = some (.settled ends) →
    new.memo? goal = some (.settled ends)
  growing : ∀ goal seed reentered, old.memo? goal = some (.growing seed reentered) →
    ∃ again, (reentered = true → again = true) ∧ new.memo? goal = some (.growing seed again)
  looked : ∀ p, old.Looked p → new.Looked p
  refused : old.refused <:+ new.refused

def Extends (old new : Search rules n) : Prop := ∃ fresh, Adds fresh old new

theorem Adds.refl (search : Search rules n) : Adds [] search search where
  settled := rfl
  unknown _ member := absurd member List.not_mem_nil
  found _ member := absurd member List.not_mem_nil
  rest _ _ unknown := unknown
  kept _ _ known := known
  growing _ _ reentered known := ⟨reentered, id, known⟩
  looked _ looked := looked
  refused := List.suffix_refl _

theorem Adds.trans (first : Adds fresh old mid) (second : Adds later mid new) :
    Adds (later ++ fresh) old new where
  settled := by rw [second.settled, first.settled, List.append_assoc]
  unknown goal member := by
    rcases List.mem_append.mp member with member | member
    · by_cases early : goal ∈ fresh
      · exact first.unknown goal early
      -- Known goals stay known, so what is unknown later was unknown all the time.
      · cases known : old.memo? goal with
        | none => rfl
        | some entry =>
          have absent := second.unknown goal member
          cases entry with
          | settled ends => rw [first.kept _ _ known] at absent; cases absent
          | growing seed reentered =>
            obtain ⟨_, _, known⟩ := first.growing _ _ _ known
            rw [known] at absent
            cases absent
    · exact first.unknown goal member
  found goal member := by
    rcases List.mem_append.mp member with member | member
    · exact second.found goal member
    · obtain ⟨ends, known⟩ := first.found goal member
      exact ⟨ends, second.kept _ _ known⟩
  rest goal absent unknown := by
    rw [List.mem_append, not_or] at absent
    exact second.rest goal absent.1 (first.rest goal absent.2 unknown)
  kept goal ends known := second.kept _ _ (first.kept _ _ known)
  growing goal seed reentered known := by
    obtain ⟨_, imp₁, known⟩ := first.growing _ _ _ known
    obtain ⟨again, imp₂, known⟩ := second.growing _ _ _ known
    exact ⟨again, imp₂ ∘ imp₁, known⟩
  looked p looked := second.looked p (first.looked p looked)
  refused := first.refused.trans second.refused

theorem Extends.refl (search : Search rules n) : Extends search search := ⟨[], .refl search⟩

theorem Extends.trans : Extends old mid → Extends mid new → Extends old new
  | ⟨_, first⟩, ⟨_, second⟩ => ⟨_, first.trans second⟩

theorem Extends.kept (extended : Extends old new)
    (known : old.memo? goal = some (.settled ends)) :
    new.memo? goal = some (.settled ends) :=
  extended.elim fun _ adds => adds.kept _ _ known

theorem Extends.growing (extended : Extends old new)
    (known : old.memo? goal = some (.growing seed reentered)) :
    ∃ again, (reentered = true → again = true) ∧ new.memo? goal = some (.growing seed again) :=
  extended.elim fun _ adds => adds.growing _ _ _ known

theorem Extends.refused (extended : Extends old new) : old.refused <:+ new.refused :=
  extended.elim fun _ adds => adds.refused

theorem Extends.looked (extended : Extends old new) (looked : old.Looked p) : new.Looked p :=
  extended.elim fun _ adds => adds.looked p looked

theorem Extends.growing_of_growing (extended : Extends old new)
    (known : new.memo? goal = some (.growing seed reentered)) :
    ∃ before, old.memo? goal = some (.growing seed before) := by
  obtain ⟨fresh, adds⟩ := extended
  cases before : old.memo? goal with
  | none =>
    by_cases member : goal ∈ fresh
    · obtain ⟨ends, settled⟩ := adds.found goal member
      cases known.symm.trans settled
    · cases known.symm.trans (adds.rest goal member before)
  | some entry =>
    cases entry with
    | settled ends => cases known.symm.trans (adds.kept _ _ before)
    | growing seed' flag =>
      obtain ⟨_, _, after⟩ := adds.growing _ _ _ before
      cases known.symm.trans after
      exact ⟨flag, rfl⟩

theorem Extends.growing_iff (extended : Extends old new) : new.Growing goal ↔ old.Growing goal := by
  constructor
  · intro ⟨seed, _, known⟩
    obtain ⟨before, known⟩ := extended.growing_of_growing known
    exact ⟨seed, before, known⟩
  · intro ⟨seed, _, known⟩
    obtain ⟨again, _, known⟩ := extended.growing known
    exact ⟨seed, again, known⟩

theorem looked_fail (search : Search rules n) (p : Spot n) : (search.fail p).Looked p := by
  unfold Search.fail
  split
  · split
    · exact ⟨p, rfl, Fin.le_refl p⟩
    · exact ⟨_, by assumption, Fin.not_lt.mp (by assumption)⟩
  · exact ⟨p, rfl, Fin.le_refl p⟩

theorem Looked.fail (looked : search.Looked q) : (search.fail p).Looked q := by
  obtain ⟨r, here, le⟩ := looked
  unfold Search.fail
  simp only [here]
  split
  · exact ⟨p, rfl, Fin.le_trans le (Fin.le_of_lt (by assumption))⟩
  · exact ⟨r, here, le⟩

theorem furthest_fail (h : (search.fail p).furthest = some q) :
    search.furthest = some q ∨ p = q := by
  unfold Search.fail at h
  split at h
  · split at h
    · exact Or.inr (Option.some.inj h)
    · exact Or.inl h
  · exact Or.inr (Option.some.inj h)

theorem furthest_fail_of_le (low : ∀ q, search.furthest = some q → q ≤ p) :
    (search.fail p).furthest = some p := by
  obtain ⟨q, here, le⟩ := Search.looked_fail search p
  rcases Search.furthest_fail here with before | rfl
  · rw [here, Fin.le_antisymm (low q before) le]
  · exact here

theorem fail_of_looked (looked : search.Looked p) : search.fail p = search := by
  obtain ⟨q, here, le⟩ := looked
  unfold Search.fail
  rw [here]
  exact if_neg (Fin.not_lt.mpr le)

theorem fail_eq (search : Search rules n) (p : Spot n) :
    ∃ furthest, search.fail p = { search with furthest } := by
  unfold Search.fail
  split
  · split
    · exact ⟨_, rfl⟩
    · exact ⟨_, rfl⟩
  · exact ⟨_, rfl⟩

@[simp] theorem memo?_fail : (search.fail p).memo? goal = search.memo? goal := by
  obtain ⟨_, same⟩ := fail_eq search p
  rw [same]
  rfl

@[simp] theorem settled_fail : (search.fail p).settled = search.settled := by
  obtain ⟨_, same⟩ := fail_eq search p
  rw [same]

@[simp] theorem refused_fail : (search.fail p).refused = search.refused := by
  obtain ⟨_, same⟩ := fail_eq search p
  rw [same]

theorem extends_fail (search : Search rules n) (p : Spot n) : Extends search (search.fail p) :=
  ⟨[], { Adds.refl search with
    settled := by simp
    found := fun _ member => absurd member List.not_mem_nil
    rest := fun goal _ unknown => by simpa using unknown
    kept := fun goal ends known => by simpa using known
    growing := fun goal seed reentered known => ⟨reentered, id, by simpa using known⟩
    looked := fun _ looked => looked.fail
    refused := by simp }⟩

@[simp] theorem memo?_refuse : (search.refuse goal).memo? other = search.memo? other := rfl

theorem extends_refuse (search : Search rules n) (goal : Goal rules n) :
    Extends search (search.refuse goal) :=
  ⟨[], { Adds.refl search with refused := List.suffix_cons _ _ }⟩

@[simp] theorem memo?_grow : (search.grow goal seed reentered).memo? other =
    if goal = other then some (.growing seed reentered) else search.memo? other := by
  simp [Search.grow, memo?, Std.HashMap.getElem?_insert]

@[simp] theorem memo?_settle : (search.settle goal ends).memo? other =
    if goal = other then some (.settled ends) else search.memo? other := by
  simp [Search.settle, memo?, Std.HashMap.getElem?_insert]

theorem reentered_of_growing {again : Bool}
    (known : search.memo? goal = some (.growing seed again)) : search.reentered goal = again := by
  unfold memo? at known
  simp [Search.reentered, known]

theorem getElem?_erased_of_not_mem (memo : Std.HashMap (Goal rules n) (Entry n))
    {stale : List (Goal rules n)} (free : goal ∉ stale) :
    (stale.foldl (fun memo goal => memo.erase goal) memo)[goal]? = memo[goal]? := by
  induction stale generalizing memo with
  | nil => rfl
  | cons first stale ih =>
    rw [List.mem_cons, not_or] at free
    rw [List.foldl_cons, ih _ free.2, Std.HashMap.getElem?_erase,
      if_neg (by simpa using Ne.symm free.1)]

theorem getElem?_erased_of_mem (memo : Std.HashMap (Goal rules n) (Entry n))
    {stale : List (Goal rules n)} (member : goal ∈ stale) :
    (stale.foldl (fun memo goal => memo.erase goal) memo)[goal]? = none := by
  induction stale generalizing memo with
  | nil => cases member
  | cons first stale ih =>
    rw [List.foldl_cons]
    by_cases later : goal ∈ stale
    · exact ih _ later
    · have same : goal = first := (List.mem_cons.mp member).resolve_right later
      rw [getElem?_erased_of_not_mem _ later, Std.HashMap.getElem?_erase, same]
      simp

theorem memo?_forget_of_mem {mark : Nat}
    (member : goal ∈ search.settled.take (search.settled.length - mark)) :
    (search.forget mark).memo? goal = none := getElem?_erased_of_mem search.memo member

theorem memo?_forget_of_not_mem {mark : Nat}
    (free : goal ∉ search.settled.take (search.settled.length - mark)) :
    (search.forget mark).memo? goal = search.memo? goal :=
  getElem?_erased_of_not_mem search.memo free

theorem Adds.taken (adds : Adds fresh old new) :
    new.settled.take (new.settled.length - old.settled.length) = fresh := by
  simp [adds.settled]

theorem Adds.memo?_forget_of_mem (adds : Adds fresh old new) (member : goal ∈ fresh) :
    (new.forget old.settled.length).memo? goal = none :=
  Search.memo?_forget_of_mem (adds.taken.symm ▸ member)

theorem Adds.memo?_forget_of_not_mem (adds : Adds fresh old new) (free : goal ∉ fresh) :
    (new.forget old.settled.length).memo? goal = new.memo? goal :=
  Search.memo?_forget_of_not_mem (adds.taken.symm ▸ free)

theorem Adds.settled_forget (adds : Adds fresh old new) :
    (new.forget old.settled.length).settled = old.settled := by
  simp [Search.forget, adds.settled]

theorem Adds.forget (adds : Adds fresh old new) :
    Adds [] old (new.forget old.settled.length) where
  settled := adds.settled_forget
  unknown _ member := absurd member List.not_mem_nil
  found _ member := absurd member List.not_mem_nil
  rest goal _ unknown := by
    by_cases member : goal ∈ fresh
    · exact adds.memo?_forget_of_mem member
    · rw [adds.memo?_forget_of_not_mem member]
      exact adds.rest goal member unknown
  kept goal ends known := by
    rw [adds.memo?_forget_of_not_mem fun member => ?_]
    · exact adds.kept goal ends known
    · cases known.symm.trans (adds.unknown goal member)
  growing goal seed reentered known := by
    rw [adds.memo?_forget_of_not_mem fun member => ?_]
    · exact adds.growing goal seed reentered known
    · cases known.symm.trans (adds.unknown goal member)
  looked := adds.looked
  refused := adds.refused

theorem Adds.grow (adds : Adds [] (old.grow goal seed reentered) new) (other : Ends n) :
    Adds [] (old.grow goal other false) (new.grow goal other false) where
  settled := adds.settled
  unknown _ member := absurd member List.not_mem_nil
  found _ member := absurd member List.not_mem_nil
  rest g absent unknown := by
    have := adds.rest g absent
    rw [memo?_grow] at unknown this ⊢
    split at unknown <;> simp_all
  kept g ends known := by
    have := adds.kept g ends
    rw [memo?_grow] at known this ⊢
    split at known <;> simp_all
  growing g seed' again known := by
    have := adds.growing g seed' again
    rw [memo?_grow] at known this ⊢
    split at known <;> simp_all
  looked := adds.looked
  refused := adds.refused

theorem Adds.settle (adds : Adds fresh (old.grow goal seed reentered) new)
    (unknown : old.memo? goal = none) (ends : Ends n) :
    Adds (goal :: fresh) old (new.settle goal ends) where
  settled := congrArg (goal :: ·) adds.settled
  unknown g member := by
    rcases List.mem_cons.mp member with rfl | member
    · exact unknown
    · have := adds.unknown g member
      rw [memo?_grow] at this
      split at this
      · cases this
      · exact this
  found g member := by
    rw [memo?_settle]
    split
    · exact ⟨ends, rfl⟩
    · rcases List.mem_cons.mp member with rfl | member
      · contradiction
      · exact adds.found g member
  rest g absent before := by
    rw [List.mem_cons, not_or] at absent
    rw [memo?_settle, if_neg (Ne.symm absent.1)]
    exact adds.rest g absent.2 (by rwa [memo?_grow, if_neg (Ne.symm absent.1)])
  kept g ends' known := by
    have different : goal ≠ g := by rintro rfl; cases known.symm.trans unknown
    rw [memo?_settle, if_neg different]
    exact adds.kept g ends' (by rwa [memo?_grow, if_neg different])
  growing g seed' again known := by
    have different : goal ≠ g := by rintro rfl; cases known.symm.trans unknown
    rw [memo?_settle, if_neg different]
    exact adds.growing g seed' again (by rwa [memo?_grow, if_neg different])
  looked := adds.looked
  refused := adds.refused

theorem extends_reenter (known : search.memo? goal = some (.growing seed reentered)) :
    Extends search (search.grow goal seed true) :=
  ⟨[], { Adds.refl search with
    found := fun _ member => absurd member List.not_mem_nil
    rest := fun g _ unknown => by
      rw [memo?_grow, if_neg (by rintro rfl; cases known.symm.trans unknown)]
      exact unknown
    kept := fun g ends settled => by
      rw [memo?_grow, if_neg (by rintro rfl; cases known.symm.trans settled)]
      exact settled
    growing := fun g seed' again growing => by
      rw [memo?_grow]
      split
      · subst g
        cases known.symm.trans growing
        exact ⟨true, fun _ => rfl, rfl⟩
      · exact ⟨again, id, growing⟩ }⟩

end Search
namespace Find

open Search

variable {rules n : Nat} {find first : Find rules n} {each : Spot n → Find rules n}
  {search old : Search rules n} {index : Goal rules n}

@[simp] theorem pure_apply (ends : Ends n) (search : Search rules n) :
    (pure ends : Find rules n) search = (ends, search) := rfl

@[simp] theorem bind_apply (find : Find rules n) (next : Ends n → Find rules n)
    (search : Search rules n) : (find >>= next) search = next (find search).1 (find search).2 := rfl

/-- What every search may do to its state: nothing, one thing after the other,
and miss a token. -/
structure Steps (step : Search rules n → Search rules n → Prop) : Prop where
  refl : ∀ search, step search search
  trans : ∀ {old mid new}, step old mid → step mid new → step old new
  fail : ∀ search p, step search (search.fail p)

def Takes (step : Search rules n → Search rules n → Prop) (find : Find rules n) : Prop :=
  ∀ search, step search (find search).2

abbrev Adding (find : Find rules n) : Prop := find.Takes Extends

theorem steps_extends : Steps (@Extends rules n) := ⟨.refl, .trans, extends_fail⟩

section Takes

variable {step : Search rules n → Search rules n → Prop}

theorem Takes.ite {other : Find rules n} {test : Prop} [Decidable test] (takes : find.Takes step)
    (takes' : other.Takes step) : Takes step (if test then find else other) := by
  split
  · exact takes
  · exact takes'

variable (steps : Steps step)

include steps

theorem takes_pure (ends : Ends n) : Takes step (pure ends) := fun search => steps.refl search

theorem takes_bind (takes : find.Takes step) {next : Ends n → Find rules n}
    (follow : ∀ ends, (next ends).Takes step) : Takes step (find >>= next) :=
  fun search => steps.trans (takes search) (follow _ _)

theorem takes_miss (p : Spot n) : Takes step (miss p) := fun search => steps.fail search p

theorem takes_token (tokens : Vector Text n) (test : Text → Bool) (p : Spot n) :
    Takes step (token tokens test p) := by
  unfold token
  split
  · exact (takes_pure steps _).ite (takes_miss steps p)
  · exact takes_miss steps p

theorem takes_each (takes : ∀ p, (each p).Takes step) :
    ∀ spots : List (Spot n), (Find.each each spots).Takes step
  | [] => takes_pure steps ∅
  | p :: ps => takes_bind steps (takes p) fun _ =>
    takes_bind steps (takes_each takes ps) fun _ => takes_pure steps _

theorem takes_rounds (takes : ∀ p, (each p).Takes step) :
    ∀ (count : Nat) (ends : Ends n), (rounds each count ends).Takes step
  | 0, ends => takes_pure steps ends
  | count + 1, ends => by
    unfold rounds
    exact takes_bind steps (takes_each steps takes ends.toList) fun next =>
      (takes_pure steps next).ite (takes_rounds takes count next)

theorem takes_reach (takes : ∀ p, (each p).Takes step) (frontier : List (Spot n))
    (reached : Ends n) : (reach each frontier reached).Takes step := by
  intro search
  fun_induction reach each frontier reached search with
  | case1 => exact steps.refl _
  | case2 reached search p rest ends after found next ih =>
    have := takes p search
    rw [found] at this
    exact steps.trans this ih

theorem takes_closure (takes : ∀ p, (each p).Takes step) (start : Ends n) :
    (closure each start).Takes step :=
  takes_reach steps takes _ start

end Takes

/-- However often a goal is searched again, in the end only the last round
counts, and only the seed has changed. -/
theorem adds_regrow {goal : Goal rules n} (adding : find.Adding) {seed ends : Ends n}
    (before : ∃ fresh, Adds fresh (old.grow goal seed false) search) :
    ∃ fresh seed, Adds fresh (old.grow goal seed false)
      (regrow goal old.settled.length find ends search).2 := by
  fun_induction regrow goal old.settled.length find ends search generalizing seed with
  | case1 ends search again next after found sub =>
    obtain ⟨fresh, adds⟩ := before
    have := adding ((search.forget old.settled.length).grow goal ends false)
    rw [found] at this
    obtain ⟨later, more⟩ := this
    exact ⟨_, ends, (adds.forget.grow ends).trans more⟩
  | case2 ends search again next after found sub ih =>
    obtain ⟨fresh, adds⟩ := before
    have := adding ((search.forget old.settled.length).grow goal ends false)
    rw [found] at this
    obtain ⟨later, more⟩ := this
    exact ih ⟨_, (adds.forget.grow ends).trans more⟩
  | case3 ends search done =>
    obtain ⟨fresh, adds⟩ := before
    exact ⟨fresh, seed, adds⟩

theorem refused_regrow {goal : Goal rules n} {mark : Nat} (adding : find.Adding) (ends : Ends n)
    (search : Search rules n) :
    search.refused <:+ (regrow goal mark find ends search).2.refused := by
  fun_induction regrow goal mark find ends search with
  | case1 ends search again next after found sub =>
    have := adding ((search.forget mark).grow goal ends false)
    rw [found] at this
    exact this.refused
  | case2 ends search again next after found sub ih =>
    have := adding ((search.forget mark).grow goal ends false)
    rw [found] at this
    exact this.refused.trans ih
  | case3 ends search done => exact List.suffix_refl _

theorem extends_goal {goal : Goal rules n} (adding : find.Adding)
    (unknown : search.memo? goal = none) : Extends search (Find.goal goal find search).2 := by
  have first : Extends (search.grow goal ∅ false) _ := adding (search.grow goal ∅ false)
  obtain ⟨fresh, seed, adds⟩ := adds_regrow adding first
  exact ⟨_, adds.settle unknown _⟩

end Find

namespace Node

variable {rules n : Nat} {tokens : Vector Text n} {call : Fin rules → Spot n → Find rules n}
  {step : Search rules n → Search rules n → Prop}

mutual

theorem takes_eval (steps : Find.Steps step) (takes : ∀ index p, (call index p).Takes step) :
    ∀ (node : Node rules) (p : Spot n), (node.eval tokens call p).Takes step
  | alternation items, p => takes_evalAny steps takes items p
  | sequence items, p => takes_evalAll steps takes items {p}
  | optional inner, p =>
    Find.takes_bind steps (takes_eval steps takes inner p) fun _ => Find.takes_pure steps _
  | repeated inner, p => Find.takes_closure steps (takes_eval steps takes inner) {p}
  | oneOrMore inner, p => Find.takes_bind steps (takes_eval steps takes inner p)
    (Find.takes_closure steps (takes_eval steps takes inner))
  | times count inner, p => Find.takes_rounds steps (takes_eval steps takes inner) count {p}
  | except kept dropped, p => Find.takes_bind steps (takes_eval steps takes kept p) fun _ =>
    Find.takes_bind steps (takes_eval steps takes dropped p) fun _ => Find.takes_pure steps _
  | terminal literal, p => by
    unfold eval
    exact (Find.takes_pure steps _).ite (Find.takes_token steps tokens _ p)
  | rule index, p => takes index p
  | anyToken, p => Find.takes_token steps tokens _ p
  | empty, p => Find.takes_pure steps _

theorem takes_evalAny (steps : Find.Steps step) (takes : ∀ index p, (call index p).Takes step) :
    ∀ (items : List (Node rules)) (p : Spot n), (evalAny tokens call items p).Takes step
  | [], _ => Find.takes_pure steps ∅
  | item :: items, p => Find.takes_bind steps (takes_eval steps takes item p) fun _ =>
    Find.takes_bind steps (takes_evalAny steps takes items p) fun _ => Find.takes_pure steps _

theorem takes_evalAll (steps : Find.Steps step) (takes : ∀ index p, (call index p).Takes step) :
    ∀ (items : List (Node rules)) (ends : Ends n), (evalAll tokens call items ends).Takes step
  | [], ends => Find.takes_pure steps ends
  | item :: items, ends => by
    unfold evalAll
    exact Find.takes_bind steps
      (Find.takes_each steps (takes_eval steps takes item) ends.toList) fun next =>
        (Find.takes_pure steps next).ite (takes_evalAll steps takes items next)

end
section Terminal

variable {p q : Spot n} {literal : Text}

theorem eval_terminal_hit (wanted : literal ≠ []) (found : tokens[p.val]? = some literal)
    (next : q.val = p.val + 1) :
    (terminal literal).eval tokens call p = pure {q} := by
  obtain ⟨inside, here⟩ := Vector.getElem?_eq_some_iff.mp found
  have same : (⟨p.val + 1, Nat.succ_lt_succ inside⟩ : Spot n) = q := Fin.ext next.symm
  unfold eval Find.token
  rw [if_neg (by simpa using wanted), dif_pos inside, if_pos (by simpa using here), same]

theorem eval_terminal_miss (wanted : literal ≠ []) (missing : tokens[p.val]? ≠ some literal) :
    (terminal literal).eval tokens call p = Find.miss p := by
  unfold eval Find.token
  rw [if_neg (by simpa using wanted)]
  split
  · rename_i inside
    rw [if_neg fun here => missing (Vector.getElem?_eq_some_iff.mpr ⟨inside, by simpa using here⟩)]
  · rfl

end Terminal

section Lists

variable {p : Spot n} {item : Node rules} {items : List (Node rules)}
  {before later : Search rules n} {ends next : Ends n}

theorem eval_sequence :
    (sequence items).eval tokens call p = evalAll tokens call items {p} := by
  rw [eval]

theorem each_singleton (find : Spot n → Find rules n) (p : Spot n) :
    Find.each find ({p} : Ends n).toList before = find p before := by
  show ((find p before).1 ∪ ∅, (find p before).2) = find p before
  rw [Ends.union_empty, Prod.eta]

theorem evalAny_cons (one : item.eval tokens call p before = (∅, later)) :
    evalAny tokens call (item :: items) p before = evalAny tokens call items p later := by
  simp only [evalAny, Find.bind_apply, one]
  rfl

theorem evalAll_none (one : Find.each (item.eval tokens call) ends.toList before = (∅, later)) :
    evalAll tokens call (item :: items) ends before = (∅, later) := by
  simp only [evalAll, Find.bind_apply, one, if_pos]
  rfl

theorem evalAll_some (one : Find.each (item.eval tokens call) ends.toList before = (next, later))
    (found : next ≠ ∅) :
    evalAll tokens call (item :: items) ends before = evalAll tokens call items next later := by
  simp only [evalAll, Find.bind_apply, one, if_neg found]

end Lists

end Node

namespace Program

variable {program : Program} {n : Nat} {tokens : Vector Text n}

theorem adding_rule (depth : Nat) (index : Fin program.names.length) (p : Spot n) :
    (program.rule tokens depth index p).Adding := by
  induction depth generalizing index p with
  | zero =>
    intro search
    unfold rule
    split
    · exact .refl search
    · exact Search.extends_reenter (by assumption)
    · exact (Search.extends_refuse search _).trans (Search.extends_fail _ p)
  | succ depth ih =>
    intro search
    unfold rule
    split
    · exact .refl search
    · exact Search.extends_reenter (by assumption)
    · exact Find.extends_goal (Node.takes_eval Find.steps_extends ih _ p) (by assumption)

section Steps

variable {search after : Search program.names.length n} {index : Fin program.names.length}
  {p : Spot n}

theorem rule_of_settled {depth : Nat} {ends : Ends n}
    (known : search.memo? (index, p) = some (.settled ends)) :
    program.rule tokens depth index p search = (ends, search) := by
  unfold Search.memo? at known
  cases depth <;> simp [rule, known]

theorem rule_of_growing {depth : Nat} {seed : Ends n} {again : Bool}
    (known : search.memo? (index, p) = some (.growing seed again)) :
    program.rule tokens depth index p search = (seed, search.grow (index, p) seed true) := by
  unfold Search.memo? at known
  cases depth <;> simp [rule, known]

theorem rule_of_unknown {depth : Nat} (unknown : search.memo? (index, p) = none) :
    program.rule tokens (depth + 1) index p search =
      Find.goal (index, p) ((program.body index).eval tokens (program.rule tokens depth) p)
        search := by
  unfold Search.memo? at unknown
  simp [rule, unknown]

theorem rule_of_refused (unknown : search.memo? (index, p) = none) :
    program.rule tokens 0 index p search = (∅, (search.refuse (index, p)).fail p) := by
  unfold Search.memo? at unknown
  simp [rule, unknown, Find.miss]

/-- A goal that does not come back to itself is done after one round. -/
theorem rule_of_quiet {depth : Nat} {ends : Ends n} (unknown : search.memo? (index, p) = none)
    (found : (program.body index).eval tokens (program.rule tokens depth) p
      (search.grow (index, p) ∅ false) = (ends, after))
    (quiet : after.memo? (index, p) = some (.growing ∅ false)) :
    program.rule tokens (depth + 1) index p search = (ends, after.settle (index, p) ends) := by
  have still : after.reentered (index, p) = false := Search.reentered_of_growing quiet
  have once : Find.regrow (index, p) search.settled.length
      ((program.body index).eval tokens (program.rule tokens depth) p) ends after =
        (ends, after) := by
    unfold Find.regrow
    rw [if_neg (by simp [still])]
  rw [rule_of_unknown unknown]
  unfold Find.goal
  simp only [found, once]

end Steps

theorem outcome_of_quiet {program : Program} {tokens : List Text} {ends : Ends tokens.length}
    {after : Search program.names.length tokens.length}
    (found : (program.body program.startRule).eval tokens.toArray.toVector
      (program.rule tokens.toArray.toVector (maxDepth - 1)) 0
      (Search.grow (program.startRule, 0) ∅ false {}) = (ends, after))
    (quiet : after.memo? (program.startRule, 0) = some (.growing ∅ false)) :
    program.outcome tokens =
      if reached ends after < tokens.length then .haltedAt (reached ends after) else .complete := by
  have unknown : ({} : Search program.names.length tokens.length).memo? (program.startRule, 0) =
      none := by
    simp [Search.memo?]
  have run : program.run tokens.toArray.toVector =
      (ends, after.settle (program.startRule, 0) ends) :=
    rule_of_quiet unknown found quiet
  unfold outcome
  rw [run]
  rfl

end Program
end GrammarDesk
