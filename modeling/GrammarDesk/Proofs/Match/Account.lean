import GrammarDesk.Proofs.Match.Derivation
import GrammarDesk.Proofs.Match.Memory

/-! What the ends of a node are worth. Relative to the answers that a search
keeps for rules, the ends of a node miss nothing, every rule it came to is
answered for, every missing token was noted; and the ends are ends in truth. A
search may go on as long as it keeps the answers that were relied on. -/
namespace GrammarDesk

namespace Search

variable {rules n : Nat} {search old mid new : Search rules n} {goal : Goal rules n}
  {ends seed other : Ends n} {p q e : Spot n}

/-- The ends of a goal that others rely on: it is settled, or it came back to
itself and they are its seed. -/
def Offers (search : Search rules n) (goal : Goal rules n) (ends : Ends n) : Prop :=
  search.memo? goal = some (.settled ends) ∨ search.memo? goal = some (.growing ends true)

theorem Offers.unique (one : search.Offers goal ends) (two : search.Offers goal other) :
    ends = other := by
  rcases one with one | one <;> rcases two with two | two <;> cases one.symm.trans two <;> rfl

/-- Who relies on a goal that was growing came back to it, and saw its seed. -/
theorem Extends.seeded {mark : Bool} (extended : Extends (old.grow goal seed mark) new)
    (offered : new.Offers goal other) : other = seed ∧ new.reentered goal = true := by
  obtain ⟨again, _, known⟩ := extended.growing (by rw [memo?_grow, if_pos rfl])
  rcases offered with offered | offered
  · cases known.symm.trans offered
  · cases known.symm.trans offered
    refine ⟨rfl, ?_⟩
    unfold memo? at known
    rw [Search.reentered, known]

def answers (search : Search rules n) : Node.Call rules n := fun index p e =>
  (index, p) ∉ search.refused ∧ ∃ ends, search.Offers (index, p) ends ∧ e ∈ ends

/-- All that was relied on can still be relied on. -/
structure Keeps (old new : Search rules n) : Prop where
  offers : ∀ goal ends, old.Offers goal ends → new.Offers goal ends
  looked : ∀ p, old.Looked p → new.Looked p
  refused : ∀ goal ∈ old.refused, goal ∈ new.refused

theorem Keeps.trans (first : Keeps old mid) (second : Keeps mid new) : Keeps old new :=
  ⟨fun _ _ => second.offers _ _ ∘ first.offers _ _, fun _ => second.looked _ ∘ first.looked _,
    fun _ => second.refused _ ∘ first.refused _⟩

theorem Extends.keeps (extended : Extends old new) : Keeps old new where
  offers goal ends offered := by
    rcases offered with known | known
    · exact Or.inl (extended.kept known)
    · obtain ⟨again, marked, known⟩ := extended.growing known
      exact Or.inr (marked rfl ▸ known)
  looked _ := extended.looked
  refused _ member := extended.refused.mem member

theorem keeps_grow (unused : ∀ ends, ¬ search.Offers goal ends) (seed : Ends n) (mark : Bool) :
    Keeps search (search.grow goal seed mark) where
  offers other ends offered := by
    have different : goal ≠ other := by rintro rfl; exact unused ends offered
    simpa only [Offers, memo?_grow, if_neg different] using offered
  looked _ := id
  refused _ := id

theorem keeps_settle (used : ∀ other, search.Offers goal other → other = ends) :
    Keeps search (search.settle goal ends) where
  offers other others offered := by
    by_cases same : goal = other
    · subst same
      exact used _ offered ▸ Or.inl (by simp)
    · simpa only [Offers, memo?_settle, if_neg same] using offered
  looked _ := id
  refused _ := id

variable (tokens : Vector Text n)

structure Accounts (search : Search rules n) (part : Node rules) (q : Spot n) : Prop where
  rule : ∀ index, part = .rule index →
    (∃ ends, search.Offers (index, q) ends) ∨ (index, q) ∈ search.refused
  misses : part.Misses tokens q → search.Looked q

variable {tokens} {part : Node rules}

theorem Accounts.keep (keeps : Keeps old new) (accounts : Accounts tokens old part q) :
    Accounts tokens new part q where
  rule index same := (accounts.rule index same).imp
    (fun ⟨ends, offered⟩ => ⟨ends, keeps.offers _ _ offered⟩) (keeps.refused _)
  misses missing := keeps.looked _ (accounts.misses missing)

theorem Accounts.answers (keeps : Keeps old new)
    (accounts : Accounts tokens old (.rule index) q) (answer : new.answers index q e) :
    old.answers index q e := by
  obtain ⟨allowed, ends, offered, member⟩ := answer
  rcases accounts.rule index rfl with ⟨ends', before⟩ | refused
  · have same : ends' = ends := (keeps.offers _ _ before).unique offered
    exact ⟨fun refused => allowed (keeps.refused _ refused), ends', before, same ▸ member⟩
  · exact absurd (keeps.refused _ refused) allowed

end Search

variable {program : Program} {n : Nat} {tokens : Vector Text n}
  {excluded : Node.Exceptions program.names.length n}
  {search old new : Search program.names.length n}
  {node first rest item inner kept dropped : Node program.names.length}
  {items : List (Node program.names.length)} {starts more : List (Spot n)}
  {ends mid others : Ends n} {p q e : Spot n}

variable (program tokens excluded) in
/-- The ends of a node from given starts, as far as a search got. -/
structure Covers (search : Search program.names.length n) (node : Node program.names.length)
    (starts : List (Spot n)) (ends : Ends n) : Prop where
  complete : ∀ p ∈ starts, ∀ e, node.Derives tokens search.answers excluded p e → e ∈ ends
  accounted : ∀ p ∈ starts, ∀ part q, node.Visits tokens search.answers excluded p part q →
    search.Accounts tokens part q
  sound : ∀ e ∈ ends, ∃ p ∈ starts,
    node.Derives tokens (program.Derives tokens excluded) excluded p e

namespace Covers

open Search

theorem keep (keeps : Keeps old new)
    (covers : Covers program tokens excluded old node starts ends) :
    Covers program tokens excluded new node starts ends := by
  have agree : ∀ p ∈ starts, ∀ index q e,
      node.Visits tokens old.answers excluded p (.rule index) q →
        new.answers index q e → old.answers index q e :=
    fun p start index q e visits => (covers.accounted p start _ _ visits).answers keeps
  exact {
    complete := fun p start e derives =>
      covers.complete p start e (derives.transfer (agree p start))
    accounted := fun p start part q visits =>
      (covers.accounted p start part q (visits.transfer (agree p start))).keep keeps
    sound := covers.sound }

theorem widen (covers : Covers program tokens excluded search node starts mid) (sub : mid ⊆ ends)
    (sound : ∀ e ∈ ends, ∃ p ∈ starts,
      node.Derives tokens (program.Derives tokens excluded) excluded p e) :
    Covers program tokens excluded search node starts ends where
  complete p start e derives := sub e (covers.complete p start e derives)
  accounted := covers.accounted
  sound := sound

theorem nil : Covers program tokens excluded search node [] ∅ where
  complete _ start := absurd start List.not_mem_nil
  accounted _ start := absurd start List.not_mem_nil
  sound e member := absurd member (Ends.not_mem_empty e)

theorem append (one : Covers program tokens excluded search node starts ends)
    (two : Covers program tokens excluded search node more others) :
    Covers program tokens excluded search node (starts ++ more) (ends ∪ others) where
  complete p start e derives := by
    rcases List.mem_append.mp start with start | start
    · exact Ends.mem_union.mpr (Or.inl (one.complete p start e derives))
    · exact Ends.mem_union.mpr (Or.inr (two.complete p start e derives))
  accounted p start := by
    rcases List.mem_append.mp start with start | start
    · exact one.accounted p start
    · exact two.accounted p start
  sound e member := by
    rcases Ends.mem_union.mp member with member | member
    · obtain ⟨p, start, derives⟩ := one.sound e member
      exact ⟨p, List.mem_append_left _ start, derives⟩
    · obtain ⟨p, start, derives⟩ := two.sound e member
      exact ⟨p, List.mem_append_right _ start, derives⟩

theorem chain (chains : Node.Chains tokens excluded node first rest)
    (plain : ∀ q, search.Accounts tokens node q)
    (head : Covers program tokens excluded search first starts mid)
    (tail : Covers program tokens excluded search rest mid.toList ends) :
    Covers program tokens excluded search node starts ends where
  complete p start e derives := by
    obtain ⟨q, one, two⟩ := (chains.derives _ _ _).mp derives
    exact tail.complete q (head.complete p start q one) e two
  accounted p start part q visits := by
    rcases (chains.visits _ _ _ _).mp visits with ⟨rfl, rfl⟩ | visits | ⟨r, one, visits⟩
    · exact plain q
    · exact head.accounted p start part q visits
    · exact tail.accounted r (head.complete p start r one) part q visits
  sound e member := by
    obtain ⟨q, between, two⟩ := tail.sound e member
    obtain ⟨p, start, one⟩ := head.sound q between
    exact ⟨p, start, (chains.derives _ _ _).mpr ⟨q, one, two⟩⟩

theorem plain (inside : ∀ index, node ≠ .rule index) (never : ∀ q, ¬ node.Misses tokens q)
    (q : Spot n) : search.Accounts tokens node q :=
  ⟨fun index same => absurd same (inside index), fun missing => absurd missing (never q)⟩

theorem alternation_nil : Covers program tokens excluded search (.alternation []) [p] ∅ where
  complete q _ e derives := by
    cases derives with
    | alternation member => cases member
  accounted q _ part r visits := by
    cases visits with
    | here => exact plain (by simp) (fun _ => id) _
    | alternation member => cases member
  sound e member := absurd member (Ends.not_mem_empty e)

theorem alternation_cons (one : Covers program tokens excluded search item [p] ends)
    (two : Covers program tokens excluded search (.alternation items) [p] others) :
    Covers program tokens excluded search (.alternation (item :: items)) [p] (ends ∪ others) where
  complete q start e derives := by
    cases derives with
    | alternation member derives =>
      rcases List.mem_cons.mp member with rfl | member
      · exact Ends.mem_union.mpr (Or.inl (one.complete q start e derives))
      · exact Ends.mem_union.mpr (Or.inr (two.complete q start e (.alternation member derives)))
  accounted q start part r visits := by
    cases visits with
    | here => exact plain (by simp) (fun _ => id) _
    | alternation member visits =>
      rcases List.mem_cons.mp member with rfl | member
      · exact one.accounted q start part r visits
      · exact two.accounted q start part r (.alternation member visits)
  sound e member := by
    rcases Ends.mem_union.mp member with member | member
    · obtain ⟨q, start, derives⟩ := one.sound e member
      exact ⟨q, start, .alternation (List.mem_cons_self ..) derives⟩
    · obtain ⟨q, start, derives⟩ := two.sound e member
      cases derives with
      | alternation member derives =>
        exact ⟨q, start, .alternation (List.mem_cons_of_mem _ member) derives⟩

theorem still (stays : ∀ call p e, node.Derives tokens call excluded p e ↔ e = p)
    (alone : ∀ call p part q, node.Visits tokens call excluded p part q → part = node)
    (plain : ∀ q, search.Accounts tokens node q) :
    Covers program tokens excluded search node ends.toList ends where
  complete _ start _ derives := (stays _ _ _).mp derives ▸ start
  accounted _ _ _ q visits := alone _ _ _ _ visits ▸ plain q
  sound e member := ⟨e, member, (stays _ _ _).mpr rfl⟩

theorem sequence_nil : Covers program tokens excluded search (.sequence []) ends.toList ends :=
  still (fun _ _ _ => ⟨fun h => by cases h; rfl, fun h => h ▸ .finish⟩)
    (fun _ _ _ _ h => by cases h; rfl) (plain (by simp) fun _ => id)

theorem times_zero : Covers program tokens excluded search (.times 0 inner) ends.toList ends :=
  still (fun _ _ _ => ⟨fun h => by cases h; rfl, fun h => h ▸ .never⟩)
    (fun _ _ _ _ h => by cases h; rfl) (plain (by simp) fun _ => id)

theorem empty : Covers program tokens excluded search .empty ends.toList ends :=
  still (fun _ _ _ => ⟨fun h => by cases h; rfl, fun h => h ▸ .empty⟩)
    (fun _ _ _ _ h => by cases h; rfl) (plain (by simp) fun _ => id)

theorem blank : Covers program tokens excluded search (.terminal []) ends.toList ends :=
  still (fun _ _ _ => ⟨fun h => by cases h <;> first | rfl | contradiction, fun h => h ▸ .blank⟩)
    (fun _ _ _ _ h => by cases h; rfl) (plain (by simp) fun _ missing => missing.1 rfl)

theorem leaf (all : ∀ call e, node.Derives tokens call excluded p e ↔ e ∈ ends)
    (alone : ∀ call part q, node.Visits tokens call excluded p part q → part = node ∧ q = p)
    (plain : search.Accounts tokens node p) :
    Covers program tokens excluded search node [p] ends where
  complete q start e derives := by
    cases List.mem_singleton.mp start
    exact (all _ _).mp derives
  accounted q start part r visits := by
    cases List.mem_singleton.mp start
    obtain ⟨rfl, rfl⟩ := alone _ _ _ visits
    exact plain
  sound e member := ⟨p, List.mem_singleton_self p, (all _ _).mpr member⟩

theorem times_fixed (one : Covers program tokens excluded search inner ends.toList ends) :
    ∀ count, Covers program tokens excluded search (.times count inner) ends.toList ends
  | 0 => times_zero
  | count + 1 =>
    chain (Node.chains_times count inner) (plain (by simp) fun _ => id) one (times_fixed one count)

theorem optional (one : Covers program tokens excluded search inner [p] ends) :
    Covers program tokens excluded search (.optional inner) [p] ({p} ∪ ends) where
  complete q start e derives := by
    cases derives with
    | skip =>
      exact Ends.mem_union.mpr (Or.inl (Ends.mem_singleton.mpr (List.mem_singleton.mp start)))
    | take derives => exact Ends.mem_union.mpr (Or.inr (one.complete q start e derives))
  accounted q start part r visits := by
    cases visits with
    | here => exact plain (by simp) (fun _ => id) _
    | optional visits => exact one.accounted q start part r visits
  sound e member := by
    rcases Ends.mem_union.mp member with member | member
    · exact ⟨p, List.mem_singleton_self p, Ends.mem_singleton.mp member ▸ .skip⟩
    · obtain ⟨q, start, derives⟩ := one.sound e member
      exact ⟨q, start, .take derives⟩

theorem repeated (start : ∀ p ∈ starts, p ∈ ends)
    (closed : ∀ q ∈ ends, ∃ next, Covers program tokens excluded search inner [q] next ∧
      ∀ e ∈ next, q < e → e ∈ ends)
    (sound : ∀ e ∈ ends, ∃ p ∈ starts,
      (Node.repeated inner).Derives tokens (program.Derives tokens excluded) excluded p e) :
    Covers program tokens excluded search (.repeated inner) starts ends := by
  -- Ends that were not added because they consume nothing are there already.
  have stays : ∀ q ∈ ends, ∀ e, inner.Derives tokens search.answers excluded q e → e ∈ ends := by
    intro q member e derives
    obtain ⟨next, covers, further⟩ := closed q member
    have found := covers.complete q (List.mem_singleton_self q) e derives
    obtain ⟨r, here, truly⟩ := covers.sound e found
    cases List.mem_singleton.mp here
    rcases Fin.lt_or_eq_of_le (truly.le fun _ _ _ => Program.DerivesAvoiding.le) with lt | rfl
    · exact further e found lt
    · exact member
  have complete : ∀ p e, (Node.repeated inner).Derives tokens search.answers excluded p e →
      p ∈ ends → e ∈ ends := by
    intro p e derives
    generalize same : Node.repeated inner = node at derives
    induction derives with
    | stop => exact id
    | again one _ _ ih =>
      cases same
      exact fun member => ih rfl (stays _ member _ one)
    | _ => cases same
  refine ⟨fun p first e derives => complete p e derives (start p first), ?_, sound⟩
  intro p first part q visits
  have member := start p first
  clear first
  generalize same : Node.repeated inner = node at visits
  induction visits with
  | here => exact plain (by simp [← same]) (fun _ missing => by cases same; exact missing) _
  | repeated visits =>
    cases same
    obtain ⟨next, covers, _⟩ := closed _ member
    exact covers.accounted _ (List.mem_singleton_self _) _ _ visits
  | again one _ ih =>
    cases same
    exact ih (stays _ member _ one) rfl
  | _ => cases same

theorem except (left : Covers program tokens excluded search kept [p] ends)
    (right : Covers program tokens excluded search dropped [p] others)
    (judged : ∀ e, e ∈ others ↔ excluded dropped p e) :
    Covers program tokens excluded search (.except kept dropped) [p] (ends \ others) where
  complete q start e derives := by
    cases derives with
    | except derives free =>
      cases List.mem_singleton.mp start
      exact Ends.mem_sdiff.mpr
        ⟨left.complete p start e derives, fun found => free ((judged e).mp found)⟩
  accounted q start part r visits := by
    cases visits with
    | here => exact plain (by simp) (fun _ => id) _
    | kept visits => exact left.accounted q start part r visits
    | dropped visits => exact right.accounted q start part r visits
  sound e member := by
    obtain ⟨member, free⟩ := Ends.mem_sdiff.mp member
    obtain ⟨q, start, derives⟩ := left.sound e member
    cases List.mem_singleton.mp start
    exact ⟨p, start, .except derives fun found => free ((judged e).mpr found)⟩

theorem body_sound {index : Fin program.names.length}
    (covers : Covers program tokens excluded search (program.body index) [p] ends) :
    ∀ e ∈ ends, program.Derives tokens excluded index p e := by
  intro e member
  obtain ⟨q, start, derives⟩ := covers.sound e member
  cases List.mem_singleton.mp start
  exact .apply List.not_mem_nil derives

theorem rule {index : Fin program.names.length}
    (answered : (∀ others, search.Offers (index, p) others → others ⊆ ends) ∧
      ((∃ others, search.Offers (index, p) others) ∨ (index, p) ∈ search.refused))
    (sound : ∀ e ∈ ends, program.Derives tokens excluded index p e) :
    Covers program tokens excluded search (.rule index) [p] ends where
  complete q start e derives := by
    cases derives with
    | rule answer =>
      obtain ⟨_, others, offered, member⟩ := answer
      cases List.mem_singleton.mp start
      exact answered.1 others offered e member
  accounted q start part r visits := by
    cases visits with
    | here =>
      cases List.mem_singleton.mp start
      exact ⟨fun _ same => by cases same; exact answered.2, fun missing => missing.elim⟩
  sound e member := ⟨p, List.mem_singleton_self p, .rule (sound e member)⟩

end Covers
end GrammarDesk
