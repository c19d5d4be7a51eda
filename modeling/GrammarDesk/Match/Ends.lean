/-! Finite sets of positions between tokens. A set is the ascending list of its
members, so equal sets are equal values, and what bounds every loop that only
adds members is the room that is left. -/
namespace GrammarDesk

/-- A position between `n` tokens: before the first, or after any of them. -/
abbrev Spot (n : Nat) := Fin (n + 1)

structure Ends (n : Nat) where
  toList : List (Spot n)
  sorted : toList.Pairwise (· < ·)
deriving DecidableEq

namespace Ends

variable {n : Nat}

def mergeHead (a : Spot n) (as : List (Spot n)) (rest : List (Spot n) → List (Spot n)) :
    List (Spot n) → List (Spot n)
  | [] => a :: as
  | b :: bs =>
    if a < b then a :: rest (b :: bs)
    else if b < a then b :: mergeHead a as rest bs
    else a :: rest bs

def merge : List (Spot n) → List (Spot n) → List (Spot n)
  | [] => id
  | a :: as => mergeHead a as (merge as)

@[simp] theorem merge_nil (bs : List (Spot n)) : merge [] bs = bs := rfl

@[simp] theorem merge_cons_nil (a : Spot n) (as : List (Spot n)) :
    merge (a :: as) [] = a :: as := rfl

theorem merge_cons_cons (a b : Spot n) (as bs : List (Spot n)) :
    merge (a :: as) (b :: bs) =
      if a < b then a :: merge as (b :: bs)
      else if b < a then b :: merge (a :: as) bs
      else a :: merge as bs := rfl

theorem eq_of_not_lt {a b : Spot n} (h₁ : ¬ a < b) (h₂ : ¬ b < a) : a = b :=
  Fin.le_antisymm (Fin.not_lt.mp h₂) (Fin.not_lt.mp h₁)

theorem mem_merge {x : Spot n} : ∀ {as bs : List (Spot n)}, x ∈ merge as bs ↔ x ∈ as ∨ x ∈ bs
  | [], bs => by simp
  | a :: as, [] => by simp
  | a :: as, b :: bs => by
    have ih₁ := @mem_merge x as (b :: bs)
    have ih₂ := @mem_merge x (a :: as) bs
    have ih₃ := @mem_merge x as bs
    rw [merge_cons_cons]
    split
    · grind
    split
    · grind
    · grind [eq_of_not_lt]

theorem sorted_merge : ∀ {as bs : List (Spot n)}, as.Pairwise (· < ·) → bs.Pairwise (· < ·) →
    (merge as bs).Pairwise (· < ·)
  | [], _, _, hb => hb
  | a :: as, [], ha, _ => ha
  | a :: as, b :: bs, ha, hb => by
    obtain ⟨ha₁, ha₂⟩ := List.pairwise_cons.mp ha
    obtain ⟨hb₁, hb₂⟩ := List.pairwise_cons.mp hb
    rw [merge_cons_cons]
    split
    · refine List.pairwise_cons.mpr ⟨fun x hx => ?_, sorted_merge ha₂ hb⟩
      rcases mem_merge.mp hx with h | h
      · exact ha₁ x h
      · rcases List.mem_cons.mp h with rfl | h
        · assumption
        · exact Fin.lt_trans (by assumption) (hb₁ x h)
    · split
      · refine List.pairwise_cons.mpr ⟨fun x hx => ?_, sorted_merge ha hb₂⟩
        rcases mem_merge.mp hx with h | h
        · rcases List.mem_cons.mp h with rfl | h
          · assumption
          · exact Fin.lt_trans (by assumption) (ha₁ x h)
        · exact hb₁ x h
      · have same : a = b := eq_of_not_lt (by assumption) (by assumption)
        refine List.pairwise_cons.mpr ⟨fun x hx => ?_, sorted_merge ha₂ hb₂⟩
        rcases mem_merge.mp hx with h | h
        · exact ha₁ x h
        · exact same ▸ hb₁ x h

theorem sublist_merge : ∀ {as bs : List (Spot n)}, as.Sublist (merge as bs)
  | [], _ => List.nil_sublist _
  | a :: as, [] => List.Sublist.refl _
  | a :: as, b :: bs => by
    rw [merge_cons_cons]
    split
    · exact sublist_merge.cons_cons a
    · split
      · exact sublist_merge.cons b
      · exact sublist_merge.cons_cons a

instance : Membership (Spot n) (Ends n) := ⟨fun ends p => p ∈ ends.toList⟩

instance (p : Spot n) (ends : Ends n) : Decidable (p ∈ ends) :=
  inferInstanceAs (Decidable (p ∈ ends.toList))

theorem mem_def {p : Spot n} {ends : Ends n} : p ∈ ends ↔ p ∈ ends.toList := Iff.rfl

instance : EmptyCollection (Ends n) := ⟨⟨[], .nil⟩⟩

instance : Singleton (Spot n) (Ends n) := ⟨fun p => ⟨[p], List.pairwise_singleton _ p⟩⟩

instance : Union (Ends n) := ⟨fun a b => ⟨merge a.toList b.toList, sorted_merge a.sorted b.sorted⟩⟩

instance : SDiff (Ends n) := ⟨fun a b => ⟨a.toList.filter (· ∉ b), a.sorted.filter _⟩⟩

instance : HasSubset (Ends n) := ⟨fun a b => ∀ p ∈ a.toList, p ∈ b⟩

instance (a b : Ends n) : Decidable (a ⊆ b) :=
  inferInstanceAs (Decidable (∀ p ∈ a.toList, p ∈ b))

instance : Inhabited (Ends n) := ⟨∅⟩

theorem not_mem_empty (p : Spot n) : p ∉ (∅ : Ends n) := List.not_mem_nil

theorem mem_singleton {p q : Spot n} : p ∈ ({q} : Ends n) ↔ p = q := List.mem_singleton

theorem mem_union {p : Spot n} {a b : Ends n} : p ∈ a ∪ b ↔ p ∈ a ∨ p ∈ b := mem_merge

theorem mem_sdiff {p : Spot n} {a b : Ends n} : p ∈ a \ b ↔ p ∈ a ∧ p ∉ b := by
  simp [mem_def, SDiff.sdiff, List.mem_filter]

theorem union_empty (ends : Ends n) : ends ∪ ∅ = ends := by
  obtain ⟨list, sorted⟩ := ends
  cases list <;> rfl

theorem singleton_ne_empty (p : Spot n) : ({p} : Ends n) ≠ ∅ :=
  fun same => not_mem_empty p (same ▸ mem_singleton.mpr rfl)

theorem eq_empty_of_forall_not_mem {ends : Ends n} (none : ∀ e ∈ ends, False) : ends = ∅ := by
  obtain ⟨list, sorted⟩ := ends
  cases list with
  | nil => rfl
  | cons e list => exact (none e (List.mem_cons_self ..)).elim

/-- How many more members there can be. -/
def room (ends : Ends n) : Nat := n + 1 - ends.toList.length

theorem length_add_le {k : Nat} : ∀ {l : List (Spot n)}, l.Pairwise (· < ·) →
    (∀ p ∈ l, k ≤ p.val) → k ≤ n + 1 → l.length + k ≤ n + 1
  | [], _, _, hk => by simpa using hk
  | a :: l, sorted, low, _ => by
    obtain ⟨head, tail⟩ := List.pairwise_cons.mp sorted
    have := length_add_le (k := a.val + 1) tail (fun p hp => head p hp) (by omega)
    have := low a (List.mem_cons_self ..)
    simp only [List.length_cons]
    omega

theorem length_le (ends : Ends n) : ends.toList.length ≤ n + 1 := by
  simpa using length_add_le (k := 0) ends.sorted (by simp) (by omega)

theorem room_union_lt {a b : Ends n} (h : ¬ b ⊆ a) : (a ∪ b).room < a.room := by
  have sub : a.toList.Sublist (a ∪ b).toList := sublist_merge
  have longer : a.toList.length < (a ∪ b).toList.length := by
    refine Nat.lt_of_le_of_ne sub.length_le fun same => h fun p hp => ?_
    have : a.toList = (a ∪ b).toList := sub.eq_of_length same
    exact mem_def.mpr (this ▸ mem_merge.mpr (Or.inr hp))
  have := length_le (a ∪ b)
  unfold room
  omega

end Ends
end GrammarDesk
