import GrammarDesk.Proofs.Grammar.Compilation
import GrammarDesk.Sample.Cutter

/-! How a cutter orders its literals. The order is total, so a cutter depends on
which literals a grammar has and on nothing else: not on their number, and not
on where they stand. -/
namespace GrammarDesk

namespace Text

theorem atMost_cons_iff {c d : Char} {a b : Text} : atMost (c :: a) (d :: b) = true ↔
    c.toNat < d.toNat ∨ c.toNat = d.toNat ∧ a.atMost b = true := by
  rw [atMost]
  split
  · simp [*]
  · split
    · simp; omega
    · have same : c.toNat = d.toNat := by omega
      simp [same]

theorem atMost_total (a b : Text) : a.atMost b = true ∨ b.atMost a = true := by
  induction a generalizing b with
  | nil => exact Or.inl rfl
  | cons c a ih =>
    cases b with
    | nil => exact Or.inr rfl
    | cons d b =>
      have rest := ih b
      rw [atMost_cons_iff, atMost_cons_iff]
      grind

theorem atMost_antisymm {a b : Text} (le : a.atMost b = true) (ge : b.atMost a = true) :
    a = b := by
  induction a generalizing b with
  | nil =>
    cases b with
    | nil => rfl
    | cons d b => cases ge
  | cons c a ih =>
    cases b with
    | nil => cases le
    | cons d b =>
      rw [atMost_cons_iff] at le ge
      obtain ⟨same, le⟩ := le.resolve_left (by omega)
      obtain ⟨-, ge⟩ := ge.resolve_left (by omega)
      rw [Char.toNat_inj.mp same, ih le ge]

theorem atMost_trans {a b c : Text} (first : a.atMost b = true) (second : b.atMost c = true) :
    a.atMost c = true := by
  induction a generalizing b c with
  | nil => rfl
  | cons x a ih =>
    match b, c with
    | [], _ => cases first
    | y :: b, [] => cases second
    | y :: b, z :: c =>
      rw [atMost_cons_iff] at first second ⊢
      rcases first with less | ⟨same, first⟩
      · exact Or.inl (by omega)
      · rw [same]
        exact second.imp_right fun ⟨same, second⟩ => ⟨same, ih first second⟩

end Text

namespace Cutter

theorem before_iff {a b : Text} : before a b = true ↔
    b.width < a.width ∨ a.width = b.width ∧ a.atMost b = true := by
  unfold before
  split
  · simp [*]
  · simp [*]

theorem before_total (a b : Text) : (before a b || before b a) = true := by
  rw [Bool.or_eq_true, before_iff, before_iff]
  rcases Nat.lt_trichotomy a.width b.width with shorter | same | longer
  · exact Or.inr (Or.inl shorter)
  · exact (a.atMost_total b).imp (fun le => Or.inr ⟨same, le⟩) fun ge => Or.inr ⟨same.symm, ge⟩
  · exact Or.inl (Or.inl longer)

theorem before_antisymm {a b : Text} (le : before a b = true) (ge : before b a = true) :
    a = b := by
  rw [before_iff] at le ge
  exact Text.atMost_antisymm (le.resolve_left (by omega)).2 (ge.resolve_left (by omega)).2

theorem before_trans (a b c : Text) (first : before a b = true) (second : before b c = true) :
    before a c = true := by
  rw [before_iff] at first second ⊢
  rcases first with less | ⟨same, first⟩
  · exact Or.inl (by omega)
  · rw [same]
    exact second.imp_right fun ⟨same, second⟩ => ⟨same, Text.atMost_trans first second⟩

@[simp] theorem mem_ofLiterals {literals : List Text} {literal : Text} :
    literal ∈ (ofLiterals literals).literals ↔ literal ∈ literals ∧ literal ≠ [] := by
  simp [ofLiterals]

theorem sorted_ofLiterals (literals : List Text) :
    (ofLiterals literals).literals.Pairwise (before · ·) :=
  List.pairwise_mergeSort before_trans before_total _

theorem nodup_ofLiterals (literals : List Text) : (ofLiterals literals).literals.Nodup :=
  (List.mergeSort_perm _ _).nodup_iff.mpr (nodup_eraseDups _)

theorem eq_of_sorted {one two : List Text} (sorted : one.Pairwise (before · ·))
    (nodup : one.Nodup) (sorted' : two.Pairwise (before · ·)) (nodup' : two.Nodup)
    (same : ∀ literal, literal ∈ one ↔ literal ∈ two) : one = two :=
  ((List.perm_ext_iff_of_nodup nodup nodup').mpr same).eq_of_pairwise
    (fun _ _ _ _ => before_antisymm) sorted sorted'

theorem ofLiterals_congr {one two : List Text}
    (same : ∀ literal ≠ [], (literal ∈ one ↔ literal ∈ two)) : ofLiterals one = ofLiterals two := by
  have lists : (ofLiterals one).literals = (ofLiterals two).literals := by
    refine eq_of_sorted (sorted_ofLiterals one) (nodup_ofLiterals one) (sorted_ofLiterals two)
      (nodup_ofLiterals two) fun literal => ?_
    rw [mem_ofLiterals, mem_ofLiterals]
    exact and_congr_left (same literal)
  unfold ofLiterals at lists ⊢
  simpa only [mk.injEq] using lists

end Cutter

end GrammarDesk
