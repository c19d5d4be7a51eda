import GrammarDesk.Text.Blank

/-! Cutting sample texts into tokens. White space separates tokens; at each
place the longest literal that fits is taken, and without one a single
character. -/
namespace GrammarDesk

/-- The literals of a grammar, longest first, so that the first one that fits
is the longest. -/
structure Cutter where
  literals : List Text
  nonempty : ∀ literal ∈ literals, literal ≠ []

namespace Cutter

/-- More bytes come first; of the same length, the smaller code points. -/
def before (a b : Text) : Bool :=
  if a.width = b.width then a.atMost b else decide (b.width < a.width)

/-- The literals in order, without repetitions and empty ones. -/
def ofLiterals (literals : List Text) : Cutter where
  literals := (literals.filter (!·.isEmpty)).eraseDups.mergeSort before
  nonempty literal h := by
    have := List.mem_filter.mp (List.mem_eraseDups.mp (List.mem_mergeSort.mp h))
    simpa using this.2

def first (cutter : Cutter) (c : Char) (cs : Text) : Text :=
  (cutter.literals.find? (·.isPrefixOf (c :: cs))).getD [c]

theorem first_ne_nil (cutter : Cutter) (c : Char) (cs : Text) : cutter.first c cs ≠ [] := by
  unfold first
  cases h : cutter.literals.find? (·.isPrefixOf (c :: cs)) with
  | none => simp
  | some literal => exact cutter.nonempty literal (List.mem_of_find?_eq_some h)

def cut (cutter : Cutter) (sample : Text) : List Text :=
  match _h : Text.trimStart sample with
  | [] => []
  | c :: cs =>
    let token := cutter.first c cs
    token :: cut cutter ((c :: cs).drop token.length)
termination_by sample.length
decreasing_by
  have := Text.length_trimStart_le sample
  have := List.length_pos_iff.mpr (cutter.first_ne_nil c cs)
  simp_all only [List.length_drop, List.length_cons]
  omega

end Cutter
end GrammarDesk
