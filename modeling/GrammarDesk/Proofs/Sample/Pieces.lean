import GrammarDesk.Proofs.Text.Bytes
import GrammarDesk.Sample.Cutter
import Mathlib.Data.List.TakeWhile

/-! What a cutter makes of a sample: gaps of white space, each with the token
behind it. Nothing is lost but the white space at the end. -/
namespace GrammarDesk

namespace Text

theorem isBlank_takeWhile (s : Text) : isBlank (s.takeWhile blank) = true :=
  List.all_takeWhile

theorem trimStart_eq_nil_iff {s : Text} : trimStart s = [] ↔ s.isBlank = true := by
  simp [trimStart, isBlank, List.dropWhile_eq_nil_iff]

theorem exists_trimStart {s : Text} (written : s.isBlank = false) :
    ∃ (c : Char) (cs : Text), trimStart s = c :: cs := by
  refine List.exists_cons_of_ne_nil fun nothing => ?_
  rw [trimStart_eq_nil_iff.mp nothing] at written
  cases written

theorem blank_of_trimStart {s : Text} {c : Char} {cs : Text} (trimmed : trimStart s = c :: cs) :
    blank c = false := by
  have first := List.head?_dropWhile_not blank s
  rw [← trimStart, trimmed] at first
  simpa using first

theorem takeWhile_append_trimStart (s : Text) : s.takeWhile blank ++ trimStart s = s :=
  List.takeWhile_append_dropWhile

end Text

namespace Cutter

/-- White space that a cut skips, and the token behind it. -/
structure Piece where
  gap : Text
  token : Text

def Piece.text (piece : Piece) : Text := piece.gap ++ piece.token

theorem first_isPrefixOf (cutter : Cutter) (c : Char) (cs : Text) :
    (cutter.first c cs).isPrefixOf (c :: cs) = true := by
  unfold first
  cases found : cutter.literals.find? (·.isPrefixOf (c :: cs)) with
  | none => simp
  | some literal =>
    have fits := List.find?_some found
    exact fits

theorem exists_first (cutter : Cutter) (c : Char) (cs : Text) :
    ∃ more, cutter.first c cs = c :: more := by
  obtain ⟨d, more, split⟩ := List.exists_cons_of_ne_nil (cutter.first_ne_nil c cs)
  have begins := List.isPrefixOf_iff_prefix.mp (cutter.first_isPrefixOf c cs)
  rw [split] at begins
  obtain ⟨rfl, -⟩ := List.cons_prefix_cons.mp begins
  exact ⟨more, split⟩

theorem first_append_drop (cutter : Cutter) (c : Char) (cs : Text) :
    cutter.first c cs ++ (c :: cs).drop (cutter.first c cs).length = c :: cs := by
  obtain ⟨rest, split⟩ := List.isPrefixOf_iff_prefix.mp (cutter.first_isPrefixOf c cs)
  conv => lhs; rw [← split]
  rw [List.drop_left, split]

theorem length_drop_first_lt (cutter : Cutter) {sample : Text} {c : Char} {cs : Text}
    (trimmed : Text.trimStart sample = c :: cs) :
    ((c :: cs).drop (cutter.first c cs).length).length < sample.length := by
  have shorter := Text.length_trimStart_le sample
  have taken := List.length_pos_iff.mpr (cutter.first_ne_nil c cs)
  rw [trimmed] at shorter
  simp only [List.length_drop, List.length_cons] at shorter ⊢
  omega

def pieces (cutter : Cutter) (sample : Text) : List Piece :=
  match _h : Text.trimStart sample with
  | [] => []
  | c :: cs =>
    let token := cutter.first c cs
    ⟨sample.takeWhile Text.blank, token⟩ :: pieces cutter ((c :: cs).drop token.length)
termination_by sample.length
decreasing_by exact length_drop_first_lt cutter _h

theorem pieces_of_blank {cutter : Cutter} {sample : Text} (blank : Text.trimStart sample = []) :
    cutter.pieces sample = [] := by
  rw [pieces]
  split <;> simp_all

theorem cut_of_blank {cutter : Cutter} {sample : Text} (blank : Text.trimStart sample = []) :
    cutter.cut sample = [] := by
  rw [cut]
  split <;> simp_all

theorem pieces_of_trimStart {cutter : Cutter} {sample : Text} {c : Char} {cs : Text}
    (trimmed : Text.trimStart sample = c :: cs) :
    cutter.pieces sample = ⟨sample.takeWhile Text.blank, cutter.first c cs⟩ ::
      cutter.pieces ((c :: cs).drop (cutter.first c cs).length) := by
  rw [pieces]
  split <;> simp_all

theorem cut_of_trimStart {cutter : Cutter} {sample : Text} {c : Char} {cs : Text}
    (trimmed : Text.trimStart sample = c :: cs) :
    cutter.cut sample = cutter.first c cs ::
      cutter.cut ((c :: cs).drop (cutter.first c cs).length) := by
  rw [cut]
  split <;> simp_all

/-- The induction along a cut: a blank rest, or a token and what follows it. -/
theorem cut_induction (cutter : Cutter) {motive : Text → Prop}
    (blank : ∀ sample, Text.trimStart sample = [] → motive sample)
    (token : ∀ sample c cs, Text.trimStart sample = c :: cs →
      motive ((c :: cs).drop (cutter.first c cs).length) → motive sample)
    (sample : Text) : motive sample := by
  match trimmed : Text.trimStart sample with
  | [] => exact blank sample trimmed
  | c :: cs => exact token sample c cs trimmed (cut_induction cutter blank token _)
termination_by sample.length
decreasing_by exact length_drop_first_lt cutter trimmed

theorem map_token_pieces (cutter : Cutter) (sample : Text) :
    (cutter.pieces sample).map Piece.token = cutter.cut sample := by
  induction sample using cut_induction cutter with
  | blank sample blank => rw [pieces_of_blank blank, cut_of_blank blank, List.map_nil]
  | token sample c cs trimmed ih =>
    rw [pieces_of_trimStart trimmed, cut_of_trimStart trimmed, List.map_cons, ih]

theorem length_pieces (cutter : Cutter) (sample : Text) :
    (cutter.pieces sample).length = (cutter.cut sample).length := by
  rw [← map_token_pieces, List.length_map]

theorem pieces_wellFormed (cutter : Cutter) (sample : Text) :
    ∀ piece ∈ cutter.pieces sample, piece.gap.isBlank = true ∧ piece.token ≠ [] := by
  induction sample using cut_induction cutter with
  | blank sample blank => simp [pieces_of_blank blank]
  | token sample c cs trimmed ih =>
    rw [pieces_of_trimStart trimmed, List.forall_mem_cons]
    exact ⟨⟨Text.isBlank_takeWhile sample, cutter.first_ne_nil c cs⟩, ih⟩

theorem exists_rest (cutter : Cutter) (sample : Text) : ∃ rest : Text, rest.isBlank = true ∧
    (cutter.pieces sample).flatMap Piece.text ++ rest = sample := by
  induction sample using cut_induction cutter with
  | blank sample blank =>
    exact ⟨sample, Text.trimStart_eq_nil_iff.mp blank, by rw [pieces_of_blank blank]; rfl⟩
  | token sample c cs trimmed ih =>
    obtain ⟨rest, blank, whole⟩ := ih
    refine ⟨rest, blank, ?_⟩
    have split := Text.takeWhile_append_trimStart sample
    rw [pieces_of_trimStart trimmed, List.flatMap_cons, Piece.text, List.append_assoc, whole,
      List.append_assoc, first_append_drop, ← trimmed, split]

end Cutter
end GrammarDesk
