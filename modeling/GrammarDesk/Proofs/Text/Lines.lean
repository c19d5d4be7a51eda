import GrammarDesk.Proofs.Text.Bytes
import GrammarDesk.Text.Lines

/-! From a character boundary to its line and column and back again. -/
namespace GrammarDesk

theorem Text.units_pos (c : Char) : 0 < units c := by
  unfold units
  split <;> decide

namespace LineTable

theorem startsAfter_append (offset : Nat) (s t : Text) :
    startsAfter offset (s ++ t) = startsAfter offset s ++ startsAfter (offset + s.width) t := by
  induction s generalizing offset with
  | nil => rfl
  | cons c s ih =>
    rw [List.cons_append, startsAfter, startsAfter, Text.width_cons, ← Nat.add_assoc]
    split <;> simp [ih]

theorem startsAfter_eq_nil {s : Text} (single : '\n' ∉ s) (offset : Nat) :
    startsAfter offset s = [] := by
  induction s generalizing offset with
  | nil => rfl
  | cons c s ih =>
    simp only [List.mem_cons, not_or] at single
    rw [startsAfter, if_neg (Ne.symm single.1), ih single.2]

theorem bounds_of_mem_startsAfter {start offset : Nat} {s : Text}
    (member : start ∈ startsAfter offset s) : offset < start ∧ start ≤ offset + s.width := by
  induction s generalizing offset with
  | nil => cases member
  | cons c s ih =>
    have pos := c.utf8Size_pos
    rw [Text.width_cons]
    rw [startsAfter] at member
    have later (member : start ∈ startsAfter (offset + c.utf8Size) s) :
        offset < start ∧ start ≤ offset + (c.utf8Size + Text.width s) := by
      have := ih member
      omega
    split at member
    · rcases List.mem_cons.mp member with rfl | member
      · omega
      · exact later member
    · exact later member

theorem exists_line (s : Text) : ∃ (lines line : Text) (starts : List Nat),
    s = lines ++ line ∧ '\n' ∉ line ∧ 0 :: startsAfter 0 s = starts ++ [lines.width] := by
  by_cases broken : '\n' ∈ s
  · obtain ⟨front, back, split, last⟩ := List.eq_append_cons_of_mem (List.mem_reverse.mpr broken)
    have whole : s = back.reverse ++ ['\n'] ++ front.reverse := by
      rw [← List.reverse_reverse s, split]
      simp
    have single : '\n' ∉ front.reverse := by simpa using last
    refine ⟨back.reverse ++ ['\n'], front.reverse, 0 :: startsAfter 0 back.reverse, whole, single,
      ?_⟩
    rw [whole, startsAfter_append, startsAfter_eq_nil single, startsAfter_append]
    simp [startsAfter, Text.width_append]
  · exact ⟨[], s, [], rfl, broken, by rw [startsAfter_eq_nil broken]; rfl⟩

theorem advance_units {line : Text} (single : '\n' ∉ line) (passed : Nat) (after : Text) :
    advance (passed + Text.units16 line) passed (line ++ after) = line.width := by
  induction line generalizing passed with
  | nil =>
    cases after with
    | nil => rfl
    | cons c after => simp [advance, Text.units16]
  | cons c line ih =>
    simp only [List.mem_cons, not_or] at single
    have wide := Text.units_pos c
    have inside : ¬ (c = '\n' ∨ passed + Text.units16 (c :: line) ≤ passed) := by
      rw [Text.units16, not_or]
      exact ⟨Ne.symm single.1, by omega⟩
    rw [List.cons_append, advance, if_neg inside, Text.units16, ← Nat.add_assoc, ih single.2,
      Text.width_cons]

theorem takeWhile_starts (before after : Text) :
    (ofText (before ++ after)).starts.takeWhile (· ≤ before.width) = 0 :: startsAfter 0 before := by
  have within : ∀ start ∈ 0 :: startsAfter 0 before, start ≤ before.width := by
    intro start member
    rcases List.mem_cons.mp member with rfl | member
    · exact Nat.zero_le _
    · simpa using (bounds_of_mem_startsAfter member).2
  rw [ofText, startsAfter_append, ← List.cons_append, Nat.zero_add,
    List.takeWhile_append_of_pos (by simpa using within)]
  cases later : startsAfter before.width after with
  | nil => simp
  | cons start starts =>
    have beyond := (bounds_of_mem_startsAfter (later ▸ List.mem_cons_self : start ∈ _)).1
    simp [beyond]

section

variable {lines line : Text} {starts : List Nat}

theorem locate_boundary (counted : 0 :: startsAfter 0 (lines ++ line) = starts ++ [lines.width])
    (after : Text) : (ofText (lines ++ line ++ after)).locate (lines ++ line).width =
      ⟨starts.length, Text.units16 line⟩ := by
  have boundary : Text.floorBoundary (lines ++ line).width (ofText (lines ++ line ++ after)).text =
      (lines ++ line).width :=
    Text.floorBoundary_width ..
  have sliced : Text.slice? (ofText (lines ++ line ++ after)).text
      ⟨lines.width, (lines ++ line).width⟩ = some line := by
    rw [Text.width_append]
    exact Text.slice?_append lines line after
  rw [locate, boundary, takeWhile_starts, counted, List.getLastD_concat, sliced]
  simp

theorem offset_boundary (counted : 0 :: startsAfter 0 (lines ++ line) = starts ++ [lines.width])
    (single : '\n' ∉ line) (after : Text) :
    (ofText (lines ++ line ++ after)).offset ⟨starts.length, Text.units16 line⟩ =
      (lines ++ line).width := by
  have found : (ofText (lines ++ line ++ after)).starts[starts.length]? = some lines.width := by
    rw [ofText, startsAfter_append, ← List.cons_append, counted]
    simp
  have behind : Text.dropBytes lines.width (ofText (lines ++ line ++ after)).text =
      line ++ after := by
    rw [ofText, List.append_assoc]
    exact Text.dropBytes_width ..
  have column := advance_units single 0 after
  rw [Nat.zero_add] at column
  simp only [offset, found, behind, column, Text.width_append]

end

theorem offset_locate (before after : Text) :
    (ofText (before ++ after)).offset ((ofText (before ++ after)).locate before.width) =
      before.width := by
  obtain ⟨lines, line, starts, rfl, single, counted⟩ := exists_line before
  rw [locate_boundary counted, offset_boundary counted single]

end LineTable
end GrammarDesk
