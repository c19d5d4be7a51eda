import GrammarDesk.Text.Basic
import Mathlib.Data.List.Infix

/-! Cutting and searching a text at the widths of its parts. -/
namespace GrammarDesk.Text

theorem width_pos {s : Text} (some_chars : s ≠ []) : 0 < s.width := by
  cases s with
  | nil => exact absurd rfl some_chars
  | cons c s => exact Nat.add_pos_left c.utf8Size_pos _

theorem splitAtByte_cons {n : Nat} {c : Char} (fits : c.utf8Size ≤ n) (s : Text) :
    splitAtByte n (c :: s) =
      (splitAtByte (n - c.utf8Size) s).map fun (before, after) => (c :: before, after) := by
  have pos := c.utf8Size_pos
  cases n with
  | zero => omega
  | succ n => rw [splitAtByte, if_pos fits]

theorem splitAtByte_width (s t : Text) : splitAtByte s.width (s ++ t) = some (s, t) := by
  induction s with
  | nil => simp [splitAtByte]
  | cons c s ih =>
    rw [List.cons_append, width_cons, splitAtByte_cons (Nat.le_add_right ..),
      Nat.add_sub_cancel_left, ih, Option.map_some]

theorem splitAtByte_eq_some_iff {n : Nat} {s before after : Text} :
    splitAtByte n s = some (before, after) ↔ s = before ++ after ∧ n = before.width := by
  constructor
  · intro split
    fun_induction splitAtByte n s generalizing before with
    | case1 s =>
      cases split
      exact ⟨rfl, rfl⟩
    | case2 n => cases split
    | case3 n c cs fits ih =>
      obtain ⟨⟨front, back⟩, split, same⟩ := Option.map_eq_some_iff.mp split
      cases same
      obtain ⟨rfl, size⟩ := ih split
      refine ⟨rfl, ?_⟩
      rw [width_cons, ← size]
      omega
    | case4 n c cs fits => cases split
  · rintro ⟨rfl, rfl⟩
    exact splitAtByte_width before after

theorem slice?_append (before middle after : Text) :
    slice? (before ++ middle ++ after) ⟨before.width, before.width + middle.width⟩ =
      some middle := by
  have size : before.width + middle.width - before.width = middle.width :=
    Nat.add_sub_cancel_left ..
  rw [slice?, if_pos (Nat.le_add_right _ _), size, List.append_assoc, splitAtByte_width]
  simp [splitAtByte_width]

theorem dropBytes_cons {n : Nat} {c : Char} (fits : c.utf8Size ≤ n) (s : Text) :
    dropBytes n (c :: s) = dropBytes (n - c.utf8Size) s := by
  have pos := c.utf8Size_pos
  cases n with
  | zero => omega
  | succ n => rfl

theorem dropBytes_width (s t : Text) : dropBytes s.width (s ++ t) = t := by
  induction s with
  | nil => simp [dropBytes]
  | cons c s ih =>
    rw [List.cons_append, width_cons, dropBytes_cons (Nat.le_add_right ..),
      Nat.add_sub_cancel_left, ih]

theorem floorBoundary_width (s t : Text) : floorBoundary s.width (s ++ t) = s.width := by
  induction s with
  | nil =>
    cases t with
    | nil => rfl
    | cons c t =>
      have pos := c.utf8Size_pos
      rw [List.nil_append, floorBoundary, width_nil, if_neg (by omega)]
  | cons c s ih =>
    rw [List.cons_append, width_cons, floorBoundary, if_pos (Nat.le_add_right ..),
      Nat.add_sub_cancel_left, ih]

theorem find?_eq_some {needle s : Text} {n : Nat} (found : find? needle s = some n) :
    ∃ front rest : Text, s = front ++ needle ++ rest ∧ n = front.width := by
  induction s generalizing n with
  | nil =>
    rw [find?] at found
    split at found
    · rename_i empty
      cases found
      exact ⟨[], [], by simpa using empty, rfl⟩
    · cases found
  | cons c s ih =>
    rw [find?] at found
    split at found
    · rename_i first
      cases found
      obtain ⟨rest, whole⟩ := List.isPrefixOf_iff_prefix.mp first
      exact ⟨[], rest, whole.symm, rfl⟩
    · obtain ⟨later, there, rfl⟩ := Option.map_eq_some_iff.mp found
      obtain ⟨front, rest, rfl, rfl⟩ := ih there
      exact ⟨c :: front, rest, rfl, rfl⟩

theorem find?_append_self (needle rest : Text) : find? needle (needle ++ rest) = some 0 := by
  cases whole : needle ++ rest with
  | nil => simp [find?, (List.append_eq_nil_iff.mp whole).1]
  | cons c cs =>
    have first : needle.isPrefixOf (c :: cs) = true := by
      rw [← whole]
      exact List.isPrefixOf_iff_prefix.mpr (List.prefix_append ..)
    rw [find?, if_pos first]

theorem exists_find? (needle skip back : Text) :
    ∃ n ≤ skip.width, find? needle (skip ++ needle ++ back) = some n := by
  induction skip with
  | nil => exact ⟨0, Nat.le_refl _, find?_append_self needle back⟩
  | cons c skip ih =>
    obtain ⟨n, le, found⟩ := ih
    rw [List.cons_append, List.cons_append, find?]
    split
    · exact ⟨0, Nat.zero_le _, rfl⟩
    · exact ⟨c.utf8Size + n, Nat.add_le_add_left le _, by rw [found]; rfl⟩

theorem find?_gap {c : Char} {gap : Text} (apart : c ∉ gap) (needle rest : Text) :
    find? (c :: needle) (gap ++ (c :: needle) ++ rest) = some gap.width := by
  induction gap with
  | nil => exact find?_append_self (c :: needle) rest
  | cons other gap ih =>
    simp only [List.mem_cons, not_or] at apart
    rw [List.cons_append, List.cons_append, find?, if_neg (by simp [apart.1]), ih apart.2]
    rfl

def Stands (whole token : Text) (span : Span) : Prop :=
  ∃ before after : Text, whole = before ++ token ++ after ∧
    span = ⟨before.width, before.width + token.width⟩

theorem stands_iff {whole token : Text} {span : Span} :
    Stands whole token span ↔ slice? whole span = some token := by
  constructor
  · rintro ⟨before, after, rfl, rfl⟩
    exact slice?_append before token after
  · intro sliced
    rw [slice?] at sliced
    split at sliced
    · rename_i forward
      obtain ⟨⟨before, rest⟩, first, sliced⟩ := Option.bind_eq_some_iff.mp sliced
      obtain ⟨⟨taken, after⟩, second, same⟩ := Option.bind_eq_some_iff.mp sliced
      cases same
      obtain ⟨rfl, start⟩ := splitAtByte_eq_some_iff.mp first
      obtain ⟨rfl, size⟩ := splitAtByte_eq_some_iff.mp second
      refine ⟨before, after, (List.append_assoc ..).symm, ?_⟩
      rw [← start, ← size, Nat.add_sub_cancel' forward]
    · cases sliced

/-- An offset that cuts no character and does not lie past the end. -/
def Boundary (s : Text) (n : Nat) : Prop := ∃ front back : Text, s = front ++ back ∧ n = front.width

section

variable {s token : Text} {span : Span} {n cursor : Nat}

theorem boundary_zero (s : Text) : s.Boundary 0 := ⟨[], s, rfl, rfl⟩

theorem Boundary.floorBoundary_eq (boundary : s.Boundary n) : floorBoundary n s = n := by
  obtain ⟨front, back, rfl, rfl⟩ := boundary
  exact floorBoundary_width front back

theorem Boundary.le_width (boundary : s.Boundary n) : n ≤ s.width := by
  obtain ⟨front, back, rfl, rfl⟩ := boundary
  rw [width_append]
  exact Nat.le_add_right ..

theorem boundary_floorBoundary (n : Nat) (s : Text) : s.Boundary (floorBoundary n s) := by
  induction s generalizing n with
  | nil => exact boundary_zero []
  | cons c s ih =>
    rw [floorBoundary]
    split
    · obtain ⟨front, back, split, size⟩ := ih (n - c.utf8Size)
      exact ⟨c :: front, back, congrArg (c :: ·) split, congrArg (c.utf8Size + ·) size⟩
    · exact boundary_zero (c :: s)

theorem Boundary.le_floorBoundary_iff (boundary : s.Boundary n) {limit : Nat} :
    n ≤ floorBoundary limit s ↔ n ≤ limit := by
  obtain ⟨front, back, rfl, rfl⟩ := boundary
  induction front generalizing limit with
  | nil => simp
  | cons c front ih =>
    rw [List.cons_append, floorBoundary, width_cons]
    have rest : width front ≤ floorBoundary (limit - c.utf8Size) (front ++ back) ↔
        width front ≤ limit - c.utf8Size := ih
    have pos := c.utf8Size_pos
    split <;> omega

theorem Boundary.max {m : Nat} (boundary : s.Boundary n) (other : s.Boundary m) :
    s.Boundary (max n m) := by
  rcases Nat.le_total n m with le | ge
  · rwa [Nat.max_eq_right le]
  · rwa [Nat.max_eq_left ge]

theorem Boundary.splitAtByte_eq (boundary : s.Boundary n) :
    ∃ front, splitAtByte n s = some (front, dropBytes n s) := by
  obtain ⟨front, back, rfl, rfl⟩ := boundary
  exact ⟨front, by rw [splitAtByte_width, dropBytes_width]⟩

theorem Stands.stop_eq (stands : Stands s token span) : span.stop = span.start + token.width := by
  obtain ⟨before, after, -, rfl⟩ := stands
  rfl

theorem Stands.boundary_start (stands : Stands s token span) : s.Boundary span.start := by
  obtain ⟨before, after, rfl, rfl⟩ := stands
  exact ⟨before, token ++ after, List.append_assoc .., rfl⟩

theorem Stands.boundary_stop (stands : Stands s token span) : s.Boundary span.stop := by
  obtain ⟨before, after, rfl, rfl⟩ := stands
  exact ⟨before ++ token, after, rfl, (width_append ..).symm⟩

theorem stands_of_find? (boundary : s.Boundary cursor)
    (found : find? token (s.dropBytes cursor) = some n) :
    Stands s token ⟨cursor + n, cursor + n + token.width⟩ := by
  obtain ⟨passed, ahead, rfl, rfl⟩ := boundary
  rw [dropBytes_width] at found
  obtain ⟨front, rest, rfl, rfl⟩ := find?_eq_some found
  refine ⟨passed ++ front, rest, by simp only [List.append_assoc], ?_⟩
  rw [width_append]

theorem Stands.exists_skip {passed ahead : Text} (stands : Stands (passed ++ ahead) token span)
    (behind : passed.width ≤ span.start) :
    ∃ skip back : Text, ahead = skip ++ token ++ back ∧ span.start = passed.width + skip.width := by
  obtain ⟨before, after, split, rfl⟩ := stands
  rw [List.append_assoc, List.append_eq_append_iff] at split
  obtain ⟨skip, rfl, rfl⟩ | ⟨more, rfl, rest⟩ := split
  · exact ⟨skip, after, (List.append_assoc ..).symm, width_append ..⟩
  · -- The boundary cannot lie past the start.
    have nothing : more = [] := by
      by_contra some_chars
      have wide := width_pos some_chars
      rw [width_append] at behind
      dsimp only at behind
      omega
    subst nothing
    exact ⟨[], after, rest.symm, by simp⟩

theorem Stands.exists_find? (stands : Stands s token span) (boundary : s.Boundary cursor)
    (behind : cursor ≤ span.start) :
    ∃ n, find? token (s.dropBytes cursor) = some n ∧ cursor + n ≤ span.start := by
  obtain ⟨passed, ahead, rfl, rfl⟩ := boundary
  obtain ⟨skip, back, rfl, start⟩ := stands.exists_skip behind
  obtain ⟨n, le, found⟩ := Text.exists_find? token skip back
  rw [dropBytes_width, start]
  exact ⟨n, found, Nat.add_le_add_left le _⟩

end

end GrammarDesk.Text
