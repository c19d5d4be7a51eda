import GrammarDesk.Proofs.Text.Lines
import Mathlib

/-! Places in the lines of a text. A boundary of a text stands in one of its lines, behind
a front of that line, and its place is the number of the line with the units of the front.
Places ascend with the boundaries and lead back to them; any other offset has the place of
the last boundary before it. The offset of an arbitrary place is the first boundary of its
line that is not in front of its column. Lines and columns are told in 32 bits, so this is
about texts of fewer lines and units; in others they wrap around. -/
namespace GrammarDesk

instance : LT Place := ⟨fun a b => a.line < b.line ∨ a.line = b.line ∧ a.column < b.column⟩

namespace Text

def lines (s : Text) : List Text := s.splitOn '\n'

def lineStart (s : Text) (number : Nat) : Nat := ((s.lines.take number).map (·.width + 1)).sum

/-- The text has fewer lines, and fewer units on each, than places can tell. -/
structure Narrow (s : Text) : Prop where
  lines : s.lines.length < Place.limit
  units : ∀ line ∈ s.lines, line.units16 < Place.limit

/-- A boundary has this place: it stands behind a front of the line. -/
def At (s : Text) (n : Nat) (place : Place) : Prop :=
  ∃ front rest : Text, s.lines[place.line]? = some (front ++ rest) ∧
    n = s.lineStart place.line + front.width ∧ place.column = front.units16

variable {s first rest line : Text} {number n : Nat} {place : Place}

theorem lines_of_single (single : '\n' ∉ s) : s.lines = [s] :=
  List.splitOnP_eq_singleton fun _ member =>
    beq_eq_false_iff_ne.mpr (ne_of_mem_of_not_mem member single)

theorem lines_broken (single : '\n' ∉ first) (rest : Text) :
    (first ++ '\n' :: rest).lines = first :: rest.lines :=
  List.splitOnP_append_cons_of_forall_mem
    (fun _ member => beq_eq_false_iff_ne.mpr (ne_of_mem_of_not_mem member single)) '\n'
    (by simp) rest

@[simp] theorem lineStart_zero (s : Text) : s.lineStart 0 = 0 := rfl

theorem lineStart_broken (single : '\n' ∉ first) (rest : Text) (number : Nat) :
    (first ++ '\n' :: rest).lineStart (number + 1) =
      first.width + 1 + rest.lineStart number := by
  simp [lineStart, lines_broken single]

/-- A text is a single line, or has a first line and more. -/
theorem lines_induction {motive : Text → Prop} (single : ∀ s, '\n' ∉ s → motive s)
    (broken : ∀ first rest, '\n' ∉ first → motive rest → motive (first ++ '\n' :: rest))
    (s : Text) : motive s := by
  by_cases member : '\n' ∈ s
  · obtain ⟨first, rest, split, none⟩ := List.eq_append_cons_of_mem member
    have shorter : rest.length < s.length := by
      rw [split, List.length_append, List.length_cons]
      omega
    rw [split]
    exact broken first rest none (lines_induction single broken rest)
  · exact single s member
termination_by s.length

/-- A line with all that stands in front of it and behind it. -/
structure Cut (s : Text) (number : Nat) (before line after : Text) : Prop where
  whole : s = before ++ line ++ after
  start : s.lineStart number = before.width
  number : before.count '\n' = number
  begins : ∀ c ∈ before.getLast?, c = '\n'
  single : '\n' ∉ line
  ends : ∀ c ∈ after.head?, c = '\n'

theorem exists_cut (found : s.lines[number]? = some line) :
    ∃ before after, Cut s number before line after := by
  induction s using lines_induction generalizing number with
  | single s single =>
    rw [lines_of_single single, List.getElem?_singleton] at found
    split at found
    · rename_i first
      cases found
      subst first
      exact ⟨[], [], by simp, by simp, rfl, by simp, single, by simp⟩
    · cases found
  | broken first rest single ih =>
    rw [lines_broken single] at found
    cases number with
    | zero =>
      cases found
      exact ⟨[], '\n' :: rest, rfl, rfl, rfl, by simp, single, by simp⟩
    | succ number =>
      obtain ⟨before, after, cut⟩ := ih found
      refine ⟨first ++ '\n' :: before, after, ?_, ?_, ?_, ?_, cut.single, cut.ends⟩
      · rw [cut.whole]
        simp
      · rw [lineStart_broken single, cut.start, width_append, width_cons, ← Nat.add_assoc]
        rfl
      · rw [List.count_append, List.count_cons_self, cut.number, List.count_eq_zero.mpr single,
          Nat.zero_add]
      · intro c last
        rw [List.getLast?_append, List.getLast?_cons] at last
        cases later : before.getLast? with
        | none => simpa [later, eq_comm] using last
        | some c' =>
          have same : c' = c := by simpa [later] using last
          exact cut.begins c (same ▸ later)

theorem Boundary.exists_at (boundary : s.Boundary n) : ∃ place, s.At n place := by
  obtain ⟨front, back, whole, rfl⟩ := boundary
  induction s using lines_induction generalizing front with
  | single s single =>
    exact ⟨⟨0, front.units16⟩, front, back, by rw [lines_of_single single, whole]; rfl, by simp,
      rfl⟩
  | broken first rest single ih =>
    have inFirst : ∀ more, first = front ++ more →
        ∃ place, (first ++ '\n' :: rest).At front.width place := fun more split =>
      ⟨⟨0, front.units16⟩, front, more, by rw [lines_broken single, split]; rfl, by simp, rfl⟩
    rcases List.append_eq_append_iff.mp whole with ⟨more, rfl, split⟩ | ⟨more, split, -⟩
    · cases more with
      | nil => exact inFirst [] (by simp)
      | cons c more =>
        obtain ⟨rfl, rfl⟩ := List.cons.inj split
        obtain ⟨⟨number, column⟩, front, after, found, width, rfl⟩ := ih more rfl
        refine ⟨⟨number + 1, front.units16⟩, front, after, by rwa [lines_broken single], ?_, rfl⟩
        rw [lineStart_broken single, width_append, width_cons, width, Nat.add_assoc, Nat.add_assoc]
        rfl
    · exact inFirst more split

theorem length_lines (s : Text) : s.lines.length = s.count '\n' + 1 := by
  induction s using lines_induction with
  | single s single => rw [lines_of_single single, List.count_eq_zero.mpr single]; rfl
  | broken first rest single ih =>
    rw [lines_broken single, List.length_cons, ih, List.count_append, List.count_cons_self,
      List.count_eq_zero.mpr single, Nat.zero_add]

theorem exists_between {less more front rest : Text} (split : less ++ more = front ++ rest)
    (shorter : less.width < front.width) : ∃ between, front = less ++ between ∧ between ≠ [] := by
  rcases List.append_eq_append_iff.mp split with ⟨between, rfl, -⟩ | ⟨between, rfl, -⟩
  · refine ⟨between, rfl, fun none => ?_⟩
    rw [none, List.append_nil] at shorter
    exact Nat.lt_irrefl _ shorter
  · rw [width_append] at shorter
    omega

theorem units16_append (s t : Text) : units16 (s ++ t) = units16 s + units16 t := by
  induction s with
  | nil => simp [units16]
  | cons c s ih => rw [List.cons_append, units16, units16, ih, Nat.add_assoc]

theorem units16_pos {s : Text} (some_chars : s ≠ []) : 0 < s.units16 := by
  cases s with
  | nil => exact absurd rfl some_chars
  | cons c s => exact Nat.add_pos_left (units_pos c) _

theorem units16_le (s : Text) : s.units16 ≤ 2 * s.length := by
  induction s with
  | nil => exact Nat.le_refl _
  | cons c s ih =>
    have one : units c ≤ 2 := by unfold units; split <;> decide
    rw [units16, List.length_cons]
    omega

theorem narrow_of_length (short : 2 * s.length < Place.limit) : s.Narrow where
  lines := by
    have newlines : s.count '\n' ≤ s.length := List.count_le_length
    rw [length_lines, Place.limit]
    rw [Place.limit] at short
    omega
  units line member := by
    obtain ⟨number, inside, rfl⟩ := List.getElem_of_mem member
    obtain ⟨before, after, cut⟩ := exists_cut (List.getElem?_eq_getElem inside)
    have whole := congrArg List.length cut.whole
    have units := units16_le s.lines[number]
    simp only [List.length_append] at whole
    omega

theorem At.wrap_eq (here : s.At n place) (narrow : s.Narrow) : place.wrap = place := by
  obtain ⟨front, rest, found, -, column⟩ := here
  obtain ⟨inside, same⟩ := List.getElem?_eq_some_iff.mp found
  have units := narrow.units _ (same ▸ List.getElem_mem inside)
  rw [units16_append, ← column] at units
  rw [Place.wrap, Nat.mod_eq_of_lt (Nat.lt_trans inside narrow.lines),
    Nat.mod_eq_of_lt (Nat.lt_of_le_of_lt (Nat.le_add_right ..) units)]

end Text

namespace LineTable

variable {s before line after : Text} {number n : Nat} {place : Place}

theorem length_startsAfter (offset : Nat) (s : Text) :
    (startsAfter offset s).length = s.count '\n' := by
  induction s generalizing offset with
  | nil => rfl
  | cons c s ih =>
    rw [startsAfter, List.count_cons]
    split
    · simp [*]
    · simp [*]

theorem exists_counted (cut : s.Cut number before line after) :
    ∃ starts, 0 :: startsAfter 0 before = starts ++ [before.width] ∧ starts.length = number := by
  obtain rfl | ⟨passed, c, rfl⟩ := List.eq_nil_or_concat' before
  · exact ⟨[], rfl, cut.number⟩
  · obtain rfl : c = '\n' := cut.begins c (by simp)
    refine ⟨0 :: startsAfter 0 passed, ?_, ?_⟩
    · rw [startsAfter_append, Text.width_append]
      simp [startsAfter]
    · rw [List.length_cons, length_startsAfter, ← cut.number, List.count_append]
      simp

theorem locate_of_at (here : s.At n place) : (ofText s).locate n = place := by
  obtain ⟨front, rest, found, rfl, column⟩ := here
  obtain ⟨before, after, cut⟩ := Text.exists_cut found
  obtain ⟨starts, counted, number⟩ := exists_counted cut
  have single : '\n' ∉ front := fun member => cut.single (List.mem_append_left rest member)
  have whole : s = before ++ front ++ (rest ++ after) := by
    rw [cut.whole]
    simp only [List.append_assoc]
  have counted' : 0 :: startsAfter 0 (before ++ front) = starts ++ [before.width] := by
    rw [startsAfter_append, startsAfter_eq_nil single, List.append_nil, counted]
  rw [cut.start, ← Text.width_append, whole, locate_boundary counted', number, ← column]

theorem starts_of_cut (cut : s.Cut number before line after) :
    (ofText s).starts[number]? = some before.width := by
  obtain ⟨starts, counted, rfl⟩ := exists_counted cut
  rw [ofText, cut.whole, List.append_assoc, startsAfter_append, ← List.cons_append, counted]
  simp

theorem exists_advance (single : '\n' ∉ line) (ends : ∀ c ∈ after.head?, c = '\n')
    (column passed : Nat) : ∃ front rest : Text, line = front ++ rest ∧
      advance column passed (line ++ after) = front.width ∧
      (column ≤ passed + front.units16 ∨ rest = []) ∧
      ∀ less more : Text, line = less ++ more → column ≤ passed + less.units16 →
        front.width ≤ less.width := by
  -- Characters are passed one by one, so the front that reaches the column is the shortest.
  induction line generalizing passed with
  | nil =>
    refine ⟨[], [], rfl, ?_, .inr rfl, fun _ _ _ _ => Nat.zero_le _⟩
    cases after with
    | nil => rfl
    | cons c after =>
      obtain rfl : c = '\n' := ends c rfl
      rfl
  | cons c line ih =>
    simp only [List.mem_cons, not_or] at single
    rw [List.cons_append, advance]
    by_cases reached : column ≤ passed
    · refine ⟨[], c :: line, rfl, if_pos (.inr reached), .inl (by simpa [Text.units16]), ?_⟩
      exact fun _ _ _ _ => Nat.zero_le _
    · obtain ⟨front, rest, split, width, enough, first⟩ := ih single.2 (passed + Text.units c)
      have inside : ¬ (c = '\n' ∨ column ≤ passed) := not_or.mpr ⟨Ne.symm single.1, reached⟩
      refine ⟨c :: front, rest, by rw [split]; rfl, by rw [if_neg inside, width]; rfl, ?_, ?_⟩
      · rwa [Text.units16, ← Nat.add_assoc]
      · intro less more cut wide
        cases less with
        | nil => exact absurd wide reached
        | cons d less =>
          obtain ⟨rfl, tail⟩ := List.cons.inj cut
          rw [Text.units16, ← Nat.add_assoc] at wide
          exact Nat.add_le_add_left (first less more tail wide) _

end LineTable

namespace Text

variable {s line : Text} {m n number later : Nat} {place next : Place}

theorem lineStart_succ (found : s.lines[number]? = some line) :
    s.lineStart (number + 1) = s.lineStart number + line.width + 1 := by
  simp [lineStart, List.take_add_one, found, Nat.add_assoc]

theorem lineStart_mono (s : Text) (le : number ≤ later) :
    s.lineStart number ≤ s.lineStart later := by
  obtain ⟨between, split⟩ : s.lines.take number <+: s.lines.take later :=
    List.take_prefix_take_left le
  rw [lineStart, lineStart, ← split, List.map_append, List.sum_append]
  exact Nat.le_add_right ..

theorem stop_lt_lineStart (found : s.lines[number]? = some line) (less : number < later) :
    s.lineStart number + line.width < s.lineStart later := by
  have next := lineStart_succ found
  have mono := lineStart_mono s (Nat.succ_le_of_lt less)
  rw [Nat.succ_eq_add_one] at mono
  omega

theorem At.place_lt (here : s.At m place) (there : s.At n next) (less : m < n) : place < next := by
  obtain ⟨front, rest, found, rfl, column⟩ := here
  obtain ⟨longer, more, found', rfl, column'⟩ := there
  rcases Nat.lt_trichotomy place.line next.line with lt | same | gt
  · exact .inl lt
  · rw [← same] at found' less
    have split : front ++ rest = longer ++ more := Option.some.inj (found.symm.trans found')
    obtain ⟨between, rfl, some_chars⟩ := exists_between split (Nat.lt_of_add_lt_add_left less)
    have wide := units16_pos some_chars
    rw [units16_append] at column'
    exact .inr ⟨same, by omega⟩
  · have ahead := stop_lt_lineStart found' gt
    rw [width_append] at ahead
    omega

/-- What the offset of a place is: the first boundary on its line that the column does not
lie behind, the end of the line if there is none, and the end of the text if there is no
such line. -/
structure Resolves (s : Text) (place : Place) (offset : Nat) : Prop where
  reached : ∀ n column, s.At n ⟨place.line, column⟩ → place.column ≤ column →
    IsLeast {n | ∃ column, s.At n ⟨place.line, column⟩ ∧ place.column ≤ column} offset
  short : ∀ line, s.lines[place.line]? = some line →
    (∀ n column, s.At n ⟨place.line, column⟩ → column < place.column) →
    offset = s.lineStart place.line + line.width
  beyond : s.lines.length ≤ place.line → offset = s.width

structure Converts (s : Text) (table : LineTable) : Prop where
  located : ∀ n, s.Boundary n → s.At n (table.place n)
  ascending : ∀ m n, s.Boundary m → s.Boundary n → m < n → table.place m < table.place n
  back : ∀ n, s.Boundary n → table.offset (table.place n) = n
  floored : ∀ n, ∃ b, IsGreatest {b | s.Boundary b ∧ b ≤ n} b ∧ table.place n = table.place b
  ended : ∀ n, s.width ≤ n → table.place n = table.place s.width
  resolved : ∀ place, s.Resolves place (table.offset place)

end Text

namespace LineTable

variable {s line : Text} {n number : Nat}

theorem at_locate (boundary : s.Boundary n) : s.At n ((ofText s).locate n) := by
  obtain ⟨place, here⟩ := boundary.exists_at
  rwa [locate_of_at here]

theorem place_eq_locate (narrow : s.Narrow) (boundary : s.Boundary n) :
    (ofText s).place n = (ofText s).locate n := (at_locate boundary).wrap_eq narrow

theorem at_place (narrow : s.Narrow) (boundary : s.Boundary n) : s.At n ((ofText s).place n) := by
  rw [place_eq_locate narrow boundary]
  exact at_locate boundary

theorem offset_place (narrow : s.Narrow) (boundary : s.Boundary n) :
    (ofText s).offset ((ofText s).place n) = n := by
  rw [place_eq_locate narrow boundary]
  obtain ⟨front, back, rfl, rfl⟩ := boundary
  exact offset_locate front back

theorem place_floorBoundary (s : Text) (n : Nat) :
    (ofText s).place n = (ofText s).place (s.floorBoundary n) := by
  have still : Text.floorBoundary (s.floorBoundary n) s = s.floorBoundary n :=
    (Text.boundary_floorBoundary n s).floorBoundary_eq
  rw [place, place, locate, locate, ofText]
  dsimp only
  rw [still]

/-- The offset of a place on a line lies behind a front of it that just reaches the column,
or behind all of it. -/
theorem exists_offset (found : s.lines[number]? = some line) (column : Nat) :
    ∃ front rest : Text, line = front ++ rest ∧
      (ofText s).offset ⟨number, column⟩ = s.lineStart number + front.width ∧
      (column ≤ front.units16 ∨ rest = []) ∧
      ∀ less more : Text, line = less ++ more → column ≤ less.units16 →
        front.width ≤ less.width := by
  obtain ⟨before, after, cut⟩ := Text.exists_cut found
  obtain ⟨front, rest, split, width, enough, first⟩ :=
    exists_advance cut.single cut.ends column 0
  rw [Nat.zero_add] at enough
  simp only [Nat.zero_add] at first
  have behind : Text.dropBytes before.width (ofText s).text = line ++ after := by
    rw [ofText, cut.whole, List.append_assoc]
    exact Text.dropBytes_width ..
  refine ⟨front, rest, split, ?_, enough, first⟩
  simp only [offset, starts_of_cut cut, behind, width, cut.start]

theorem offset_beyond (beyond : s.lines.length ≤ number) (column : Nat) :
    (ofText s).offset ⟨number, column⟩ = s.width := by
  have absent : (ofText s).starts[number]? = none := by
    rw [List.getElem?_eq_none_iff, ofText, List.length_cons, length_startsAfter]
    rwa [Text.length_lines] at beyond
  simp only [offset, absent]
  rfl

theorem boundary_offset (s : Text) (place : Place) : s.Boundary ((ofText s).offset place) := by
  cases found : s.lines[place.line]? with
  | none =>
    have beyond := List.getElem?_eq_none_iff.mp found
    rw [offset_beyond beyond place.column]
    exact ⟨s, [], (List.append_nil s).symm, rfl⟩
  | some line =>
    obtain ⟨before, after, cut⟩ := Text.exists_cut found
    obtain ⟨front, rest, rfl, offset, -⟩ := exists_offset found place.column
    refine ⟨before ++ front, rest ++ after, by simp [cut.whole], ?_⟩
    rw [offset, cut.start, Text.width_append]

theorem resolves_offset (s : Text) (number column : Nat) :
    s.Resolves ⟨number, column⟩ ((ofText s).offset ⟨number, column⟩) where
  reached := by
    rintro n _ ⟨less, more, found, rfl, rfl⟩ wide
    obtain ⟨front, rest, split, offset, enough, first⟩ := exists_offset found column
    rw [offset]
    constructor
    · refine ⟨front.units16, ⟨front, rest, by rw [found, split], rfl, rfl⟩, ?_⟩
      rcases enough with enough | rfl
      · exact enough
      · rw [List.append_nil] at split
        rw [← split, Text.units16_append]
        exact Nat.le_add_right_of_le wide
    · rintro m ⟨_, ⟨other, more', found', rfl, rfl⟩, wide'⟩
      have same : less ++ more = other ++ more' := Option.some.inj (found.symm.trans found')
      exact Nat.add_le_add_left (first other more' same wide') _
  short line found none := by
    obtain ⟨front, rest, rfl, offset, enough, -⟩ := exists_offset found column
    have less := none _ front.units16 ⟨front, rest, found, rfl, rfl⟩
    rw [offset, enough.resolve_left (Nat.not_le.mpr less), List.append_nil]
  beyond beyond := offset_beyond beyond column

/-- Offsets and places of a text are converted as they should be. -/
theorem converts_ofText (narrow : s.Narrow) : s.Converts (ofText s) where
  located _ := at_place narrow
  ascending _ _ first second := (at_place narrow first).place_lt (at_place narrow second)
  back _ := offset_place narrow
  floored n := by
    refine ⟨s.floorBoundary n, ⟨⟨Text.boundary_floorBoundary n s, ?_⟩, ?_⟩, place_floorBoundary s n⟩
    · exact (Text.boundary_floorBoundary n s).le_floorBoundary_iff.mp (Nat.le_refl _)
    · exact fun b ⟨boundary, le⟩ => boundary.le_floorBoundary_iff.mpr le
  ended n beyond := by
    have boundary : s.Boundary s.width := ⟨s, [], by simp, rfl⟩
    have floor : s.floorBoundary n = s.width := Nat.le_antisymm
      (Text.boundary_floorBoundary n s).le_width (boundary.le_floorBoundary_iff.mpr beyond)
    rw [place_floorBoundary, floor]
  resolved place := resolves_offset s place.line place.column

theorem converts_surrogates : Text.Narrow "ä𝄞\r\n\nb".toList ∧
    Text.Converts "ä𝄞\r\n\nb".toList (ofText "ä𝄞\r\n\nb".toList) := by
  have narrow : Text.Narrow "ä𝄞\r\n\nb".toList := Text.narrow_of_length (by decide)
  exact ⟨narrow, converts_ofText narrow⟩

/-- A column inside a character stands for what follows it. -/
example : (ofText "ä𝄞\nb".toList).offset ⟨0, 2⟩ = 6 := by decide

end LineTable

end GrammarDesk
