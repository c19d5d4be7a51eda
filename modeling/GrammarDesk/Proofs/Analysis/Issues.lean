import GrammarDesk.Analysis.Issues
import Mathlib.Data.List.Forall2

/-! What the checks report, and in which order. Each check goes through the positions
of one token, and three of them report at a fixed distance from there, so that their
issues ascend. An unreachable alternative is reported behind the closing brace instead:
of nested braces the inner ones close first, and are reported last. -/
namespace GrammarDesk

namespace IssueKind

def inOrder : List IssueKind :=
  [.unreachableAlternative, .emptyLoop, .redundantAlternative, .invalidRepetition]

/-- The token whose positions a check goes through. -/
def wanted : IssueKind → Text
  | unreachableAlternative | emptyLoop => ['\x7b']
  | redundantAlternative => ['[']
  | invalidRepetition => [')']

end IssueKind

namespace Issue

variable {tokens : List Text} {issue : Issue}

section

variable {enter leave text : Text} (depth : Nat)

theorem passes_enter : passes enter leave depth (enter :: tokens) =
    (passes enter leave (depth + 1) tokens).map (· + 1) := by
  rw [passes.eq_def]
  exact if_pos rfl

theorem passes_leave (apart : leave ≠ enter) :
    passes enter leave (depth + 1) (leave :: tokens) =
      (passes enter leave depth tokens).map (· + 1) := by
  rw [passes.eq_def]
  exact (if_neg apart).trans (if_pos rfl)

theorem passes_left (apart : leave ≠ enter) : passes enter leave 0 (leave :: tokens) = some 0 := by
  rw [passes.eq_def]
  exact (if_neg apart).trans (if_pos rfl)

theorem passes_other (enters : text ≠ enter) (leaves : text ≠ leave) :
    passes enter leave depth (text :: tokens) = (passes enter leave depth tokens).map (· + 1) := by
  rw [passes.eq_def]
  exact (if_neg enters).trans (if_neg leaves)

end

section

variable {enter leave : Text} {depth k : Nat}

theorem getElem?_of_passes (found : passes enter leave depth tokens = some k) :
    tokens[k]? = some leave := by
  fun_induction passes enter leave depth tokens generalizing k with
  | case1 => cases found
  | case3 =>
    cases found
    rfl
  | case2 _ _ ih | case4 _ _ _ ih | case5 _ _ _ _ _ ih =>
    obtain ⟨k, within, rfl⟩ := Option.map_eq_some_iff.mp found
    exact ih within

theorem depth_of_passes (found : passes enter leave depth tokens = some 0) : depth = 0 := by
  unfold passes at found
  split at found
  · cases found
  · split at found
    · simp at found
    · split at found
      · split at found
        · rfl
        · simp at found
      · simp at found

theorem ne_of_passes {first : Text} (found : passes enter leave 0 (first :: tokens) = some 1) :
    first ≠ enter ∧ first ≠ leave := by
  unfold passes at found
  split at found
  · obtain ⟨k, within, same⟩ := Option.map_eq_some_iff.mp found
    cases same
    cases depth_of_passes within
  · split at found
    · cases found
    · exact ⟨‹_›, ‹_›⟩

theorem passes_append {front back : List Text}
    (found : passes enter leave depth (front ++ back) = some k) (le : front.length ≤ k) :
    ∃ deeper, passes enter leave deeper back = some (k - front.length) := by
  induction front generalizing depth k with
  | nil => exact ⟨depth, found⟩
  | cons token front ih =>
    have onward {depth : Nat}
        (found : (passes enter leave depth (front ++ back)).map (· + 1) = some k) :
        ∃ deeper, passes enter leave deeper back = some (k - (front.length + 1)) := by
      obtain ⟨m, within, rfl⟩ := Option.map_eq_some_iff.mp found
      rw [Nat.add_sub_add_right]
      exact ih within (Nat.le_of_succ_le_succ le)
    rw [List.cons_append] at found
    unfold passes at found
    split at found
    · exact onward found
    · split at found
      · split at found
        · cases found
          cases le
        · exact onward found
      · exact onward found

theorem passes_lt {deeper m : Nat} (found : passes enter leave depth tokens = some k)
    (found' : passes enter leave deeper tokens = some m) (lt : depth < deeper) : k < m := by
  have onward {depth deeper k m : Nat} {tokens : List Text}
      (found : (passes enter leave depth tokens).map (· + 1) = some k)
      (found' : (passes enter leave deeper tokens).map (· + 1) = some m)
      (ih : ∀ k m, passes enter leave depth tokens = some k →
        passes enter leave deeper tokens = some m → k < m) : k < m := by
    obtain ⟨k, within, rfl⟩ := Option.map_eq_some_iff.mp found
    obtain ⟨m, within', rfl⟩ := Option.map_eq_some_iff.mp found'
    exact Nat.succ_lt_succ (ih k m within within')
  induction tokens generalizing depth deeper k m with
  | nil => cases found
  | cons token tokens ih =>
    obtain ⟨deeper, rfl⟩ : ∃ n, deeper = n + 1 := Nat.exists_eq_add_one_of_ne_zero (by omega)
    unfold passes at found found'
    by_cases enters : token = enter
    · rw [if_pos enters] at found found'
      exact onward found found' fun k m here there => ih here there (Nat.succ_lt_succ lt)
    rw [if_neg enters] at found found'
    by_cases leaves : token = leave
    · rw [if_pos leaves] at found found'
      cases depth with
      | zero =>
        obtain ⟨m, -, rfl⟩ := Option.map_eq_some_iff.mp found'
        cases found
        exact Nat.succ_pos m
      | succ depth =>
        exact onward found found' fun k m here there => ih here there (Nat.lt_of_succ_lt_succ lt)
    · rw [if_neg leaves] at found found'
      exact onward found found' fun k m here there => ih here there lt

end

section

variable {opener closer : Text} {index close : Nat}

theorem closing?_append (before behind : List Text) (opener closer : Text) :
    closing? (before ++ opener :: behind) opener closer before.length =
      (passes opener closer 0 behind).map (before.length + 1 + ·) := by
  rw [closing?, ← List.drop_drop, List.drop_left]
  rfl

theorem opening?_append (front after : List Text) (opener closer : Text) :
    opening? (front ++ closer :: after) opener closer front.length =
      (passes closer opener 0 front.reverse).map (front.length - 1 - ·) := by
  rw [opening?, List.take_left]

theorem exists_front {text : Text} (stands : tokens[index]? = some text) :
    ∃ before after, tokens = before ++ text :: after ∧ before.length = index := by
  obtain ⟨inside, rfl⟩ := List.getElem?_eq_some_iff.mp stands
  refine ⟨tokens.take index, tokens.drop (index + 1), ?_,
    List.length_take_of_le (Nat.le_of_lt inside)⟩
  rw [← List.drop_eq_getElem_cons inside, List.take_append_drop]

theorem getElem?_of_closing? (found : closing? tokens opener closer index = some close) :
    tokens[close]? = some closer := by
  obtain ⟨k, within, rfl⟩ := Option.map_eq_some_iff.mp found
  rw [← List.getElem?_drop]
  exact getElem?_of_passes within

theorem lt_of_closing? (found : closing? tokens opener closer index = some close) :
    index < close := by
  obtain ⟨k, -, rfl⟩ := Option.map_eq_some_iff.mp found
  omega

theorem closing?_lt {inner close' : Nat}
    (found : closing? tokens opener closer index = some close)
    (opens : tokens[inner]? = some opener) (after : index < inner) (before : inner < close)
    (found' : closing? tokens opener closer inner = some close') : close' < close := by
  obtain ⟨front, behind, rfl, rfl⟩ := exists_front opens
  obtain ⟨k, within, rfl⟩ := Option.map_eq_some_iff.mp found
  rw [closing?_append, Option.map_eq_some_iff] at found'
  obtain ⟨m, within', rfl⟩ := found'
  -- From the outer opening delimiter, the tokens up to the inner one are passed first.
  rw [List.drop_append_of_le_length after] at within
  obtain ⟨depth, within⟩ := passes_append within (by rw [List.length_drop]; omega)
  rw [passes_enter, List.length_drop] at within
  obtain ⟨n, within, rest⟩ := Option.map_eq_some_iff.mp within
  have := passes_lt within' within (Nat.succ_pos depth)
  omega

end

section

variable {wanted : Text}

theorem getElem?_of_mem_positions {index : Nat} (member : index ∈ positions tokens wanted) :
    tokens[index]? = some wanted := by
  obtain ⟨⟨token, place⟩, found, rfl⟩ := List.mem_map.mp member
  obtain ⟨found, same⟩ := List.mem_filter.mp found
  rw [List.mem_zipIdx_iff_getElem?] at found
  rw [found, of_decide_eq_true same]

theorem positions_ascending : (positions tokens wanted).Pairwise (· < ·) := by
  have ascending : (tokens.zipIdx.map Prod.snd).Pairwise (· < ·) := by
    rw [List.zipIdx_map_snd]
    exact List.pairwise_lt_range'
  exact ascending.sublist (List.filter_sublist.map _)

/-- Issues that are reported, in order, for some of the positions of a token. -/
def ReportedAt (tokens : List Text) (wanted : Text) (Fits : Nat → Issue → Prop)
    (issues : List Issue) : Prop :=
  ∃ places, places.Sublist (positions tokens wanted) ∧ List.Forall₂ Fits places issues

namespace ReportedAt

variable {Fits : Nat → Issue → Prop} {issues : List Issue}

theorem filterMap {check : Nat → Option Issue}
    (fits : ∀ index issue, check index = some issue → Fits index issue) :
    ReportedAt tokens wanted Fits ((positions tokens wanted).filterMap check) := by
  unfold ReportedAt
  induction positions tokens wanted with
  | nil => exact ⟨[], .slnil, .nil⟩
  | cons index indices ih =>
    obtain ⟨places, sub, reported⟩ := ih
    rw [List.filterMap_cons]
    cases found : check index with
    | none => exact ⟨places, sub.cons index, reported⟩
    | some issue =>
      exact ⟨index :: places, sub.cons_cons index, .cons (fits index issue found) reported⟩

theorem exists_place (reported : ReportedAt tokens wanted Fits issues) :
    ∀ issue ∈ issues, ∃ place, tokens[place]? = some wanted ∧ Fits place issue := by
  obtain ⟨places, sub, reported⟩ := reported
  obtain ⟨lengths, fits⟩ := List.forall₂_iff_get.mp reported
  intro issue member
  obtain ⟨k, inside, rfl⟩ := List.getElem_of_mem member
  exact ⟨_, getElem?_of_mem_positions (sub.subset (List.get_mem places ⟨k, lengths ▸ inside⟩)),
    fits k (lengths ▸ inside) inside⟩

theorem pairwise (reported : ReportedAt tokens wanted Fits issues)
    {Order : Issue → Issue → Prop}
    (ordered : ∀ first second issue other, first < second → tokens[first]? = some wanted →
      tokens[second]? = some wanted → Fits first issue → Fits second other →
      Order issue other) : issues.Pairwise Order := by
  obtain ⟨places, sub, reported⟩ := reported
  obtain ⟨lengths, fits⟩ := List.forall₂_iff_get.mp reported
  have ascending := List.pairwise_iff_getElem.mp (positions_ascending.sublist sub)
  have stands (k : Nat) (inside : k < places.length) : tokens[places[k]]? = some wanted :=
    getElem?_of_mem_positions (sub.subset (List.getElem_mem inside))
  refine List.pairwise_iff_getElem.mpr fun i j first second lt => ?_
  rw [← lengths] at first second
  exact ordered _ _ _ _ (ascending i j first second lt) (stands i first) (stands j second)
    (fits i first _) (fits j second _)

theorem ascending (reported : ReportedAt tokens wanted Fits issues) (distance : Nat)
    (apart : ∀ place issue, Fits place issue → issue.index = place + distance) :
    issues.Pairwise (·.index < ·.index) := by
  refine reported.pairwise fun first second issue other lt _ _ here there => ?_
  rw [apart first issue here, apart second other there]
  exact Nat.add_lt_add_right lt distance

end ReportedAt

end

/-- What a check reports at a position: the construct around it, and where the issue
is placed. -/
def Marks (tokens : List Text) : IssueKind → Nat → Issue → Prop
  | .unreachableAlternative, place, issue => ∃ close, issue.index = close + 2 ∧
      closing? tokens ['\x7b'] ['\x7d'] place = some close ∧
      tokens[close + 1]? = some ['|'] ∧ close + 2 < tokens.length
  | .emptyLoop, place, issue => issue.index = place ∧ ∃ body,
      tokens[place + 1]? = some body ∧ isEmptyLiteral body = true ∧
      tokens[place + 2]? = some ['\x7d']
  | .redundantAlternative, place, issue => issue.index = place + 4 ∧ ∃ token,
      tokens[place + 1]? = some token ∧ token ≠ ['['] ∧ token ≠ [']'] ∧
      tokens[place + 2]? = some [']'] ∧ tokens[place + 3]? = some ['|'] ∧
      tokens[place + 4]? = some token ∧ ∀ next ∈ tokens[place + 5]?, endsAlternative next = true
  | .invalidRepetition, place, issue => issue.index = place ∧
      (tokens[place + 1]? = some ['*'] ∨ tokens[place + 1]? = some ['+']) ∧
      (opening? tokens ['('] [')'] place).isSome = true

def check (tokens : List Text) : IssueKind → List Issue
  | .unreachableAlternative => unreachableAlternatives tokens
  | .emptyLoop => emptyLoops tokens
  | .redundantAlternative => redundantAlternatives tokens
  | .invalidRepetition => invalidRepetitions tokens

theorem reported_unreachable : ReportedAt tokens ['\x7b'] (fun place issue =>
      issue.kind = .unreachableAlternative ∧ Marks tokens .unreachableAlternative place issue)
    (unreachableAlternatives tokens) := by
  refine .filterMap fun index issue found => ?_
  obtain ⟨close, closed, found⟩ := Option.bind_eq_some_iff.mp found
  split at found
  · rename_i behind
    cases found
    exact ⟨rfl, close, rfl, closed, behind⟩
  · cases found

theorem reported_emptyLoop : ReportedAt tokens ['\x7b'] (fun place issue =>
      issue.kind = .emptyLoop ∧ Marks tokens .emptyLoop place issue)
    (emptyLoops tokens) := by
  refine .filterMap fun index issue found => ?_
  obtain ⟨body, inside, found⟩ := Option.bind_eq_some_iff.mp found
  split at found
  · rename_i empty
    cases found
    exact ⟨rfl, rfl, body, inside, empty⟩
  · cases found

theorem reported_redundant : ReportedAt tokens ['['] (fun place issue =>
      issue.kind = .redundantAlternative ∧ Marks tokens .redundantAlternative place issue)
    (redundantAlternatives tokens) := by
  refine .filterMap fun index issue found => ?_
  obtain ⟨close, closed, found⟩ := Option.bind_eq_some_iff.mp found
  obtain ⟨inner, inside, found⟩ := Option.bind_eq_some_iff.mp found
  obtain ⟨candidate, there, found⟩ := Option.bind_eq_some_iff.mp found
  dsimp only at found
  split at found
  · rename_i all
    cases found
    obtain ⟨rfl, bar, single, rfl⟩ := all
    obtain ⟨k, within, same⟩ := Option.map_eq_some_iff.mp closed
    obtain ⟨bound, rfl⟩ := List.getElem?_eq_some_iff.mp inside
    have one : k = 1 := by omega
    rw [List.drop_eq_getElem_cons bound, one] at within
    obtain ⟨entered, left⟩ := ne_of_passes within
    have next (token : Text) (last : token ∈ tokens[index + 5]?) :
        endsAlternative token = true := by
      rw [show tokens[index + 2 + 3]? = some token from last] at single
      exact single
    exact ⟨rfl, rfl, _, inside, entered, left, getElem?_of_closing? closed, bar, there, next⟩
  · cases found

theorem reported_invalid : ReportedAt tokens [')'] (fun place issue =>
      issue.kind = .invalidRepetition ∧ Marks tokens .invalidRepetition place issue)
    (invalidRepetitions tokens) := by
  refine .filterMap fun index issue found => ?_
  dsimp only at found
  split at found
  · rename_i repeated
    cases found
    exact ⟨rfl, rfl, repeated⟩
  · cases found

theorem reportedAt_check (tokens : List Text) (kind : IssueKind) :
    ReportedAt tokens kind.wanted
      (fun place issue => issue.kind = kind ∧ Marks tokens kind place issue)
      (check tokens kind) := by
  cases kind with
  | unreachableAlternative => exact reported_unreachable
  | emptyLoop => exact reported_emptyLoop
  | redundantAlternative => exact reported_redundant
  | invalidRepetition => exact reported_invalid

theorem find_eq_flatMap (tokens : List Text) :
    find tokens = IssueKind.inOrder.flatMap (check tokens) := by
  simp [find, IssueKind.inOrder, check]

theorem filter_kind (tokens : List Text) (kind : IssueKind) :
    (find tokens).filter (·.kind = kind) = check tokens kind := by
  have own (other : IssueKind) : (check tokens other).filter (·.kind = kind) =
      if other = kind then check tokens kind else [] := by
    have kinds : ∀ issue ∈ check tokens other, issue.kind = other := fun issue member =>
      let ⟨_, _, same, _⟩ := (reportedAt_check tokens other).exists_place issue member
      same
    split
    · rename_i same
      subst same
      exact List.filter_eq_self.mpr fun issue member => decide_eq_true (kinds issue member)
    · rename_i apart
      refine List.filter_eq_nil_iff.mpr fun issue member => ?_
      rw [kinds issue member]
      simpa using apart
  rw [find_eq_flatMap, List.filter_flatMap]
  simp only [IssueKind.inOrder, List.flatMap_cons, List.flatMap_nil, own]
  cases kind <;> simp

theorem mem_check_of_mem_find (found : issue ∈ find tokens) : issue ∈ check tokens issue.kind := by
  rw [← filter_kind]
  exact List.mem_filter.mpr ⟨found, decide_eq_true rfl⟩

/-- An issue is about the construct around some position of the token that its check
goes through. -/
theorem exists_marks (found : issue ∈ find tokens) : ∃ place,
    tokens[place]? = some issue.kind.wanted ∧ Marks tokens issue.kind place issue := by
  obtain ⟨place, stands, -, marks⟩ :=
    (reportedAt_check tokens _).exists_place issue (mem_check_of_mem_find found)
  exact ⟨place, stands, marks⟩

theorem lt_of_mem_find : ∀ issue ∈ find tokens, issue.index < tokens.length := by
  intro issue found
  obtain ⟨place, stands, marks⟩ := exists_marks found
  obtain ⟨inside, -⟩ := List.getElem?_eq_some_iff.mp stands
  cases kind : issue.kind with
  | unreachableAlternative =>
    rw [kind] at marks
    obtain ⟨close, at', -, -, behind⟩ := marks
    rwa [at']
  | emptyLoop | invalidRepetition =>
    rw [kind] at marks
    rwa [marks.1]
  | redundantAlternative =>
    rw [kind] at marks
    obtain ⟨at', token, -, -, -, -, -, there, -⟩ := marks
    rw [at']
    exact (List.getElem?_eq_some_iff.mp there).1

def Braces (tokens : List Text) (place close : Nat) : Prop :=
  tokens[place]? = some ['\x7b'] ∧ closing? tokens ['\x7b'] ['\x7d'] place = some close

/-- Behind the braces in front of one issue come those in front of the other, which
stand inside them. -/
def Encloses (tokens : List Text) (outer inner : Issue) : Prop :=
  ∃ place close place' close', Braces tokens place close ∧ Braces tokens place' close' ∧
    place < place' ∧ close' < close ∧ outer.index = close + 2 ∧ inner.index = close' + 2

theorem pairwise_check (tokens : List Text) (kind : IssueKind) :
    (check tokens kind).Pairwise fun first second => first.index < second.index ∨
      kind = .unreachableAlternative ∧ Encloses tokens first second := by
  have reported := reportedAt_check tokens kind
  cases kind with
  | unreachableAlternative =>
    refine reported.pairwise fun place place' issue other lt stands stands' here there => ?_
    obtain ⟨-, close, at', closed, -⟩ := here
    obtain ⟨-, close', at'', closed', -⟩ := there
    by_cases inside : place' < close
    · have nested := closing?_lt closed stands' lt inside closed'
      exact .inr ⟨rfl, place, close, place', close', ⟨stands, closed⟩, ⟨stands', closed'⟩, lt,
        nested, at', at''⟩
    · have := lt_of_closing? closed'
      exact .inl (by omega)
  | emptyLoop =>
    exact (reported.ascending 0 fun _ _ fits => fits.2.1).imp .inl
  | redundantAlternative =>
    exact (reported.ascending 4 fun _ _ fits => fits.2.1).imp .inl
  | invalidRepetition =>
    exact (reported.ascending 0 fun _ _ fits => fits.2.1).imp .inl

/-- Issues come out grouped by check, none of them twice, and within a check in the order
of their tokens; only of repetitions that stand one inside the other, the outer one is
reported first though its issue stands behind. -/
theorem find_grouped (tokens : List Text) :
    find tokens =
        IssueKind.inOrder.flatMap (fun kind => (find tokens).filter (·.kind = kind)) ∧
      ∀ kind, (((find tokens).filter (·.kind = kind)).map Issue.index).Nodup ∧
        ((find tokens).filter (·.kind = kind)).Pairwise fun first second =>
          first.index < second.index ∨
            kind = .unreachableAlternative ∧ Encloses tokens first second := by
  simp only [filter_kind]
  refine ⟨find_eq_flatMap tokens, fun kind => ⟨?_, pairwise_check tokens kind⟩⟩
  rw [List.Nodup, List.pairwise_map]
  refine (pairwise_check tokens kind).imp fun {first second} ordered => ?_
  obtain lt | ⟨-, _, _, _, _, -, -, -, nested, at', at''⟩ := ordered
  · omega
  · omega

/-- A repetition with an alternative, inside a repetition with an alternative. -/
def nestedRepetitions : List Text :=
  ["a", "=", "\x7b", "\x7b", "b", "\x7d", "|", "c", "\x7d", "|", "d", ";"].map String.toList

/-- The issue about the inner repetition comes second and stands first. -/
theorem find_descends_when_nested :
    ((find nestedRepetitions).filter (·.kind = .unreachableAlternative)).map Issue.index = [10, 7] ∧
      ¬ ((find nestedRepetitions).filter (·.kind = .unreachableAlternative)).Pairwise
        (·.index < ·.index) := by
  decide

end Issue
end GrammarDesk
