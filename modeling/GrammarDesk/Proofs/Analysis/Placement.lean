import GrammarDesk.Analysis.Offsets
import GrammarDesk.Proofs.Text.Bytes
import Mathlib.Data.List.Forall2

/-! The spans of tokens that need not stand in the text: they may be absent from it, in
another order, empty, or longer than all of it. Whatever they are, the cursor only ever
moves from one character boundary to another that does not lie before it. So the text
can be cut at it, no span ends before it starts, and none leaves the text. -/
namespace GrammarDesk

/-- A span that runs forward from one boundary of a text to another. -/
structure Text.Admits (s : Text) (span : Span) : Prop where
  forward : span.start ≤ span.stop
  inside : span.stop ≤ s.width
  start : s.Boundary span.start
  stop : s.Boundary span.stop

namespace Offsets

/-! The same search with operations that may fail: a text is cut only at a boundary, and
a span has a length only if it runs forward. -/

def locate? (text : Text) (cursor : Nat) (token : Text) : Option Nat :=
  if token.isEmpty then some cursor
  else do
    let (_, ahead) ← text.splitAtByte cursor
    return match Text.find? token ahead with
      | some skipped => cursor + skipped
      | none => (Text.find? token text).getD cursor

def spanOf? (text : Text) (cursor : Nat) (token : Text) : Option Span := do
  let start ← locate? text cursor token
  let stop := text.floorBoundary (start + token.width)
  if start ≤ stop then some ⟨start, stop⟩ else none

def spansFrom? (text : Text) (cursor : Nat) : List Text → Option (List Span)
  | [] => some []
  | token :: tokens => do
    let span ← spanOf? text cursor token
    let spans ← spansFrom? text (max cursor span.stop) tokens
    return span :: spans

/-- The cursor behind some tokens: the furthest end of their spans. -/
def cursorAfter (text : Text) (cursor : Nat) : List Text → Nat
  | [] => cursor
  | token :: tokens => cursorAfter text (max cursor (spanOf text cursor token).stop) tokens

def cursorAt (text : Text) (tokens : List Text) (index : Nat) : Nat :=
  cursorAfter text 0 (tokens.take index)

section

variable {text token : Text} {cursor skipped : Nat}

theorem boundary_locate (boundary : text.Boundary cursor) (token : Text) :
    text.Boundary (locate text cursor token) := by
  unfold locate
  split
  · exact boundary
  · cases ahead : Text.find? token (text.dropBytes cursor) with
    | some skipped => exact (Text.stands_of_find? boundary ahead).boundary_start
    | none =>
      cases anywhere : Text.find? token text with
      | none => exact boundary
      | some place =>
        have whole : text.dropBytes 0 = text := by cases text <;> rfl
        rw [← whole] at anywhere
        have start := (Text.stands_of_find? text.boundary_zero anywhere).boundary_start
        rwa [Nat.zero_add] at start

theorem admits_spanOf (boundary : text.Boundary cursor) (token : Text) :
    text.Admits (spanOf text cursor token) := by
  have start := boundary_locate boundary token
  have stop := Text.boundary_floorBoundary (locate text cursor token + token.width) text
  exact ⟨start.le_floorBoundary_iff.mpr (Nat.le_add_right ..), stop.le_width, start, stop⟩

theorem boundary_moved (boundary : text.Boundary cursor) (token : Text) :
    text.Boundary (max cursor (spanOf text cursor token).stop) :=
  boundary.max (admits_spanOf boundary token).stop

theorem locate?_eq (boundary : text.Boundary cursor) (token : Text) :
    locate? text cursor token = some (locate text cursor token) := by
  obtain ⟨passed, split⟩ := boundary.splitAtByte_eq
  unfold locate? locate
  split
  · rfl
  · rw [split]
    dsimp only [Option.bind_eq_bind, Option.bind_some]
    cases Text.find? token (text.dropBytes cursor) <;> rfl

theorem spanOf?_eq (boundary : text.Boundary cursor) (token : Text) :
    spanOf? text cursor token = some (spanOf text cursor token) := by
  rw [spanOf?, locate?_eq boundary]
  exact if_pos (admits_spanOf boundary token).forward

theorem start_of_find? (found : Text.find? token (text.dropBytes cursor) = some skipped) :
    (spanOf text cursor token).start = cursor + skipped := by
  unfold spanOf locate
  dsimp only
  split
  · rename_i empty
    obtain rfl := List.isEmpty_iff.mp empty
    have first : Text.find? [] (text.dropBytes cursor) = some 0 := by
      simpa using Text.find?_append_self [] (text.dropBytes cursor)
    rw [first] at found
    cases found
    rfl
  · rw [found]

end

section

variable {text : Text} {cursor : Nat} (tokens : List Text)

theorem spansFrom?_eq (boundary : text.Boundary cursor) :
    spansFrom? text cursor tokens = some (spansFrom text cursor tokens) := by
  induction tokens generalizing cursor with
  | nil => rfl
  | cons token tokens ih =>
    rw [spansFrom?, spanOf?_eq boundary, Option.bind_eq_bind, Option.bind_some,
      ih (boundary_moved boundary token)]
    rfl

theorem length_spansFrom : (spansFrom text cursor tokens).length = tokens.length := by
  induction tokens generalizing cursor with
  | nil => rfl
  | cons token tokens ih => exact congrArg (· + 1) ih

theorem admits_spansFrom (boundary : text.Boundary cursor) :
    ∀ span ∈ spansFrom text cursor tokens, text.Admits span := by
  induction tokens generalizing cursor with
  | nil => exact List.forall_mem_nil _
  | cons token tokens ih =>
    exact List.forall_mem_cons.mpr
      ⟨admits_spanOf boundary token, ih (boundary_moved boundary token)⟩

theorem spansFrom_append (more : List Text) : spansFrom text cursor (tokens ++ more) =
    spansFrom text cursor tokens ++ spansFrom text (cursorAfter text cursor tokens) more := by
  induction tokens generalizing cursor with
  | nil => rfl
  | cons token tokens ih => exact congrArg (_ :: ·) ih

theorem cursorAfter_append (more : List Text) : cursorAfter text cursor (tokens ++ more) =
    cursorAfter text (cursorAfter text cursor tokens) more := by
  induction tokens generalizing cursor with
  | nil => rfl
  | cons token tokens ih => exact ih

theorem le_cursorAfter : cursor ≤ cursorAfter text cursor tokens := by
  induction tokens generalizing cursor with
  | nil => exact Nat.le_refl _
  | cons token tokens ih => exact (Nat.le_max_left ..).trans ih

theorem boundary_cursorAfter (boundary : text.Boundary cursor) :
    text.Boundary (cursorAfter text cursor tokens) := by
  induction tokens generalizing cursor with
  | nil => exact boundary
  | cons token tokens ih => exact ih (boundary_moved boundary token)

theorem stop_le_cursorAfter :
    ∀ span ∈ spansFrom text cursor tokens, span.stop ≤ cursorAfter text cursor tokens := by
  induction tokens generalizing cursor with
  | nil => exact List.forall_mem_nil _
  | cons token tokens ih =>
    exact List.forall_mem_cons.mpr ⟨(Nat.le_max_right ..).trans (le_cursorAfter tokens), ih⟩

end

section

variable {text token : Text} {tokens : List Text} {index : Nat}

theorem cursorAt_mono (text : Text) (tokens : List Text) {earlier later : Nat}
    (le : earlier ≤ later) : cursorAt text tokens earlier ≤ cursorAt text tokens later := by
  obtain ⟨between, split⟩ : tokens.take earlier <+: tokens.take later :=
    List.take_prefix_take_left le
  rw [cursorAt, cursorAt, ← split, cursorAfter_append]
  exact le_cursorAfter between

theorem take_spans (text : Text) (tokens : List Text) (index : Nat) :
    (ofTokens text tokens).spans.take index = spansFrom text 0 (tokens.take index) := by
  rw [ofTokens, ← List.take_append_drop index tokens, spansFrom_append,
    List.take_append_drop index tokens]
  by_cases inside : index ≤ tokens.length
  · rw [List.take_left' (by rw [length_spansFrom, List.length_take_of_le inside])]
  · rw [List.drop_of_length_le (by omega), spansFrom, List.append_nil, List.take_of_length_le]
    rw [length_spansFrom, List.length_take]
    omega

theorem span?_ofTokens (here : tokens[index]? = some token) :
    (ofTokens text tokens).span? index = some (spanOf text (cursorAt text tokens index) token) := by
  obtain ⟨inside, rfl⟩ := List.getElem?_eq_some_iff.mp here
  have front : (spansFrom text 0 (tokens.take index)).length = index := by
    rw [length_spansFrom, List.length_take_of_le (Nat.le_of_lt inside)]
  have split : spansFrom text 0 tokens = spansFrom text 0 (tokens.take index) ++
      spansFrom text (cursorAt text tokens index) (tokens[index] :: tokens.drop (index + 1)) := by
    rw [cursorAt, ← spansFrom_append, ← List.drop_eq_getElem_cons inside, List.take_append_drop]
  rw [span?, ofTokens, split, List.getElem?_append_right (Nat.le_of_eq front), front,
    Nat.sub_self]
  rfl

end

section

variable {text : Text} {offsets : Offsets} {first stop : Nat}

theorem isSome_covering?_iff :
    (offsets.covering? first stop).isSome ↔ first < stop ∧ first < offsets.spans.length := by
  rw [← Nat.lt_min]
  unfold covering?
  dsimp only
  split
  · rename_i some_tokens
    have bounds : first < offsets.spans.length ∧
        min stop offsets.spans.length - 1 < offsets.spans.length := by omega
    simp [span?, bounds, some_tokens]
  · simp [*]

theorem admits_of_covering? (all : ∀ span ∈ offsets.spans, text.Admits span) {range : Span}
    (covered : offsets.covering? first stop = some range) : text.Admits range := by
  unfold covering? at covered
  dsimp only at covered
  split at covered
  · obtain ⟨front, opens, covered⟩ := Option.bind_eq_some_iff.mp covered
    obtain ⟨back, closes, same⟩ := Option.bind_eq_some_iff.mp covered
    cases same
    have head := all front (List.mem_of_getElem? opens)
    have last := all back (List.mem_of_getElem? closes)
    have stop := last.stop.max head.start
    exact ⟨Nat.le_max_right .., stop.le_width, head.start, stop⟩
  · cases covered

end

/-- What the recovery of any list of tokens from any text gives. -/
structure Recovers (text : Text) (tokens : List Text) (found : Offsets) : Prop where
  unfailing : spansFrom? text 0 tokens = some found.spans
  length : found.spans.length = tokens.length
  spans : ∀ span ∈ found.spans, text.Admits span
  covers : ∀ first stop,
    (found.covering? first stop).isSome ↔ first < stop ∧ first < tokens.length
  ranges : ∀ first stop, ∀ range ∈ found.covering? first stop, text.Admits range
  placed : ∀ index token, tokens[index]? = some token →
    found.span? index = some (spanOf text (cursorAt text tokens index) token)
  cursor : ∀ index, text.Boundary (cursorAt text tokens index)
  forward : ∀ earlier later, earlier ≤ later →
    cursorAt text tokens earlier ≤ cursorAt text tokens later
  ahead : ∀ index token skipped, tokens[index]? = some token →
    Text.find? token (text.dropBytes (cursorAt text tokens index)) = some skipped →
    ∃ span, found.span? index = some span ∧
      span.start = cursorAt text tokens index + skipped ∧
      ∀ earlier ∈ found.spans.take index, earlier.stop ≤ span.start

/-- Whatever the tokens are, the recovery fails nowhere and gives each of them a span. -/
theorem recovers_any (text : Text) (tokens : List Text) :
    Recovers text tokens (ofTokens text tokens) := by
  have spans := admits_spansFrom tokens text.boundary_zero
  have length : (ofTokens text tokens).spans.length = tokens.length := length_spansFrom tokens
  refine ⟨spansFrom?_eq tokens text.boundary_zero, length, spans, fun first stop => ?_,
    fun first stop range covered => admits_of_covering? spans covered,
    fun index token here => span?_ofTokens here,
    fun index => boundary_cursorAfter _ text.boundary_zero,
    fun earlier later le => cursorAt_mono text tokens le, ?_⟩
  · rw [isSome_covering?_iff, length]
  · intro index token skipped here found
    have start := start_of_find? found
    refine ⟨_, span?_ofTokens here, start, fun earlier member => ?_⟩
    rw [take_spans] at member
    rw [start]
    exact (stop_le_cursorAfter _ earlier member).trans (Nat.le_add_right ..)

/-- Tokens that are absent, empty, in another order and longer than the text. -/
example : (ofTokens "é a".toList (["a", "", "é", "zz", "a b c d"].map String.toList)).spans =
    [⟨3, 4⟩, ⟨4, 4⟩, ⟨0, 2⟩, ⟨4, 4⟩, ⟨4, 4⟩] := by rfl

end Offsets
end GrammarDesk
