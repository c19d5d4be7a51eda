import GrammarDesk.Analysis.Offsets
import GrammarDesk.Proofs.Text.Bytes
import Mathlib.Data.List.Forall2

/-! Tokens that stand in a text one behind the other. A search for each of them from
the end of the one before finds them all, and no other way to place them ends any of
them earlier: what the search has passed is never more than what any placement has. -/
namespace GrammarDesk

def Span.NoLater (span other : Span) : Prop := span.start ≤ other.start ∧ span.stop ≤ other.stop

namespace Offsets

/-- Tokens stand at spans, one behind the other and none before the cursor. -/
inductive Placed (text : Text) : Nat → List Text → List Span → Prop where
  | nil : Placed text cursor [] []
  | cons {cursor span token tokens places} : cursor ≤ span.start → text.Stands token span →
      Placed text span.stop tokens places →
      Placed text cursor (token :: tokens) (span :: places)

/-- Spans that hold the tokens of a list, in its order and without overlap. -/
structure Embeds (text : Text) (tokens : List Text) (places : List Span) : Prop where
  slices : List.Forall₂ (fun token span => text.slice? span = some token) tokens places
  disjoint : places.Pairwise fun earlier later => earlier.stop ≤ later.start

/-- Each token is found by a search ahead of the cursor, which moves to its end. -/
inductive FoundAhead (text : Text) : Nat → List Text → List Span → Prop where
  | nil : FoundAhead text cursor [] []
  | cons {places} : Text.find? token (text.dropBytes cursor) = some skipped →
      FoundAhead text (cursor + skipped + token.width) tokens places →
      FoundAhead text cursor (token :: tokens)
        (⟨cursor + skipped, cursor + skipped + token.width⟩ :: places)

variable {text token : Text} {cursor skipped : Nat} {tokens : List Text} {places : List Span}

namespace Placed

theorem mono {lower : Nat} (placed : Placed text cursor tokens places)
    (le : lower ≤ cursor) : Placed text lower tokens places := by
  cases placed with
  | nil => exact .nil
  | cons behind stands later => exact .cons (le.trans behind) stands later

theorem stands (placed : Placed text cursor tokens places) :
    List.Forall₂ text.Stands tokens places := by
  induction placed with
  | nil => exact .nil
  | cons _ stands _ ih => exact .cons stands ih

theorem cursor_le (placed : Placed text cursor tokens places) :
    ∀ span ∈ places, cursor ≤ span.start := by
  induction placed with
  | nil => simp
  | cons behind stands _ ih =>
    have wide := stands.stop_eq
    refine List.forall_mem_cons.mpr ⟨behind, fun span member => ?_⟩
    have := ih span member
    omega

theorem embeds (placed : Placed text cursor tokens places) : Embeds text tokens places := by
  refine ⟨placed.stands.imp fun _ _ => Text.stands_iff.mp, ?_⟩
  induction placed with
  | nil => exact .nil
  | cons _ _ later ih => exact .cons later.cursor_le ih

theorem nonempty (placed : Placed text cursor tokens places)
    (some_chars : ∀ token ∈ tokens, token ≠ []) : ∀ span ∈ places, span.start < span.stop := by
  induction placed with
  | nil => simp
  | cons _ stands _ ih =>
    obtain ⟨first, others⟩ := List.forall_mem_cons.mp some_chars
    have wide := Text.width_pos first
    have stop := stands.stop_eq
    exact List.forall_mem_cons.mpr ⟨by omega, ih others⟩

theorem ascending (placed : Placed text cursor tokens places)
    (some_chars : ∀ token ∈ tokens, token ≠ []) :
    places.Pairwise fun earlier later => earlier.start < later.start := by
  refine placed.embeds.disjoint.imp_of_mem fun {earlier later} member _ apart => ?_
  exact (placed.nonempty some_chars earlier member).trans_le apart

end Placed

theorem Embeds.placed (embeds : Embeds text tokens places)
    (behind : ∀ span ∈ places, cursor ≤ span.start) : Placed text cursor tokens places := by
  obtain ⟨slices, disjoint⟩ := embeds
  induction slices generalizing cursor with
  | nil => exact .nil
  | cons slice _ ih =>
    obtain ⟨later, disjoint⟩ := List.pairwise_cons.mp disjoint
    exact .cons (List.forall_mem_cons.mp behind).1 (Text.stands_iff.mpr slice) (ih later disjoint)

theorem FoundAhead.placed (found : FoundAhead text cursor tokens places)
    (boundary : text.Boundary cursor) : Placed text cursor tokens places := by
  induction found with
  | nil => exact .nil
  | cons here _ ih =>
    have stands := Text.stands_of_find? boundary here
    exact .cons (Nat.le_add_right ..) stands (ih stands.boundary_stop)

theorem spansFrom_of_find? (some_chars : token ≠ []) (boundary : text.Boundary cursor)
    (found : Text.find? token (text.dropBytes cursor) = some skipped) :
    spansFrom text cursor (token :: tokens) =
      ⟨cursor + skipped, cursor + skipped + token.width⟩ ::
        spansFrom text (cursor + skipped + token.width) tokens := by
  have place : locate text cursor token = cursor + skipped := by
    rw [locate, if_neg (by simpa using some_chars), found]
  have stop := (Text.stands_of_find? boundary found).boundary_stop.floorBoundary_eq
  have further : max cursor (cursor + skipped + token.width) = cursor + skipped + token.width := by
    omega
  rw [spansFrom, spanOf, place, stop, further]

/-- Wherever the tokens stand behind the cursor, the search finds them all, and none
of them later than it stands there. -/
theorem leftmost_spansFrom {limit : Nat} {given : List Span}
    (some_chars : ∀ token ∈ tokens, token ≠ []) (placed : Placed text limit tokens given)
    (boundary : text.Boundary cursor) (behind : cursor ≤ limit) :
    FoundAhead text cursor tokens (spansFrom text cursor tokens) ∧
      List.Forall₂ Span.NoLater (spansFrom text cursor tokens) given := by
  induction placed generalizing cursor with
  | nil => exact ⟨.nil, .nil⟩
  | @cons limit span token tokens given after stands _ ih =>
    obtain ⟨first, others⟩ := List.forall_mem_cons.mp some_chars
    obtain ⟨skipped, found, le⟩ := stands.exists_find? boundary (behind.trans after)
    have here := Text.stands_of_find? boundary found
    have stop := stands.stop_eq
    have earlier : cursor + skipped + token.width ≤ span.stop := by omega
    obtain ⟨ahead, bounds⟩ := ih others here.boundary_stop earlier
    rw [spansFrom_of_find? first boundary found]
    exact ⟨.cons found ahead, .cons ⟨le, earlier⟩ bounds⟩

/-- Tokens that occur one behind the other are found so, and in no such occurrence
does any of them start or end before the place where it is found. -/
theorem leftmost_embedding {text : Text} {tokens : List Text}
    (some_chars : ∀ token ∈ tokens, token ≠ []) (occurs : ∃ given, Embeds text tokens given) :
    let found := (ofTokens text tokens).spans
    Embeds text tokens found ∧
      (∀ span ∈ found, span.start < span.stop) ∧
      found.Pairwise (fun earlier later => earlier.start < later.start) ∧
      ∀ given, Embeds text tokens given → List.Forall₂ Span.NoLater found given := by
  have leftmost {given : List Span} (embeds : Embeds text tokens given) :=
    leftmost_spansFrom some_chars (embeds.placed fun _ _ => Nat.zero_le _)
      text.boundary_zero (Nat.le_refl 0)
  obtain ⟨given, embeds⟩ := occurs
  have placed := (leftmost embeds).1.placed text.boundary_zero
  exact ⟨placed.embeds, placed.nonempty some_chars, placed.ascending some_chars,
    fun _ embeds => (leftmost embeds).2⟩

/-- Tokens that repeat and contain one another, with a later occurrence of them all. -/
theorem leftmost_embedding_repeated :
    let text := "äabab abab".toList
    let tokens := [['a', 'b'], ['a'], ['a', 'b']]
    let given : List Span := [⟨4, 6⟩, ⟨7, 8⟩, ⟨9, 11⟩]
    let found : List Span := [⟨2, 4⟩, ⟨4, 5⟩, ⟨7, 9⟩]
    (∀ token ∈ tokens, token ≠ []) ∧ Embeds text tokens given ∧ Embeds text tokens found ∧
      List.Forall₂ Span.NoLater found given := by
  have some_chars : ∀ token ∈ [['a', 'b'], ['a'], ['a', 'b']], token ≠ [] := by decide
  have embeds : Embeds "äabab abab".toList [['a', 'b'], ['a'], ['a', 'b']]
      [⟨4, 6⟩, ⟨7, 8⟩, ⟨9, 11⟩] := ⟨.cons rfl (.cons rfl (.cons rfl .nil)), by decide⟩
  obtain ⟨found, -, -, leftmost⟩ := leftmost_embedding some_chars ⟨_, embeds⟩
  have same : (ofTokens "äabab abab".toList [['a', 'b'], ['a'], ['a', 'b']]).spans =
      [⟨2, 4⟩, ⟨4, 5⟩, ⟨7, 9⟩] := by rfl
  rw [same] at found leftmost
  exact ⟨some_chars, embeds, found, leftmost _ embeds⟩

end Offsets
end GrammarDesk
