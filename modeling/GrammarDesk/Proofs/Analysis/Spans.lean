import GrammarDesk.Proofs.Analysis.Embedding
import GrammarDesk.Proofs.Token.Front
import Mathlib

/-! The spans of lexed tokens, found again. Where the lexer took its tokens is one way
to place them, so that each is found ahead of the cursor and ends no later than where it
was lexed. It may be found earlier, in a comment or in what is left of a token that was
itself found earlier; if there are no comments, only layout stands between tokens, no
token begins with layout, and each is found where it was lexed. -/
namespace GrammarDesk

namespace Token

/-- What the lexer passes over that is no layout. -/
def comments : Text → List Text
  | [] => []
  | c :: cs =>
    let next := front c cs
    if next.kind = none ∧ isLayout c = false then (c :: next.taken) :: comments next.rest
    else comments next.rest
termination_by s => s.length
decreasing_by all_goals exact Nat.lt_succ_of_le (length_rest_le c cs)

example : comments "a = (* b *) '(* c *)' ; (* d".toList =
    ["(* b *)".toList, "(* d".toList] := by cbv

theorem texts_eq (source : Text) : texts source false = (lex source).map text := by
  simp [texts]

theorem comments_cons {c : Char} {cs : Text} (plain : comments (c :: cs) = []) :
    comments (front c cs).rest = [] ∧ ((front c cs).kind = none → isLayout c = true) := by
  unfold comments at plain
  dsimp only at plain
  split at plain
  · cases plain
  · rename_i layout
    exact ⟨plain, by simpa using layout⟩

theorem ne_nil_of_mem_lexFrom (offset : Nat) (left : Text) :
    ∀ token ∈ lexFrom offset left, token.text ≠ [] := by
  fun_induction lexFrom offset left with
  | case1 => simp
  | case2 offset c cs next text stop kind lexed ih =>
    exact List.forall_mem_cons.mpr ⟨List.cons_ne_nil _ _, ih⟩
  | case3 offset c cs next text stop skipped ih => exact ih

end Token

namespace Offsets

open Token

theorem placed_lexFrom (source : Text) (offset : Nat) (left : Text) :
    ∀ passed, source = passed ++ left → passed.width = offset →
      Placed source offset ((lexFrom offset left).map Token.text)
        ((lexFrom offset left).map Token.span) := by
  fun_induction lexFrom offset left with
  | case1 => exact fun _ _ _ => .nil
  | case2 offset c cs next text stop kind lexed ih =>
    rintro passed whole rfl
    have split : c :: cs = text ++ next.rest := congrArg (c :: ·) (front_append c cs).symm
    rw [split, ← List.append_assoc] at whole
    exact .cons (Nat.le_refl _) ⟨passed, next.rest, whole, rfl⟩ (ih _ whole (Text.width_append ..))
  | case3 offset c cs next text stop skipped ih =>
    rintro passed whole rfl
    have split : c :: cs = text ++ next.rest := congrArg (c :: ·) (front_append c cs).symm
    rw [split, ← List.append_assoc] at whole
    exact (ih _ whole (Text.width_append ..)).mono (Nat.le_add_right ..)

theorem spansFrom_lexFrom (source : Text) (offset : Nat) (left : Text) :
    ∀ passed gap, source = passed ++ gap ++ left → (passed ++ gap).width = offset →
      (∀ c ∈ gap, isLayout c = true) → comments left = [] →
      spansFrom source passed.width ((lexFrom offset left).map Token.text) =
        (lexFrom offset left).map Token.span := by
  -- `gap` is the layout between the cursor and the next token, which the search passes over.
  fun_induction lexFrom offset left with
  | case1 => exact fun _ _ _ _ _ _ => rfl
  | case2 offset c cs next text stop kind lexed ih =>
    rintro passed gap whole rfl layout plain
    have split : c :: cs = text ++ next.rest := congrArg (c :: ·) (front_append c cs).symm
    have apart : c ∉ gap := fun member => by
      have blank := layout c member
      rw [isLayout_of_kind lexed] at blank
      cases blank
    rw [split, ← List.append_assoc] at whole
    have boundary : source.Boundary passed.width :=
      ⟨passed, gap ++ text ++ next.rest, by rw [whole]; simp only [List.append_assoc], rfl⟩
    have found : Text.find? text (source.dropBytes passed.width) = some gap.width := by
      rw [whole, List.append_assoc, List.append_assoc, Text.dropBytes_width, ← List.append_assoc]
      exact Text.find?_gap apart next.taken next.rest
    have later := ih (passed ++ gap ++ text) [] (by rw [List.append_nil, whole])
      (by rw [List.append_nil, Text.width_append]) (List.forall_mem_nil _) (comments_cons plain).1
    rw [List.map_cons, List.map_cons, spansFrom_of_find? (List.cons_ne_nil _ _) boundary found,
      ← Text.width_append, ← Text.width_append, later, Text.width_append _ text]
  | case3 offset c cs next text stop skipped ih =>
    rintro passed gap whole rfl layout plain
    have split : c :: cs = text ++ next.rest := congrArg (c :: ·) (front_append c cs).symm
    obtain ⟨later, blank⟩ := comments_cons plain
    have taken : next.taken = cs.takeWhile isLayout :=
      congrArg Front.taken (front_layout (blank skipped) cs)
    refine ih passed (gap ++ text) ?_ ?_ ?_ later
    · rw [whole, split]
      simp only [List.append_assoc]
    · rw [← List.append_assoc, Text.width_append]
    · refine List.forall_mem_append.mpr ⟨layout, List.forall_mem_cons.mpr ⟨blank skipped, ?_⟩⟩
      rw [taken]
      exact List.all_eq_true.mp List.all_takeWhile

theorem leftmost_lexed (source : Text) :
    let found := (ofTokens source (Token.texts source false)).spans
    FoundAhead source 0 (Token.texts source false) found ∧
      List.Forall₂ Span.NoLater found ((lex source).map Token.span) := by
  rw [texts_eq]
  exact leftmost_spansFrom (List.forall_mem_map.mpr (ne_nil_of_mem_lexFrom 0 source))
    (placed_lexFrom source 0 source [] rfl rfl) source.boundary_zero (Nat.le_refl 0)

theorem stand_ofTokens (source : Text) :
    List.Forall₂ source.Stands (Token.texts source false)
      (ofTokens source (Token.texts source false)).spans :=
  ((leftmost_lexed source).1.placed source.boundary_zero).stands

/-- Every lexed token is found by searching ahead. The spans hold the tokens, ascend and
do not overlap, and none of them lies behind the span that the lexer gave; without
comments they are the spans that the lexer gave. -/
theorem recovers_lexed (source : Text) :
    let found := (ofTokens source (Token.texts source false)).spans
    FoundAhead source 0 (Token.texts source false) found ∧
      Embeds source (Token.texts source false) found ∧
      (∀ span ∈ found, span.start < span.stop) ∧
      found.Pairwise (fun earlier later => earlier.start < later.start) ∧
      List.Forall₂ (fun span token => span.NoLater token.span) found (lex source) ∧
      (comments source = [] → found = (lex source).map Token.span) := by
  obtain ⟨ahead, bounds⟩ := leftmost_lexed source
  have placed := ahead.placed source.boundary_zero
  have some_chars : ∀ token ∈ texts source false, token ≠ [] := by
    rw [texts_eq]
    exact List.forall_mem_map.mpr (ne_nil_of_mem_lexFrom 0 source)
  refine ⟨ahead, placed.embeds, placed.nonempty some_chars, placed.ascending some_chars,
    List.forall₂_map_right_iff.mp bounds, fun plain => ?_⟩
  rw [texts_eq]
  exact spansFrom_lexFrom source 0 source [] [] rfl rfl (List.forall_mem_nil _) plain

/-- Tokens that stand in front of one another, some without layout between them. -/
theorem recovers_lexed_uncommented :
    let source := "ab=a|'(* a *)',b ;".toList
    let found : List Span := [⟨0, 2⟩, ⟨2, 3⟩, ⟨3, 4⟩, ⟨4, 5⟩, ⟨5, 14⟩, ⟨14, 15⟩, ⟨15, 16⟩, ⟨17, 18⟩]
    comments source = [] ∧ (lex source).map Token.span = found ∧
      (ofTokens source (Token.texts source false)).spans = found := by
  have plain : comments "ab=a|'(* a *)',b ;".toList = [] := by cbv
  have lexed : (lex "ab=a|'(* a *)',b ;".toList).map Token.span =
      [⟨0, 2⟩, ⟨2, 3⟩, ⟨3, 4⟩, ⟨4, 5⟩, ⟨5, 14⟩, ⟨14, 15⟩, ⟨15, 16⟩, ⟨17, 18⟩] := by cbv
  exact ⟨plain, lexed, ((recovers_lexed _).2.2.2.2.2 plain).trans lexed⟩

end Offsets
end GrammarDesk
