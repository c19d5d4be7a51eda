import GrammarDesk.Proofs.Live.Report

/-! Reports of any sample parser, its tokens and its outcome taken as they come.
The confirmed tokens are the longest run of consumed tokens that stand at the
front of the sample, and what a halt leaves behind them is unmatched. -/
namespace GrammarDesk

/-- The tokens stand one after the other at the front of a text, each of them
not empty and right behind the white space that is left before it. -/
inductive Text.Follows : Text → List Text → Prop where
  | nil : Follows text []
  | cons {text token rest : Text} {tokens : List Text} : token ≠ [] →
      Text.trimStart text = token ++ rest → Follows rest tokens → Follows text (token :: tokens)

/-- The tokens that an outcome leaves behind: all of them, or those before a halt. -/
def Outcome.consumed (outcome : Outcome) (tokens : List Text) : List Text :=
  match outcome with
  | .complete => tokens
  | .haltedAt index => tokens.take index

namespace Report

open Cutter

/-- The tokens that stand at the front of a text, with the white space before
each: up to the first token that does not. -/
def standing (text : Text) : List Text → List Piece
  | [] => []
  | token :: tokens =>
    if token ≠ [] ∧ token <+: Text.trimStart text then
      ⟨text.takeWhile Text.blank, token⟩ ::
        standing ((Text.trimStart text).drop token.length) tokens
    else []

section

variable {text token rest : Text} {tokens : List Text}

theorem standing_cons (some_chars : token ≠ []) (split : Text.trimStart text = token ++ rest) :
    standing text (token :: tokens) =
      ⟨text.takeWhile Text.blank, token⟩ :: standing rest tokens := by
  rw [standing, if_pos ⟨some_chars, rest, split.symm⟩, split, List.drop_left]

theorem standing_drift (drift : ¬ (token ≠ [] ∧ token <+: Text.trimStart text)) :
    standing text (token :: tokens) = [] := by
  rw [standing, if_neg drift]

/-- The induction along tokens that are looked for in a text: none are left, the
next one does not stand there, or it does and the search goes on behind it. -/
theorem standing_induction {motive : Text → List Text → Prop}
    (done : ∀ text, motive text [])
    (drift : ∀ text token tokens, ¬ (token ≠ [] ∧ token <+: Text.trimStart text) →
      motive text (token :: tokens))
    (stand : ∀ text token rest tokens, token ≠ [] → Text.trimStart text = token ++ rest →
      motive rest tokens → motive text (token :: tokens))
    (text : Text) (tokens : List Text) : motive text tokens := by
  induction tokens generalizing text with
  | nil => exact done text
  | cons token tokens ih =>
    by_cases stands : token ≠ [] ∧ token <+: Text.trimStart text
    · obtain ⟨some_chars, rest, split⟩ := stands
      exact stand text token rest tokens some_chars split.symm (ih rest)
    · exact drift text token tokens stands

theorem confirm_eq_placed (offset : Nat) (text : Text) (tokens : List Text) :
    confirm offset text tokens = placed offset (standing text tokens) := by
  induction text, tokens using standing_induction generalizing offset with
  | done text => rfl
  | drift text token tokens drift =>
    have refused : ¬ (!token.isEmpty && token.isPrefixOf (Text.trimStart text)) = true := by
      simpa using drift
    rw [standing_drift drift, confirm, if_neg refused, placed]
  | stand text token rest tokens some_chars split ih =>
    have accepted : (!token.isEmpty && token.isPrefixOf (Text.trimStart text)) = true := by
      simp [some_chars, split]
    rw [standing_cons some_chars split, confirm, if_pos accepted, width_gap, placed, split,
      List.drop_left]
    exact congrArg _ (ih _)

theorem standing_wellFormed (text : Text) (tokens : List Text) :
    ∀ piece ∈ standing text tokens, piece.gap.isBlank = true ∧ piece.token ≠ [] := by
  induction text, tokens using standing_induction with
  | done text => simp [standing]
  | drift text token tokens drift => simp [standing_drift drift]
  | stand text token rest tokens some_chars split ih =>
    rw [standing_cons some_chars split, List.forall_mem_cons]
    exact ⟨⟨Text.isBlank_takeWhile text, some_chars⟩, ih⟩

theorem exists_standing_rest (text : Text) (tokens : List Text) : ∃ rest : Text,
    (standing text tokens).flatMap Piece.text ++ rest = text := by
  induction text, tokens using standing_induction with
  | done text => exact ⟨text, rfl⟩
  | drift text token tokens drift => exact ⟨text, by rw [standing_drift drift]; rfl⟩
  | stand text token rest tokens some_chars split ih =>
    obtain ⟨behind, whole⟩ := ih
    refine ⟨behind, ?_⟩
    rw [standing_cons some_chars split, List.flatMap_cons, Piece.text, List.append_assoc, whole,
      List.append_assoc, ← split, Text.takeWhile_append_trimStart]

theorem standing_tokens (text : Text) (tokens : List Text) :
    (standing text tokens).map Piece.token <+: tokens := by
  induction text, tokens using standing_induction with
  | done text => exact List.prefix_rfl
  | drift text token tokens drift => simp [standing_drift drift]
  | stand text token rest tokens some_chars split ih =>
    rw [standing_cons some_chars split, List.map_cons, List.prefix_cons_inj]
    exact ih

theorem getElem?_standing {k : Nat} {piece : Piece}
    (found : (standing text tokens)[k]? = some piece) : tokens[k]? = some piece.token := by
  obtain ⟨rest, split⟩ := standing_tokens text tokens
  have bound := (List.getElem?_eq_some_iff.mp found).1
  rw [← split, List.getElem?_append_left (by simpa using bound), List.getElem?_map, found,
    Option.map_some]

theorem follows_take_iff (text : Text) (tokens : List Text) {k : Nat} (le : k ≤ tokens.length) :
    text.Follows (tokens.take k) ↔ k ≤ (standing text tokens).length := by
  induction text, tokens using standing_induction generalizing k with
  | done text =>
    rw [List.take_nil]
    exact iff_of_true .nil le
  | drift text token tokens drift =>
    rw [standing_drift drift]
    cases k with
    | zero => exact iff_of_true .nil (Nat.zero_le _)
    | succ k =>
      refine iff_of_false ?_ (Nat.not_succ_le_zero k)
      rintro (_ | ⟨some_chars, split, -⟩)
      exact drift ⟨some_chars, _, split.symm⟩
  | stand text token rest tokens some_chars split ih =>
    rw [standing_cons some_chars split]
    cases k with
    | zero => exact iff_of_true .nil (Nat.zero_le _)
    | succ k =>
      rw [List.length_cons, Nat.succ_le_succ_iff, ← ih (Nat.le_of_succ_le_succ le)]
      constructor
      · rintro (_ | ⟨-, other, follows⟩)
        rwa [List.append_cancel_left (split.symm.trans other)]
      · exact .cons some_chars split

theorem isGreatest_standing (text : Text) (tokens : List Text) :
    IsGreatest {k | k ≤ tokens.length ∧ text.Follows (tokens.take k)}
      (standing text tokens).length := by
  have le : (standing text tokens).length ≤ tokens.length := by
    simpa using (standing_tokens text tokens).length_le
  exact ⟨⟨le, (follows_take_iff text tokens le).mpr Nat.le.refl⟩,
    fun k ⟨le, follows⟩ => (follows_take_iff text tokens le).mp follows⟩

end

theorem start_of_mem_placed {offset : Nat} {pieces : List Piece} :
    ∀ segment ∈ placed offset pieces, offset ≤ segment.span.start := by
  induction pieces generalizing offset with
  | nil => simp [placed]
  | cons piece pieces ih =>
    rw [placed, List.forall_mem_cons]
    refine ⟨Nat.le_add_right .., fun segment member => ?_⟩
    have later := ih segment member
    omega

theorem pairwise_placed (offset : Nat) (pieces : List Piece) :
    (placed offset pieces).Pairwise fun before after => before.span.stop ≤ after.span.start := by
  induction pieces generalizing offset with
  | nil => exact .nil
  | cons piece pieces ih => exact .cons start_of_mem_placed (ih _)

/-- What is left of a sample behind byte `stop`, as a halt shows it. -/
def leftover (outcome : Outcome) (sample : Text) (stop : Nat) : List Segment :=
  if outcome ≠ .complete ∧ stop < sample.width then [⟨⟨stop, sample.width⟩, false⟩] else []

theorem matched_of_mem_leftover {outcome : Outcome} {sample : Text} {stop : Nat} :
    ∀ segment ∈ leftover outcome sample stop, segment.matched = false := by
  unfold leftover
  split <;> simp

/-- What a report says of the tokens of a sample and of how far a parser got. -/
structure Exact (sample : Text) (outcome : Outcome) (tokens : List Text) (report : Report) :
    Prop where
  order : report.segments = report.matched ++ report.unmatched
  /-- As many tokens are matched as stand at the front of the sample. -/
  count : IsGreatest {k | k ≤ (outcome.consumed tokens).length ∧
    sample.Follows ((outcome.consumed tokens).take k)} report.matched.length
  token : ∀ (k : Nat) (segment : Segment), report.matched[k]? = some segment →
    ∃ token : Text, (outcome.consumed tokens)[k]? = some token ∧
      sample.slice? segment.span = some token ∧ segment.span.start < segment.span.stop
  gap : ∀ (k : Nat) (segment : Segment), report.matched[k]? = some segment →
    ∃ gap : Text, sample.slice? ⟨report.stopAfter k, segment.span.start⟩ = some gap ∧
      gap.isBlank = true
  disjoint : report.matched.Pairwise fun before after => before.span.stop ≤ after.span.start
  boundary : ∃ rest : Text,
    sample.slice? ⟨report.stopAfter report.matched.length, sample.width⟩ = some rest
  rest : report.unmatched = leftover outcome sample (report.stopAfter report.matched.length)

section

variable {parser : SampleParser} {sample : Text} {outcome : Outcome} {report : Report}

theorem stopAfter_standing {tokens : List Text}
    (places : report.matched = placed 0 (standing sample tokens)) :
    report.stopAfter report.matched.length =
      Text.width ((standing sample tokens).flatMap Piece.text) := by
  rw [stopAfter_of_places places, places, length_placed, List.take_length]

theorem exact_of_places {tokens : List Text}
    (places : report.matched = placed 0 (standing sample (outcome.consumed tokens)))
    (order : report.segments = report.matched ++ report.unmatched)
    (rest : report.unmatched = leftover outcome sample (report.stopAfter report.matched.length)) :
    Exact sample outcome tokens report := by
  obtain ⟨behind, whole⟩ := exists_standing_rest sample (outcome.consumed tokens)
  refine ⟨order, ?count, fun k segment found => ?token, fun k segment found => ?gap, ?disjoint,
    ?boundary, rest⟩
  case count =>
    rw [places, length_placed]
    exact isGreatest_standing sample _
  case token =>
    obtain ⟨piece, stands, token, -⟩ := slices_of_places whole places found
    refine ⟨piece.token, getElem?_standing stands, token, ?_⟩
    have wide := Text.width_pos (standing_wellFormed _ _ piece (List.mem_of_getElem? stands)).2
    rw [places, getElem?_placed stands] at found
    cases found
    exact Nat.lt_add_of_pos_right wide
  case gap =>
    obtain ⟨piece, stands, -, gap⟩ := slices_of_places whole places found
    exact ⟨piece.gap, gap, (standing_wellFormed _ _ piece (List.mem_of_getElem? stands)).1⟩
  case disjoint =>
    rw [places]
    exact pairwise_placed 0 _
  case boundary =>
    have sliced := Text.slice?_append
      ((standing sample (outcome.consumed tokens)).flatMap Piece.text) behind []
    rw [List.append_nil, whole, ← Text.width_append, whole] at sliced
    exact ⟨behind, by rw [stopAfter_standing places, sliced]⟩

theorem ofParser_of_ok (written : sample.isBlank = false)
    (parses : parser.parse sample = .ok outcome) : ofParser parser sample =
      ⟨placed 0 (standing sample (outcome.consumed (parser.cut sample))) ++
        leftover outcome sample (Text.width
          ((standing sample (outcome.consumed (parser.cut sample))).flatMap Piece.text))⟩ := by
  cases outcome with
  | complete => simp [ofParser, written, parses, Outcome.consumed, confirm_eq_placed, leftover]
  | haltedAt index =>
    have stop := stop_placed 0 (standing sample ((parser.cut sample).take index))
    rw [Nat.zero_add] at stop
    simp only [ofParser, written, parses, Outcome.consumed, confirm_eq_placed, stop, leftover,
      Bool.false_eq_true, if_false]
    split <;> simp_all

theorem exact_ofParser (written : sample.isBlank = false)
    (parses : parser.parse sample = .ok outcome) :
    Exact sample outcome (parser.cut sample) (ofParser parser sample) := by
  rw [ofParser_of_ok written parses]
  obtain ⟨front, back⟩ := matched_placed 0
    (standing sample (outcome.consumed (parser.cut sample))) _ matched_of_mem_leftover
  refine exact_of_places front ?_ ?_
  · rw [front, back]
  · rw [back, stopAfter_standing front]

end

/-- The report on a sample, whatever its parser makes of it. A blank sample has
none, and of one that fails to parse all is unmatched. -/
theorem ofParser_exact (parser : SampleParser) (sample : Text) :
    if sample.isBlank then (ofParser parser sample).segments = []
    else match parser.parse sample with
      | .error _ => (ofParser parser sample).segments = [⟨⟨0, sample.width⟩, false⟩]
      | .ok outcome => Exact sample outcome (parser.cut sample) (ofParser parser sample) := by
  by_cases blank : sample.isBlank = true
  · simp [ofParser, blank]
  · rw [if_neg blank]
    rw [Bool.not_eq_true] at blank
    cases parses : parser.parse sample with
    | error error => simp [ofParser, blank, parses, failed]
    | ok outcome => exact exact_ofParser blank parses

end Report
end GrammarDesk
