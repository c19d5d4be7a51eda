import GrammarDesk.CommandLine.Commands
import GrammarDesk.Proofs.Match.Exactness
import GrammarDesk.Proofs.Sample.Compiled
import GrammarDesk.Proofs.Sample.Pieces
import Mathlib

/-! The confirmed tokens of a report stand where the cutter found them. A
report says as much as the outcome does: each token that got through, and after
a halt all the rest. -/
namespace GrammarDesk

theorem Program.lt_of_outcome_eq_haltedAt {program : Program} {tokens : List Text} {index : Nat}
    (halted : program.outcome tokens = .haltedAt index) : index < tokens.length := by
  rw [outcome_eq] at halted
  split at halted
  · cases halted
    assumption
  · cases halted

namespace Report

open Cutter

/-- The segments of pieces that follow one another from byte `offset` on. -/
def placed (offset : Nat) : List Piece → List Segment
  | [] => []
  | piece :: pieces =>
    let start := offset + piece.gap.width
    ⟨⟨start, start + piece.token.width⟩, true⟩ :: placed (start + piece.token.width) pieces

def stopAfter (report : Report) (k : Nat) : Nat :=
  ((report.matched.take k).getLast?.map (·.span.stop)).getD 0

theorem width_gap (sample : Text) :
    sample.width - (Text.trimStart sample).width = Text.width (sample.takeWhile Text.blank) := by
  have split := congrArg Text.width (Text.takeWhile_append_trimStart sample)
  rw [Text.width_append] at split
  omega

theorem confirm_take_cut (cutter : Cutter) (n offset : Nat) (sample : Text) :
    confirm offset sample ((cutter.cut sample).take n) =
      placed offset ((cutter.pieces sample).take n) := by
  induction sample using cut_induction cutter generalizing n offset with
  | blank sample blank => simp [cut_of_blank blank, pieces_of_blank blank, confirm, placed]
  | token sample c cs trimmed ih =>
    cases n with
    | zero => rfl
    | succ n =>
      have stands : (!(cutter.first c cs).isEmpty && (cutter.first c cs).isPrefixOf (c :: cs)) =
          true := by simp [first_isPrefixOf, first_ne_nil]
      rw [cut_of_trimStart trimmed, pieces_of_trimStart trimmed, List.take_succ_cons,
        List.take_succ_cons, confirm, placed, ← width_gap, trimmed, if_pos stands]
      exact congrArg _ (ih n _)

theorem length_placed (offset : Nat) (pieces : List Piece) :
    (placed offset pieces).length = pieces.length := by
  induction pieces generalizing offset with
  | nil => rfl
  | cons piece pieces ih => simp [placed, ih]

theorem matched_of_mem_placed {offset : Nat} {pieces : List Piece} :
    ∀ segment ∈ placed offset pieces, segment.matched = true := by
  induction pieces generalizing offset with
  | nil => simp [placed]
  | cons piece pieces ih => simpa [placed] using ih

theorem take_placed (offset k : Nat) (pieces : List Piece) :
    (placed offset pieces).take k = placed offset (pieces.take k) := by
  induction pieces generalizing offset k with
  | nil => simp [placed]
  | cons piece pieces ih =>
    cases k with
    | zero => simp [placed]
    | succ k => simp [placed, ih]

theorem stop_placed (offset : Nat) (pieces : List Piece) :
    ((placed offset pieces).getLast?.map (·.span.stop)).getD offset =
      offset + Text.width (pieces.flatMap Piece.text) := by
  induction pieces generalizing offset with
  | nil => rfl
  | cons piece pieces ih =>
    have later := ih (offset + piece.gap.width + piece.token.width)
    rw [placed, List.getLast?_cons, List.flatMap_cons, Text.width_append, Piece.text,
      Text.width_append]
    cases last : (placed (offset + piece.gap.width + piece.token.width) pieces).getLast? <;>
      simp only [last, Option.map_none, Option.map_some, Option.getD_none, Option.getD_some]
        at later ⊢ <;> omega

theorem getElem?_placed {offset k : Nat} {pieces : List Piece} {piece : Piece}
    (found : pieces[k]? = some piece) :
    (placed offset pieces)[k]? =
      some ⟨⟨offset + Text.width ((pieces.take k).flatMap Piece.text) + piece.gap.width,
        offset + Text.width ((pieces.take k).flatMap Piece.text) + piece.gap.width +
          piece.token.width⟩, true⟩ := by
  induction pieces generalizing offset k with
  | nil => simp at found
  | cons first pieces ih =>
    cases k with
    | zero =>
      cases Option.some.inj found
      simp [placed]
    | succ k =>
      rw [placed, List.getElem?_cons_succ, ih (by simpa using found)]
      simp [Text.width_append, Piece.text, Nat.add_assoc]

section

variable {pieces : List Piece} {text rest : Text} {report : Report}

theorem exists_around (whole : pieces.flatMap Piece.text ++ rest = text) {k : Nat} {piece : Piece}
    (found : pieces[k]? = some piece) : ∃ behind : Text,
      (pieces.take k).flatMap Piece.text ++ piece.gap ++ piece.token ++ behind = text := by
  obtain ⟨bound, piece_eq⟩ := List.getElem?_eq_some_iff.mp found
  refine ⟨(pieces.drop (k + 1)).flatMap Piece.text ++ rest, ?_⟩
  conv => rhs; rw [← whole, ← List.take_append_drop k pieces, List.drop_eq_getElem_cons bound,
    piece_eq]
  simp [Piece.text]

theorem stopAfter_of_places (places : report.matched = placed 0 pieces) (k : Nat) :
    report.stopAfter k = Text.width ((pieces.take k).flatMap Piece.text) := by
  have stop := stop_placed 0 (pieces.take k)
  rwa [Nat.zero_add, ← take_placed, ← places] at stop

theorem slices_of_places (whole : pieces.flatMap Piece.text ++ rest = text)
    (places : report.matched = placed 0 pieces) {k : Nat} {segment : Segment}
    (found : report.matched[k]? = some segment) : ∃ piece, pieces[k]? = some piece ∧
      text.slice? segment.span = some piece.token ∧
      text.slice? ⟨report.stopAfter k, segment.span.start⟩ = some piece.gap := by
  obtain ⟨bound, -⟩ := List.getElem?_eq_some_iff.mp found
  rw [places, length_placed] at bound
  have cut : pieces[k]? = some pieces[k] := List.getElem?_eq_getElem bound
  obtain ⟨behind, split⟩ := exists_around whole cut
  rw [places, getElem?_placed cut, Nat.zero_add] at found
  cases found
  refine ⟨_, cut, ?_, ?_⟩
  · have sliced := Text.slice?_append
      ((pieces.take k).flatMap Piece.text ++ pieces[k].gap) pieces[k].token behind
    rwa [split, Text.width_append] at sliced
  · have sliced := Text.slice?_append
      ((pieces.take k).flatMap Piece.text) pieces[k].gap (pieces[k].token ++ behind)
    rw [← List.append_assoc, split] at sliced
    rw [stopAfter_of_places places, sliced]

end

/-- What a report says when the first `n` tokens of a sample got through: each
of them is matched where the cutter cut it, with white space before it. -/
structure Confirms (parser : GrammarParser) (sample : Text) (n : Nat) (report : Report) :
    Prop where
  count : report.matched.length = n
  order : report.segments = report.matched ++ report.unmatched
  places : report.matched = placed 0 ((parser.cutter.pieces sample).take n)
  token : ∀ (k : Nat) (segment : Segment), report.matched[k]? = some segment →
    ∃ token, (parser.cutter.cut sample)[k]? = some token ∧
      sample.slice? segment.span = some token
  gap : ∀ (k : Nat) (segment : Segment), report.matched[k]? = some segment →
    ∃ gap : Text, sample.slice? ⟨report.stopAfter k, segment.span.start⟩ = some gap ∧
      gap.isBlank = true

section

variable {parser : GrammarParser} {sample : Text} {n : Nat} {report : Report}

theorem exists_rest_take (parser : GrammarParser) (sample : Text) (n : Nat) : ∃ rest : Text,
    ((parser.cutter.pieces sample).take n).flatMap Piece.text ++ rest = sample := by
  obtain ⟨rest, -, whole⟩ := parser.cutter.exists_rest sample
  refine ⟨((parser.cutter.pieces sample).drop n).flatMap Piece.text ++ rest, ?_⟩
  rw [← List.append_assoc, ← List.flatMap_append, List.take_append_drop, whole]

theorem confirms_of_places
    (places : report.matched = placed 0 ((parser.cutter.pieces sample).take n))
    (order : report.segments = report.matched ++ report.unmatched)
    (le : n ≤ (parser.cutter.cut sample).length) : Confirms parser sample n report := by
  obtain ⟨rest, whole⟩ := exists_rest_take parser sample n
  refine ⟨?_, order, places, fun k segment found => ?_, fun k segment found => ?_⟩
  · rw [places, length_placed, List.length_take, length_pieces, Nat.min_eq_left le]
  · obtain ⟨piece, cut, token, -⟩ := slices_of_places whole places found
    rw [List.getElem?_take, Option.ite_none_right_eq_some] at cut
    refine ⟨piece.token, ?_, token⟩
    rw [← map_token_pieces, List.getElem?_map, cut.2, Option.map_some]
  · obtain ⟨piece, cut, -, gap⟩ := slices_of_places whole places found
    have member := List.mem_of_mem_take (List.mem_of_getElem? cut)
    exact ⟨piece.gap, gap, (parser.cutter.pieces_wellFormed sample piece member).1⟩

theorem matched_placed (offset : Nat) (pieces : List Piece) (tail : List Segment)
    (rest : ∀ segment ∈ tail, segment.matched = false) :
    matched ⟨placed offset pieces ++ tail⟩ = placed offset pieces ∧
      unmatched ⟨placed offset pieces ++ tail⟩ = tail := by
  have front : ∀ segment ∈ placed offset pieces, segment.matched = true := matched_of_mem_placed
  constructor
  · rw [matched, List.filter_append, List.filter_eq_self.mpr front,
      List.filter_eq_nil_iff.mpr fun segment member => by simp [rest segment member],
      List.append_nil]
  · rw [unmatched, List.filter_append,
      List.filter_eq_nil_iff.mpr fun segment member => by simp [front segment member],
      List.filter_eq_self.mpr fun segment member => by simp [rest segment member], List.nil_append]

theorem confirms_placed {tail : List Segment} (le : n ≤ (parser.cutter.cut sample).length)
    (rest : ∀ segment ∈ tail, segment.matched = false) :
    Confirms parser sample n ⟨placed 0 ((parser.cutter.pieces sample).take n) ++ tail⟩ := by
  obtain ⟨front, back⟩ := matched_placed 0 ((parser.cutter.pieces sample).take n) tail rest
  refine confirms_of_places front ?_ le
  rw [front, back]

theorem ofParser_of_complete (written : sample.isBlank = false)
    (complete : parser.outcome sample = .complete) :
    ofParser parser.toSampleParser sample =
      ⟨placed 0 ((parser.cutter.pieces sample).take (parser.cutter.cut sample).length) ++ []⟩ := by
  have confirmed := confirm_take_cut parser.cutter (parser.cutter.cut sample).length 0 sample
  rw [List.take_length] at confirmed
  simp [ofParser, written, GrammarParser.toSampleParser, complete, confirmed]

theorem width_take_lt {index : Nat} (less : index < (parser.cutter.cut sample).length) :
    Text.width (((parser.cutter.pieces sample).take index).flatMap Piece.text) < sample.width := by
  have inside : index < (parser.cutter.pieces sample).length := by rwa [length_pieces]
  obtain ⟨rest, -, split⟩ := parser.cutter.exists_rest sample
  obtain ⟨behind, whole⟩ := exists_around split (List.getElem?_eq_getElem inside)
  have token := (parser.cutter.pieces_wellFormed sample _ (List.getElem_mem inside)).2
  have wide := Text.width_pos token
  conv => rhs; rw [← whole]
  simp only [Text.width_append]
  omega

theorem ofParser_of_haltedAt {index : Nat} (written : sample.isBlank = false)
    (halted : parser.outcome sample = .haltedAt index) :
    ofParser parser.toSampleParser sample =
      ⟨placed 0 ((parser.cutter.pieces sample).take index) ++
        [⟨⟨Text.width (((parser.cutter.pieces sample).take index).flatMap Piece.text),
          sample.width⟩, false⟩]⟩ := by
  have less := width_take_lt (Program.lt_of_outcome_eq_haltedAt halted)
  have stop := stop_placed 0 ((parser.cutter.pieces sample).take index)
  rw [Nat.zero_add] at stop
  simp only [ofParser, written, GrammarParser.toSampleParser, halted, confirm_take_cut, stop,
    Bool.false_eq_true, if_false, if_pos less]

theorem compute_of_ofText_eq_ok {source : Text}
    (compiles : GrammarParser.ofText source = .ok parser) (written : sample.isBlank = false) :
    compute source sample = ofParser parser.toSampleParser sample := by
  simp [compute, GrammarParser.isBlank_of_ofText_eq_ok compiles, written, compiles]

theorem exists_blank_rest (parser : GrammarParser) (sample : Text) : ∃ rest : Text,
    sample.slice? ⟨Text.width ((parser.cutter.pieces sample).flatMap Piece.text), sample.width⟩ =
      some rest ∧ rest.isBlank = true := by
  obtain ⟨rest, blank, whole⟩ := parser.cutter.exists_rest sample
  refine ⟨rest, ?_, blank⟩
  have sliced := Text.slice?_append ((parser.cutter.pieces sample).flatMap Piece.text) rest []
  rwa [List.append_nil, whole, ← Text.width_append, whole] at sliced

end

/-- How a report ends: after all tokens with white space, after a halt with one
unmatched segment that takes in the rest. -/
def Ends (parser : GrammarParser) (sample : Text) (n : Nat) (report : Report) : Prop :=
  match parser.outcome sample with
  | .complete => n = (parser.cutter.cut sample).length ∧ report.unmatched = [] ∧
    ∃ rest : Text, sample.slice? ⟨report.stopAfter n, sample.width⟩ = some rest ∧
      rest.isBlank = true
  | .haltedAt index => n = index ∧ index < (parser.cutter.cut sample).length ∧
    report.unmatched = [⟨⟨report.stopAfter n, sample.width⟩, false⟩] ∧
    report.stopAfter n < sample.width

/-- The report on a sample tells what its parser decided: the tokens that got
through are matched where they were cut, and the rest is unmatched exactly after
a halt. So matching a sample file fails exactly after a halt. -/
theorem compute_exact {source sample : Text} {parser : GrammarParser}
    (compiles : GrammarParser.ofText source = .ok parser) (written : sample.isBlank = false) :
    (∃ n, Confirms parser sample n (compute source sample) ∧
      Ends parser sample n (compute source sample)) ∧
    ∀ (read : String → FileContent) (settings : Settings) (path samplePath : String)
      (format : Format), read path = .text source → read samplePath = .text sample →
      ∃ result, Command.perform read settings (.matchSample path samplePath format) = .ok result ∧
        (result.status ≠ 0 ↔ ∃ index, parser.outcome sample = .haltedAt index) := by
  rw [compute_of_ofText_eq_ok compiles written]
  have exact : ∃ n, Confirms parser sample n (ofParser parser.toSampleParser sample) ∧
      Ends parser sample n (ofParser parser.toSampleParser sample) := by
    cases outcome : parser.outcome sample with
    -- All pieces are matched, and what is left behind the last one is white space.
    | complete =>
      have confirms : Confirms parser sample (parser.cutter.cut sample).length
          (ofParser parser.toSampleParser sample) := by
        rw [ofParser_of_complete written outcome]
        exact confirms_placed Nat.le.refl (by simp)
      refine ⟨_, confirms, ?_⟩
      have stop := stopAfter_of_places confirms.places (parser.cutter.cut sample).length
      rw [List.take_take, Nat.min_self, ← length_pieces, List.take_length, length_pieces] at stop
      obtain ⟨rest, sliced, blank⟩ := exists_blank_rest parser sample
      simp only [Ends, outcome]
      refine ⟨trivial, ?_, rest, by rw [stop, sliced], blank⟩
      rw [ofParser_of_complete written outcome]
      exact (matched_placed 0 _ [] (by simp)).2
    -- The pieces before the halt are matched, and at least the one at the halt is left.
    | haltedAt index =>
      have less := Program.lt_of_outcome_eq_haltedAt outcome
      have confirms : Confirms parser sample index (ofParser parser.toSampleParser sample) := by
        rw [ofParser_of_haltedAt written outcome]
        exact confirms_placed (Nat.le_of_lt less) (by simp)
      refine ⟨index, confirms, ?_⟩
      have stop := stopAfter_of_places confirms.places index
      rw [List.take_take, Nat.min_self] at stop
      simp only [Ends, outcome, stop]
      refine ⟨trivial, less, ?_, width_take_lt less⟩
      rw [ofParser_of_haltedAt written outcome]
      exact (matched_placed 0 _ _ (by simp)).2
  refine ⟨exact, fun read settings path samplePath format grammar text => ?_⟩
  obtain ⟨n, -, ends⟩ := exact
  refine ⟨Command.matchResult parser format sample, ?_, ?_⟩
  · simp only [Command.perform, Command.readText, grammar, text, bind, Except.bind, compiles, pure,
      Except.pure]
  · cases outcome : parser.outcome sample with
    | complete =>
      simp only [Ends, outcome] at ends
      simp [Command.matchResult, Command.status, ends.2.1]
    | haltedAt index =>
      simp only [Ends, outcome] at ends
      simp [Command.matchResult, Command.status, ends.2.2.1]

theorem compute_pair_exact : ∃ parser,
    GrammarParser.ofText "pair = 'a', 'b' ;".toList = .ok parser ∧
    Text.isBlank " a c".toList = false ∧
    ∃ n, Confirms parser " a c".toList n
        (compute "pair = 'a', 'b' ;".toList " a c".toList) ∧
      Ends parser " a c".toList n (compute "pair = 'a', 'b' ;".toList " a c".toList) := by
  have succeeds : (GrammarParser.ofText "pair = 'a', 'b' ;".toList).isOk = true := by cbv
  have written : Text.isBlank " a c".toList = false := by decide
  cases compiles : GrammarParser.ofText "pair = 'a', 'b' ;".toList with
  | error error =>
    rw [compiles] at succeeds
    cases succeeds
  | ok parser => exact ⟨parser, rfl, written, (compute_exact compiles written).1⟩

end Report
end GrammarDesk
