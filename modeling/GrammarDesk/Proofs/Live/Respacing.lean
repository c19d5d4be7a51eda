import GrammarDesk.Proofs.Live.Confirmation
import GrammarDesk.Proofs.Live.Terminals

/-! White space around the tokens of a sample. When no literal of a grammar has any in it,
none that stands across a gap can fit, however wide the gap becomes, and none that fits
without a gap stops to fit; so a sample is cut into the same tokens, and matched as before,
when white space is put in between them. -/
namespace GrammarDesk

namespace Cutter

structure Piece.Respaces (piece other : Piece) : Prop where
  token : other.token = piece.token
  blank : other.gap.isBlank = true
  kept : other.gap = [] → piece.gap = []

/-- A sample with other white space before, between and behind its tokens: more of it, or
some where there was none, or any other kind, but some wherever a token had some before
it. -/
def Respaced (cutter : Cutter) (sample other : Text) : Prop :=
  ∃ (pieces : List Piece) (rest : Text),
    List.Forall₂ Piece.Respaces (cutter.pieces sample) pieces ∧ rest.isBlank = true ∧
      pieces.flatMap Piece.text ++ rest = other

section

variable {cutter : Cutter} {literals : List Text} {sample other rest literal token : Text}
  {c : Char} {cs : Text}

theorem Respaced.isBlank (respaced : cutter.Respaced sample other)
    (blank : Text.trimStart sample = []) : other.isBlank = true := by
  obtain ⟨pieces, rest, related, blank_rest, rfl⟩ := respaced
  rw [pieces_of_blank blank] at related
  cases related
  exact blank_rest

theorem Respaced.exists_token (respaced : cutter.Respaced sample other)
    (trimmed : Text.trimStart sample = c :: cs) :
    ∃ gap rest : Text, gap.isBlank = true ∧ (gap = [] → sample = c :: cs) ∧
      other = gap ++ (cutter.first c cs ++ rest) ∧
      cutter.Respaced ((c :: cs).drop (cutter.first c cs).length) rest := by
  obtain ⟨pieces, rest, related, blank, rfl⟩ := respaced
  rw [pieces_of_trimStart trimmed] at related
  cases related with
  | @cons _ piece _ pieces first others =>
    refine ⟨piece.gap, pieces.flatMap Piece.text ++ rest, first.blank, fun tight => ?_, ?_,
      pieces, rest, others, blank, rfl⟩
    · have split := Text.takeWhile_append_trimStart sample
      have gap : sample.takeWhile Text.blank = [] := first.kept tight
      rw [gap, List.nil_append, trimmed] at split
      exact split.symm
    · have token : piece.token = cutter.first c cs := first.token
      simp [Piece.text, token]

theorem eq_nil_of_begins {gap : Text} (free : ∀ c ∈ literal, Text.blank c = false)
    (blank : gap.isBlank = true) (begins : literal <+: gap ++ rest) (wide : gap = [] → rest = []) :
    literal = [] := by
  cases gap with
  | nil =>
    rw [wide rfl] at begins
    exact List.prefix_nil.mp begins
  | cons d gap =>
    cases literal with
    | nil => rfl
    | cons c literal =>
      obtain ⟨rfl, -⟩ := List.cons_prefix_cons.mp begins
      have shown := free c List.mem_cons_self
      rw [List.all_eq_true.mp blank c List.mem_cons_self] at shown
      cases shown

theorem begins_append {behind : Text} (free : ∀ c ∈ literal, Text.blank c = false)
    (back : ∀ more : Text, (∀ c ∈ more, Text.blank c = false) → more <+: behind → more <+: rest)
    (begins : literal <+: token ++ behind) : literal <+: token ++ rest := by
  rcases List.prefix_or_prefix_of_prefix begins (List.prefix_append _ _) with inside | ⟨more, rfl⟩
  · exact inside.trans (List.prefix_append _ _)
  · have free : ∀ c ∈ more, Text.blank c = false := fun c member =>
      free c (List.mem_append_right _ member)
    exact (List.prefix_append_right_inj _).mpr
      (back more free ((List.prefix_append_right_inj _).mp begins))

theorem Respaced.begins (respaced : cutter.Respaced sample other)
    (free : ∀ c ∈ literal, Text.blank c = false) (begins : literal <+: other) :
    literal <+: sample := by
  induction sample using cut_induction cutter generalizing other literal with
  | blank sample blank =>
    rw [← List.append_nil other] at begins
    rw [eq_nil_of_begins free (respaced.isBlank blank) begins fun _ => rfl]
    exact List.nil_prefix
  | token sample c cs trimmed ih =>
    obtain ⟨gap, rest, blank, tight, rfl, later⟩ := respaced.exists_token trimmed
    by_cases close : gap = []
    · rw [close, List.nil_append] at begins
      rw [tight close, ← cutter.first_append_drop c cs]
      exact begins_append free (fun _ free begins => ih later free begins) begins
    · have nothing := eq_nil_of_begins free blank begins fun none => absurd none close
      rw [nothing]
      exact List.nil_prefix

theorem Munches.respace {behind : Text}
    (free : ∀ literal ∈ literals, ∀ c ∈ literal, Text.blank c = false)
    (back : ∀ more : Text, (∀ c ∈ more, Text.blank c = false) → more <+: behind → more <+: rest)
    (munches : Munches literals token (token ++ rest)) :
    Munches literals token (token ++ behind) := by
  have before : ∀ literal ∈ literals, literal <+: token ++ behind → literal <+: token ++ rest :=
    fun literal member => begins_append (free literal member) back
  generalize whole : token ++ rest = text at munches before
  cases munches with
  | literal member some_chars begins longest =>
    exact .literal member some_chars (List.prefix_append _ _) fun other inside begins =>
      longest other inside (before other inside begins)
  | single alone =>
    exact .single fun literal member some_chars begins =>
      alone literal member some_chars (before literal member begins)

theorem Respaced.cuts (free : ∀ literal ∈ literals, ∀ c ∈ literal, Text.blank c = false)
    (respaced : (ofLiterals literals).Respaced sample other) :
    Cuts literals other ((ofLiterals literals).cut sample) := by
  induction sample using cut_induction (ofLiterals literals) generalizing other with
  | blank sample blank =>
    rw [cut_of_blank blank]
    exact .done (respaced.isBlank blank)
  | token sample c cs trimmed ih =>
    obtain ⟨gap, rest, blank, -, rfl, later⟩ := respaced.exists_token trimmed
    have munches := munches_first literals c cs
    rw [← (ofLiterals literals).first_append_drop c cs] at munches
    rw [cut_of_trimStart trimmed]
    exact .token blank (blank_of_first trimmed) (munches.respace free fun _ => later.begins)
      (ih later)

end

end Cutter

namespace Report

def texts (report : Report) (sample : Text) : List (Option Text) :=
  report.matched.map fun segment => sample.slice? segment.span

variable {parser : GrammarParser} {sample : Text} {n : Nat} {report : Report}

theorem Confirms.texts (confirms : Confirms parser sample n report) :
    report.texts sample = ((parser.cutter.cut sample).take n).map some := by
  refine List.ext_getElem? fun k => ?_
  rw [Report.texts, List.getElem?_map, List.getElem?_map, List.getElem?_take]
  cases found : report.matched[k]? with
  | none =>
    have beyond := List.getElem?_eq_none_iff.mp found
    rw [confirms.count] at beyond
    rw [if_neg (Nat.not_lt.mpr beyond)]
    rfl
  | some segment =>
    have inside := (List.getElem?_eq_some_iff.mp found).1
    rw [confirms.count] at inside
    obtain ⟨token, cut, slice⟩ := confirms.token k segment found
    rw [if_pos inside, cut, Option.map_some, Option.map_some, slice]

theorem texts_ofParser (parser : GrammarParser) (sample : Text) :
    (ofParser parser.toSampleParser sample).texts sample =
      ((parser.outcome sample).consumed (parser.cutter.cut sample)).map some := by
  cases written : sample.isBlank with
  | true =>
    have nothing : parser.cutter.cut sample = [] :=
      Cutter.cut_of_blank (Text.trimStart_eq_nil_iff.mpr written)
    have empty : ofParser parser.toSampleParser sample = {} := by
      rw [ofParser, if_pos written]
    have consumed : (parser.outcome sample).consumed [] = [] := by
      cases parser.outcome sample with
      | complete => rfl
      | haltedAt index => exact List.take_nil
    rw [empty, nothing, consumed]
    rfl
  | false =>
    cases outcome : parser.outcome sample with
    | complete =>
      rw [ofParser_of_complete written outcome,
        (confirms_placed Nat.le.refl (by simp)).texts, List.take_length]
      rfl
    | haltedAt index =>
      have within := Nat.le_of_lt (Program.lt_of_outcome_eq_haltedAt outcome)
      rw [ofParser_of_haltedAt written outcome, (confirms_placed within (by simp)).texts]
      rfl

/-- Once a grammar text compiles, a report is what its parser makes of the sample. Blank
samples are no exception, for neither reports anything of them. -/
theorem compute_eq_ofParser {source : Text} (compiles : GrammarParser.ofText source = .ok parser) :
    compute source sample = ofParser parser.toSampleParser sample := by
  cases written : sample.isBlank with
  | true => simp [compute, ofParser, written]
  | false => exact compute_of_ofText_eq_ok compiles written

end Report

namespace GrammarParser

variable {grammar : Grammar} {parser : GrammarParser} {sample other : Text}

/-- If no literal of a grammar has white space in it, white space between the tokens of a
sample tells nothing: spaced anew, it is cut into the same tokens and parsed with the same
outcome, and the tokens that get through are the texts matched in either. -/
theorem respaced_alike (compiles : ofGrammar grammar = .ok parser)
    (free : ∀ literal ∈ grammar.terminals, ∀ c ∈ literal, Text.blank c = false)
    (respaced : parser.cutter.Respaced sample other) :
    parser.cutter.cut other = parser.cutter.cut sample ∧
    parser.outcome other = parser.outcome sample ∧
    ∀ spaced ∈ [sample, other],
      (Report.ofParser parser.toSampleParser spaced).texts spaced =
        ((parser.outcome sample).consumed (parser.cutter.cut sample)).map some ∧
      ∀ source, ofText source = .ok parser → (Report.compute source spaced).texts spaced =
        ((parser.outcome sample).consumed (parser.cutter.cut sample)).map some := by
  obtain ⟨cutter, -, -⟩ := of_ofGrammar_eq_ok compiles
  have tokens : parser.cutter.cut other = parser.cutter.cut sample := by
    rw [cutter] at respaced ⊢
    exact Cutter.cut_of_cuts (respaced.cuts free)
  have outcome : parser.outcome other = parser.outcome sample := by
    rw [GrammarParser.outcome, tokens, GrammarParser.outcome]
  refine ⟨tokens, outcome, fun spaced member => ?_⟩
  have own : (Report.ofParser parser.toSampleParser spaced).texts spaced =
      ((parser.outcome sample).consumed (parser.cutter.cut sample)).map some := by
    rw [Report.texts_ofParser]
    rcases List.mem_pair.mp member with rfl | rfl
    · rfl
    · rw [tokens, outcome]
  exact ⟨own, fun source read => by rw [Report.compute_eq_ofParser read, own]⟩

/-- Literals that begin with others. -/
abbrev nested : Grammar :=
  ⟨[⟨"s".toList, .sequence [.terminal "ab".toList, .terminal "a".toList,
    .terminal "b".toList]⟩]⟩

theorem respaced_alike_nested : ∃ parser, ofGrammar nested = .ok parser ∧
    (∀ literal ∈ nested.terminals, ∀ c ∈ literal, Text.blank c = false) ∧
    parser.cutter.Respaced "aba b".toList " ab  a\n\tb ".toList ∧
    ofText "s = 'ab', 'a', 'b' ;".toList = .ok parser ∧
    parser.cutter.cut " ab  a\n\tb ".toList = parser.cutter.cut "aba b".toList ∧
    parser.outcome " ab  a\n\tb ".toList = parser.outcome "aba b".toList ∧
    (Report.compute "s = 'ab', 'a', 'b' ;".toList " ab  a\n\tb ".toList).texts
        " ab  a\n\tb ".toList =
      (Report.compute "s = 'ab', 'a', 'b' ;".toList "aba b".toList).texts "aba b".toList := by
  have succeeds : (ofGrammar nested).isOk = true := by cbv
  have read : ofText "s = 'ab', 'a', 'b' ;".toList = ofGrammar nested := by cbv
  have terminals : nested.terminals = ["ab".toList, "a".toList, "b".toList] := by cbv
  have free : ∀ literal ∈ nested.terminals, ∀ c ∈ literal, Text.blank c = false := by
    simp [terminals, Text.blank, Text.blankRanges]
  have pieces : (Cutter.ofLiterals nested.terminals).pieces "aba b".toList =
      [⟨[], "ab".toList⟩, ⟨[], "a".toList⟩, ⟨[' '], "b".toList⟩] := by cbv
  obtain ⟨parser, compiles⟩ := exists_of_isOk succeeds
  have respaced : parser.cutter.Respaced "aba b".toList " ab  a\n\tb ".toList := by
    rw [(of_ofGrammar_eq_ok compiles).1]
    refine ⟨[⟨[' '], "ab".toList⟩, ⟨[' ', ' '], "a".toList⟩, ⟨['\n', '\t'], "b".toList⟩],
      [' '], ?_, by decide, rfl⟩
    rw [pieces]
    refine .cons ⟨rfl, by decide, ?_⟩ (.cons ⟨rfl, by decide, ?_⟩ (.cons ⟨rfl, by decide, ?_⟩
      .nil)) <;> simp
  obtain ⟨tokens, outcome, matched⟩ := respaced_alike compiles free respaced
  rw [compiles] at read
  have before := (matched _ List.mem_cons_self).2 _ read
  have after := (matched _ (List.mem_cons_of_mem _ List.mem_cons_self)).2 _ read
  exact ⟨parser, compiles, free, respaced, read, tokens, outcome, after.trans before.symm⟩

end GrammarParser

end GrammarDesk
