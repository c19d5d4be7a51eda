import GrammarDesk.Editor.Finding
import GrammarDesk.Proofs.Analysis.Issues
import GrammarDesk.Proofs.Analysis.Spans
import GrammarDesk.Proofs.Analysis.Tracking
import GrammarDesk.Proofs.Text.Places
import Mathlib

/-! From what there is to remark about the tokens of a grammar text to its
diagnostics and to the findings that an editor gets. No remark is lost, and each
one is made where its token stands. -/
namespace GrammarDesk

/-- What there is to say about a token, and the text of that token. -/
structure Remark where
  token : Nat
  text : Text
  code : DiagnosticCode
  message : String

namespace Remark

def tokenText (tokens : List Text) (index : Nat) : Text := tokens.getD index []

def ofHalt (tokens : List Text) (index : Nat) : Remark :=
  ⟨index, tokenText tokens index, .syntaxError,
    s!"syntax error: unexpected token '{String.ofList (tokenText tokens index)}'"⟩

def ofIssue (tokens : List Text) (issue : Issue) : Remark :=
  ⟨issue.index, tokenText tokens issue.index, .issue issue.kind, issue.message⟩

def ofReference (symbol : Symbol) : Remark :=
  ⟨symbol.first, symbol.name, .undefinedSymbol,
    s!"undefined symbol: '{String.ofList symbol.name}'"⟩

def ofDefinition (symbol : Symbol) : Remark :=
  ⟨symbol.first, symbol.name, .definition, s!"definition: '{String.ofList symbol.name}'"⟩

/-- A halt of the reader, the issues, the undefined references and the definitions. -/
def ofTokens (tokens : List Text) : List Remark :=
  let reading := Reading.ofTokens tokens
  reading.outcome.halt?.toList.map (ofHalt tokens) ++ (Issue.find tokens).map (ofIssue tokens) ++
    reading.symbols.undefinedReferences.map ofReference ++
    reading.symbols.definitions.map ofDefinition

theorem getElem?_eq_tokenText {tokens : List Text} {index : Nat} (inside : index < tokens.length) :
    tokens[index]? = some (tokenText tokens index) := by
  simp [tokenText, inside]

end Remark

/-- A diagnostic makes a remark, and its span holds the token that it is about. -/
structure Diagnostic.Makes (source : Text) (tokens : List Text) (remark : Remark)
    (diagnostic : Diagnostic) : Prop where
  code : diagnostic.code = remark.code
  message : diagnostic.message = remark.message
  token : tokens[remark.token]? = some remark.text
  span : (Offsets.ofTokens source tokens).span? remark.token = some diagnostic.span
  slice : Text.slice? source diagnostic.span = some remark.text

/-- A finding says what a diagnostic does, and its places are those of the span, as far
as the text is not too large for places. -/
structure Finding.Shows (source : Text) (diagnostic : Diagnostic) (finding : Finding) :
    Prop where
  code : finding.code = diagnostic.code
  message : finding.message = diagnostic.message
  start : source.Narrow → (LineTable.ofText source).offset finding.start = diagnostic.span.start
  stop : source.Narrow → (LineTable.ofText source).offset finding.stop = diagnostic.span.stop

namespace Offsets

theorem covering?_succ {offsets : Offsets} {index : Nat} {span : Span}
    (place : offsets.span? index = some span) (forward : span.start ≤ span.stop) :
    offsets.covering? index (index + 1) = some span := by
  obtain ⟨inside, -⟩ := List.getElem?_eq_some_iff.mp place
  have stop : min (index + 1) offsets.spans.length = index + 1 := by omega
  simp [covering?, stop, place, Nat.max_eq_left forward]

end Offsets

namespace Diagnostic

variable {source : Text} {tokens : List Text}

section

variable (stand : List.Forall₂ source.Stands tokens (Offsets.ofTokens source tokens).spans)

include stand

theorem exists_makes {remark : Remark} (token : tokens[remark.token]? = some remark.text) :
    ∃ span, (Offsets.ofTokens source tokens).span? remark.token = some span ∧
      span.start ≤ span.stop ∧ Makes source tokens remark ⟨span, remark.code, remark.message⟩ := by
  obtain ⟨inside, text⟩ := List.getElem?_eq_some_iff.mp token
  obtain ⟨lengths, stands⟩ := List.forall₂_iff_get.mp stand
  have place := List.getElem?_eq_getElem (lengths ▸ inside)
  have here := stands remark.token inside (lengths ▸ inside)
  rw [List.get_eq_getElem, text] at here
  refine ⟨_, place, ?_, rfl, rfl, token, place, Text.stands_iff.mp here⟩
  obtain ⟨before, after, -, span⟩ := here
  rw [List.get_eq_getElem] at span
  rw [span]
  exact Nat.le_add_right ..

theorem makes_filterMap {α : Type} {items : List α} {remark : α → Remark}
    {diagnose : α → Option Diagnostic}
    (about : ∀ item ∈ items, tokens[(remark item).token]? = some (remark item).text)
    (found : ∀ item ∈ items, ∀ span, span.start ≤ span.stop →
      (Offsets.ofTokens source tokens).span? (remark item).token = some span →
      diagnose item = some ⟨span, (remark item).code, (remark item).message⟩) :
    List.Forall₂ (Makes source tokens) (items.map remark) (items.filterMap diagnose) := by
  induction items with
  | nil => exact .nil
  | cons item items ih =>
    obtain ⟨here, later⟩ := List.forall_mem_cons.mp about
    obtain ⟨finds, others⟩ := List.forall_mem_cons.mp found
    obtain ⟨span, place, forward, makes⟩ := exists_makes stand here
    rw [List.map_cons, List.filterMap_cons, finds span forward place]
    exact .cons makes (ih later others)

theorem makes_syntaxError {outcome : Outcome}
    (inside : ∀ index ∈ outcome.halt?, index < tokens.length) :
    List.Forall₂ (Makes source tokens) (outcome.halt?.toList.map (Remark.ofHalt tokens))
      (syntaxError? tokens (Offsets.ofTokens source tokens) outcome).toList := by
  cases outcome with
  | complete => exact .nil
  | haltedAt index =>
    have token := Remark.getElem?_eq_tokenText (inside index rfl)
    obtain ⟨span, place, -, makes⟩ := @exists_makes _ _ stand (Remark.ofHalt tokens index) token
    have found : syntaxError? tokens (Offsets.ofTokens source tokens) (.haltedAt index) =
        some ⟨span, (Remark.ofHalt tokens index).code, (Remark.ofHalt tokens index).message⟩ := by
      change (Offsets.ofTokens source tokens).span? index = some span at place
      simp [syntaxError?, Outcome.halt?, place, token, Remark.ofHalt]
    rw [found]
    exact .cons makes .nil

theorem makes_issues : List.Forall₂ (Makes source tokens)
    ((Issue.find tokens).map (Remark.ofIssue tokens))
    (issues tokens (Offsets.ofTokens source tokens)) := by
  apply makes_filterMap stand
  · intro issue member
    exact Remark.getElem?_eq_tokenText (Issue.lt_of_mem_find issue member)
  · intro issue _ span _ place
    exact Option.map_eq_some_iff.mpr ⟨span, place, rfl⟩

theorem makes_symbols {symbols : List Symbol}
    (one : ∀ symbol ∈ symbols,
      tokens[symbol.first]? = some symbol.name ∧ symbol.stop = symbol.first + 1)
    (code : DiagnosticCode) (message : Symbol → String) :
    List.Forall₂ (Makes source tokens)
      (symbols.map fun symbol => ⟨symbol.first, symbol.name, code, message symbol⟩)
      (symbols.filterMap fun symbol =>
        ((Offsets.ofTokens source tokens).covering? symbol.first symbol.stop).map fun span =>
          ⟨span, code, message symbol⟩) := by
  apply makes_filterMap stand
  · exact fun symbol member => (one symbol member).1
  · intro symbol member span forward place
    rw [(one symbol member).2]
    exact Option.map_eq_some_iff.mpr ⟨span, Offsets.covering?_succ place forward, rfl⟩

end

theorem makes_analyze {limits : Limits} (short : source.length ≤ limits.maxChars)
    (inTime : limits.overBudget = false) :
    List.Forall₂ (Makes source (Token.texts source false))
      (Remark.ofTokens (Token.texts source false)) (analyze limits source) := by
  have stand := Offsets.stand_ofTokens source
  have inside : ∀ index ∈ (Reading.ofTokens (Token.texts source false)).outcome.halt?,
      index < (Token.texts source false).length := by
    intro index halted
    cases outcome : (Reading.ofTokens (Token.texts source false)).outcome with
    | complete => simp [outcome, Outcome.halt?] at halted
    | haltedAt halt =>
      simp only [outcome, Outcome.halt?, Option.mem_some_iff] at halted
      exact halted ▸ ((Reading.ofTokens_haltedAt_iff _ halt).mp outcome).1
  have used : ∀ reference ∈
      (Reading.ofTokens (Token.texts source false)).symbols.undefinedReferences, _ :=
    fun reference member => Reading.token_of_symbol _ (.inr (List.mem_filter.mp member).1)
  have undefined := makes_symbols stand used .undefinedSymbol
    fun symbol => s!"undefined symbol: '{String.ofList symbol.name}'"
  have defined := makes_symbols stand (fun _ member => Reading.token_of_symbol _ (.inl member))
    .definition fun symbol => s!"definition: '{String.ofList symbol.name}'"
  rw [analyze, if_neg (Nat.not_lt.mpr short)]
  simp only [inTime, Bool.false_eq_true, if_false]
  exact List.rel_append (List.rel_append (List.rel_append (makes_syntaxError stand inside)
    (makes_issues stand)) undefined) defined

theorem stands_of_mem_analyze {limits : Limits} (short : source.length ≤ limits.maxChars)
    (inTime : limits.overBudget = false) :
    ∀ diagnostic ∈ analyze limits source, ∃ token, source.Stands token diagnostic.span := by
  intro diagnostic member
  obtain ⟨lengths, makes⟩ := List.forall₂_iff_get.mp (makes_analyze short inTime)
  obtain ⟨index, inside, rfl⟩ := List.getElem_of_mem member
  have made := makes index (lengths ▸ inside) inside
  exact ⟨_, Text.stands_iff.mpr made.slice⟩

/-- A list in the order in which its diagnostics start; those that start together
are in the order that they had. -/
structure Ordered (before after : List Diagnostic) : Prop where
  perm : after.Perm before
  ascending : after.Pairwise (·.span.start ≤ ·.span.start)
  stable : ∀ start, after.filter (·.span.start = start) = before.filter (·.span.start = start)

theorem ordered_sorted (diagnostics : List Diagnostic) :
    Ordered diagnostics (sorted diagnostics) := by
  have transitive (a b c : Diagnostic) : decide (a.span.start ≤ b.span.start) = true →
      decide (b.span.start ≤ c.span.start) = true →
      decide (a.span.start ≤ c.span.start) = true := by
    simpa using Nat.le_trans
  have total (a b : Diagnostic) : (decide (a.span.start ≤ b.span.start) ||
      decide (b.span.start ≤ a.span.start)) = true := by
    simpa using Nat.le_total _ _
  have perm : (sorted diagnostics).Perm diagnostics := List.mergeSort_perm _ _
  refine ⟨perm, ?_, fun start => ?_⟩
  · exact (List.pairwise_mergeSort transitive total diagnostics).imp of_decide_eq_true
  · -- Those that start together are in order already, so that sorting keeps them in it.
    have together : (diagnostics.filter (·.span.start = start)).Pairwise
        fun a b => decide (a.span.start ≤ b.span.start) = true := by
      apply List.pairwise_of_forall_mem_list
      intro a first b second
      simp only [List.mem_filter, decide_eq_true_eq] at first second ⊢
      omega
    have kept : (diagnostics.filter (·.span.start = start)).Sublist (sorted diagnostics) :=
      List.sublist_mergeSort transitive total together List.filter_sublist
    have chosen := kept.filter (·.span.start = start)
    rw [List.filter_filter] at chosen
    simp only [Bool.and_self] at chosen
    exact (chosen.eq_of_length (perm.filter _).length_eq.symm).symm

end Diagnostic

theorem Finding.shows_ofDiagnostic {source token : Text} {diagnostic : Diagnostic}
    (stands : source.Stands token diagnostic.span) :
    Shows source diagnostic (ofDiagnostic (.ofText source) diagnostic) where
  code := rfl
  message := rfl
  start narrow := LineTable.offset_place narrow stands.boundary_start
  stop narrow := LineTable.offset_place narrow stands.boundary_stop

/-- An analysis makes every remark where its token stands, and an editor gets each
diagnostic, ordered by where it starts, with places that lead back to its span. -/
theorem Finding.collect_exact {limits : Limits} {source : Text}
    (short : source.length ≤ limits.maxChars) (inTime : limits.overBudget = false) :
    List.Forall₂ (Diagnostic.Makes source (Token.texts source false))
        (Remark.ofTokens (Token.texts source false)) (Diagnostic.analyze limits source) ∧
      ∃ ordered, Diagnostic.Ordered (Diagnostic.analyze limits source) ordered ∧
        List.Forall₂ (Shows source) ordered (collect limits source) := by
  have sorted := Diagnostic.ordered_sorted (Diagnostic.analyze limits source)
  refine ⟨Diagnostic.makes_analyze short inTime, _, sorted, ?_⟩
  rw [collect, List.forall₂_map_right_iff, List.forall₂_same]
  intro diagnostic member
  obtain ⟨token, stands⟩ := Diagnostic.stands_of_mem_analyze short inTime diagnostic
    (sorted.perm.mem_iff.mp member)
  exact shows_ofDiagnostic stands

/-- The first definition is marked in the comment, where its name is found. -/
theorem Finding.collect_commented :
    let source := "(* a *) a = b , 'ä𝄞' ;\na )".toList
    (source.length ≤ ({} : Limits).maxChars ∧ ({} : Limits).overBudget = false) ∧
      Text.Narrow source ∧
      List.Forall₂ (Diagnostic.Makes source (Token.texts source false))
        [⟨7, [')'], .syntaxError, "syntax error: unexpected token ')'"⟩,
          ⟨2, ['b'], .undefinedSymbol, "undefined symbol: 'b'"⟩,
          ⟨0, ['a'], .definition, "definition: 'a'"⟩, ⟨6, ['a'], .definition, "definition: 'a'"⟩]
        (Diagnostic.analyze {} source) ∧
      (collect {} source).length = 4 := by
  have short : "(* a *) a = b , 'ä𝄞' ;\na )".toList.length ≤ ({} : Limits).maxChars := by decide
  have inTime : ({} : Limits).overBudget = false := by decide
  have narrow : Text.Narrow "(* a *) a = b , 'ä𝄞' ;\na )".toList :=
    Text.narrow_of_length (by decide)
  have remarks : Remark.ofTokens (Token.texts "(* a *) a = b , 'ä𝄞' ;\na )".toList false) =
      [⟨7, [')'], .syntaxError, "syntax error: unexpected token ')'"⟩,
        ⟨2, ['b'], .undefinedSymbol, "undefined symbol: 'b'"⟩,
        ⟨0, ['a'], .definition, "definition: 'a'"⟩,
        ⟨6, ['a'], .definition, "definition: 'a'"⟩] := by
    cbv
  obtain ⟨makes, ordered, sorted, shows⟩ := collect_exact short inTime
  rw [remarks] at makes
  refine ⟨⟨short, inTime⟩, narrow, makes, ?_⟩
  rw [← shows.length_eq, sorted.perm.length_eq, ← makes.length_eq]
  rfl

end GrammarDesk
