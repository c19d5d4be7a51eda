import GrammarDesk.Proofs.Token.Front
import GrammarDesk.Sample.Parser
import Mathlib

/-! A grammar text of nothing but white space does not compile: what of it is
not layout stops the reader at once. -/
namespace GrammarDesk

namespace Text

variable {c : Char}

theorem toNat_of_blank (blank : Text.blank c = true) : c.toNat ≤ 0x20 ∨ 0x85 ≤ c.toNat := by
  simp only [Text.blank, blankRanges, List.any_cons, List.any_nil, Bool.or_false, Bool.or_eq_true,
    Bool.and_eq_true, decide_eq_true_eq] at blank
  omega

theorem isDigit_of_blank (blank : Text.blank c = true) : c.isDigit = false :=
  Bool.eq_false_iff.mpr fun digit => by
    have := toNat_of_blank blank
    have := Token.toNat_of_isDigit digit
    omega

theorem startsName_of_blank (blank : Text.blank c = true) : Kind.startsName c = false :=
  Bool.eq_false_iff.mpr fun name => by
    have := toNat_of_blank blank
    have := Token.toNat_of_startsName name
    omega

theorem isQuote_of_blank (blank : Text.blank c = true) : Kind.isQuote c = false :=
  Kind.isQuote_of_class blank rfl rfl

theorem ofSymbol?_of_blank (blank : Text.blank c = true) : Kind.ofSymbol? c = none :=
  Kind.ofSymbol?_of_class blank rfl

theorem classify_of_blank (blank : Text.blank c = true) : Kind.classify [c] = .invalid := by
  simp [Kind.classify, ofSymbol?_of_blank blank, isQuote_of_blank blank, isDigit_of_blank blank,
    startsName_of_blank blank]

end Text

namespace Token

theorem front_of_blank {c : Char} {cs : Text} (blank : Text.blank c = true)
    (shown : isLayout c = false) : front c cs = ⟨some .invalid, [], cs⟩ := by
  have question : c ≠ '?' := Kind.ne_of_class blank rfl
  have paren : c ≠ '(' := Kind.ne_of_class blank rfl
  rw [front_symbol ⟨shown, Text.startsName_of_blank blank, Text.isDigit_of_blank blank,
    Text.isQuote_of_blank blank, question⟩ fun _ open' => absurd open' paren, symbol,
    Text.ofSymbol?_of_blank blank]
  rfl

theorem classify_of_mem_lexFrom {source : Text} (offset : Nat) (blank : source.isBlank = true) :
    ∀ token ∈ lexFrom offset source, Kind.classify token.text = .invalid := by
  fun_induction lexFrom offset source with
  | case1 => simp
  | case2 offset c cs next text stop kind shown ih =>
    obtain ⟨first, rest⟩ : Text.blank c = true ∧ Text.isBlank cs = true := by
      simpa [Text.isBlank] using blank
    have hidden : isLayout c = false := isLayout_of_kind shown
    have taken : front c cs = ⟨some .invalid, [], cs⟩ := front_of_blank first hidden
    simp only [List.forall_mem_cons, text, next, taken] at ih ⊢
    exact ⟨Text.classify_of_blank first, ih rest⟩
  | case3 offset c cs next text stop hidden ih =>
    refine ih ?_
    have whole := front_append c cs
    have rest : Text.isBlank ((front c cs).taken ++ (front c cs).rest) = true := by
      rw [whole]
      exact (Bool.and_eq_true_iff.mp (List.all_cons.symm.trans blank)).2
    simp only [Text.isBlank, List.all_append, Bool.and_eq_true] at rest
    exact rest.2

end Token

theorem GrammarParser.isBlank_of_ofText_eq_ok {source : Text} {parser : GrammarParser}
    (compiles : GrammarParser.ofText source = .ok parser) : source.isBlank = false := by
  refine Bool.eq_false_iff.mpr fun blank => ?_
  have stray : ∀ text ∈ Token.texts source false, Kind.classify text = .invalid := by
    simpa [Token.texts, Token.lex] using Token.classify_of_mem_lexFrom 0 blank
  unfold GrammarParser.ofText GrammarParser.ofTokens at compiles
  cases tokens : Token.texts source false with
  | nil =>
    rw [tokens] at compiles
    cases compiles
  | cons first others =>
    rw [tokens] at compiles stray
    have refused : (Reading.ofTokens (first :: others)).outcome = .haltedAt 0 := by
      simp [Reading.ofTokens, Reading.readFrom, ReaderState.advance, stray first]
    simp only [refused] at compiles
    cases compiles

end GrammarDesk
