import GrammarDesk.Token.Lexer
import Mathlib

/-! The front of a text, told by its first character: the classes of characters lie apart,
so that each branch of the lexer has its own. -/
namespace GrammarDesk

namespace Kind

variable {c d : Char} {p : Char → Bool} {kind : Kind}

def symbols : List Char :=
  ['=', ',', '|', ';', '.', '-', '*', '+', '\x7b', '\x7d', '[', ']', '(', ')']

theorem mem_symbols (symbol : ofSymbol? c = some kind) : c ∈ symbols := by
  unfold ofSymbol? at symbol
  split at symbol <;> first | decide | cases symbol

theorem ne_of_class (holds : p c = true) (apart : p d = false) : c ≠ d := by
  rintro rfl
  exact Bool.false_ne_true (apart.symm.trans holds)

theorem isQuote_of_class (holds : p c = true) (double : p '"' = false) (single : p '\'' = false) :
    isQuote c = false := by
  simp [isQuote, ne_of_class holds double, ne_of_class holds single]

theorem ofSymbol?_of_class (holds : p c = true) (apart : symbols.any p = false) :
    ofSymbol? c = none :=
  Option.eq_none_iff_forall_ne_some.mpr fun _ symbol =>
    List.any_eq_false.mp apart c (mem_symbols symbol) holds

end Kind

namespace Token

variable {c : Char} {cs : Text} {kind : Kind}

theorem toNat_of_startsName (name : Kind.startsName c = true) :
    65 ≤ c.toNat ∧ c.toNat ≤ 90 ∨ 97 ≤ c.toNat ∧ c.toNat ≤ 122 ∨ c.toNat = 95 := by
  simp only [Kind.startsName, Char.isAlpha, Char.isUpper, Char.isLower, Bool.or_eq_true,
    Bool.and_eq_true, decide_eq_true_eq, ge_iff_le, UInt32.le_iff_toNat_le, beq_iff_eq] at name
  rcases name with (upper | lower) | rfl
  · exact .inl upper
  · exact .inr (.inl lower)
  · exact .inr (.inr rfl)

theorem toNat_of_isDigit (digit : c.isDigit = true) : 48 ≤ c.toNat ∧ c.toNat ≤ 57 := by
  simp only [Char.isDigit, Bool.and_eq_true, decide_eq_true_eq, ge_iff_le,
    UInt32.le_iff_toNat_le] at digit
  exact digit

theorem toNat_of_isLayout (layout : isLayout c = true) : c.toNat ≤ 32 := by
  simp only [isLayout, Bool.or_eq_true, beq_iff_eq] at layout
  rcases layout with (((rfl | rfl) | rfl) | rfl) | rfl <;> decide

theorem isLayout_of_lt (visible : 32 < c.toNat) : isLayout c = false :=
  Bool.eq_false_iff.mpr fun layout => Nat.not_le.mpr visible (toNat_of_isLayout layout)

theorem isDigit_of_startsName (name : Kind.startsName c = true) : c.isDigit = false :=
  Bool.eq_false_iff.mpr fun digit => by
    have := toNat_of_startsName name
    have := toNat_of_isDigit digit
    omega

theorem startsName_of_isDigit (digit : c.isDigit = true) : Kind.startsName c = false :=
  Bool.eq_false_iff.mpr fun name =>
    Bool.false_ne_true ((isDigit_of_startsName name).symm.trans digit)

theorem front_layout (layout : isLayout c = true) (cs : Text) :
    front c cs = run none isLayout cs := by
  unfold front
  rw [if_pos layout]

theorem front_of_startsName (name : Kind.startsName c = true) (cs : Text) :
    front c cs = run (some .name) Kind.continuesName cs := by
  have bounds := toNat_of_startsName name
  have shown : isLayout c = false := isLayout_of_lt (by omega)
  simp [front, shown, name]

theorem front_of_isDigit (digit : c.isDigit = true) (cs : Text) :
    front c cs = run (some .integer) Char.isDigit cs := by
  have bounds := toNat_of_isDigit digit
  have shown : isLayout c = false := isLayout_of_lt (by omega)
  simp [front, shown, startsName_of_isDigit digit, digit]

theorem front_of_isQuote (quote : Kind.isQuote c = true) (cs : Text) :
    front c cs = quoted .literal c cs := by
  obtain rfl | rfl : c = '"' ∨ c = '\'' := by simpa [Kind.isQuote] using quote
  · rfl
  · rfl

theorem front_question (cs : Text) : front '?' cs = quoted .special '?' cs := rfl

theorem front_comment (inner : Text) : front '(' ('*' :: inner) =
    ⟨none, '*' :: (cutComment inner).1, (cutComment inner).2⟩ := rfl

/-- A character that neither layout nor a lexeme of several characters begins with. -/
structure Lone (c : Char) : Prop where
  shown : isLayout c = false
  unnamed : Kind.startsName c = false
  digitless : c.isDigit = false
  unquoted : Kind.isQuote c = false
  question : c ≠ '?'

theorem front_symbol (lone : Lone c)
    (open' : ∀ inner, c = '(' → cs = '*' :: inner → False) : front c cs = symbol c cs := by
  obtain ⟨shown, unnamed, digitless, unquoted, question⟩ := lone
  unfold front
  rw [if_neg (by simp [shown]), if_neg (by simp [unnamed]), if_neg (by simp [digitless]),
    if_neg (by simp [unquoted]), if_neg question]
  split
  · exact absurd rfl (open' _ rfl)
  · rfl

theorem isLayout_of_kind (lexed : (front c cs).kind = some kind) : isLayout c = false := by
  cases layout : isLayout c with
  | false => rfl
  | true =>
    rw [front_layout layout] at lexed
    cases lexed

theorem comment_of_kind (shown : isLayout c = false) (passed : (front c cs).kind = none) :
    c = '(' ∧ ∃ inner, cs = '*' :: inner := by
  have quoted_kind (kind : Kind) (close : Char) : (quoted kind close cs).kind ≠ none := by
    unfold quoted
    split <;> simp
  unfold front at passed
  rw [if_neg (by simp [shown])] at passed
  split at passed
  · cases passed
  split at passed
  · cases passed
  split at passed
  · exact absurd passed (quoted_kind _ _)
  split at passed
  · exact absurd passed (quoted_kind _ _)
  split at passed
  · exact ⟨rfl, _, rfl⟩
  · cases passed

end Token
end GrammarDesk
