import GrammarDesk.Proofs.Sample.Compiled
import GrammarDesk.Proofs.Token.Lexemes

/-! Kinds told again. The text of a token alone tells its kind, whatever lexeme or stray
text it is, and still does when a literal has lost its blank characters. -/
namespace GrammarDesk

namespace Kind

variable {c quote : Char} {cs text : Text} {kind : Kind}

theorem ne_literal_of_ofSymbol? (symbol : ofSymbol? c = some kind) : kind ≠ .literal := by
  rintro rfl
  unfold ofSymbol? at symbol
  split at symbol <;> cases symbol

theorem classify_of_ofSymbol? (symbol : ofSymbol? c = some kind) : classify [c] = kind := by
  simp only [classify, symbol]

/-- What is no single symbol is told by its first character, its last and all others. -/
theorem classify_cons (other : cs ≠ [] ∨ ofSymbol? c = none) : classify (c :: cs) =
    if isQuote c && cs.getLast? == some c then literal
    else if c == '?' && cs.getLast? == some '?' then special
    else if (c :: cs).all Char.isDigit then integer
    else if startsName c && cs.all continuesName then name
    else invalid := by
  unfold classify
  dsimp only
  split
  · rename_i symbol
    simp [symbol] at other
  · rfl

theorem classify_literal (quotes : isQuote quote = true) (inner : Text) :
    classify (quote :: (inner ++ [quote])) = .literal := by
  rw [classify_cons (.inl (by simp))]
  simp [quotes]

theorem exists_of_classify_literal (literal : classify text = .literal) :
    ∃ quote inner, isQuote quote = true ∧ text = quote :: (inner ++ [quote]) := by
  cases text with
  | nil => cases literal
  | cons c cs =>
    by_cases alone : cs ≠ [] ∨ ofSymbol? c = none
    · rw [classify_cons alone] at literal
      split at literal
      · rename_i quoted
        simp only [Bool.and_eq_true, beq_iff_eq] at quoted
        obtain ⟨inner, rfl⟩ := List.getLast?_eq_some_iff.mp quoted.2
        exact ⟨c, inner, quoted.1, rfl⟩
      split at literal
      · cases literal
      split at literal
      · cases literal
      split at literal <;> cases literal
    · rw [not_or, not_not] at alone
      obtain ⟨rfl, symbol⟩ := alone
      obtain ⟨kind, symbol⟩ := Option.ne_none_iff_exists'.mp symbol
      rw [classify_of_ofSymbol? symbol] at literal
      exact absurd literal (ne_literal_of_ofSymbol? symbol)

end Kind

namespace Token

variable {kind : Kind} {text source : Text} {token : Token}

theorem Lexeme.classify (lexeme : Lexeme (some kind) text) : Kind.classify text = kind := by
  cases lexeme with
  | @name first others name all =>
    have quote := Kind.isQuote_of_class name rfl rfl
    have question : first ≠ '?' := Kind.ne_of_class name rfl
    rw [Kind.classify_cons (.inr (Kind.ofSymbol?_of_class name rfl))]
    simpa [quote, question, name, isDigit_of_startsName name] using all
  | @integer digits some_chars all =>
    obtain ⟨first, others, rfl⟩ := List.exists_cons_of_ne_nil some_chars
    have digit := all first List.mem_cons_self
    have quote := Kind.isQuote_of_class digit rfl rfl
    have question : first ≠ '?' := Kind.ne_of_class digit rfl
    rw [Kind.classify_cons (.inr (Kind.ofSymbol?_of_class digit rfl))]
    simp [quote, question, List.all_eq_true.mpr all]
  | literal quote apart => exact Kind.classify_literal quote _
  | special apart =>
    rw [Kind.classify_cons (.inr rfl)]
    simp [Kind.isQuote]
  | symbol symbol => exact Kind.classify_of_ofSymbol? symbol

theorem ofSymbol?_of_unknown {c : Char}
    (unknown : ∀ kind lexeme, Lexeme kind lexeme → lexeme.head? ≠ some c) :
    Kind.ofSymbol? c = none :=
  Option.eq_none_iff_forall_ne_some.mpr fun _ symbol => unknown _ _ (.symbol symbol) rfl

theorem lone_of_unknown {c : Char}
    (unknown : ∀ kind lexeme, Lexeme kind lexeme → lexeme.head? ≠ some c) : Lone c where
  shown := Bool.eq_false_iff.mpr fun layout =>
    unknown _ _ (.layout (List.cons_ne_nil c []) (by simpa using layout)) rfl
  unnamed := Bool.eq_false_iff.mpr fun name =>
    unknown _ _ (.name name (List.forall_mem_nil _)) rfl
  digitless := Bool.eq_false_iff.mpr fun digit =>
    unknown _ _ (.integer (List.cons_ne_nil c []) (by simpa using digit)) rfl
  unquoted := Bool.eq_false_iff.mpr fun quote => unknown _ _ (.literal quote List.not_mem_nil) rfl
  question same := unknown _ _ (.special List.not_mem_nil) (congrArg some same.symm)

theorem classify_unknown {c : Char}
    (unknown : ∀ kind lexeme, Lexeme kind lexeme → lexeme.head? ≠ some c) :
    Kind.classify [c] = .invalid := by
  have lone := lone_of_unknown unknown
  rw [Kind.classify_cons (.inr (ofSymbol?_of_unknown unknown))]
  simp [lone.digitless, lone.unnamed]

theorem classify_unclosed {c : Char} {rest : Text} (delimiter : Kind.isQuote c = true ∨ c = '?')
    (apart : c ∉ rest) : Kind.classify (c :: rest) = .invalid := by
  have last : rest.getLast? ≠ some c := fun last => apart (List.mem_of_getLast? last)
  obtain rfl | rfl | rfl : c = '"' ∨ c = '\'' ∨ c = '?' := by
    simpa [Kind.isQuote, or_assoc] using delimiter
  all_goals
    rw [Kind.classify_cons (.inr rfl)]
    simp [Kind.isQuote, Kind.startsName, last]

theorem Stray.classify (stray : Stray text source) : Kind.classify text = .invalid := by
  cases stray with
  | unknown unknown => exact classify_unknown unknown
  | unclosed delimiter apart => exact classify_unclosed delimiter apart

theorem Reads.classify (reads : Reads kind text source) : Kind.classify text = kind := by
  cases reads with
  | lexeme longest => exact longest.lexeme.classify
  | stray stray => exact stray.classify

theorem classify_of_cuts {offset : Nat} {tokens : List Token} (cuts : Cuts offset source tokens) :
    ∀ token ∈ tokens, Kind.classify token.text = token.kind := by
  induction cuts with
  | done => exact List.forall_mem_nil _
  | token _ reads _ ih => exact List.forall_mem_cons.mpr ⟨reads.classify, ih⟩

end Token

/-! Literals that lose their blank characters. -/

namespace Text

def unblank (text : Text) : Text := text.filter (!blank ·)

/-- A literal without its blank characters; other texts stay. -/
def squeeze (text : Text) : Text :=
  if Kind.classify text = .literal then text.unblank else text

variable {text : Text}

theorem unblank_quoted {quote : Char} (quotes : Kind.isQuote quote = true) (inner : Text) :
    unblank (quote :: (inner ++ [quote])) = quote :: (unblank inner ++ [quote]) := by
  have shown : blank quote = false := Bool.eq_false_iff.mpr fun blank =>
    Bool.false_ne_true ((isQuote_of_blank blank).symm.trans quotes)
  simp [unblank, shown]

theorem squeeze_of_ne (other : Kind.classify text ≠ .literal) : squeeze text = text :=
  if_neg other

theorem classify_squeeze (text : Text) : Kind.classify (squeeze text) = Kind.classify text := by
  by_cases literal : Kind.classify text = .literal
  · obtain ⟨quote, inner, quotes, rfl⟩ := Kind.exists_of_classify_literal literal
    rw [squeeze, if_pos literal, unblank_quoted quotes, Kind.classify_literal quotes, literal]
  · rw [squeeze_of_ne literal]

theorem unquote_squeeze (literal : Kind.classify text = .literal) :
    unquote (squeeze text) = unblank (unquote text) := by
  obtain ⟨quote, inner, quotes, rfl⟩ := Kind.exists_of_classify_literal literal
  rw [squeeze, if_pos literal, unblank_quoted quotes]
  simp [unquote]

end Text

namespace Token

variable {token : Token} {source : Text}

/-- The tokens of a grammar text, literals squeezed if asked. -/
def tokens (source : Text) (squeezed : Bool) : List Token :=
  (lex source).map fun token => if squeezed then squeeze token else token

theorem kind_squeeze (token : Token) : (squeeze token).kind = token.kind := by
  unfold squeeze
  split <;> rfl

theorem text_squeeze (told : Kind.classify token.text = token.kind) :
    (squeeze token).text = token.text.squeeze := by
  unfold squeeze Text.squeeze
  rw [told]
  split <;> rfl

theorem classify_of_mem_tokens (source : Text) (squeezed : Bool) :
    ∀ token ∈ tokens source squeezed, Kind.classify token.text = token.kind := by
  have told := classify_of_cuts (cuts_lexFrom 0 source)
  refine List.forall_mem_map.mpr fun token member => ?_
  cases squeezed with
  | false => exact told token member
  | true =>
    rw [if_pos rfl, text_squeeze (told token member), Text.classify_squeeze, kind_squeeze,
      told token member]

theorem classify_texts (source : Text) (squeezed : Bool) :
    (texts source squeezed).map Kind.classify = (lex source).map kind := by
  have told : (tokens source squeezed).map (fun token => Kind.classify token.text) =
      (tokens source squeezed).map kind :=
    List.map_congr_left (classify_of_mem_tokens source squeezed)
  rw [texts, List.map_map]
  refine told.trans ?_
  rw [tokens, List.map_map]
  refine List.map_congr_left fun token _ => ?_
  cases squeezed with
  | false => rfl
  | true => exact kind_squeeze token

theorem texts_squeezed (source : Text) :
    texts source true = (texts source false).map Text.squeeze := by
  have told := classify_of_cuts (cuts_lexFrom 0 source)
  simp only [texts, Bool.false_eq_true, if_false, if_true, List.map_map, List.map_id']
  exact List.map_congr_left fun token member => text_squeeze (told token member)

end Token
end GrammarDesk
