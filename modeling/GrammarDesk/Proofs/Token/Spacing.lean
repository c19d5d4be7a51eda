import GrammarDesk.Proofs.Token.Kinds

/-! Tokens set apart by single spaces. Each of them is read again as it was, for a space
ends whatever can be ended, and what is never closed comes last. So a text and its tokens
with a space between neighbours have the same tokens. -/
namespace GrammarDesk.Token

/-- What stands behind a token that is set apart. -/
def Apart (behind : Text) : Prop := ∀ c ∈ behind.head?, c = ' '

variable {c : Char} {others text behind rest source : Text} {kind : Kind} {offset : Nat}
  {tokens : List Token}

theorem run_apart {p : Char → Bool} (all : ∀ d ∈ others, p d = true) (space : p ' ' = false)
    (apart : Apart behind) (kind : Option Kind) :
    run kind p (others ++ behind) = ⟨kind, others, behind⟩ := by
  rw [run, List.takeWhile_append_of_pos all, List.dropWhile_append_of_pos all]
  cases behind with
  | nil => simp
  | cons d behind =>
    obtain rfl : d = ' ' := apart d rfl
    simp [space]

theorem quoted_closed {quote : Char} {inner : Text} (apart : quote ∉ inner) (behind : Text)
    (kind : Kind) :
    quoted kind quote (inner ++ [quote] ++ behind) = ⟨some kind, inner ++ [quote], behind⟩ := by
  rw [quoted, List.append_assoc, List.singleton_append, cutAfter?_close apart]

theorem quoted_unclosed {quote : Char} (apart : quote ∉ others) (kind : Kind) :
    quoted kind quote others = ⟨some .invalid, others, []⟩ := by
  cases cut : cutAfter? quote others with
  | none => rw [quoted, cut]
  | some parts =>
    obtain ⟨inner, -, closed⟩ := exists_inner_of_cutAfter? cut
    have whole := cutAfter?_append cut
    exact absurd (by simp [← whole, closed]) apart

theorem Lone.front (lone : Lone c) (apart : Apart behind) : front c behind = symbol c behind := by
  refine front_symbol lone fun inner _ star => ?_
  subst star
  exact absurd (apart '*' rfl) (by decide)

theorem lone_of_ofSymbol? (symbol : Kind.ofSymbol? c = some kind) : Lone c := by
  have outside {p : Char → Bool} (apart : Kind.symbols.any p = false) : p c = false :=
    Bool.eq_false_iff.mpr fun holds =>
      Option.some_ne_none kind (symbol.symm.trans (Kind.ofSymbol?_of_class holds apart))
  refine ⟨outside rfl, outside rfl, outside rfl, outside rfl, ?_⟩
  rintro rfl
  cases symbol

theorem Lexeme.front (lexeme : Lexeme (some kind) (c :: others)) (apart : Apart behind) :
    front c (others ++ behind) = ⟨some kind, others, behind⟩ := by
  cases lexeme with
  | name name all => rw [front_of_startsName name, run_apart all rfl apart]
  | integer some_chars all =>
    obtain ⟨digit, all⟩ := List.forall_mem_cons.mp all
    rw [front_of_isDigit digit, run_apart all rfl apart]
  | literal quote inside => rw [front_of_isQuote quote, quoted_closed inside]
  | special inside => rw [front_question, quoted_closed inside]
  | symbol known =>
    rw [List.nil_append, (lone_of_ofSymbol? known).front apart, Token.symbol, known]
    rfl

theorem Reads.front (reads : Reads kind (c :: others) (c :: others ++ rest))
    (apart : Apart behind) (last : rest = [] → behind = []) :
    front c (others ++ behind) = ⟨some kind, others, behind⟩ := by
  cases reads with
  | lexeme longest => exact longest.lexeme.front apart
  | stray stray =>
    generalize whole : c :: others ++ rest = source at stray
    cases stray with
    | unknown unknown =>
      rw [List.nil_append, (lone_of_unknown unknown).front apart, symbol,
        ofSymbol?_of_unknown unknown]
      rfl
    | unclosed delimiter inside =>
      have nothing : behind = [] := last (List.append_right_eq_self.mp whole)
      subst nothing
      rw [List.append_nil]
      rcases delimiter with quote | rfl
      · rw [front_of_isQuote quote, quoted_unclosed inside]
      · rw [front_question, quoted_unclosed inside]

theorem Reads.ne_nil (reads : Reads kind text source) : text ≠ [] := by
  cases reads with
  | lexeme longest => cases longest.lexeme <;> simp_all
  | stray stray => cases stray <;> simp

def spaced (tokens : List Token) : Text := tokens.flatMap (' ' :: ·.text)

theorem apart_spaced (tokens : List Token) : Apart (spaced tokens) := by
  cases tokens with
  | nil => simp [Apart, spaced]
  | cons token tokens => simp [Apart, spaced]

theorem join_texts (token : Token) (tokens : List Token) :
    Text.join [' '] ((token :: tokens).map Token.text) = token.text ++ spaced tokens := by
  induction tokens generalizing token with
  | nil => simp [Text.join, spaced]
  | cons next tokens ih =>
    have later := ih next
    simp only [Text.join, List.map_cons, List.intersperse_cons_cons, List.flatten_cons] at later ⊢
    rw [later]
    simp [spaced]

theorem Reads.lexFrom (reads : Reads kind text (text ++ rest)) (apart : Apart behind)
    (last : rest = [] → behind = []) (offset : Nat) : lexFrom offset (text ++ behind) =
      ⟨kind, text, ⟨offset, offset + text.width⟩⟩ :: lexFrom (offset + text.width) behind := by
  obtain ⟨c, others, rfl⟩ := List.exists_cons_of_ne_nil reads.ne_nil
  rw [List.cons_append, Token.lexFrom, reads.front apart last]

theorem Reads.lexFrom_space (reads : Reads kind text (text ++ rest)) (apart : Apart behind)
    (last : rest = [] → behind = []) (offset : Nat) :
    Token.lexFrom offset (' ' :: (text ++ behind)) =
      Token.lexFrom (offset + 1) (text ++ behind) := by
  obtain ⟨c, others, rfl⟩ := List.exists_cons_of_ne_nil reads.ne_nil
  have shown : isLayout c = false :=
    isLayout_of_kind (congrArg Front.kind (reads.front apart last))
  have passed : Token.front ' ' (c :: others ++ behind) = ⟨none, [], c :: others ++ behind⟩ := by
    rw [front_layout rfl, run]
    simp [shown]
  conv => lhs; rw [Token.lexFrom, passed]
  rfl

theorem spaced_of_cuts_nil (cuts : Cuts offset rest tokens) (nothing : rest = []) :
    spaced tokens = [] := by
  cases cuts with
  | done => rfl
  | token gap reads later => simp [reads.ne_nil] at nothing

theorem texts_lexFrom_spaced (cuts : Cuts offset source tokens) (start : Nat) :
    (lexFrom start (spaced tokens)).map Token.text = tokens.map Token.text := by
  induction cuts generalizing start with
  | done => simp [spaced, lexFrom]
  | @token _ _ _ rest _ tokens gap reads later ih =>
    have apart := apart_spaced tokens
    have last : rest = [] → spaced tokens = [] := spaced_of_cuts_nil later
    rw [spaced, List.flatMap_cons, List.cons_append, ← spaced, reads.lexFrom_space apart last,
      reads.lexFrom apart last, List.map_cons, List.map_cons, ih]

theorem texts_lexFrom_join (cuts : Cuts offset source tokens) (start : Nat) :
    (lexFrom start (Text.join [' '] (tokens.map Token.text))).map Token.text =
      tokens.map Token.text := by
  cases cuts with
  | done => simp [Text.join, lexFrom]
  | @token _ _ _ rest _ tokens gap reads later =>
    have last : rest = [] → spaced tokens = [] := spaced_of_cuts_nil later
    rw [join_texts, reads.lexFrom (apart_spaced tokens) last, List.map_cons, List.map_cons,
      texts_lexFrom_spaced later]

/-- The tokens of a text with a single space between neighbours, in place of all that
stood around them. -/
def plain (source : Text) : Text := Text.join [' '] (texts source false)

/-- Comments and layout do not matter to what is read: without them, the tokens of a text
are the same, of the same kinds, and whatever is made of tokens is the same. -/
theorem texts_plain (source : Text) :
    texts (plain source) false = texts source false ∧
      (lex (plain source)).map Token.kind = (lex source).map Token.kind ∧
      Reading.ofTokens (texts (plain source) false) = Reading.ofTokens (texts source false) ∧
      GrammarParser.ofText (plain source) = GrammarParser.ofText source := by
  have same : texts (plain source) false = texts source false := by
    rw [texts_eq, plain, texts_eq]
    exact texts_lexFrom_join (cuts_lexFrom 0 source) 0
  refine ⟨same, ?_, congrArg Reading.ofTokens same, congrArg GrammarParser.ofTokens same⟩
  rw [← classify_texts, same, classify_texts]

/-- A comment between two names, an opening in front of a star, and a quote that is never
closed. -/
example : plain "a(*b*)c ( * 'd".toList = "a c ( * 'd".toList := by cbv

end GrammarDesk.Token
