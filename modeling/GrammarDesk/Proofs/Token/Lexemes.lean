import GrammarDesk.Proofs.Analysis.Spans

/-! The token grammar, and how a text is cut into tokens. What stands at a place is the
longest lexeme there; a token is invalid only where no lexeme stands, and between tokens
only layout and comments are passed over. So the tokens and the gaps between them make
up the whole text. -/
namespace GrammarDesk
namespace Token

/-- The token grammar. Layout and the opening of a comment are lexemes too, but become no
tokens. -/
inductive Lexeme : Option Kind → Text → Prop where
  | layout {run : Text} : run ≠ [] → (∀ c ∈ run, isLayout c = true) → Lexeme none run
  | comment : Lexeme none ['(', '*']
  | name {first : Char} {others : Text} : Kind.startsName first = true →
      (∀ c ∈ others, Kind.continuesName c = true) → Lexeme (some .name) (first :: others)
  | integer {digits : Text} : digits ≠ [] → (∀ c ∈ digits, c.isDigit = true) →
      Lexeme (some .integer) digits
  | literal {quote : Char} {inner : Text} : Kind.isQuote quote = true → quote ∉ inner →
      Lexeme (some .literal) (quote :: (inner ++ [quote]))
  | special {inner : Text} : '?' ∉ inner → Lexeme (some .special) ('?' :: (inner ++ ['?']))
  | symbol {c : Char} {kind : Kind} : Kind.ofSymbol? c = some kind → Lexeme (some kind) [c]

/-- The longest lexeme that a text begins with. -/
structure Longest (kind : Option Kind) (text source : Text) : Prop where
  lexeme : Lexeme kind text
  begins : text <+: source
  longest : ∀ kind' other, Lexeme kind' other → other <+: source → other.length ≤ text.length

/-- Where no lexeme stands: a character that none begins with, or all that follows a
delimiter that is never closed. -/
inductive Stray : Text → Text → Prop where
  | unknown {c : Char} {rest : Text} :
      (∀ kind lexeme, Lexeme kind lexeme → lexeme.head? ≠ some c) → Stray [c] (c :: rest)
  | unclosed {c : Char} {rest : Text} : Kind.isQuote c = true ∨ c = '?' → c ∉ rest →
      Stray (c :: rest) (c :: rest)

/-- What makes a token at the front of a text. -/
inductive Reads : Kind → Text → Text → Prop where
  | lexeme {kind : Kind} {text source : Text} : Longest (some kind) text source →
      Reads kind text source
  | stray {text source : Text} : Stray text source → Reads .invalid text source

/-- One piece that is passed over, and what follows it. A comment ends with the first
`*)` behind its opening; without one it runs to the end. -/
inductive Skipped : Text → Text → Prop where
  | layout {run rest : Text} : run ≠ [] → (∀ c ∈ run, isLayout c = true) → Skipped run rest
  | comment {inner rest : Text} : ¬ ['*', ')'] <:+: inner →
      Skipped ('(' :: '*' :: (inner ++ ['*', ')'])) rest
  | unclosed {inner : Text} : ¬ ['*', ')'] <:+: inner → Skipped ('(' :: '*' :: inner) []

/-- Pieces that are passed over, one behind the other, and what follows them. -/
inductive Gap : Text → Text → Prop where
  | nil {rest : Text} : Gap [] rest
  | cons {piece gap rest : Text} : Skipped piece (gap ++ rest) → Gap gap rest →
      Gap (piece ++ gap) rest

/-- A text at byte `offset`, cut into tokens with gaps before, between and behind them. -/
inductive Cuts : Nat → Text → List Token → Prop where
  | done {offset : Nat} {gap : Text} : Gap gap [] → Cuts offset gap []
  | token {offset : Nat} {gap text rest : Text} {kind : Kind} {tokens : List Token} :
      Gap gap (text ++ rest) → Reads kind text (text ++ rest) →
      Cuts (offset + gap.width + text.width) rest tokens →
      Cuts offset (gap ++ (text ++ rest))
        (⟨kind, text, ⟨offset + gap.width, offset + gap.width + text.width⟩⟩ :: tokens)

section

variable {close : Char} {s taken rest inner : Text}

theorem cutAfter?_close (apart : close ∉ inner) (rest : Text) :
    cutAfter? close (inner ++ close :: rest) = some (inner ++ [close], rest) := by
  induction inner with
  | nil => simp [cutAfter?]
  | cons c inner ih =>
    simp only [List.mem_cons, not_or] at apart
    rw [List.cons_append, cutAfter?, if_neg (Ne.symm apart.1), ih apart.2]
    rfl

theorem exists_inner_of_cutAfter? (cut : cutAfter? close s = some (taken, rest)) :
    ∃ inner, close ∉ inner ∧ taken = inner ++ [close] := by
  induction s generalizing taken with
  | nil => cases cut
  | cons c s ih =>
    rw [cutAfter?] at cut
    split at cut
    · rename_i closes
      cases cut
      exact ⟨[], List.not_mem_nil, by rw [closes]; rfl⟩
    · rename_i other
      obtain ⟨⟨front, back⟩, later, same⟩ := Option.map_eq_some_iff.mp cut
      cases same
      obtain ⟨inner, apart, rfl⟩ := ih later
      exact ⟨c :: inner, by simp [apart, Ne.symm other], rfl⟩

theorem not_mem_of_cutAfter? (cut : cutAfter? close s = none) : close ∉ s := by
  induction s with
  | nil => exact List.not_mem_nil
  | cons c s ih =>
    rw [cutAfter?] at cut
    split at cut
    · cases cut
    · rename_i other
      simp [Ne.symm other, ih (Option.map_eq_none_iff.mp cut)]

theorem not_closed_cons {c : Char} (open' : ¬ ['*', ')'] <:+: inner)
    (apart : ∀ rest, c = '*' → inner = ')' :: rest → False) : ¬ ['*', ')'] <:+: c :: inner := by
  rw [List.infix_cons_iff, not_or]
  refine ⟨?_, open'⟩
  rintro ⟨rest, split⟩
  injection split with star others
  exact apart rest star.symm others.symm

theorem cutComment_cases (s : Text) :
    (∃ inner, ¬ ['*', ')'] <:+: inner ∧ (cutComment s).1 = inner ++ ['*', ')']) ∨
      ¬ ['*', ')'] <:+: s ∧ cutComment s = (s, []) := by
  fun_induction cutComment s with
  | case1 => exact .inr ⟨by simp, rfl⟩
  | case2 cs => exact .inl ⟨[], by simp, rfl⟩
  | case3 c cs apart taken rest cut ih =>
    have whole := cutComment_append cs
    rw [cut] at ih whole
    obtain ⟨inner, open', closed⟩ | ⟨open', same⟩ := ih
    · refine .inl ⟨c :: inner, not_closed_cons open' fun behind star paren => ?_, ?_⟩
      · dsimp only at closed
        rw [closed, paren] at whole
        exact apart _ star whole.symm
      · exact congrArg (c :: ·) closed
    · cases same
      exact .inr ⟨not_closed_cons open' fun rest star paren => apart rest star paren, rfl⟩

end

/-! What the lexer takes is a lexeme, and none that stands there is longer. -/

section

variable {c : Char} {cs : Text} {kind : Kind}

theorem length_le_takeWhile {p : Char → Bool} {others s : Text} (all : ∀ d ∈ others, p d = true)
    (begins : others <+: s) : others.length ≤ (s.takeWhile p).length := by
  obtain ⟨rest, rfl⟩ := begins
  rw [List.takeWhile_append_of_pos all]
  exact (List.prefix_append others _).length_le

/-- No lexeme that a text begins with goes further than the lexer does. -/
theorem Lexeme.length_le {kind : Option Kind} {other : Text} (lexeme : Lexeme kind other)
    (begins : other <+: c :: cs) : other.length ≤ (c :: (front c cs).taken).length := by
  cases lexeme with
  | @layout run some_chars all =>
    obtain ⟨first, others, rfl⟩ := List.exists_cons_of_ne_nil some_chars
    obtain ⟨rfl, behind⟩ := List.cons_prefix_cons.mp begins
    obtain ⟨layout, all⟩ := List.forall_mem_cons.mp all
    rw [front_layout layout]
    exact Nat.succ_le_succ (length_le_takeWhile all behind)
  | comment =>
    obtain ⟨rfl, behind⟩ := List.cons_prefix_cons.mp begins
    obtain ⟨inner, rfl⟩ := behind
    rw [List.singleton_append, front_comment]
    simp
  | name name all =>
    obtain ⟨rfl, behind⟩ := List.cons_prefix_cons.mp begins
    rw [front_of_startsName name]
    exact Nat.succ_le_succ (length_le_takeWhile all behind)
  | integer some_chars all =>
    obtain ⟨first, others, rfl⟩ := List.exists_cons_of_ne_nil some_chars
    obtain ⟨rfl, behind⟩ := List.cons_prefix_cons.mp begins
    obtain ⟨digit, all⟩ := List.forall_mem_cons.mp all
    rw [front_of_isDigit digit]
    exact Nat.succ_le_succ (length_le_takeWhile all behind)
  | literal quote apart =>
    obtain ⟨rfl, rest, rfl⟩ := List.cons_prefix_cons.mp begins
    rw [front_of_isQuote quote, quoted, List.append_assoc, List.singleton_append,
      cutAfter?_close apart]
  | special apart =>
    obtain ⟨rfl, rest, rfl⟩ := List.cons_prefix_cons.mp begins
    rw [front_question, quoted, List.append_assoc, List.singleton_append, cutAfter?_close apart]
  | symbol symbol => simp

theorem front_prefix (c : Char) (cs : Text) : c :: (front c cs).taken <+: c :: cs :=
  ⟨(front c cs).rest, congrArg (c :: ·) (front_append c cs)⟩

theorem Longest.of_lexeme (lexeme : Lexeme (some kind) (c :: (front c cs).taken)) :
    Longest (some kind) (c :: (front c cs).taken) (c :: cs) :=
  ⟨lexeme, front_prefix c cs, fun _ _ other begins => other.length_le begins⟩

theorem reads_quoted {quotes : Kind} (delimiter : Kind.isQuote c = true ∨ c = '?')
    (taken : front c cs = quoted quotes c cs)
    (closed : ∀ inner, c ∉ inner → Lexeme (some quotes) (c :: (inner ++ [c])))
    (lexed : (front c cs).kind = some kind) : Reads kind (c :: (front c cs).taken) (c :: cs) := by
  rw [taken] at lexed
  cases cut : cutAfter? c cs with
  | some parts =>
    obtain ⟨inner, apart, within⟩ := exists_inner_of_cutAfter? cut
    simp only [quoted, cut, Option.some.injEq] at lexed
    subst lexed
    have whole : (front c cs).taken = inner ++ [c] := by
      rw [taken, quoted, cut]
      exact within
    refine .lexeme (.of_lexeme ?_)
    rw [whole]
    exact closed inner apart
  | none =>
    simp only [quoted, cut, Option.some.injEq] at lexed
    subst lexed
    have whole : (front c cs).taken = cs := by rw [taken, quoted, cut]
    rw [whole]
    exact .stray (.unclosed delimiter (not_mem_of_cutAfter? cut))

theorem reads_symbol (taken : front c cs = symbol c cs) (lone : Lone c)
    (lexed : (front c cs).kind = some kind) :
    Reads kind (c :: (front c cs).taken) (c :: cs) := by
  have alone : c :: (front c cs).taken = [c] := by rw [taken, symbol]
  rw [taken, symbol, Option.some.injEq] at lexed
  cases found : Kind.ofSymbol? c with
  | some symbol =>
    rw [found, Option.getD_some] at lexed
    subst lexed
    refine .lexeme (.of_lexeme ?_)
    rw [alone]
    exact .symbol found
  | none =>
    rw [found, Option.getD_none] at lexed
    subst lexed
    rw [alone]
    obtain ⟨shown, unnamed, digitless, unquoted, question⟩ := lone
    -- Each kind of lexeme begins with a character of some class, and this one is in none.
    refine .stray (.unknown fun kind lexeme stands first => ?_)
    cases stands with
    | layout some_chars all =>
      have layout := all c (List.mem_of_head? first)
      simp [shown] at layout
    | integer some_chars all =>
      have digit := all c (List.mem_of_head? first)
      simp [digitless] at digit
    | comment =>
      cases first
      cases found
    | name name all =>
      cases first
      simp [unnamed] at name
    | literal quote apart =>
      cases first
      simp [unquoted] at quote
    | special apart =>
      cases first
      exact question rfl
    | symbol symbol =>
      cases first
      simp [found] at symbol

theorem reads_front (lexed : (front c cs).kind = some kind) :
    Reads kind (c :: (front c cs).taken) (c :: cs) := by
  have shown := isLayout_of_kind lexed
  by_cases name : Kind.startsName c = true
  · have taken := front_of_startsName name cs
    rw [taken] at lexed
    cases lexed
    refine .lexeme (.of_lexeme ?_)
    rw [taken]
    exact .name name (List.all_eq_true.mp List.all_takeWhile)
  by_cases digit : c.isDigit = true
  · have taken := front_of_isDigit digit cs
    rw [taken] at lexed
    cases lexed
    refine .lexeme (.of_lexeme ?_)
    rw [taken]
    exact .integer (List.cons_ne_nil _ _)
      (List.forall_mem_cons.mpr ⟨digit, List.all_eq_true.mp List.all_takeWhile⟩)
  by_cases quote : Kind.isQuote c = true
  · exact reads_quoted (.inl quote) (front_of_isQuote quote cs) (fun _ => .literal quote) lexed
  by_cases question : c = '?'
  · subst question
    exact reads_quoted (.inr rfl) (front_question cs) (fun _ => .special) lexed
  · have lone : Lone c :=
      ⟨shown, by simpa using name, by simpa using digit, by simpa using quote, question⟩
    refine reads_symbol (front_symbol lone ?_) lone lexed
    rintro inner rfl rfl
    cases lexed

theorem front_skipped (passed : (front c cs).kind = none) :
    Skipped (c :: (front c cs).taken) (front c cs).rest := by
  cases layout : isLayout c with
  | true =>
    rw [front_layout layout]
    exact .layout (List.cons_ne_nil _ _)
      (List.forall_mem_cons.mpr ⟨layout, List.all_eq_true.mp List.all_takeWhile⟩)
  | false =>
    obtain ⟨rfl, inner, rfl⟩ := comment_of_kind layout passed
    rw [front_comment]
    obtain ⟨inside, open', closed⟩ | ⟨open', same⟩ := cutComment_cases inner
    · dsimp only
      rw [closed]
      exact .comment open'
    · rw [same]
      exact .unclosed open'

end

section

variable {offset : Nat} {piece rest : Text} {tokens : List Token}

theorem Cuts.skip (skipped : Skipped piece rest) (later : Cuts (offset + piece.width) rest tokens) :
    Cuts offset (piece ++ rest) tokens := by
  cases later with
  | done gap =>
    refine .done (.cons ?_ gap)
    rwa [List.append_nil]
  | @token _ gap text rest kind tokens between read later =>
    have shift : offset + piece.width + gap.width = offset + (piece ++ gap).width := by
      rw [Text.width_append, Nat.add_assoc]
    rw [shift] at later ⊢
    rw [← List.append_assoc]
    exact .token (.cons skipped between) read later

theorem cuts_lexFrom (offset : Nat) (left : Text) : Cuts offset left (lexFrom offset left) := by
  fun_induction lexFrom offset left with
  | case1 => exact .done .nil
  | case2 offset c cs next text stop kind lexed ih =>
    have split : c :: cs = text ++ next.rest := congrArg (c :: ·) (front_append c cs).symm
    have read := reads_front lexed
    rw [split] at read ⊢
    exact .token .nil read ih
  | case3 offset c cs next text stop passed ih =>
    have split : c :: cs = text ++ next.rest := congrArg (c :: ·) (front_append c cs).symm
    rw [split]
    exact .skip (front_skipped passed) ih

/-- Tokens have characters, stand where they were cut, and ascend without overlap. Each
of them is the longest lexeme at its place, or invalid where none stands, and all that is
around them is layout and comments. -/
theorem lex_exact (source : Text) :
    (∀ token ∈ lex source, token.text ≠ [] ∧ source.slice? token.span = some token.text) ∧
      (lex source).Pairwise (fun earlier later =>
        earlier.span.start < later.span.start ∧ earlier.span.stop ≤ later.span.start) ∧
      Cuts 0 source (lex source) := by
  have placed := Offsets.placed_lexFrom source 0 source [] rfl rfl
  have some_chars := ne_nil_of_mem_lexFrom 0 source
  have ascending := placed.ascending (List.forall_mem_map.mpr some_chars)
  obtain ⟨slices, disjoint⟩ := placed.embeds
  refine ⟨fun token member => ⟨some_chars token member, ?_⟩, ?_, cuts_lexFrom 0 source⟩
  · rw [List.forall₂_map_left_iff, List.forall₂_map_right_iff, List.forall₂_same] at slices
    exact slices token member
  · exact (List.pairwise_map.mp ascending).and (List.pairwise_map.mp disjoint)

/-- Delimiters inside other lexemes, and one that is never closed. -/
example : (lex "(*)'*)'(*'(?'? ?\"".toList).map Token.text =
    ["'(*'", "(", "?'?", "?\""].map String.toList := by cbv

end

end Token
end GrammarDesk
