import GrammarDesk.Text.Blank
import GrammarDesk.Token.Kind

/-! The lexer of grammar texts takes the longest lexeme at its place. Layout
and comments come between tokens; what opens no lexeme becomes an invalid
token, so no character is lost silently. -/
namespace GrammarDesk

structure Token where
  kind : Kind
  text : Text
  span : Span
deriving DecidableEq, Repr, Inhabited

namespace Token

/-- Space, tab, carriage return, line feed and form feed. -/
def isLayout (c : Char) : Bool :=
  c == ' ' || c == '\t' || c == '\r' || c == '\n' || c == '\x0c'

/-- Cuts after the first `close`, if there is one. -/
def cutAfter? (close : Char) : Text → Option (Text × Text)
  | [] => none
  | c :: cs =>
    if c = close then some ([c], cs)
    else (cutAfter? close cs).map fun (taken, rest) => (c :: taken, rest)

/-- Cuts after the first `*)`, or at the end if there is none. -/
def cutComment : Text → Text × Text
  | [] => ([], [])
  | '*' :: ')' :: cs => (['*', ')'], cs)
  | c :: cs => let (taken, rest) := cutComment cs; (c :: taken, rest)

/-- What stands at the front of a text, after its first character: layout and
comments have no kind. -/
structure Front where
  kind : Option Kind
  taken : Text
  rest : Text

/-- A lexeme that runs to the next `close`; without one everything is invalid. -/
def quoted (kind : Kind) (close : Char) (cs : Text) : Front :=
  match cutAfter? close cs with
  | some (taken, rest) => ⟨some kind, taken, rest⟩
  | none => ⟨some .invalid, cs, []⟩

def run (kind : Option Kind) (continues : Char → Bool) (cs : Text) : Front :=
  ⟨kind, cs.takeWhile continues, cs.dropWhile continues⟩

def symbol (c : Char) (cs : Text) : Front :=
  ⟨some ((Kind.ofSymbol? c).getD .invalid), [], cs⟩

def front (c : Char) (cs : Text) : Front :=
  if isLayout c then run none isLayout cs
  else if Kind.startsName c then run (some .name) Kind.continuesName cs
  else if c.isDigit then run (some .integer) Char.isDigit cs
  else if Kind.isQuote c then quoted .literal c cs
  else if c = '?' then quoted .special '?' cs
  else match c, cs with
    | '(', '*' :: inner => let (taken, rest) := cutComment inner; ⟨none, '*' :: taken, rest⟩
    | _, _ => symbol c cs

theorem cutAfter?_append {close : Char} {s taken rest : Text}
    (h : cutAfter? close s = some (taken, rest)) : taken ++ rest = s := by
  induction s generalizing taken with
  | nil => simp [cutAfter?] at h
  | cons c s ih =>
    simp only [cutAfter?] at h
    split at h
    · simp only [Option.some.injEq, Prod.mk.injEq] at h
      simp [← h.1, ← h.2]
    · obtain ⟨⟨a, b⟩, hab, heq⟩ := Option.map_eq_some_iff.mp h
      simp only [Prod.mk.injEq] at heq
      obtain ⟨rfl, rfl⟩ := heq
      simp [ih hab]

theorem cutComment_append (s : Text) : (cutComment s).1 ++ (cutComment s).2 = s := by
  fun_induction cutComment s with
  | case1 => rfl
  | case2 => rfl
  | case3 c cs _ taken rest h ih => simp_all

theorem front_append (c : Char) (cs : Text) : (front c cs).taken ++ (front c cs).rest = cs := by
  have quoted_append (kind : Kind) (close : Char) :
      (quoted kind close cs).taken ++ (quoted kind close cs).rest = cs := by
    unfold quoted
    split
    · exact cutAfter?_append ‹_›
    · simp
  unfold front
  split
  · exact List.takeWhile_append_dropWhile
  split
  · exact List.takeWhile_append_dropWhile
  split
  · exact List.takeWhile_append_dropWhile
  split
  · exact quoted_append _ _
  split
  · exact quoted_append _ _
  split
  · simp [cutComment_append]
  · rfl

theorem length_rest_le (c : Char) (cs : Text) : (front c cs).rest.length ≤ cs.length := by
  conv => rhs; rw [← front_append c cs]
  simp

def lexFrom (offset : Nat) : Text → List Token
  | [] => []
  | c :: cs =>
    let next := front c cs
    let text := c :: next.taken
    let stop := offset + Text.width text
    match next.kind with
    | some kind => ⟨kind, text, ⟨offset, stop⟩⟩ :: lexFrom stop next.rest
    | none => lexFrom stop next.rest
termination_by s => s.length
decreasing_by all_goals exact Nat.lt_succ_of_le (length_rest_le c cs)

def lex (source : Text) : List Token := lexFrom 0 source

/-- Drops white space inside a literal; the span stays. -/
def squeeze (token : Token) : Token :=
  if token.kind = .literal then { token with text := token.text.filter (!Text.blank ·) } else token

/-- The token texts of a grammar text, literals squeezed if asked. -/
def texts (source : Text) (squeezed : Bool) : List Text :=
  ((lex source).map fun token => if squeezed then squeeze token else token).map Token.text

end Token
end GrammarDesk
