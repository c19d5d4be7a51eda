import GrammarDesk.Text.Marked

/-! Excerpts in double quotes, on one line and with every character visible. -/
namespace GrammarDesk.Text

def hex (n : Nat) : String := String.ofList (Nat.toDigits 16 n)

/-- A character inside an excerpt: by name, by code point if it leaves no mark,
or as it is. -/
def quotedChar (c : Char) : String :=
  match c with
  | '\x00' => "\\0"
  | '\t' => "\\t"
  | '\r' => "\\r"
  | '\n' => "\\n"
  | '\\' => "\\\\"
  | '"' => "\\\""
  | c => if unmarked c then "\\u\x7b" ++ hex c.toNat ++ "\x7d" else c.toString

def quoted (s : Text) : String := "\"" ++ String.join (s.map quotedChar) ++ "\""

end GrammarDesk.Text
