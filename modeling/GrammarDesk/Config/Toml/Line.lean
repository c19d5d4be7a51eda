import GrammarDesk.Config.Setting

/-! The parts of TOML lines: blanks, comments, strings and keys. A reader takes
what it needs from the front of a text and hands on the rest; where it takes
nothing the document is malformed. -/
namespace GrammarDesk.Toml

abbrev Reader (α : Type) := Text → Option (α × Text)

def isBlank (c : Char) : Bool := c == ' ' || c == '\t'

/-- Control characters other than the tab stand nowhere. -/
def isPlain (c : Char) : Bool := c == '\t' || (0x20 ≤ c.toNat && c.toNat != 0x7F)

def skipBlanks (text : Text) : Text := text.dropWhile isBlank

def skipComment : Text → Text
  | '#' :: rest => rest.dropWhile isPlain
  | text => text

def newline? : Text → Option Text
  | '\n' :: rest => some rest
  | '\r' :: '\n' :: rest => some rest
  | _ => none

/-- The end of a line: blanks, a comment, then a newline or nothing. -/
def lineEnd? (text : Text) : Option Text :=
  match skipComment (skipBlanks text) with
  | [] => some []
  | rest => newline? rest

def skipLines : Nat → Text → Text
  | 0, text => text
  | fuel + 1, text =>
    let rest := skipComment (skipBlanks text)
    match newline? rest with
    | some rest => skipLines fuel rest
    | none => rest

def codePoint? (digits : Text) : Option Char :=
  let value? := digits.foldl (fun (value : Option Nat) c => do
    let value ← value
    if c.isDigit then return 16 * value + (c.toNat - '0'.toNat)
    else if 'a' ≤ c ∧ c ≤ 'f' then return 16 * value + (c.toNat - 'a'.toNat + 10)
    else if 'A' ≤ c ∧ c ≤ 'F' then return 16 * value + (c.toNat - 'A'.toNat + 10)
    else none) (some 0)
  value?.bind fun value => if value.isValidChar then some (Char.ofNat value) else none

def escape : Reader Char
  | 'b' :: rest => some ('\x08', rest)
  | 't' :: rest => some ('\t', rest)
  | 'n' :: rest => some ('\n', rest)
  | 'f' :: rest => some ('\x0c', rest)
  | 'r' :: rest => some ('\r', rest)
  | '"' :: rest => some ('"', rest)
  | '\\' :: rest => some ('\\', rest)
  | 'u' :: rest =>
    if 4 ≤ rest.length then (codePoint? (rest.take 4)).map (·, rest.drop 4) else none
  | 'U' :: rest =>
    if 8 ≤ rest.length then (codePoint? (rest.take 8)).map (·, rest.drop 8) else none
  | _ => none

/-- A string on one line, after its opening quote. Only double quotes know
escapes. -/
def line (quote : Char) : Nat → Reader Text
  | 0, _ => none
  | fuel + 1, text =>
    match text with
    | [] => none
    | c :: rest =>
      if c = quote then some ([], rest)
      else if c = '\\' ∧ quote = '"' then do
        let (c, rest) ← escape rest
        let (tail, rest) ← line quote fuel rest
        return (c :: tail, rest)
      else if isPlain c then do
        let (tail, rest) ← line quote fuel rest
        return (c :: tail, rest)
      else none

def skipSpace : Text → Text
  | ' ' :: rest | '\t' :: rest | '\n' :: rest | '\r' :: '\n' :: rest => skipSpace rest
  | text => text

/-- A backslash at the end of a line swallows the space after it. -/
def continuation? (text : Text) : Option Text := (newline? (skipBlanks text)).map skipSpace

/-- A string over several lines, after its three opening quotes. Up to two
quotes may stand before the closing ones. -/
def lines (quote : Char) : Nat → Reader Text
  | 0, _ => none
  | fuel + 1, text =>
    let quotes := (text.takeWhile (· == quote)).length
    if 3 ≤ quotes then
      if quotes ≤ 5 then some (List.replicate (quotes - 3) quote, text.drop quotes) else none
    else
      let go (c : Char) (rest : Text) : Option (Text × Text) := do
        let (tail, rest) ← lines quote fuel rest
        return (c :: tail, rest)
      match text with
      | [] => none
      | c :: rest =>
        if c = '\\' ∧ quote = '"' then
          match continuation? rest with
          | some rest => lines quote fuel rest
          | none => do
            let (c, rest) ← escape rest
            go c rest
        else match newline? text with
          | some rest => go '\n' rest
          | none => if isPlain c then go c rest else none

def skipNewline (text : Text) : Text := (newline? text).getD text

def string? (text : Text) : Option (Text × Text) :=
  let fuel := text.length + 1
  match text with
  | '"' :: '"' :: '"' :: rest => lines '"' fuel (skipNewline rest)
  | '\'' :: '\'' :: '\'' :: rest => lines '\'' fuel (skipNewline rest)
  | '"' :: rest => line '"' fuel rest
  | '\'' :: rest => line '\'' fuel rest
  | _ => none

def inBareKey (c : Char) : Bool := c.isAlphanum || c == '_' || c == '-'

/-- One part of a key: bare or a string on one line. -/
def keyPart : Reader Text
  | '"' :: rest => line '"' (rest.length + 1) rest
  | '\'' :: rest => line '\'' (rest.length + 1) rest
  | text =>
    let name := text.takeWhile inBareKey
    if name.isEmpty then none else some (name, text.dropWhile inBareKey)

/-- Values and keys that nest as deep as this or deeper are malformed. -/
def depthLimit : Nat := 80

/-- Names with dots between them and blanks around them. -/
def dotted : Nat → Reader (List Text)
  | 0, _ => none
  | fuel + 1, text => do
    let (name, rest) ← keyPart (skipBlanks text)
    match skipBlanks rest with
    | '.' :: rest =>
      let (names, rest) ← dotted fuel rest
      return (name :: names, rest)
    | rest => return ([name], rest)

def key : Reader (List Text) := fun text => do
  let (names, rest) ← dotted text.length text
  if names.length < depthLimit then some (names, rest) else none

end GrammarDesk.Toml
