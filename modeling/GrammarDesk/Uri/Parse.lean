import GrammarDesk.Uri.Host
import GrammarDesk.Uri.Path

/-! Reading a URI into its normal form: a scheme in small letters, a host in
ASCII, no port number that the scheme implies, a path without steps, and everything
encoded that has to be. -/
namespace GrammarDesk.Uri

/-- Controls and blanks around a URI do not count, nor do tabs and newlines
inside. -/
def trim (text : Text) : Text :=
  let isOuter (c : Char) : Bool := c.toNat ≤ 0x20
  let inner := ((text.dropWhile isOuter).reverse.dropWhile isOuter).reverse
  inner.filter fun c => c != '\t' && c != '\n' && c != '\r'

def scheme? (text : Text) : Option (Text × Text) :=
  let inScheme (c : Char) : Bool := c.isAlphanum || c == '+' || c == '-' || c == '.'
  let scheme := text.takeWhile inScheme
  match text.dropWhile inScheme with
  | ':' :: rest =>
    if scheme.head?.any Char.isAlpha then some (scheme.map Char.toLower, rest) else none
  | _ => none

/-- Splits off the query and the fragment, which come encoded. -/
def splitTail (family : Family) (text : Text) : Text × Text :=
  let isMark (c : Char) : Bool := c == '?' || c == '#'
  let fragment : Text → Text
    | '#' :: rest => '#' :: encode .fragment rest
    | _ => []
  let tail := match text.dropWhile (fun c => !isMark c) with
    | '?' :: rest =>
      '?' :: encode (.query family) (rest.takeWhile (· != '#')) ++
        fragment (rest.dropWhile (· != '#'))
    | rest => fragment rest
  (text.takeWhile fun c => !isMark c, tail)

/-- The user's name and password as they stand before a host, with the `@` that
ends them. An empty password is left out. -/
def userText (text : Text) : Text :=
  let name := encode .user (text.takeWhile (· != ':'))
  let password := encode .user ((text.dropWhile (· != ':')).drop 1)
  let both := if password.isEmpty then name else name ++ ':' :: password
  if both.isEmpty then [] else both ++ ['@']

/-- The end of a host: a colon outside of brackets. -/
def splitHost (inBrackets : Bool) : Text → Text × Text
  | [] => ([], [])
  | c :: rest =>
    if c == ':' && !inBrackets then ([], c :: rest)
    else
      let inBrackets := if c == '[' then true else if c == ']' then false else inBrackets
      let (host, rest) := splitHost inBrackets rest
      (c :: host, rest)

/-- The port number, of 16 bits and with its colon, unless the scheme implies it. -/
def portText (scheme : Text) (text : Text) : Except UriError Text :=
  match text with
  | ':' :: digits =>
    if !digits.all Char.isDigit || 65535 < Text.digitsValue digits then .error .portNumber
    else if digits.isEmpty || defaultPort? scheme = some (Text.digitsValue digits) then .ok []
    else .ok (':' :: Nat.toDigits 10 (Text.digitsValue digits))
  | _ => .ok []

def authority (family : Family) (scheme text : Text) : Except UriError Text := do
  let last := text.reverse.takeWhile (· != '@')
  let userPart := text.take (text.length - last.length)
  let user := userText userPart.dropLast
  let (hostText, rest) := splitHost false last.reverse
  let host ← match family with
    | .other => Host.ofOther hostText
    | _ => if hostText.isEmpty then .error .emptyHost else Host.ofText hostText
  if host.text.isEmpty ∧ (!user.isEmpty ∨ userPart = ['@'] ∨ !rest.isEmpty) then
    throw .emptyHost
  return user ++ host.text ++ (← portText scheme rest)

def hierarchical (family : Family) (scheme text : Text) : Except UriError Text := do
  let isEnd := family.isSlash
  let authority ← authority family scheme (text.takeWhile fun c => !isEnd c)
  let path := match text.dropWhile (fun c => !isEnd c) with
    | _ :: rest => (Path.resolve family rest).1
    | [] => if family = .other then [] else ['/']
  return '/' :: '/' :: authority ++ path

/-- A file has an optional host, and none where its path begins with a drive.
Without two slashes all is a path. -/
def ofFile (text : Text) : Except UriError Text := do
  let isEnd := Family.file.isSlash
  let onDisk (text : Text) : Text := "//".toList ++ (Path.resolve .file text).1
  match text with
  | a :: b :: rest =>
    if isEnd a && isEnd b then
      let hostText := rest.takeWhile fun c => !isEnd c
      let path := rest.dropWhile fun c => !isEnd c
      if Path.isDrive hostText then return onDisk rest
      else if hostText.isEmpty then return onDisk path
      else
        let host := (← Host.ofText hostText).text
        if host = "localhost".toList then return onDisk path
        let (path, onDrive) := Path.resolve .file (path.drop 1)
        return '/' :: '/' :: (if onDrive then path else host ++ path)
    else if isEnd a then return onDisk (b :: rest)
    else return onDisk text
  | text => return onDisk (if text.all isEnd then [] else text)

/-- A path that begins with two slashes is set off from the scheme, so that it
is not taken for a host. -/
def setOff (path : Text) : Text :=
  if "//".toList.isPrefixOf path then '/' :: '.' :: path else path

def body (family : Family) (scheme text : Text) : Except UriError Text :=
  match family, text with
  | .file, text => ofFile text
  | .web, text => hierarchical .web scheme (text.dropWhile Family.web.isSlash)
  | .other, '/' :: '/' :: rest => hierarchical .other scheme rest
  | .other, '/' :: rest => .ok (setOff (Path.resolve .other rest).1)
  | .other, text => .ok (encode .opaquePath text)

def parse (text : String) : Except UriError Uri :=
  match scheme? (trim text.toList) with
  | none => .error .relative
  | some (scheme, rest) => do
    let family := Family.ofScheme scheme
    let (front, tail) := splitTail family rest
    return String.ofList (scheme ++ ':' :: (← body family scheme front) ++ tail)

end GrammarDesk.Uri
