import GrammarDesk.Config.Toml.Scalar

/-! TOML documents. Values nest, so their readers count down from the length of
the document. A table is closed once it is written as a value, and has at most
one header; a dotted key adds only to tables made by dotted keys, and passes
through all that have no header. -/
namespace GrammarDesk.Toml

/-- How a table came to be, which decides what may still be added to it. -/
inductive Made where
  /-- Named only on the way to another table. -/
  | passing
  | header
  | dotted
deriving DecidableEq, Repr, Inhabited

/-- A document under construction. Finished values take nothing more. -/
inductive Tree where
  | value (setting : Setting)
  | table (made : Made) (entries : List (Text × Tree))
  | tables (items : List (List (Text × Tree)))
deriving Repr, Inhabited

abbrev Entries := List (Text × Tree)

namespace Entries

def put (entries : Entries) (name : Text) (tree : Tree) : Entries :=
  if (entries.lookup name).isSome then
    entries.map fun entry => if entry.1 = name then (name, tree) else entry
  else entries ++ [(name, tree)]

/-- Sets a dotted key. It makes the tables that it needs, and passes through
those without a header of their own and through the last item of a list of
tables. The table where it ends must be one that `admits` it: where it begins, or
one made by dotted keys. -/
def assign (value : Setting) (admits : Bool) (entries : Entries) : List Text → Option Entries
  | [] => none
  | [name] =>
    match entries.lookup name with
    | none => if admits then some (entries.put name (.value value)) else none
    | some _ => none
  | name :: names =>
    match entries.lookup name with
    | none =>
      (assign value true [] names).map fun inner => entries.put name (.table .dotted inner)
    | some (.table .header _) => none
    | some (.table made inner) =>
      (assign value (made = .dotted) inner names).map fun inner =>
        entries.put name (.table made inner)
    | some (.tables items) =>
      match items.getLast? with
      | some last =>
        (assign value false last names).map fun last =>
          entries.put name (.tables (items.dropLast ++ [last]))
      | none => none
    | some (.value _) => none

/-- Changes the table that a header path leads to. A step into a list of tables
goes to its last item. -/
def enter (change : Entries → Option Entries) (entries : Entries) : List Text → Option Entries
  | [] => change entries
  | name :: names =>
    match entries.lookup name with
    | none => (enter change [] names).map fun inner => entries.put name (.table .passing inner)
    | some (.table made inner) =>
      (enter change inner names).map fun inner => entries.put name (.table made inner)
    | some (.tables items) =>
      match items.getLast? with
      | some last =>
        (enter change last names).map fun last =>
          entries.put name (.tables (items.dropLast ++ [last]))
      | none => none
    | some (.value _) => none

/-- Opens a table by its header; each has one header only. -/
def openTable (name : Text) (entries : Entries) : Option Entries :=
  match entries.lookup name with
  | none => some (entries.put name (.table .header []))
  | some (.table .passing inner) => some (entries.put name (.table .header inner))
  | some _ => none

def openItem (name : Text) (entries : Entries) : Option Entries :=
  match entries.lookup name with
  | none => some (entries.put name (.tables [[]]))
  | some (.tables items) => some (entries.put name (.tables (items ++ [[]])))
  | some _ => none

end Entries

mutual

def Tree.toSetting (origin : Option String) : Tree → Setting
  | .value setting => setting
  | .table _ entries => .table (entriesToSettings origin entries) origin
  | .tables items => .list (itemsToSettings origin items) origin

def entriesToSettings (origin : Option String) : List (Text × Tree) → List (Text × Setting)
  | [] => []
  | (name, tree) :: rest => (name, tree.toSetting origin) :: entriesToSettings origin rest

def itemsToSettings (origin : Option String) : List (List (Text × Tree)) → List Setting
  | [] => []
  | entries :: rest =>
    .table (entriesToSettings origin entries) origin :: itemsToSettings origin rest

end

mutual

/-- Any value, with `depth` levels of nesting left. -/
def value (origin : Option String) : Nat → Nat → Reader Setting
  | 0, _, _ => none
  | fuel + 1, depth, text =>
    match depth, text with
    | 0, '[' :: _ | 0, '\x7b' :: _ => none
    | depth + 1, '[' :: rest => do
      let (items, rest) ← items origin fuel depth rest
      return (.list items origin, rest)
    | depth + 1, '\x7b' :: rest => do
      let (entries, rest) ← match skipBlanks rest with
        | '\x7d' :: rest => some ([], rest)
        | rest => fields origin fuel depth [] rest
      return (.table (entriesToSettings origin entries) origin, rest)
    | _, text =>
      match string? text with
      | some (text, rest) => some (.scalar (.text text) origin, rest)
      | none => do
        let (found, rest) ← scalar? text
        return (.scalar found origin, rest)

def items (origin : Option String) : Nat → Nat → Reader (List Setting)
  | 0, _, _ => none
  | fuel + 1, depth, text =>
    match skipLines text.length text with
    | ']' :: rest => some ([], rest)
    | text => do
      let (first, rest) ← value origin fuel depth text
      match skipLines rest.length rest with
      | ',' :: rest =>
        let (others, rest) ← items origin fuel depth rest
        return (first :: others, rest)
      | ']' :: rest => return ([first], rest)
      | _ => none

def fields (origin : Option String) : Nat → Nat → Entries → Reader Entries
  | 0, _, _, _ => none
  | fuel + 1, depth, entries, text => do
    let (names, rest) ← key text
    let (_, rest) ← literally '=' rest
    let (found, rest) ← value origin fuel depth (skipBlanks rest)
    let entries ← Entries.assign found true entries names
    match skipBlanks rest with
    | ',' :: rest => fields origin fuel depth entries rest
    | '\x7d' :: rest => return (entries, rest)
    | _ => none

end

/-- A header in single or double brackets: its path, and whether it appends. -/
def header? : Text → Option ((List Text × Bool) × Text)
  | '[' :: '[' :: rest => do
    let (names, rest) ← key rest
    let (_, rest) ← literally ']' rest
    let (_, rest) ← literally ']' rest
    return ((names, true), rest)
  | '[' :: rest => do
    let (names, rest) ← key rest
    let (_, rest) ← literally ']' rest
    return ((names, false), rest)
  | _ => none

/-- The lines of a document, each added to the table that `current` names. -/
def document (origin : Option String) : Nat → List Text → Entries → Text → Option Entries
  | 0, _, _, _ => none
  | fuel + 1, current, entries, text =>
    match skipLines text.length text with
    | [] => some entries
    | '[' :: rest => do
      let ((names, appends), rest) ← header? ('[' :: rest)
      let name ← names.getLast?
      let change := if appends then Entries.openItem name else Entries.openTable name
      let entries ← entries.enter change names.dropLast
      document origin fuel names entries (← lineEnd? rest)
    | text => do
      let (names, rest) ← key text
      let (_, rest) ← literally '=' rest
      let (found, rest) ← value origin text.length (depthLimit - 1) (skipBlanks rest)
      let entries ← entries.enter (Entries.assign found true · names) current
      document origin fuel current entries (← lineEnd? rest)

/-- The entries of a document, in which values know their origin. -/
def parse? (origin : Option String) (text : Text) : Option (List (Text × Setting)) := do
  let text := match text with
    | '\ufeff' :: rest => rest
    | text => text
  let entries ← document origin (text.length + 1) [] [] text
  return entriesToSettings origin entries

end GrammarDesk.Toml
