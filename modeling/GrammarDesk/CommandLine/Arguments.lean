/-! The arguments of the command line. -/
namespace GrammarDesk

inductive Format where
  | text | json
deriving DecidableEq, Repr, Inhabited

inductive Command where
  | check (grammar : String) (format : Format)
  | matchSample (grammar sample : String) (format : Format)
  | symbols (grammar : String)
  | tokens (grammar : String)
deriving DecidableEq, Repr

inductive Request where
  | run (command : Command) (config : Option String)
  | version
  | help
  | misuse
deriving DecidableEq, Repr

namespace Arguments

inductive Flag where
  | config | format
deriving DecidableEq, Repr

structure Given where
  config : Option String := none
  format : Option String := none
  paths : List String := []

inductive Verb where
  | check | matchSample | symbols | tokens
deriving DecidableEq, Repr

def Verb.ofName? : String → Option Verb
  | "check" => some .check
  | "match" => some .matchSample
  | "symbols" => some .symbols
  | "tokens" => some .tokens
  | _ => none

def Verb.arity : Verb → Nat
  | .matchSample => 2
  | _ => 1

def Verb.allows (verb : Verb) : Flag → Bool
  | .config => true
  | .format => verb = .check || verb = .matchSample

/-- Each option is given once at most, and its value is not empty. -/
def Given.put (given : Given) (flag : Flag) (value : String) : Option Given :=
  match flag with
  | .config =>
    if given.config.isSome || value.isEmpty then none else some { given with config := some value }
  | .format =>
    if given.format.isNone && ["text", "json"].contains value then
      some { given with format := some value }
    else none

inductive Shape where
  /-- An option; its value may be part of it. -/
  | flag (flag : Flag) (value : Option String)
  | version
  | help
  /-- From here on all arguments are plain. -/
  | rest
  | plain (text : String)
  | unknown

/-- The value in a long option, after the equals sign. -/
def attached? (name : String) (argument : String) : Option (Option String) :=
  let name := name.toList
  let argument := argument.toList
  if argument = name then some none
  else if (name ++ ['=']).isPrefixOf argument then
    some (some (String.ofList (argument.drop (name.length + 1))))
  else none

/-- The value in a short option: all that follows, without an equals sign. -/
def shortValue (rest : List Char) : Option String :=
  match rest with
  | [] => none
  | '=' :: rest => some (String.ofList rest)
  | rest => some (String.ofList rest)

def shape (argument : String) : Shape :=
  match attached? "--config" argument, attached? "--format" argument with
  | some value, _ => .flag .config value
  | _, some value => .flag .format value
  | none, none =>
    match argument.toList with
    | ['-'] => .plain argument
    | ['-', '-'] => .rest
    | '-' :: '-' :: _ =>
      if argument = "--version" then .version else if argument = "--help" then .help else .unknown
    | '-' :: 'c' :: rest => .flag .config (shortValue rest)
    | '-' :: 'f' :: rest => .flag .format (shortValue rest)
    | '-' :: 'V' :: _ => .version
    | '-' :: 'h' :: _ => .help
    | '-' :: _ => .unknown
    | _ => .plain argument

/-- A value that stands on its own is no option. -/
def isValue (argument : String) : Bool :=
  match argument.toList with
  | ['-'] => true
  | '-' :: _ => false
  | _ => true

def finish (verb : Verb) (outer : Option String) (given : Given) : Request :=
  let config := given.config <|> outer
  let format := if given.format = some "json" then Format.json else .text
  match verb, given.paths with
  | .check, [grammar] => .run (.check grammar format) config
  | .matchSample, [grammar, sample] => .run (.matchSample grammar sample format) config
  | .symbols, [grammar] => .run (.symbols grammar) config
  | .tokens, [grammar] => .run (.tokens grammar) config
  | _, _ => .misuse

/-- Plain arguments are paths; none is empty or one too many. -/
def addPath (verb : Verb) (given : Given) (path : String) : Option Given :=
  if path.isEmpty || verb.arity ≤ given.paths.length then none
  else some { given with paths := given.paths ++ [path] }

/-- The arguments of a command. `outer` is the configuration given before it,
and `waiting` an option whose value comes next. -/
def ofVerb (verb : Verb) (outer : Option String) (given : Given) (waiting : Option Flag) :
    List String → Request
  | [] => if waiting.isSome then .misuse else finish verb outer given
  | argument :: arguments =>
    let go (given : Option Given) : Request :=
      match given with
      | some given => ofVerb verb outer given none arguments
      | none => .misuse
    match waiting, shape argument with
    | some flag, _ => if isValue argument then go (given.put flag argument) else .misuse
    | none, .flag flag value =>
      if !verb.allows flag then .misuse
      else match value with
        | some value => go (given.put flag value)
        | none => ofVerb verb outer given (some flag) arguments
    | none, .rest =>
      match arguments.foldlM (addPath verb) given with
      | some given => finish verb outer given
      | none => .misuse
    | none, .plain path => go (addPath verb given path)
    | none, .help => .help
    | none, .version | none, .unknown => .misuse

def isTopic : List String → Bool
  | [] => true
  | [name] => name = "help" || (Verb.ofName? name).isSome
  | _ => false

/-- The arguments before the command; `waiting` if the configuration comes
next. -/
def parse (outer : Option String) (waiting : Bool) : List String → Request
  | [] => .misuse
  | argument :: arguments =>
    let go (config : String) : Request :=
      if outer.isSome || config.isEmpty then .misuse else parse (some config) false arguments
    match waiting, shape argument with
    | true, _ => if isValue argument then go argument else .misuse
    | false, .flag .config (some value) => go value
    | false, .flag .config none => parse outer true arguments
    | false, .version => .version
    | false, .help => .help
    | false, .plain name =>
      match Verb.ofName? name with
      | some verb => ofVerb verb outer {} none arguments
      | none => if name = "help" ∧ isTopic arguments then .help else .misuse
    | false, _ => .misuse

end Arguments

def Request.ofArguments (arguments : List String) : Request := Arguments.parse none false arguments

end GrammarDesk
