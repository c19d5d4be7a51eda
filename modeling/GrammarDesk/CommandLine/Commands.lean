import GrammarDesk.CommandLine.Arguments
import GrammarDesk.CommandLine.Listing
import GrammarDesk.Config.Layers

/-! The commands as functions of their arguments and of the files that they
read. The status is 2 where a command could not run, 1 where `check` found
errors or `match` left something unmatched, and 0 otherwise. -/
namespace GrammarDesk

structure Result where
  status : Nat := 0
  output : String := ""
  errors : String := ""
deriving DecidableEq, Repr, Inhabited

inductive CommandError where
  | unreadable (path : String) (reason : String)
  | configuration (error : ConfigError)
  | grammar (error : GrammarError)
deriving Repr

def CommandError.message : CommandError → String
  | unreadable path reason => s!"cannot read {path}: {reason}"
  | configuration error => s!"invalid configuration: {error.message}"
  | grammar error => s!"grammar does not compile: {error.message}"

namespace Command

def programName : String := "ebnf"

def version : String := "0.1.0"

def usage : String :=
  "Usage: ebnf [--config FILE] check GRAMMAR [--format text|json]\n" ++
  "       ebnf [--config FILE] match GRAMMAR SAMPLE [--format text|json]\n" ++
  "       ebnf [--config FILE] symbols GRAMMAR\n" ++
  "       ebnf [--config FILE] tokens GRAMMAR\n"

def readText (read : String → FileContent) (path : String) : Except CommandError Text :=
  match read path with
  | .text content => .ok content
  | .notText => .error (.unreadable path "stream did not contain valid UTF-8")
  | .directory => .error (.unreadable path "Is a directory (os error 21)")
  | .underFile => .error (.unreadable path "Not a directory (os error 20)")
  | .absent => .error (.unreadable path "No such file or directory (os error 2)")

def status (failed : Bool) : Nat := if failed then 1 else 0

def checkResult (limits : Limits) (path : String) (format : Format) (text : Text) : Result :=
  let found := Diagnostic.sorted (Diagnostic.analyze limits text)
  { status := status (found.any (·.severity = .error))
    output := match format with
      | .text => Listing.diagnostics path text found
      | .json => (Listing.diagnosticsJson found).pretty 0 ++ "\n" }

def matchResult (parser : GrammarParser) (format : Format) (sample : Text) : Result :=
  let report := Report.ofParser parser.toSampleParser sample
  { status := status (!report.unmatched.isEmpty)
    output := match format with
      | .text => Listing.report sample report
      | .json => report.toJson.pretty 0 ++ "\n" }

def perform (read : String → FileContent) (settings : Settings) :
    Command → Except CommandError Result
  | .check path format => return checkResult settings.limits path format (← readText read path)
  | .matchSample path samplePath format => do
    let source ← readText read path
    let sample ← readText read samplePath
    match GrammarParser.ofText source with
    | .ok parser => return matchResult parser format sample
    | .error error => throw (.grammar error)
  | .symbols path => do
    let text ← readText read path
    let offsets := Offsets.ofTokens text (Token.texts text false)
    return { output := Listing.symbols text offsets (Symbols.ofText text) }
  | .tokens path => do
    let text ← readText read path
    return { output := Listing.tokens text (Token.lex text) }

def run (read : String → FileContent) (config : Option String) (command : Command) :
    Except CommandError Result :=
  match Settings.load read (config.toList.map fun path => .file path true) with
  | .ok settings => perform read settings command
  | .error error => .error (.configuration error)

end Command

def Request.paths : Request → List String
  | run command config =>
    let own := match command with
      | .check path _ | .symbols path | .tokens path => [path]
      | .matchSample path sample _ => [path, sample]
    config.toList.flatMap (fun path => [path, FilePath.withExtension path "toml"]) ++ own
  | _ => []

def Request.answer (read : String → FileContent) : Request → Result
  | run command config =>
    match command.run read config with
    | .ok result => result
    | .error error => { status := 2, errors := s!"error: {error.message}\n" }
  | version => { output := s!"{Command.programName} {Command.version}\n" }
  | help => { output := Command.usage }
  | misuse => { status := 2, errors := Command.usage }

end GrammarDesk
