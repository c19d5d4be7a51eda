import GrammarDesk.CommandLine.Commands

/-! The command line program: it reads the files that the arguments name and
prints what the command answers. -/
namespace GrammarDesk.CommandLine

def readPath (path : String) : IO FileContent := do
  try
    return .ofBytes (← IO.FS.readBinFile path)
  catch
    | .inappropriateType .. => return .directory
    | .unsatisfiedConstraints .. => return .underFile
    | _ => return .absent

end GrammarDesk.CommandLine

def main (arguments : List String) : IO UInt32 := do
  let request := GrammarDesk.Request.ofArguments arguments
  let files ← request.paths.mapM fun path => do
    return (path, ← GrammarDesk.CommandLine.readPath path)
  let result := request.answer fun path => (files.lookup path).getD .absent
  IO.print result.output
  IO.eprint result.errors
  return UInt32.ofNat result.status
