/-! Paths of files as texts: steps with slashes between them. -/
namespace GrammarDesk.FilePath

/-- The steps of a path. A step that is empty or a single dot goes nowhere. -/
def steps (path : String) : List String :=
  (path.splitOn "/").filter fun step => step ≠ "" ∧ step ≠ "."

def isAbsolute (path : String) : Bool := path.startsWith "/"

def ofSteps (absolute : Bool) (steps : List String) : String :=
  (if absolute then "/" else "") ++ "/".intercalate steps

/-- The same path without the steps that go nowhere. -/
def plain (path : String) : String := ofSteps (isAbsolute path) (steps path)

/-- The path with an extension after its last step, if that names a file. -/
def withExtension (path extension : String) : String :=
  match (steps path).getLast? with
  | none | some ".." => path
  | some _ => plain path ++ "." ++ extension

end GrammarDesk.FilePath
