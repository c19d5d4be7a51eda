import GrammarDesk.Config.FilePath
import GrammarDesk.Config.Settings
import GrammarDesk.Config.Toml.Document

/-! Settings in layers: the built-in values, files over them in order, and
single settings over all files. -/
namespace GrammarDesk

inductive FileContent where
  | text (content : Text)
  | notText
  | directory
  | underFile
  | absent
deriving DecidableEq, Repr, Inhabited

namespace FileContent

def ofBytes (bytes : ByteArray) : FileContent :=
  match String.fromUTF8? bytes with
  | some content => text content.toList
  | none => notText

def isFile : FileContent → Bool
  | text _ | notText => true
  | _ => false

end FileContent

inductive Layer where
  | file (path : String) (required : Bool)
  | set (key : Text) (value : Scalar)
deriving Repr, Inhabited

namespace Settings

/-- The file that a path stands for: it may leave out its extension. -/
def resolve (read : String → FileContent) (path : String) : String × FileContent :=
  let content := read path
  if content.isFile then (path, content)
  else
    let path := FilePath.withExtension path "toml"
    (path, read path)

/-- Merges a file over what is there. A top-level key that reads as a path is
one. -/
def addFile (read : String → FileContent) (root : Setting) (path : String) (required : Bool) :
    Except ConfigError Setting :=
  let (found, content) := resolve read path
  let failed (error : ConfigError) : Except ConfigError Setting :=
    if required then .error error else .ok root
  match content with
  | .text content =>
    let origin := FilePath.plain found
    match Toml.parse? (some origin) content with
    | none => .error (.badFile origin)
    | some entries =>
      .ok <| entries.foldl (fun root (name, value) =>
        root.assign value ((PathStep.parse? name).getD [.key name])) root
  | .notText => failed .notText
  | _ => failed (.missingFile path)

/-- The paths and values that are set over all files, the last value of each
path at its first place. -/
def overrides : List Layer → Except ConfigError (List (List PathStep × Scalar))
  | [] => .ok []
  | .file .. :: layers => overrides layers
  | .set key value :: layers =>
    match PathStep.parse? key with
    | none => .error .badPath
    | some path => do
      let later ← overrides layers
      match later.lookup path with
      | some last => return (path, last) :: later.filter (·.1 ≠ path)
      | none => return (path, value) :: later

def addFiles (read : String → FileContent) (root : Setting) :
    List Layer → Except ConfigError Setting
  | [] => .ok root
  | .set .. :: layers => addFiles read root layers
  | .file path required :: layers => do
    addFiles read (← addFile read root path required) layers

def load (read : String → FileContent) (layers : List Layer) : Except ConfigError Settings := do
  let overrides ← overrides layers
  let root ← addFiles read base layers
  ofSetting <| overrides.foldl (fun root (path, value) =>
    root.assign (.scalar value none) path) root

end Settings
end GrammarDesk
