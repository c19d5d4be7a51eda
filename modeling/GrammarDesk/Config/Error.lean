import GrammarDesk.Config.Setting
import GrammarDesk.Text.Quoted

/-! What can be wrong with a configuration, and how it is worded. -/
namespace GrammarDesk

inductive ConfigError where
  | type (found expected key : String) (origin : Option String)
  /-- A value that is no section, or a section that lacks a field. -/
  | shape (text : String)
  | missingFile (path : String)
  | notText
  | badPath
  | badFile (path : String)
deriving DecidableEq, Repr

namespace ConfigError

def message : ConfigError → String
  | type found expected key origin =>
    let place := match origin with
      | some file => s!" in {file}"
      | none => ""
    s!"invalid type: {found}, expected {expected} for key \x60{key}\x60{place}"
  | shape text => text
  | missingFile path => s!"configuration file \"{path}\" not found"
  | notText => "stream did not contain valid UTF-8"
  | badPath => "malformed key"
  | badFile path => s!"malformed configuration file {path}"

end ConfigError

namespace Scalar

def describe : Scalar → String
  | null => "unit value"
  | bool value => s!"boolean \x60{value}\x60"
  | int value => s!"integer \x60{value}\x60"
  | real value =>
    let digits := (value.shortest fun _ => true).positional
    s!"floating point \x60{digits}\x60"
  | infinite negative =>
    let name := if negative then "-inf" else "inf"
    s!"floating point \x60{name}\x60"
  | notANumber => "floating point \x60NaN\x60"
  | text value => s!"string {value.quoted}"

end Scalar
end GrammarDesk
