import GrammarDesk.Analysis.Diagnostics
import GrammarDesk.Config.Error

/-! The settings of the program and how they are read from layers. -/
namespace GrammarDesk

/-- Limits of the analysis, and the delay in milliseconds before unmatched
segments of a sample are shown. -/
structure Settings where
  limits : Limits := {}
  debounce : Nat := 1000
deriving DecidableEq, Repr, Inhabited

namespace Settings

def maxValue : Nat := 18446744073709551615

/-- Decimal digits with an optional plus, in range. -/
def number? (text : Text) : Option Nat :=
  let digits : Text := match text with
    | '+' :: digits => digits
    | digits => digits
  if digits.isEmpty || !digits.all Char.isDigit then none
  else
    let value := digits.digitsValue
    if value ≤ maxValue then some value else none

/-- A whole number from a scalar: words and truth values count as one or zero,
fractions are rounded, halves away from zero, and nothing is negative. The
error says what was found and what was expected. -/
def wholeNumber : Scalar → Except (String × String) Nat
  | .null => .error ("unit value", "an integer")
  | .bool value => .ok (if value then 1 else 0)
  | .int value =>
    if value < 0 then
      .error (s!"64-bit integer \x60{value}\x60", "an unsigned 64 bit or less integer")
    else .ok value.toNat
  | .real value => .ok (if value.negative then 0 else min value.rounded maxValue)
  | .infinite negative => .ok (if negative then 0 else maxValue)
  | .notANumber => .ok 0
  | .text value =>
    let word := String.ofList (Setting.foldCase value)
    if ["true", "on", "yes"].contains word then .ok 1
    else if ["false", "off", "no"].contains word then .ok 0
    else match number? value with
      | some number => .ok number
      | none => .error (s!"string {value.quoted}", "an integer")

def field (key : String) : Setting → Except ConfigError Nat
  | .scalar value origin =>
    match wholeNumber value with
    | .ok number => .ok number
    | .error (found, expected) => .error (.type found expected key origin)
  | .list _ origin => .error (.type "sequence" "an integer" key origin)
  | .table _ origin => .error (.type "map" "an integer" key origin)

/-- The fields of a section, by name in a table and by position in a list. -/
def section? (root : Setting) (name kind : String) (fields : List String) :
    Except ConfigError (List Nat) :=
  match root.get? name.toList with
  | none => .error (.shape s!"missing field \x60{name}\x60")
  | some (.scalar value _) =>
    .error (.shape s!"invalid type: {value.describe}, expected struct {kind}")
  | some (.list items _) =>
    let expected := if fields.length = 1 then "1 element" else s!"{fields.length} elements"
    let taken := items.take fields.length
    taken.zipIdx.mapM (fun (item, index) => field s!"{name}[{index}]" item) >>= fun values =>
      if values.length = fields.length then .ok values
      else .error (.shape
        s!"invalid length {values.length}, expected struct {kind} with {expected}")
  | some (.table entries _) =>
    fields.mapM fun key =>
      match entries.lookup key.toList with
      | some setting => field s!"{name}.{key}" setting
      | none => .error (.shape s!"missing field \x60{key}\x60")

def ofSetting (root : Setting) : Except ConfigError Settings := do
  let analysis ← section? root "analysis" "AnalysisConfig" ["max_source_chars", "time_budget_ms"]
  let live ← section? root "live" "LiveConfig" ["debounce_ms"]
  match analysis, live with
  | [maxChars, timeBudget], [debounce] => return ⟨⟨maxChars, timeBudget⟩, debounce⟩
  | _, _ => return {}

def base : Setting :=
  let int (n : Nat) : Setting := .scalar (.int n) none
  .table [
    ("analysis".toList, .table [
      ("max_source_chars".toList, int 100000),
      ("time_budget_ms".toList, int 1000)] none),
    ("live".toList, .table [("debounce_ms".toList, int 1000)] none)] none

end Settings
end GrammarDesk
