import GrammarDesk.Uri.Basic

/-! Paths of URIs as segments between slashes. A segment of one dot goes
nowhere, and one of two dots goes back to the segment before. -/
namespace GrammarDesk.Uri.Path

def isHere (segment : Text) : Bool :=
  [".", "%2e", "%2E"].contains (String.ofList segment)

def isParent (segment : Text) : Bool :=
  ["..", "%2e%2e", "%2e%2E", "%2E%2e", "%2E%2E", "%2e.", "%2E.", ".%2e", ".%2E"].contains
    (String.ofList segment)

def isDrive : Text → Bool
  | [letter, mark] => letter.isAlpha && (mark == ':' || mark == '|')
  | _ => false

structure Walk where
  /-- The segments, the latest first. -/
  passed : List Text := []
  onDrive : Bool := false

/-- One segment further. Where the last one is a step, the path ends in a
slash. -/
def Walk.step (family : Family) (walk : Walk) (segment : Text) (isLast : Bool) : Walk :=
  let stay (passed : List Text) : Walk :=
    { walk with passed := if isLast then [] :: passed else passed }
  if isParent segment then
    match walk.passed with
    | [] => stay []
    | previous :: passed => stay (if isDrive previous then previous :: passed else passed)
  else if isHere segment then stay walk.passed
  else if family = .file ∧ walk.passed.isEmpty ∧ isDrive segment then
    ⟨[segment.take 1 ++ [':']], true⟩
  else { walk with passed := segment :: walk.passed }

def Walk.run (family : Family) (walk : Walk) : List Text → Walk
  | [] => walk
  | segment :: segments =>
    Walk.run family (walk.step family segment segments.isEmpty) segments

/-- A path in its normal form, and whether it begins with a drive. The path of a
file begins with one slash only. -/
def resolve (family : Family) (text : Text) : Text × Bool :=
  let segments := text.splitOnP family.isSlash
  let walk := Walk.run family {} (segments.map (encode .path))
  let path := (walk.passed.reverse.intersperse ['/']).flatten
  ('/' :: (if family = .file then path.dropWhile (· == '/') else path), walk.onDrive)

end GrammarDesk.Uri.Path
