import GrammarDesk.Live.Report
import GrammarDesk.Live.Samples

/-! Delayed highlighting on a clock that only moves when told to. A report shows
its matched segments and clears the unmatched ones at once; the unmatched ones
follow after a delay, unless the sample has changed by then or another report
for the same key has taken their place. -/
namespace GrammarDesk

inductive Phase where
  | matched | unmatched
deriving DecidableEq, Repr, Inhabited

def Phase.label : Phase → String
  | matched => "matched"
  | unmatched => "unmatched"

/-- Replaces all highlights of a phase for a key, at a time. -/
structure Highlight (κ : Type) where
  time : Nat
  key : κ
  phase : Phase
  segments : List Segment
deriving Repr, Inhabited

/-- Unmatched segments that wait to be shown, and the version they describe. -/
structure Delayed (κ : Type) where
  key : κ
  due : Nat
  stamp : Stamp
  captured : Nat
  segments : List Segment
deriving Repr, Inhabited

/-- The work that waits, in order of its due times. Times are in milliseconds. -/
structure Highlighter (κ : Type) where
  now : Nat := 0
  debounce : Nat := 1000
  pending : List (Delayed κ) := []
deriving Repr, Inhabited

namespace Highlighter

variable {κ : Type} [DecidableEq κ]

def forget (highlighter : Highlighter κ) (key : κ) : Highlighter κ :=
  { highlighter with pending := highlighter.pending.filter (·.key ≠ key) }

def reset (highlighter : Highlighter κ) : Highlighter κ := { highlighter with pending := [] }

def hasPending (highlighter : Highlighter κ) (key : κ) : Bool :=
  highlighter.pending.any (·.key = key)

def publish (highlighter : Highlighter κ) (key : κ) (report : Report) (stamp : Stamp)
    (captured : Nat) : Highlighter κ × List (Highlight κ) :=
  let highlighter := highlighter.forget key
  let now := highlighter.now
  let shown := [⟨now, key, .matched, report.matched⟩, ⟨now, key, .unmatched, []⟩]
  if report.unmatched.isEmpty then (highlighter, shown)
  else
    let work := ⟨key, now + highlighter.debounce, stamp, captured, report.unmatched⟩
    ({ highlighter with pending := highlighter.pending ++ [work] }, shown)

def refresh (highlighter : Highlighter κ) (samples : Samples κ) (key : κ) (source : Text)
    (buffer : Buffer) : Report × Highlighter κ × List (Highlight κ) :=
  let report := Report.compute source buffer.text
  (report, highlighter.publish key report buffer.stamp (samples.version buffer.stamp))

/-- What waiting work shows when it is due: nothing if its sample has changed. -/
def Delayed.show? (samples : Samples κ) (work : Delayed κ) : Option (Highlight κ) :=
  if samples.version work.stamp = work.captured then
    some ⟨work.due, work.key, .unmatched, work.segments⟩
  else none

def settle (highlighter : Highlighter κ) (samples : Samples κ) :
    Highlighter κ × List (Highlight κ) :=
  let (due, waiting) := highlighter.pending.partition (·.due ≤ highlighter.now)
  ({ highlighter with pending := waiting }, due.filterMap (Delayed.show? samples))

def elapse (highlighter : Highlighter κ) (time : Nat) : Highlighter κ :=
  { highlighter with now := highlighter.now + time }

end Highlighter
end GrammarDesk
