import GrammarDesk.Text.Basic

/-! Sample buffers, one per key. Every buffer carries a stamp, and copies of a
buffer share it: the version of a stamp counts the changes made through any of
them, so work that was prepared earlier can tell whether it is outdated. -/
namespace GrammarDesk

structure Stamp where
  id : Nat
deriving DecidableEq, Repr, Inhabited

/-- A copy of a buffer has its own text but the same stamp. -/
structure Buffer where
  text : Text
  stamp : Stamp
deriving DecidableEq, Repr, Inhabited

/-- The versions of all stamps handed out, and the attached buffers. -/
structure Samples (κ : Type) where
  versions : List Nat := []
  buffers : List (κ × Buffer) := []
deriving Repr, Inhabited

namespace Samples

variable {κ : Type} [DecidableEq κ]

def version (samples : Samples κ) (stamp : Stamp) : Nat :=
  samples.versions[stamp.id]?.getD 0

def bump (samples : Samples κ) (stamp : Stamp) : Samples κ :=
  { samples with versions := samples.versions.modify stamp.id (· + 1) }

/-- A stamp that nobody holds yet, at version zero. -/
def freshStamp (samples : Samples κ) : Stamp × Samples κ :=
  (⟨samples.versions.length⟩, { samples with versions := samples.versions ++ [0] })

def freshBuffer (samples : Samples κ) (text : Text) : Buffer × Samples κ :=
  let (stamp, samples) := samples.freshStamp
  (⟨text, stamp⟩, samples)

def get? (samples : Samples κ) (key : κ) : Option Buffer := samples.buffers.lookup key

def contains (samples : Samples κ) (key : κ) : Bool := (samples.get? key).isSome

def size (samples : Samples κ) : Nat := samples.buffers.length

def put (samples : Samples κ) (key : κ) (buffer : Buffer) : Samples κ :=
  { samples with buffers := (key, buffer) :: samples.buffers.filter (·.1 ≠ key) }

/-- The buffer of a key, empty on first use. -/
def attach (samples : Samples κ) (key : κ) : Buffer × Samples κ :=
  match samples.get? key with
  | some buffer => (buffer, samples)
  | none =>
    let (buffer, samples) := samples.freshBuffer []
    (buffer, samples.put key buffer)

/-- Changes the text of a buffer that is held outside. -/
def setText (samples : Samples κ) (buffer : Buffer) (text : Text) : Buffer × Samples κ :=
  ({ buffer with text }, samples.bump buffer.stamp)

/-- Replaces the text of a key's buffer, which is attached if need be. -/
def update (samples : Samples κ) (key : κ) (text : Text) : Buffer × Samples κ :=
  let (buffer, samples) := samples.attach key
  let (buffer, samples) := samples.setText buffer text
  (buffer, samples.put key buffer)

/-- Detaches the buffer of a key. That counts as a change. -/
def release (samples : Samples κ) (key : κ) : Option Buffer × Samples κ :=
  match samples.get? key with
  | some buffer =>
    let samples := { samples with buffers := samples.buffers.filter (·.1 ≠ key) }
    (some buffer, samples.bump buffer.stamp)
  | none => (none, samples)

end Samples
end GrammarDesk
