import GrammarDesk.Proofs.Live.Highlighter

/-! Sessions of live highlighting: samples, clones of their buffers and a
highlighter, used in any order. The clock stands still but for steps that
advance it; a step on a buffer that does not exist does nothing. -/
namespace GrammarDesk

/-- A buffer that is attached to a key, or a clone that is held under a name. -/
inductive Handle (κ : Type) where
  | attached (key : κ)
  | held (name : Nat)
deriving DecidableEq, Repr

structure Session (κ : Type) where
  samples : Samples κ := {}
  held : List (Nat × Buffer) := []
  highlighter : Highlighter κ := {}

namespace Session

inductive Step (κ : Type) where
  | attach (key : κ)
  | update (key : κ) (text : Text)
  | release (key : κ)
  | create (name : Nat) (text : Text)
  /-- Clones a buffer. -/
  | hold (name : Nat) (handle : Handle κ)
  | setText (handle : Handle κ) (text : Text)
  | refresh (key : κ) (source : Text) (handle : Handle κ)
  | publish (key : κ) (report : Report) (handle : Handle κ) (captured : Nat)
  | forget (key : κ)
  | drop
  | advance (time : Nat)

/-- Steps that drive the highlighter without a report. -/
def Step.drives : Step κ → Bool
  | forget _ | drop | advance _ => true
  | _ => false

structure Publication (κ : Type) where
  key : κ
  time : Nat
  report : Report
  stamp : Stamp
  captured : Nat

variable {κ : Type} [DecidableEq κ] (session : Session κ)

def start (debounce : Nat) : Session κ := { highlighter := { debounce } }

def buffer? : Handle κ → Option Buffer
  | .attached key => session.samples.get? key
  | .held name => session.held.lookup name

def store (handle : Handle κ) (buffer : Buffer) : Session κ :=
  match handle with
  | .attached key => { session with samples := session.samples.put key buffer }
  | .held name => { session with held := (name, buffer) :: session.held }

def publication? : Step κ → Option (Publication κ)
  | .refresh key source handle => (session.buffer? handle).map fun buffer =>
    ⟨key, session.highlighter.now, Report.compute source buffer.text, buffer.stamp,
      session.samples.version buffer.stamp⟩
  | .publish key report handle captured => (session.buffer? handle).map fun buffer =>
    ⟨key, session.highlighter.now, report, buffer.stamp, captured⟩
  | _ => none

def perform (step : Step κ) : Session κ × List (Highlight κ) :=
  match step with
  | .attach key => ({ session with samples := (session.samples.attach key).2 }, [])
  | .update key text => ({ session with samples := (session.samples.update key text).2 }, [])
  | .release key => ({ session with samples := (session.samples.release key).2 }, [])
  | .create name text =>
    let (buffer, samples) := session.samples.freshBuffer text
    ({ session with samples }.store (.held name) buffer, [])
  | .hold name handle =>
    match session.buffer? handle with
    | some buffer => (session.store (.held name) buffer, [])
    | none => (session, [])
  | .setText handle text =>
    match session.buffer? handle with
    | some buffer =>
      let (buffer, samples) := session.samples.setText buffer text
      ({ session with samples }.store handle buffer, [])
    | none => (session, [])
  | .refresh key source handle =>
    match session.buffer? handle with
    | some buffer =>
      let (_, highlighter, shown) := session.highlighter.refresh session.samples key source buffer
      ({ session with highlighter }, shown)
    | none => (session, [])
  | .publish key report handle captured =>
    match session.buffer? handle with
    | some buffer =>
      let (highlighter, shown) := session.highlighter.publish key report buffer.stamp captured
      ({ session with highlighter }, shown)
    | none => (session, [])
  | .forget key => ({ session with highlighter := session.highlighter.forget key }, [])
  | .drop => ({ session with highlighter := session.highlighter.reset }, [])
  | .advance time =>
    let (highlighter, shown) := session.highlighter.advance session.samples time
    ({ session with highlighter }, shown)

def next (step : Step κ) : Session κ := (session.perform step).1

def shows (step : Step κ) (key : κ) : List (Highlight κ) :=
  Highlighter.shownFor key (session.perform step).2

def after (steps : List (Step κ)) : Session κ := steps.foldl next session

def shown (session : Session κ) (steps : List (Step κ)) (key : κ) : List (Highlight κ) :=
  match steps with
  | [] => []
  | step :: steps => session.shows step key ++ (session.next step).shown steps key

@[simp] theorem after_concat (steps : List (Step κ)) (step : Step κ) :
    session.after (steps ++ [step]) = (session.after steps).next step := by
  simp [after]

/-- What a step does to a highlighter. -/
inductive Effect (session : Session κ) (step : Step κ) : Prop where
  | published (publication : Publication κ) (found : session.publication? step = some publication)
    (time : publication.time = session.highlighter.now)
    (effect : session.highlighter.publish publication.key publication.report publication.stamp
      publication.captured = ((session.next step).highlighter, (session.perform step).2))
  | forgot (key : κ) (found : step = .forget key)
    (effect : session.highlighter.forget key = (session.next step).highlighter)
    (silent : (session.perform step).2 = [])
  | dropped (found : step = .drop)
    (effect : session.highlighter.reset = (session.next step).highlighter)
    (silent : (session.perform step).2 = [])
  | advanced (time : Nat) (found : step = .advance time)
    (effect : session.highlighter.advance session.samples time =
      ((session.next step).highlighter, (session.perform step).2))
  | quiet (unpublished : session.publication? step = none) (plain : step.drives = false)
    (effect : session.highlighter = (session.next step).highlighter)
    (silent : (session.perform step).2 = [])

theorem highlighter_store (handle : Handle κ) (buffer : Buffer) :
    (session.store handle buffer).highlighter = session.highlighter := by
  cases handle <;> rfl

theorem effect (step : Step κ) : session.Effect step := by
  cases step with
  | attach key | update key text | release key | create name text => exact .quiet rfl rfl rfl rfl
  | hold name handle | setText handle text =>
    cases found : session.buffer? handle <;> refine .quiet rfl rfl ?_ ?_ <;>
      simp [next, perform, found, highlighter_store]
  | refresh key source handle | publish key report handle captured =>
    cases found : session.buffer? handle with
    | some buffer =>
      refine .published _ (by rw [publication?, found, Option.map_some]) rfl ?_
      simp [next, perform, found, Highlighter.refresh]
    | none => refine .quiet ?_ rfl ?_ ?_ <;> simp [next, perform, publication?, found]
  | forget key => exact .forgot key rfl rfl rfl
  | drop => exact .dropped rfl rfl rfl
  | advance time => exact .advanced time rfl rfl

end Session
end GrammarDesk
