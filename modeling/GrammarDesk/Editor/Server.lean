import GrammarDesk.Editor.Finding
import GrammarDesk.Live.Highlighter
import GrammarDesk.Uri.Basic

/-! The grammar documents of an editor, each with an optional sample. A call
from the editor becomes a task, and a task runs in segments: between two of
them other tasks may run, except that the samples belong to one task at a time
from the segment that takes them to the one that gives them back. -/
namespace GrammarDesk

inductive Notice where
  | findings (uri : Uri) (version : Option Int) (findings : List Finding)
  | highlight (highlight : Highlight Uri)
deriving Repr, Inhabited

structure Server where
  limits : Limits := {}
  documents : List (Uri × Text) := []
  samples : Samples Uri := {}
  highlighter : Highlighter Uri := {}
deriving Repr, Inhabited

inductive Task where
  | store (uri : Uri) (text : Text) (version : Int)
  /-- Publishes the findings of the text that it stored. -/
  | publish (uri : Uri) (text : Text) (version : Int)
  /-- Takes the samples to match the document's own again, if it has one. -/
  | rematch (uri : Uri)
  /-- Matches a buffer against the stored grammar; gives the samples back. -/
  | refresh (uri : Uri) (buffer : Buffer)
  /-- Takes the samples to change one. -/
  | sample (uri : Uri) (text : Text)
  | resample (uri : Uri) (text : Text)
  | remove (uri : Uri)
  /-- Takes the samples, releases that of the document and gives them back. -/
  | release (uri : Uri)
  /-- Tells the editor that a closed document has no findings. -/
  | clear (uri : Uri)
deriving Repr, Inhabited

namespace Task

/-- Whether the next segment has to wait until no other task has the samples. -/
def takesSamples : Task → Bool
  | rematch _ | sample .. | release _ => true
  | _ => false

/-- Whether the task has the samples between its segments. -/
def hasSamples : Task → Bool
  | refresh .. | resample .. => true
  | _ => false

def segments : Task → Nat
  | store .. => 4
  | publish .. => 3
  | rematch _ => 2
  | refresh .. => 1
  | sample .. => 2
  | resample .. => 1
  | remove _ => 3
  | release _ => 2
  | clear _ => 1

end Task

namespace Server

def document? (server : Server) (uri : Uri) : Option Text := server.documents.lookup uri

def putDocument (server : Server) (uri : Uri) (text : Text) : Server :=
  { server with documents := (uri, text) :: server.documents.filter (·.1 ≠ uri) }

def removeDocument (server : Server) (uri : Uri) : Server :=
  { server with documents := server.documents.filter (·.1 ≠ uri) }

def highlight (server : Server) (uri : Uri) (source : Text) (buffer : Buffer) :
    Server × List Notice :=
  let (_, highlighter, shown) := server.highlighter.refresh server.samples uri source buffer
  ({ server with highlighter }, shown.map .highlight)

/-- One segment of a task, and the task that remains. -/
def resume (server : Server) : Task → Server × List Notice × Option Task
  | .store uri text version => (server.putDocument uri text, [], some (.publish uri text version))
  | .publish uri text version =>
    (server, [.findings uri (some version) (Finding.collect server.limits text)],
      some (.rematch uri))
  | .rematch uri => (server, [], (server.samples.get? uri).map (.refresh uri))
  | .refresh uri buffer =>
    match server.document? uri with
    | some source =>
      let (server, notices) := server.highlight uri source buffer
      (server, notices, none)
    | none => (server, [], none)
  | .sample uri text => (server, [], some (.resample uri text))
  | .resample uri text =>
    let source := (server.document? uri).getD []
    let (buffer, samples) := server.samples.update uri text
    let (server, notices) := { server with samples }.highlight uri source buffer
    (server, notices, none)
  | .remove uri => (server.removeDocument uri, [], some (.release uri))
  | .release uri =>
    let (_, samples) := server.samples.release uri
    let highlighter := server.highlighter.forget uri
    ({ server with samples, highlighter }, [], some (.clear uri))
  | .clear uri => (server, [.findings uri none []], none)

theorem segments_resume (server : Server) (task rest : Task)
    (h : (server.resume task).2.2 = some rest) : rest.segments < task.segments := by
  cases task <;> simp only [resume] at h
  case rematch uri =>
    obtain ⟨buffer, _, rfl⟩ := Option.map_eq_some_iff.mp h
    exact Nat.lt_add_one 1
  case refresh uri buffer => split at h <;> simp at h
  all_goals first | (simp only [Option.some.injEq] at h; subst h; simp [Task.segments]) | simp at h

def perform (server : Server) (task : Task) : Server × List Notice :=
  match _h : server.resume task with
  | (server, notices, none) => (server, notices)
  | (server, notices, some rest) =>
    let (server, later) := perform server rest
    (server, notices ++ later)
termination_by task.segments
decreasing_by exact segments_resume _ _ _ (by rw [_h])

/-- A call from the editor. Of several changes only the last counts. -/
inductive Call where
  | opened (uri : Uri) (text : Text) (version : Int)
  | changed (uri : Uri) (texts : List Text) (version : Int)
  | closed (uri : Uri)
  | sampled (uri : Uri) (text : Text)
deriving Repr, Inhabited

def Call.task? : Call → Option Task
  | opened uri text version => some (.store uri text version)
  | changed uri texts version => texts.getLast?.map fun text => .store uri text version
  | closed uri => some (.remove uri)
  | sampled uri text => some (.sample uri text)

def settle (server : Server) : Server × List Notice :=
  let (highlighter, shown) := server.highlighter.settle server.samples
  ({ server with highlighter }, shown.map .highlight)

def handle (server : Server) (call : Call) : Server × List Notice :=
  let (server, notices) := match call.task? with
    | some task => server.perform task
    | none => (server, [])
  let (server, later) := server.settle
  (server, notices ++ later)

def elapse (server : Server) (time : Nat) : Server × List Notice :=
  { server with highlighter := server.highlighter.elapse time }.settle

def complete (server : Server) (uri : Uri) (place : Place) :
    Except CompletionError (Option (List Text)) :=
  match server.document? uri with
  | some text => return some (← Completion.atPlace text place)
  | none => return none

end Server
end GrammarDesk
