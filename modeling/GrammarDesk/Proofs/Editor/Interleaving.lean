import GrammarDesk.Editor.Server
import GrammarDesk.Proofs.Live.Highlighter
import GrammarDesk.Proofs.Live.Samples

/-! Calls that are under way together. Their tasks run segment by segment in
any order, but for the samples, which a task can only take while no other has
them; a lock that is fair allows fewer runs than that. Highlights reach the
editor through a queue. -/
namespace GrammarDesk

def Notice.highlight? : Notice → Option (Highlight Uri)
  | .highlight shown => some shown
  | .findings _ _ _ => none

namespace Server

/-- A match of a sample against the text that was found for its document. -/
structure Refresh where
  uri : Uri
  source : Text
  sample : Text
deriving DecidableEq, Repr

def refresh? (server : Server) : Task → Option Refresh
  | .refresh uri buffer => (server.document? uri).map fun source => ⟨uri, source, buffer.text⟩
  | .resample uri text => some ⟨uri, (server.document? uri).getD [], text⟩
  | _ => none

/-- A server at work; `refreshes` is its history. -/
structure Pool where
  server : Server := {}
  tasks : List Task := []
  refreshes : List Refresh := []
  queue : List (Highlight Uri) := []
  sent : List Notice := []

namespace Pool

inductive Step where
  | start (call : Call)
  | resume (index : Nat)
  | elapse (time : Nat)
  /-- Delayed work that is due runs, perhaps late. -/
  | settle
  /-- The first highlight of the queue goes to the editor. -/
  | forward

def start (limits : Limits) (debounce : Nat) : Pool :=
  { server := { limits, highlighter := { debounce } } }

variable (pool : Pool)

def ready (task : Task) : Bool := !task.takesSamples || pool.tasks.all (!·.hasSamples)

/-- Sends findings, and puts highlights at the end of the queue. -/
def deliver (notices : List Notice) : Pool :=
  { pool with
    queue := pool.queue ++ notices.filterMap Notice.highlight?
    sent := pool.sent ++ notices.filter (·.highlight?.isNone) }

def resumed (front : List Task) (task : Task) (back : List Task) : Pool :=
  let (server, notices, rest) := pool.server.resume task
  { pool with
    server
    tasks := front ++ (rest.toList ++ back)
    refreshes := pool.refreshes ++ (pool.server.refresh? task).toList }.deliver notices

def elapsed (time : Nat) : Pool :=
  { pool with
    server := { pool.server with highlighter := pool.server.highlighter.elapse time } }

def settled : Pool :=
  let (server, notices) := pool.server.settle
  { pool with server }.deliver notices

/-- A step that cannot be taken changes nothing. -/
def perform : Step → Pool
  | .start call => { pool with tasks := pool.tasks ++ call.task?.toList }
  | .resume index =>
    match pool.tasks[index]? with
    | some task =>
      if pool.ready task then
        pool.resumed (pool.tasks.take index) task (pool.tasks.drop (index + 1))
      else pool
    | none => pool
  | .elapse time => pool.elapsed time
  | .settle => pool.settled
  | .forward =>
    match pool.queue with
    | highlight :: queue => { pool with queue, sent := pool.sent ++ [.highlight highlight] }
    | [] => pool

def after (steps : List Step) : Pool := steps.foldl perform pool

/-- All highlights so far, those in the queue included. -/
def highlights : List (Highlight Uri) := pool.sent.filterMap Notice.highlight? ++ pool.queue

def lastRefresh? (uri : Uri) : Option Refresh :=
  (pool.refreshes.filter (·.uri = uri)).getLast?

end Pool

def lastShown? (highlights : List (Highlight Uri)) (uri : Uri) (phase : Phase) :
    Option (List Segment) :=
  ((Highlighter.shownFor uri highlights).filter (·.phase = phase)).getLast?.map (·.segments)

end Server

def Task.uri : Task → Uri
  | store uri _ _ | publish uri _ _ | rematch uri | refresh uri _ | sample uri _ | resample uri _
  | remove uri | release uri | clear uri => uri

namespace Server

theorem document?_putDocument (server : Server) (uri other : Uri) (text : Text) :
    (server.putDocument uri text).document? other =
      if other = uri then some text else server.document? other := by
  rw [document?, putDocument, List.lookup_cons, lookup_filter]
  by_cases same : other = uri
  · simp [same]
  · simp [same, beq_eq_false_iff_ne.mpr same, document?]

theorem document?_removeDocument (server : Server) (uri other : Uri) :
    (server.removeDocument uri).document? other =
      if other = uri then none else server.document? other :=
  lookup_filter server.documents uri other

structure Untouched (uri : Uri) (before after : Server) : Prop where
  document : after.document? uri = before.document? uri
  sample : after.samples.get? uri = before.samples.get? uri
  version : ∀ buffer, before.samples.get? uri = some buffer →
    after.samples.version buffer.stamp = before.samples.version buffer.stamp
  waiting : after.highlighter.pendingFor uri = before.highlighter.pendingFor uri

section

variable {server : Server} {uri : Uri}

theorem Untouched.refl : Untouched uri server server := ⟨rfl, rfl, fun _ _ => rfl, rfl⟩

theorem highlight_eq (server : Server) (uri : Uri) (source : Text) (buffer : Buffer) :
    server.highlight uri source buffer =
      let published := server.highlighter.publish uri (Report.compute source buffer.text)
        buffer.stamp (server.samples.version buffer.stamp)
      ({ server with highlighter := published.1 }, published.2.map .highlight) := rfl

theorem filterMap_highlight? (highlights : List (Highlight Uri)) :
    (highlights.map Notice.highlight).filterMap Notice.highlight? = highlights := by
  rw [List.filterMap_map]
  exact List.filterMap_some

theorem untouched_highlight (server : Server) {other : Uri} (distinct : other ≠ uri)
    (source : Text) (buffer : Buffer) :
    Untouched other server (server.highlight uri source buffer).1 ∧
      Highlighter.shownFor other
        ((server.highlight uri source buffer).2.filterMap Notice.highlight?) = [] := by
  rw [highlight_eq, filterMap_highlight?]
  refine ⟨⟨rfl, rfl, fun _ _ => rfl, ?_⟩, ?_⟩
  · rw [Highlighter.pendingFor_publish, if_neg distinct]
  · rw [Highlighter.shownFor_publish, if_neg distinct]

theorem untouched_resume (apart : server.samples.Apart) {task : Task} {other : Uri}
    (distinct : other ≠ task.uri) : Untouched other server (server.resume task).1 ∧
      Highlighter.shownFor other
        ((server.resume task).2.1.filterMap Notice.highlight?) = [] := by
  cases task with
  | store uri text version =>
    refine ⟨⟨?_, rfl, fun _ _ => rfl, rfl⟩, rfl⟩
    exact (document?_putDocument server uri other text).trans (if_neg distinct)
  | publish uri text version | rematch uri | sample uri text | clear uri => exact ⟨.refl, rfl⟩
  | refresh uri buffer =>
    rw [resume]
    cases server.document? uri with
    | some source => exact untouched_highlight server distinct source buffer
    | none => exact ⟨.refl, rfl⟩
  | resample uri text =>
    have distinct : other ≠ uri := distinct
    obtain ⟨⟨document, sample, version, waiting⟩, silent⟩ :=
      untouched_highlight { server with samples := (server.samples.update uri text).2 } distinct
        ((server.document? uri).getD []) (server.samples.update uri text).1
    have others : (server.samples.update uri text).2.get? other = server.samples.get? other := by
      rw [Samples.get?_update, if_neg distinct]
    refine ⟨⟨document, sample.trans others, fun buffer held => ?_, waiting⟩, silent⟩
    exact (version buffer (others.trans held)).trans (apart.version_update held distinct text)
  | remove uri =>
    refine ⟨⟨?_, rfl, fun _ _ => rfl, rfl⟩, rfl⟩
    exact (document?_removeDocument server uri other).trans (if_neg distinct)
  | release uri =>
    refine ⟨⟨rfl, ?_, fun buffer held => apart.version_release held distinct, ?_⟩, rfl⟩
    · exact (server.samples.get?_release uri other).trans (if_neg distinct)
    · exact (server.highlighter.pendingFor_forget uri other).trans (if_neg distinct)

theorem clock_resume (server : Server) (task : Task) :
    (server.resume task).1.highlighter.now = server.highlighter.now ∧
      (server.resume task).1.highlighter.debounce = server.highlighter.debounce := by
  cases task with
  | store uri text version | publish uri text version | rematch uri | sample uri text | remove uri
  | release uri | clear uri => exact ⟨rfl, rfl⟩
  | refresh uri buffer =>
    rw [resume]
    cases server.document? uri with
    | some source =>
      exact ⟨Highlighter.now_publish .., Highlighter.debounce_publish ..⟩
    | none => exact ⟨rfl, rfl⟩
  | resample uri text => exact ⟨Highlighter.now_publish .., Highlighter.debounce_publish ..⟩

theorem samples_resume (server : Server) {task : Task} (without : task.takesSamples = false)
    (leaves : task.hasSamples = false) : (server.resume task).1.samples = server.samples := by
  cases task with
  | store uri text version | publish uri text version | remove uri | clear uri => rfl
  | rematch uri | sample uri text | release uri => cases without
  | refresh uri buffer | resample uri text => cases leaves

theorem apart_resume (apart : server.samples.Apart) (task : Task) :
    (server.resume task).1.samples.Apart := by
  cases task with
  | store uri text version | publish uri text version | rematch uri | sample uri text | remove uri
  | clear uri => exact apart
  | refresh uri buffer =>
    rw [resume]
    cases server.document? uri <;> exact apart
  | resample uri text => exact apart.update uri text
  | release uri => exact apart.release uri

/-- A task has the samples after a segment that takes them, and gives them back
with the next one. -/
theorem hasSamples_rest {task rest : Task} (remains : (server.resume task).2.2 = some rest)
    (has : rest.hasSamples = true) : task.takesSamples = true := by
  cases task with
  | rematch uri | sample uri text | release uri => rfl
  | store uri text version | publish uri text version | remove uri =>
    cases remains
    cases has
  | clear uri | resample uri text => cases remains
  | refresh uri buffer =>
    rw [resume] at remains
    cases found : server.document? uri <;> simp [found] at remains

theorem rest_refresh {task : Task} {buffer : Buffer}
    (remains : (server.resume task).2.2 = some (.refresh uri buffer)) :
    (server.resume task).1.samples.get? uri = some buffer := by
  cases task with
  | rematch other =>
    obtain ⟨held, found, same⟩ := Option.map_eq_some_iff.mp remains
    cases same
    exact found
  | store uri text version | publish uri text version | remove uri | sample uri text
  | release uri => cases remains
  | clear uri | resample uri text => cases remains
  | refresh uri buffer =>
    rw [resume] at remains
    cases found : server.document? uri <;> simp [found] at remains

end

namespace Pool

variable {pool : Pool} {front back : List Task} {task : Task}

theorem tasks_resumed : (pool.resumed front task back).tasks =
    front ++ ((pool.server.resume task).2.2.toList ++ back) := rfl

theorem server_resumed :
    (pool.resumed front task back).server = (pool.server.resume task).1 := rfl

theorem split_tasks {index : Nat} (found : pool.tasks[index]? = some task) :
    pool.tasks = pool.tasks.take index ++ task :: pool.tasks.drop (index + 1) := by
  obtain ⟨inside, rfl⟩ := List.getElem?_eq_some_iff.mp found
  rw [List.getElem_cons_drop, List.take_append_drop]

/-- At most one task has the samples, with the buffer that is attached. -/
structure Locked (pool : Pool) : Prop where
  apart : pool.server.samples.Apart
  single : pool.tasks.countP Task.hasSamples ≤ 1
  holds : ∀ uri buffer, Task.refresh uri buffer ∈ pool.tasks →
    pool.server.samples.get? uri = some buffer

theorem Locked.resumed (locked : pool.Locked) (split : pool.tasks = front ++ task :: back)
    (ready : pool.ready task = true) : (pool.resumed front task back).Locked := by
  have single := locked.single
  rw [split, List.countP_append, List.countP_cons] at single
  -- A task that needs the samples is alone with them.
  have alone : task.takesSamples = true → (front ++ back).countP Task.hasSamples = 0 := by
    intro takes
    have free : ∀ other ∈ pool.tasks, other.hasSamples = false := by
      simpa [Pool.ready, takes] using ready
    rw [split] at free
    refine List.countP_eq_zero.mpr fun other member => ?_
    have kept : other ∈ front ++ task :: back := by
      rcases List.mem_append.mp member with member | member <;> simp [member]
    simp [free other kept]
  rw [List.countP_append] at alone
  refine ⟨apart_resume locked.apart task, ?_, fun uri buffer member => ?_⟩
  · rw [tasks_resumed, List.countP_append, List.countP_append]
    cases remains : (pool.server.resume task).2.2 with
    | none =>
      simp only [Option.toList_none, List.countP_nil]
      omega
    | some rest =>
      rw [Option.toList_some, List.countP_singleton]
      split
      · rename_i has
        have empty := alone (hasSamples_rest remains has)
        omega
      · omega
  · -- Another task that has the samples is the only one to have them.
    have other : Task.refresh uri buffer ∈ front ++ back →
        (pool.server.resume task).1.samples.get? uri = some buffer := by
      intro member
      have has_samples : 0 < (front ++ back).countP Task.hasSamples :=
        List.countP_pos_iff.mpr ⟨_, member, rfl⟩
      rw [List.countP_append] at has_samples
      have without : task.takesSamples = false := by
        cases takes : task.takesSamples with
        | false => rfl
        | true => exact absurd (alone takes) (by omega)
      have leaves : task.hasSamples = false := by
        cases has : task.hasSamples with
        | false => rfl
        | true =>
          rw [if_pos has] at single
          omega
      rw [samples_resume pool.server without leaves]
      refine locked.holds uri buffer ?_
      rw [split]
      rcases List.mem_append.mp member with member | member <;> simp [member]
    rw [tasks_resumed, List.mem_append, List.mem_append, Option.mem_toList] at member
    rcases member with member | remains | member
    · exact other (List.mem_append_left _ member)
    · exact rest_refresh remains
    · exact other (List.mem_append_right _ member)

theorem server_settled (pool : Pool) : pool.settled.server =
    { pool.server with
      highlighter := (pool.server.highlighter.advance pool.server.samples 0).1 } := rfl

theorem locked_start (limits : Limits) (debounce : Nat) : (start limits debounce).Locked :=
  ⟨⟨nofun, nofun⟩, Nat.zero_le 1, nofun⟩

theorem hasSamples_task {call : Call} {task : Task} (starts : call.task? = some task) :
    task.hasSamples = false := by
  cases call with
  | opened uri text version | closed uri | sampled uri text =>
    cases starts
    rfl
  | changed uri texts version =>
    obtain ⟨text, -, rfl⟩ := Option.map_eq_some_iff.mp starts
    rfl

theorem Locked.perform (locked : pool.Locked) (step : Step) : (pool.perform step).Locked := by
  cases step with
  | start call =>
    cases starts : call.task? with
    | none =>
      simp only [Pool.perform, starts, Option.toList_none, List.append_nil]
      exact locked
    | some task =>
      have without := hasSamples_task starts
      simp only [Pool.perform, starts, Option.toList_some]
      refine ⟨locked.apart, ?_, fun uri buffer member => locked.holds uri buffer ?_⟩
      · simpa [without] using locked.single
      · refine (List.mem_append.mp member).resolve_right fun same => ?_
        rw [← List.mem_singleton.mp same] at without
        cases without
  | resume index =>
    simp only [Pool.perform]
    split
    · rename_i task found
      split
      · rename_i ready
        exact locked.resumed (split_tasks found) ready
      · exact locked
    · exact locked
  | elapse time | settle => exact ⟨locked.apart, locked.single, locked.holds⟩
  | forward =>
    simp only [Pool.perform]
    split
    · exact ⟨locked.apart, locked.single, locked.holds⟩
    · exact locked

end Pool
end Server
end GrammarDesk
