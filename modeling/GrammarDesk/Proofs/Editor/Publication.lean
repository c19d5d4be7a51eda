import GrammarDesk.Proofs.Editor.Interleaving
import Mathlib

/-! Findings that reach the editor while calls are under way together. A call
publishes in another segment than the one that stores or removes the text, so
the last findings are those of the stored text if no other call publishes after
the one that wrote the document last has. Without that they need not be. -/
namespace GrammarDesk

def Notice.findingsFor? (uri : Uri) : Notice → Option (List Finding)
  | .findings other _ found => if other = uri then some found else none
  | .highlight _ => none

namespace Task

/-- Whether the next segment stores or removes the text of a document. -/
def writes (uri : Uri) : Task → Bool
  | store other _ _ => other = uri
  | remove other => other = uri
  | _ => false

def publishes (uri : Uri) : Task → Bool
  | publish other _ _ => other = uri
  | clear other => other = uri
  | _ => false

end Task

namespace Server

def Call.Edits (uri : Uri) (call : Call) : Prop :=
  ∃ task, call.task? = some task ∧ task.writes uri = true

/-- The findings that an editor was last told of a document. -/
def lastFindings? (sent : List Notice) (uri : Uri) : Option (List Finding) :=
  (sent.filterMap (Notice.findingsFor? uri)).getLast?

/-- The findings of the text that is stored for a document; none without one. -/
def findings (server : Server) (uri : Uri) : List Finding :=
  ((server.document? uri).map (Finding.collect server.limits)).getD []

/-- A task that has written a document still has to publish what is stored now. -/
def Announces (server : Server) (uri : Uri) : Task → Prop
  | .publish other text _ => other = uri ∧ server.document? uri = some text
  | .release other => other = uri ∧ server.document? uri = none
  | .clear other => other = uri ∧ server.document? uri = none
  | _ => False

section

variable {server : Server} {uri : Uri} {task : Task}

theorem limits_resume (server : Server) (task : Task) :
    (server.resume task).1.limits = server.limits := by
  cases task with
  | refresh uri buffer =>
    rw [resume]
    cases server.document? uri <;> rfl
  | _ => rfl

theorem document?_resume (quiet : task.writes uri = false) :
    (server.resume task).1.document? uri = server.document? uri := by
  cases task with
  | store other text version =>
    have other_uri : uri ≠ other := fun same => by simp [Task.writes, same] at quiet
    rw [resume, document?_putDocument, if_neg other_uri]
  | remove other =>
    have other_uri : uri ≠ other := fun same => by simp [Task.writes, same] at quiet
    rw [resume, document?_removeDocument, if_neg other_uri]
  | refresh other buffer =>
    rw [resume]
    cases server.document? other <;> rfl
  | _ => rfl

theorem findings_resume (quiet : task.writes uri = false) :
    (server.resume task).1.findings uri = server.findings uri := by
  rw [findings, findings, document?_resume quiet, limits_resume]

theorem filterMap_findingsFor?_resume (silent : task.publishes uri = false) :
    (server.resume task).2.1.filterMap (Notice.findingsFor? uri) = [] := by
  have shown (highlights : List (Highlight Uri)) :
      (highlights.map Notice.highlight).filterMap (Notice.findingsFor? uri) = [] := by
    simp [List.filterMap_map, Notice.findingsFor?, Function.comp_def]
  cases task with
  | publish other text version =>
    have other_uri : other ≠ uri := by simpa [Task.publishes] using silent
    simp [resume, Notice.findingsFor?, other_uri]
  | clear other =>
    have other_uri : other ≠ uri := by simpa [Task.publishes] using silent
    simp [resume, Notice.findingsFor?, other_uri]
  | refresh other buffer =>
    rw [resume]
    cases server.document? other with
    | some source => exact shown _
    | none => rfl
  | resample other text => exact shown _
  | _ => rfl

theorem announces_of_writes (writes : task.writes uri = true) : ∃ rest,
    (server.resume task).2.2 = some rest ∧ (server.resume task).1.Announces uri rest := by
  cases task with
  | store other text version =>
    have same : other = uri := by simpa [Task.writes] using writes
    subst same
    exact ⟨_, rfl, rfl, by rw [resume, document?_putDocument, if_pos rfl]⟩
  | remove other =>
    have same : other = uri := by simpa [Task.writes] using writes
    subst same
    exact ⟨_, rfl, rfl, by rw [resume, document?_removeDocument, if_pos rfl]⟩
  | _ => cases writes

theorem Announces.congr {later : Server} (announces : server.Announces uri task)
    (same : later.document? uri = server.document? uri) : later.Announces uri task := by
  cases task with
  | publish other text version => exact ⟨announces.1, same.trans announces.2⟩
  | release other => exact ⟨announces.1, same.trans announces.2⟩
  | clear other => exact ⟨announces.1, same.trans announces.2⟩
  | _ => cases announces

/-- What is announced is published in the end: at once, or by what remains. -/
theorem Announces.resume (announces : server.Announces uri task) :
    if task.publishes uri = true then
      (server.resume task).2.1.filterMap (Notice.findingsFor? uri) = [server.findings uri]
    else ∃ rest, (server.resume task).2.2 = some rest ∧
      (server.resume task).1.Announces uri rest := by
  cases task with
  | publish other text version =>
    obtain ⟨rfl, stored⟩ := announces
    simp [Task.publishes, Server.resume, Notice.findingsFor?, findings, stored]
  | release other =>
    obtain ⟨rfl, removed⟩ := announces
    exact ⟨_, rfl, rfl, removed⟩
  | clear other =>
    obtain ⟨rfl, removed⟩ := announces
    simp [Task.publishes, Server.resume, Notice.findingsFor?, findings, removed]
  | _ => cases announces

end

/-- How far the task is that wrote a document last: at its place among the tasks
it still has to publish, or it has; then another may have published after it. -/
inductive Turn where
  | unwritten
  | pending (place : Nat)
  | published
  | overtaken
deriving DecidableEq

/-- Where a task is after a segment of the one at `index`, which leaves its place
when nothing of it remains. -/
def moved (index : Nat) (rest : Option Task) (place : Nat) : Nat :=
  if rest.isNone ∧ index < place then place - 1 else place

namespace Turn

def resumed (uri : Uri) (index : Nat) (task : Task) (rest : Option Task) (turn : Turn) : Turn :=
  if task.writes uri then .pending index
  else match turn with
    | .pending place =>
      if place = index ∧ task.publishes uri then .published else .pending (moved index rest place)
    | .published => if task.publishes uri then .overtaken else .published
    | .unwritten => .unwritten
    | .overtaken => .overtaken

def next (uri : Uri) (pool : Pool) (turn : Turn) : Pool.Step → Turn
  | .resume index =>
    match pool.tasks[index]? with
    | some task =>
      if pool.ready task then turn.resumed uri index task (pool.server.resume task).2.2 else turn
    | none => turn
  | _ => turn

def after (uri : Uri) (pool : Pool) (turn : Turn) : List Pool.Step → Turn
  | [] => turn
  | step :: steps => after uri (pool.perform step) (turn.next uri pool step) steps

/-- What a turn says of the document and of the findings that were sent. -/
def Holds (uri : Uri) (pool : Pool) : Turn → Prop
  | .pending place => ∃ task, pool.tasks[place]? = some task ∧ pool.server.Announces uri task
  | .published => lastFindings? pool.sent uri = some (pool.server.findings uri)
  | .unwritten => True
  | .overtaken => True

end Turn

namespace Pool

variable {pool : Pool} {uri : Uri}

theorem lastFindings?_deliver (pool : Pool) (uri : Uri) (notices : List Notice) :
    lastFindings? (pool.deliver notices).sent uri =
      (notices.filterMap (Notice.findingsFor? uri)).getLast?.or (lastFindings? pool.sent uri) := by
  have kept : (notices.filter (·.highlight?.isNone)).filterMap (Notice.findingsFor? uri) =
      notices.filterMap (Notice.findingsFor? uri) := by
    rw [List.filterMap_filter]
    refine congrArg (notices.filterMap ·) (funext fun notice => ?_)
    cases notice <;> simp [Notice.highlight?, Notice.findingsFor?]
  rw [lastFindings?, deliver, List.filterMap_append, kept, List.getLast?_append]
  rfl

theorem lastFindings?_resumed {front back : List Task} {task : Task} :
    lastFindings? (pool.resumed front task back).sent uri =
      ((pool.server.resume task).2.1.filterMap (Notice.findingsFor? uri)).getLast?.or
        (lastFindings? pool.sent uri) :=
  lastFindings?_deliver pool uri (pool.server.resume task).2.1

section Resumed

variable {index place : Nat} {task : Task}

theorem getElem?_resumed_self (found : pool.tasks[index]? = some task) {rest : Task}
    (remains : (pool.server.resume task).2.2 = some rest) :
    (pool.resumed (pool.tasks.take index) task (pool.tasks.drop (index + 1))).tasks[index]? =
      some rest := by
  have inside := (List.getElem?_eq_some_iff.mp found).1
  have front : (pool.tasks.take index).length = index := by
    rw [List.length_take, Nat.min_eq_left (Nat.le_of_lt inside)]
  rw [tasks_resumed, List.getElem?_append_right (Nat.le_of_eq front), front, Nat.sub_self, remains]
  rfl

theorem getElem?_resumed_other (found : pool.tasks[index]? = some task) (other : place ≠ index) :
    (pool.resumed (pool.tasks.take index) task (pool.tasks.drop (index + 1))).tasks[
        moved index (pool.server.resume task).2.2 place]? = pool.tasks[place]? := by
  have inside := (List.getElem?_eq_some_iff.mp found).1
  have front : (pool.tasks.take index).length = index := by
    rw [List.length_take, Nat.min_eq_left (Nat.le_of_lt inside)]
  rw [tasks_resumed, moved]
  rcases Nat.lt_or_gt_of_ne other with before | behind
  · rw [if_neg (by omega), List.getElem?_append_left (by omega), List.getElem?_take_of_lt before]
  · cases (pool.server.resume task).2.2 with
    | none =>
      rw [if_pos ⟨rfl, behind⟩, List.getElem?_append_right (by omega), front, Option.toList_none,
        List.nil_append, List.getElem?_drop]
      exact congrArg (pool.tasks[·]?) (by omega)
    | some rest =>
      rw [if_neg (by simp), List.getElem?_append_right (by omega), front, Option.toList_some,
        List.singleton_append, List.getElem?_cons, if_neg (by omega), List.getElem?_drop]
      exact congrArg (pool.tasks[·]?) (by omega)

theorem holds_resumed {turn : Turn} (holds : turn.Holds uri pool)
    (found : pool.tasks[index]? = some task) :
    (turn.resumed uri index task (pool.server.resume task).2.2).Holds uri
      (pool.resumed (pool.tasks.take index) task (pool.tasks.drop (index + 1))) := by
  unfold Turn.resumed
  -- A writer takes over. Any other segment is either the one that publishes for the last
  -- writer, or one of its other segments, or one of another task, which may publish too.
  by_cases writes : task.writes uri = true
  · obtain ⟨rest, remains, announces⟩ := announces_of_writes writes
    rw [if_pos writes]
    exact ⟨rest, getElem?_resumed_self found remains, announces⟩
  · rw [if_neg writes]
    have quiet : task.writes uri = false := Bool.eq_false_iff.mpr writes
    cases turn with
    | unwritten | overtaken => trivial
    | pending place =>
      obtain ⟨writer, here, announces⟩ := holds
      dsimp only
      by_cases same : place = index
      · subst same
        cases found.symm.trans here
        have published := announces.resume
        split
        · rename_i publishes
          rw [if_pos publishes.2] at published
          rw [Turn.Holds, lastFindings?_resumed, published, server_resumed, findings_resume quiet]
          rfl
        · rename_i silent
          rw [if_neg fun publishes => silent ⟨rfl, publishes⟩] at published
          obtain ⟨rest, remains, announces⟩ := published
          refine ⟨rest, ?_, announces⟩
          rw [moved, if_neg (by omega)]
          exact getElem?_resumed_self found remains
      · rw [if_neg fun both => same both.1]
        exact ⟨writer, (getElem?_resumed_other found same).trans here,
          announces.congr (document?_resume quiet)⟩
    | published =>
      dsimp only
      split
      · trivial
      · rename_i silent
        rw [Bool.not_eq_true] at silent
        rw [Turn.Holds, lastFindings?_resumed, filterMap_findingsFor?_resume silent,
          server_resumed, findings_resume quiet]
        exact holds

end Resumed

end Pool

namespace Turn

variable {pool : Pool} {uri : Uri}

theorem Holds.still {turn : Turn} {later : Pool} (holds : turn.Holds uri pool)
    (tasks : pool.tasks <+: later.tasks) (server : later.server.findings uri =
      pool.server.findings uri) (document : later.server.document? uri = pool.server.document? uri)
    (sent : lastFindings? later.sent uri = lastFindings? pool.sent uri) :
    turn.Holds uri later := by
  cases turn with
  | unwritten | overtaken => trivial
  | pending place =>
    obtain ⟨writer, here, announces⟩ := holds
    obtain ⟨more, same⟩ := tasks
    refine ⟨writer, ?_, announces.congr document⟩
    rw [← same, List.getElem?_append_left (List.getElem?_eq_some_iff.mp here).1, here]
  | published => exact sent.trans (holds.trans (congrArg some server.symm))

theorem Holds.perform {turn : Turn} (holds : turn.Holds uri pool) (step : Pool.Step) :
    (turn.next uri pool step).Holds uri (pool.perform step) := by
  cases step with
  | start call => exact holds.still (List.prefix_append ..) rfl rfl rfl
  | resume index =>
    simp only [next, Pool.perform]
    cases found : pool.tasks[index]? with
    | none => exact holds
    | some task =>
      dsimp only
      split
      · exact Pool.holds_resumed holds found
      · exact holds
  | elapse time => exact holds.still List.prefix_rfl rfl rfl rfl
  | settle =>
    refine holds.still List.prefix_rfl rfl rfl ?_
    have delivered := pool.lastFindings?_deliver uri pool.server.settle.2
    have shown : pool.server.settle.2.filterMap (Notice.findingsFor? uri) = [] := by
      simp [Server.settle, List.filterMap_map, Notice.findingsFor?, Function.comp_def]
    rw [shown] at delivered
    exact delivered
  | forward =>
    simp only [Pool.perform]
    split
    · refine holds.still List.prefix_rfl rfl rfl ?_
      simp [lastFindings?, Notice.findingsFor?]
    · exact holds

theorem Holds.after {turn : Turn} (holds : turn.Holds uri pool) (steps : List Pool.Step) :
    (turn.after uri pool steps).Holds uri (pool.after steps) := by
  induction steps generalizing pool turn with
  | nil => exact holds
  | cons step steps ih => exact ih (holds.perform step)

/-- A document has been written, or a task is there to write it. -/
def Begun (uri : Uri) (pool : Pool) (turn : Turn) : Prop :=
  turn ≠ .unwritten ∨ ∃ task ∈ pool.tasks, task.writes uri = true

theorem Begun.still {turn : Turn} {later : Pool} (begun : turn.Begun uri pool)
    (tasks : pool.tasks <+: later.tasks) : turn.Begun uri later :=
  begun.imp_right fun ⟨task, member, writes⟩ => ⟨task, tasks.subset member, writes⟩

theorem begun_start (turn : Turn) {call : Call} (edits : call.Edits uri) :
    (turn.next uri pool (.start call)).Begun uri (pool.perform (.start call)) := by
  obtain ⟨task, starts, writes⟩ := edits
  exact .inr ⟨task, by simp [Pool.perform, starts], writes⟩

theorem resumed_ne_unwritten {turn : Turn} (written : turn ≠ .unwritten) (index : Nat)
    (task : Task) (rest : Option Task) : turn.resumed uri index task rest ≠ .unwritten := by
  unfold resumed
  split
  · nofun
  · cases turn with
    | unwritten => exact absurd rfl written
    | pending | published =>
      dsimp only
      split <;> nofun
    | overtaken => nofun

theorem Begun.perform {turn : Turn} (begun : turn.Begun uri pool) (step : Pool.Step) :
    (turn.next uri pool step).Begun uri (pool.perform step) := by
  cases step with
  | start call => exact begun.still (List.prefix_append ..)
  | resume index =>
    simp only [next, Pool.perform]
    cases found : pool.tasks[index]? with
    | none => exact begun
    | some task =>
      dsimp only
      split
      · rcases begun with written | ⟨other, member, writes⟩
        · exact .inl (resumed_ne_unwritten written index task _)
        · by_cases same : task.writes uri = true
          · exact .inl (by simp [resumed, same])
          · refine .inr ⟨other, ?_, writes⟩
            rw [Pool.split_tasks found, List.mem_append, List.mem_cons] at member
            rw [Pool.tasks_resumed, List.mem_append, List.mem_append]
            rcases member with front | rfl | back
            · exact .inl front
            · exact absurd writes same
            · exact .inr (.inr back)
      · exact begun
  | elapse time | settle => exact begun.still List.prefix_rfl
  | forward =>
    simp only [Pool.perform]
    split
    · exact begun.still List.prefix_rfl
    · exact begun

theorem Begun.after {turn : Turn} (begun : turn.Begun uri pool) (steps : List Pool.Step) :
    (turn.after uri pool steps).Begun uri (pool.after steps) := by
  induction steps generalizing pool turn with
  | nil => exact begun
  | cons step steps ih => exact ih (begun.perform step)

theorem begun_after (turn : Turn) {call : Call} (edits : call.Edits uri) {steps : List Pool.Step}
    (member : .start call ∈ steps) : (turn.after uri pool steps).Begun uri (pool.after steps) := by
  induction steps generalizing pool turn with
  | nil => cases member
  | cons step steps ih =>
    rcases List.mem_cons.mp member with rfl | member
    · exact (begun_start turn edits).after steps
    · exact ih _ member

theorem eq_published {turn : Turn} (holds : turn.Holds uri pool) (begun : turn.Begun uri pool)
    (done : pool.tasks = []) (last : turn ≠ .overtaken) : turn = .published := by
  cases turn with
  | published => rfl
  | overtaken => exact absurd rfl last
  | unwritten =>
    rcases begun with written | ⟨task, member, -⟩
    · exact absurd rfl written
    · rw [done] at member
      cases member
  | pending place =>
    obtain ⟨task, found, -⟩ := holds
    rw [done] at found
    cases found

end Turn

namespace Pool

theorem limits_perform (pool : Pool) (step : Step) :
    (pool.perform step).server.limits = pool.server.limits := by
  cases step with
  | start call | elapse time | settle => rfl
  | resume index =>
    simp only [perform]
    split
    · split
      · exact limits_resume pool.server _
      · rfl
    · rfl
  | forward =>
    simp only [perform]
    split <;> rfl

theorem limits_after (pool : Pool) (steps : List Step) :
    (pool.after steps).server.limits = pool.server.limits := by
  induction steps generalizing pool with
  | nil => rfl
  | cons step steps ih => exact (ih _).trans (limits_perform pool step)

/-- However the calls have taken turns, once all of them are done the last
findings of a document that was edited are those of its text, or none at all
without one, unless another call published after the one that wrote it last. -/
theorem findings_current (limits : Limits) (debounce : Nat) (steps : List Step) (uri : Uri)
    (done : ((start limits debounce).after steps).tasks = [])
    (edited : ∃ call, .start call ∈ steps ∧ call.Edits uri)
    (last : Turn.unwritten.after uri (start limits debounce) steps ≠ .overtaken) :
    let pool := (start limits debounce).after steps
    lastFindings? pool.sent uri =
      some (((pool.server.document? uri).map (Finding.collect limits)).getD []) := by
  intro pool
  obtain ⟨call, member, edits⟩ := edited
  have initial : Turn.unwritten.Holds uri (start limits debounce) := trivial
  have holds : (Turn.unwritten.after uri (start limits debounce) steps).Holds uri pool :=
    initial.after steps
  rw [Turn.eq_published holds (Turn.begun_after _ edits member) done last] at holds
  have same : pool.server.limits = limits := limits_after (start limits debounce) steps
  rw [Turn.Holds, findings, same] at holds
  exact holds

/-- A document is changed while its first text has not been published. -/
def pipelined : List Step :=
  [.start (.opened "u" ['s', '='] 1), .resume 0, .start (.changed "u" [['s', '=', 't']] 2),
    .resume 1, .resume 0, .resume 1, .resume 0, .resume 0]

theorem findings_current_pipelined :
    ((start {} 1000).after pipelined).tasks = [] ∧
      (∃ call, .start call ∈ pipelined ∧ call.Edits "u") ∧
      Turn.unwritten.after "u" (start {} 1000) pipelined ≠ .overtaken ∧
      lastFindings? ((start {} 1000).after pipelined).sent "u" =
        some (Finding.collect {} ['s', '=', 't']) := by
  have done : ((start {} 1000).after pipelined).tasks = [] := by cbv
  have edited : ∃ call, .start call ∈ pipelined ∧ call.Edits "u" :=
    ⟨.opened "u" ['s', '='] 1, List.mem_cons_self, _, rfl, by decide⟩
  have turn : Turn.unwritten.after "u" (start {} 1000) pipelined = .published := by cbv
  have last : Turn.unwritten.after "u" (start {} 1000) pipelined ≠ .overtaken := by
    rw [turn]
    decide
  exact ⟨done, edited, last, findings_current {} 1000 pipelined "u" done edited last⟩

/-- A document is opened again while closing it has to wait. -/
def reopened : List Step :=
  [.start (.closed "u"), .resume 0, .start (.opened "u" ['s', '=', 't'] 1), .resume 1, .resume 1,
    .resume 1, .resume 0, .resume 0]

/-- Findings of a document that is open are taken back by the call that closed it
before. A change without a text publishes nothing at all. -/
theorem findings_taken_back :
    (((start {} 1000).after reopened).tasks = [] ∧
      ((start {} 1000).after reopened).server.document? "u" = some ['s', '=', 't'] ∧
      lastFindings? ((start {} 1000).after reopened).sent "u" = some [] ∧
      Finding.collect {} ['s', '=', 't'] ≠ []) ∧
    ((start {} 1000).after [.start (.changed "u" [] 1)]).tasks = [] ∧
      ((start {} 1000).after [.start (.changed "u" [] 1)]).server.document? "u" = none ∧
      lastFindings? ((start {} 1000).after [.start (.changed "u" [] 1)]).sent "u" = none := by
  have shown : (Finding.collect {} ['s', '=', 't']).length = 2 := by cbv
  refine ⟨⟨by cbv, by cbv, by cbv, fun none => ?_⟩, by cbv, by cbv, by cbv⟩
  rw [none] at shown
  cases shown

end Pool

end Server
end GrammarDesk
