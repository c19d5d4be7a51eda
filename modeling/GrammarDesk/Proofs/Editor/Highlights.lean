import GrammarDesk.Proofs.Editor.Interleaving
import Mathlib.Data.List.Induction

/-! No highlight is lost. Whatever the order in which the tasks of several calls
run, a document whose stored text differs from the one that its sample was last
matched with still has a task that will match it again or detach the sample. -/
namespace GrammarDesk

def Task.rematches (uri : Uri) : Task → Bool
  | publish other _ _ | rematch other | refresh other _ => other = uri
  | _ => false

namespace Server

section

variable {first second : List (Highlight Uri)} {uri : Uri} {phase : Phase}

theorem lastShown?_append
    (silent : (Highlighter.shownFor uri second).filter (·.phase = phase) = []) :
    lastShown? (first ++ second) uri phase = lastShown? first uri phase := by
  simp [lastShown?, silent]

theorem lastShown?_concat {time : Nat} {segments : List Segment}
    (shown : Highlighter.shownFor uri second = [⟨time, uri, phase, segments⟩]) :
    lastShown? (first ++ second) uri phase = some segments := by
  simp [lastShown?, shown]

theorem lastShown?_publish (highlighter : Highlighter Uri) (uri : Uri) (report : Report)
    (stamp : Stamp) (captured : Nat) :
    lastShown? (first ++ (highlighter.publish uri report stamp captured).2) uri .matched =
        some report.matched ∧
      lastShown? (first ++ (highlighter.publish uri report stamp captured).2) uri .unmatched =
        some [] := by
  simp [lastShown?, Highlighter.shownFor_publish]

end

namespace Pool

variable {pool changed : Pool} {uri : Uri} {source : Text} {buffer : Buffer} {report : Report}

/-- A sample that was matched against a text need not be matched again, or some
task will see to it. -/
inductive Current (pool : Pool) (uri : Uri) (source : Text) : Prop where
  | stored (same : source = (pool.server.document? uri).getD [])
  | rematched (stored : pool.server.document? uri ≠ none) (task : Task)
    (member : task ∈ pool.tasks) (rematches : task.rematches uri = true)
  | released (member : .release uri ∈ pool.tasks)

theorem Current.congr (current : pool.Current uri source)
    (document : changed.server.document? uri = pool.server.document? uri)
    (tasks : pool.tasks ⊆ changed.tasks) : changed.Current uri source := by
  cases current with
  | stored same => exact .stored (by rw [document, same])
  | rematched stored task member rematches =>
    exact .rematched (by rwa [document]) task (tasks member) rematches
  | released member => exact .released (tasks member)

/-- The highlights of a document are those of a report, except that its
unmatched segments may still wait. -/
structure Displays (pool : Pool) (uri : Uri) (buffer : Buffer) (report : Report) : Prop where
  matched : lastShown? pool.highlights uri .matched = some report.matched
  unmatched : (pool.server.highlighter.pendingFor uri = [] ∧
      lastShown? pool.highlights uri .unmatched = some report.unmatched) ∨
    ∃ due ≤ pool.server.highlighter.now + pool.server.highlighter.debounce,
      pool.server.highlighter.pendingFor uri = [⟨uri, due, buffer.stamp,
        pool.server.samples.version buffer.stamp, report.unmatched⟩]

/-- No update of a document's highlights is lost. -/
structure Fresh (pool : Pool) (uri : Uri) : Prop where
  idle : pool.server.samples.get? uri = none → pool.server.highlighter.pendingFor uri = []
  displayed : ∀ buffer, pool.server.samples.get? uri = some buffer → ∃ source,
    pool.lastRefresh? uri = some ⟨uri, source, buffer.text⟩ ∧ pool.Current uri source ∧
      pool.Displays uri buffer (Report.compute source buffer.text)

theorem highlights_deliver (pool : Pool) (notices : List Notice) :
    (pool.deliver notices).highlights =
      pool.highlights ++ notices.filterMap Notice.highlight? := by
  have findings : (notices.filter (·.highlight?.isNone)).filterMap Notice.highlight? = [] := by
    rw [List.filterMap_eq_nil_iff]
    intro notice member
    simpa using (List.mem_filter.mp member).2
  rw [highlights, highlights, deliver, List.filterMap_append, findings, List.append_nil,
    List.append_assoc]

theorem Fresh.transfer (fresh : pool.Fresh uri)
    (sample : changed.server.samples.get? uri = pool.server.samples.get? uri)
    (version : ∀ buffer, pool.server.samples.get? uri = some buffer →
      changed.server.samples.version buffer.stamp = pool.server.samples.version buffer.stamp)
    (waiting : changed.server.highlighter.pendingFor uri =
      pool.server.highlighter.pendingFor uri)
    (clock : changed.server.highlighter.now = pool.server.highlighter.now ∧
      changed.server.highlighter.debounce = pool.server.highlighter.debounce)
    (last : changed.lastRefresh? uri = pool.lastRefresh? uri)
    (silent : ∀ phase, lastShown? changed.highlights uri phase =
      lastShown? pool.highlights uri phase)
    (current : ∀ buffer, pool.server.samples.get? uri = some buffer →
      ∀ source, pool.Current uri source → changed.Current uri source) :
    changed.Fresh uri := by
  refine ⟨fun detached => ?_, fun buffer held => ?_⟩
  · rw [waiting]
    exact fresh.idle (sample ▸ detached)
  · rw [sample] at held
    obtain ⟨source, refreshed, up, displays⟩ := fresh.displayed buffer held
    refine ⟨source, last.trans refreshed, current buffer held source up, ?_, ?_⟩
    · rw [silent, displays.matched]
    · rw [silent, waiting, clock.1, clock.2, version buffer held]
      exact displays.unmatched

section

variable {front back : List Task} {task : Task}

theorem mem_resumed (split : pool.tasks = front ++ task :: back) {other : Task}
    (member : other ∈ pool.tasks) :
    other = task ∨ other ∈ (pool.resumed front task back).tasks := by
  rw [split, List.mem_append, List.mem_cons] at member
  rw [tasks_resumed, List.mem_append, List.mem_append]
  rcases member with member | rfl | member
  · exact Or.inr (Or.inl member)
  · exact Or.inl rfl
  · exact Or.inr (Or.inr (Or.inr member))

theorem rest_mem_resumed {rest : Task} (remains : (pool.server.resume task).2.2 = some rest) :
    rest ∈ (pool.resumed front task back).tasks := by
  simp [tasks_resumed, remains]

theorem highlights_resumed : (pool.resumed front task back).highlights =
    pool.highlights ++ (pool.server.resume task).2.1.filterMap Notice.highlight? :=
  highlights_deliver _ _

theorem lastRefresh?_resumed (silent : ∀ refresh, pool.server.refresh? task = some refresh →
      refresh.uri ≠ uri) :
    (pool.resumed front task back).lastRefresh? uri = pool.lastRefresh? uri := by
  change ((pool.refreshes ++ (pool.server.refresh? task).toList).filter _).getLast? = _
  cases found : pool.server.refresh? task with
  | none => rw [Option.toList_none, List.append_nil, lastRefresh?]
  | some refresh => simp [lastRefresh?, silent refresh found]

theorem lastRefresh?_resumed_of_some {refresh : Refresh}
    (found : pool.server.refresh? task = some refresh) :
    (pool.resumed front task back).lastRefresh? refresh.uri = some refresh := by
  change ((pool.refreshes ++ (pool.server.refresh? task).toList).filter _).getLast? = _
  simp [found]

theorem Fresh.resumed_highlight {server : Server}
    (resumes : pool.server.resume task = ((server.highlight uri source buffer).1,
      (server.highlight uri source buffer).2, none))
    (held : server.samples.get? uri = some buffer)
    (stored : source = (server.document? uri).getD [])
    (matched : pool.server.refresh? task = some ⟨uri, source, buffer.text⟩) :
    (pool.resumed front task back).Fresh uri := by
  obtain ⟨shown, cleared⟩ := lastShown?_publish server.highlighter uri
    (Report.compute source buffer.text) buffer.stamp (server.samples.version buffer.stamp)
  have log : (pool.resumed front task back).highlights = pool.highlights ++
      (server.highlighter.publish uri (Report.compute source buffer.text) buffer.stamp
        (server.samples.version buffer.stamp)).2 := by
    rw [highlights_resumed, resumes, highlight_eq, filterMap_highlight?]
  have waiting := server.highlighter.pendingFor_publish uri (Report.compute source buffer.text)
    buffer.stamp (server.samples.version buffer.stamp) uri
  have clock := server.highlighter.now_publish uri (Report.compute source buffer.text)
    buffer.stamp (server.samples.version buffer.stamp)
  have delay := server.highlighter.debounce_publish uri (Report.compute source buffer.text)
    buffer.stamp (server.samples.version buffer.stamp)
  rw [if_pos rfl] at waiting
  refine ⟨fun detached => ?_, fun other found => ?_⟩
  · rw [server_resumed, resumes] at detached
    exact absurd (held.symm.trans detached) (by simp)
  · rw [server_resumed, resumes] at found
    cases held.symm.trans found
    refine ⟨source, lastRefresh?_resumed_of_some matched, .stored ?_, ?_, ?_⟩
    · rw [server_resumed, resumes]
      exact stored
    · rw [log, shown]
    · rw [log, server_resumed, resumes, highlight_eq]
      dsimp only
      rw [waiting, clock, delay]
      unfold Highlighter.delayed
      split
      · rename_i clean
        rw [clean]
        exact Or.inl ⟨rfl, cleared⟩
      · exact Or.inr ⟨_, Nat.le_refl _, rfl⟩

theorem Current.resumed (current : pool.Current uri source)
    (split : pool.tasks = front ++ task :: back)
    (document : (pool.server.resume task).1.document? uri = pool.server.document? uri)
    (continues : task.rematches uri = true → pool.server.document? uri ≠ none →
      ∃ rest, (pool.server.resume task).2.2 = some rest ∧ rest.rematches uri = true)
    (keeps : task ≠ .release uri) : (pool.resumed front task back).Current uri source := by
  cases current with
  | stored same => exact .stored (by rw [server_resumed, document, same])
  | rematched stored other member rematches =>
    have stored' : (pool.resumed front task back).server.document? uri ≠ none := by
      rwa [server_resumed, document]
    rcases mem_resumed split member with rfl | kept
    · obtain ⟨rest, remains, again⟩ := continues rematches stored
      exact .rematched stored' rest (rest_mem_resumed remains) again
    · exact .rematched stored' other kept rematches
  | released member =>
    exact .released ((mem_resumed split member).resolve_left (Ne.symm keeps))

theorem Fresh.resumed_other (fresh : pool.Fresh uri) (locked : pool.Locked)
    (split : pool.tasks = front ++ task :: back) (distinct : uri ≠ task.uri) :
    (pool.resumed front task back).Fresh uri := by
  obtain ⟨untouched, silent⟩ := untouched_resume locked.apart distinct
  refine fresh.transfer untouched.sample untouched.version untouched.waiting
    (clock_resume pool.server task) (lastRefresh?_resumed fun refresh found same => ?_)
    (fun phase => ?_) fun buffer held source current => ?_
  · refine distinct (same.symm.trans ?_)
    cases task with
    | refresh other buffer =>
      obtain ⟨source, -, rfl⟩ := Option.map_eq_some_iff.mp found
      rfl
    | resample other text =>
      cases found
      rfl
    | store | publish | rematch | sample | remove | release | clear => cases found
  · rw [highlights_resumed]
    exact lastShown?_append (by rw [silent, List.filter_nil])
  · refine current.resumed split untouched.document (fun rematches _ => ?_) ?_
    · cases task with
      | publish other _ _ | rematch other | refresh other _ =>
        exact absurd (of_decide_eq_true rematches).symm distinct
      | store | sample | resample | remove | release | clear => cases rematches
    · rintro rfl
      exact distinct rfl

theorem Fresh.resumed_still (fresh : pool.Fresh uri)
    (samples : (pool.server.resume task).1.samples = pool.server.samples)
    (highlighter : (pool.server.resume task).1.highlighter = pool.server.highlighter)
    (silent : (pool.server.resume task).2.1.filterMap Notice.highlight? = [])
    (unmatched : pool.server.refresh? task = none)
    (current : ∀ buffer, pool.server.samples.get? uri = some buffer → ∀ source,
      pool.Current uri source → (pool.resumed front task back).Current uri source) :
    (pool.resumed front task back).Fresh uri := by
  refine fresh.transfer ?_ (fun buffer _ => ?_) ?_ ?_ (lastRefresh?_resumed ?_) (fun phase => ?_)
    current
  · rw [server_resumed, samples]
  · rw [server_resumed, samples]
  · rw [server_resumed, highlighter]
  · rw [server_resumed, highlighter]
    exact ⟨rfl, rfl⟩
  · simp [unmatched]
  · rw [highlights_resumed, silent, List.append_nil]

theorem Fresh.resumed_own (fresh : pool.Fresh task.uri) (locked : pool.Locked)
    (split : pool.tasks = front ++ task :: back) :
    (pool.resumed front task back).Fresh task.uri := by
  -- The document is shown anew by a match only. All other segments leave what is shown
  -- and see to it that a task remains for a text that has not been matched.
  cases task with
  | store uri text version =>
    refine fresh.resumed_still rfl rfl rfl rfl fun buffer held source current => ?_
    refine .rematched ?_ (.publish uri text version) (rest_mem_resumed rfl) (decide_eq_true rfl)
    rw [server_resumed]
    simp [resume, document?_putDocument, Task.uri]
  | publish uri text version =>
    refine fresh.resumed_still rfl rfl rfl rfl fun buffer held source current => ?_
    exact current.resumed split rfl (fun _ _ => ⟨_, rfl, decide_eq_true rfl⟩) (by simp)
  | rematch uri =>
    refine fresh.resumed_still rfl rfl rfl rfl fun buffer held source current => ?_
    refine current.resumed split rfl (fun _ _ => ⟨.refresh uri buffer, ?_, decide_eq_true rfl⟩)
      (by simp)
    exact congrArg (Option.map _) held
  | refresh uri buffer =>
    have held : pool.server.samples.get? uri = some buffer :=
      locked.holds uri buffer (by rw [split]; simp)
    cases stored : pool.server.document? uri with
    | some source =>
      have resumes : pool.server.resume (.refresh uri buffer) =
          ((pool.server.highlight uri source buffer).1,
            (pool.server.highlight uri source buffer).2, none) := by
        rw [resume, stored]
      have matched : pool.server.refresh? (.refresh uri buffer) =
          some ⟨uri, source, buffer.text⟩ := by
        rw [refresh?, stored, Option.map_some]
      have current : source = (pool.server.document? uri).getD [] := by
        rw [stored, Option.getD_some]
      exact Fresh.resumed_highlight resumes held current matched
    | none =>
      have resumes : pool.server.resume (.refresh uri buffer) = (pool.server, [], none) := by
        rw [resume, stored]
      have unmatched : pool.server.refresh? (.refresh uri buffer) = none := by
        rw [refresh?, stored, Option.map_none]
      refine fresh.resumed_still (by rw [resumes]) (by rw [resumes]) (by rw [resumes]; rfl)
        unmatched fun _ _ source current => ?_
      exact current.resumed split (by rw [resumes]) (fun _ missing => absurd stored missing)
        (by simp)
  | sample uri text =>
    refine fresh.resumed_still rfl rfl rfl rfl fun buffer held source current => ?_
    exact current.resumed split rfl (by simp [Task.rematches]) (by simp)
  | resample uri text =>
    let updated : Server := { pool.server with samples := (pool.server.samples.update uri text).2 }
    have held : updated.samples.get? uri = some (pool.server.samples.update uri text).1 :=
      (pool.server.samples.get?_update uri uri text).trans (if_pos rfl)
    have resumes : pool.server.resume (.resample uri text) =
        ((updated.highlight uri ((pool.server.document? uri).getD [])
            (pool.server.samples.update uri text).1).1,
          (updated.highlight uri ((pool.server.document? uri).getD [])
            (pool.server.samples.update uri text).1).2, none) := rfl
    exact Fresh.resumed_highlight resumes held rfl rfl
  | remove uri =>
    refine fresh.resumed_still rfl rfl rfl rfl fun buffer held source current => ?_
    exact .released (rest_mem_resumed rfl)
  | release uri =>
    refine ⟨fun _ => ?_, fun buffer held => ?_⟩
    · exact (pool.server.highlighter.pendingFor_forget uri uri).trans (if_pos rfl)
    · rw [server_resumed] at held
      have gone := pool.server.samples.get?_release uri uri
      rw [if_pos rfl] at gone
      exact absurd (held.symm.trans gone) (by simp)
  | clear uri =>
    refine fresh.resumed_still rfl rfl rfl rfl fun buffer held source current => ?_
    exact current.resumed split rfl (by simp [Task.rematches]) (by simp)

end

theorem highlights_settled : pool.settled.highlights = pool.highlights ++
    (pool.server.highlighter.advance pool.server.samples 0).2 := by
  refine (highlights_deliver _ _).trans (congrArg _ ?_)
  exact filterMap_highlight? _

theorem pendingFor_settled (pool : Pool) (uri : Uri) :
    pool.settled.server.highlighter.pendingFor uri =
      (pool.server.highlighter.pendingFor uri).filter (pool.server.highlighter.now < ·.due) :=
  pool.server.highlighter.pendingFor_advance pool.server.samples 0 uri

theorem Displays.settled (displays : pool.Displays uri buffer report) :
    pool.settled.Displays uri buffer report := by
  have waiting := pendingFor_settled pool uri
  have shown := pool.server.highlighter.shownFor_advance pool.server.samples 0 uri
  have clock := pool.server.highlighter.now_advance pool.server.samples 0
  have delay := pool.server.highlighter.debounce_advance pool.server.samples 0
  rw [Nat.add_zero] at shown clock
  obtain ⟨matched, ⟨none, unmatched⟩ | ⟨due, within, waits⟩⟩ := displays
  · rw [none, List.filter_nil] at waiting shown
    refine ⟨?_, Or.inl ⟨waiting, ?_⟩⟩
    · rw [highlights_settled, lastShown?_append (by rw [shown]; rfl), matched]
    · rw [highlights_settled, lastShown?_append (by rw [shown]; rfl), unmatched]
  · rw [waits] at waiting shown
    by_cases reached : due ≤ pool.server.highlighter.now
    · rw [List.filter_cons_of_pos (by simpa using reached), List.filter_nil, List.filterMap_cons,
        List.filterMap_nil, Highlighter.Delayed.show?, if_pos rfl] at shown
      refine ⟨?_, Or.inl ⟨?_, ?_⟩⟩
      · rw [highlights_settled, lastShown?_append (by rw [shown]; rfl), matched]
      · rw [waiting]
        simpa using reached
      · rw [highlights_settled, lastShown?_concat shown]
    · refine ⟨?_, Or.inr ⟨due, ?_, ?_⟩⟩
      · rw [highlights_settled, lastShown?_append (by rw [shown]; simp [reached]), matched]
      · rw [server_settled, clock, delay]
        exact within
      · rw [waiting, List.filter_cons_of_pos (by simpa using reached), List.filter_nil]
        rfl

theorem Fresh.settled (fresh : pool.Fresh uri) : pool.settled.Fresh uri := by
  refine ⟨fun detached => ?_, fun buffer held => ?_⟩
  · rw [pendingFor_settled, fresh.idle detached, List.filter_nil]
  · obtain ⟨source, last, current, displays⟩ := fresh.displayed buffer held
    exact ⟨source, last, current.congr rfl (List.Subset.refl _), displays.settled⟩

theorem Fresh.elapsed (fresh : pool.Fresh uri) (time : Nat) : (pool.elapsed time).Fresh uri := by
  refine ⟨fresh.idle, fun buffer held => ?_⟩
  obtain ⟨source, last, current, matched, unmatched⟩ := fresh.displayed buffer held
  refine ⟨source, last, current.congr rfl (List.Subset.refl _), matched, unmatched.imp_right ?_⟩
  rintro ⟨due, within, waits⟩
  refine ⟨due, Nat.le_trans within ?_, waits⟩
  simp [Pool.elapsed, Highlighter.elapse]

theorem highlights_forward {highlight : Highlight Uri} {queue : List (Highlight Uri)}
    (waits : pool.queue = highlight :: queue) :
    ({ pool with queue, sent := pool.sent ++ [.highlight highlight] } : Pool).highlights =
      pool.highlights := by
  simp [highlights, waits, Notice.highlight?]

theorem Fresh.perform (fresh : pool.Fresh uri) (locked : pool.Locked) (step : Step) :
    (pool.perform step).Fresh uri := by
  cases step with
  | start call =>
    exact fresh.transfer rfl (fun _ _ => rfl) rfl ⟨rfl, rfl⟩ rfl (fun _ => rfl)
      fun _ _ _ current => current.congr rfl (List.subset_append_left _ _)
  | resume index =>
    simp only [Pool.perform]
    split
    · rename_i task found
      split
      · by_cases own : uri = task.uri
        · subst own
          exact fresh.resumed_own locked (split_tasks found)
        · exact fresh.resumed_other locked (split_tasks found) own
      · exact fresh
    · exact fresh
  | elapse time => exact fresh.elapsed time
  | settle => exact fresh.settled
  | forward =>
    simp only [Pool.perform]
    split
    · rename_i highlight queue waits
      exact fresh.transfer rfl (fun _ _ => rfl) rfl ⟨rfl, rfl⟩ rfl
        (fun phase => by rw [highlights_forward waits])
        fun _ _ _ current => current.congr rfl (List.Subset.refl _)
    · exact fresh

theorem fresh_after (limits : Limits) (debounce : Nat) (steps : List Step) :
    ((start limits debounce).after steps).Locked ∧
      ∀ uri, ((start limits debounce).after steps).Fresh uri := by
  induction steps using List.reverseRecOn with
  | nil => exact ⟨locked_start limits debounce, fun uri => ⟨fun _ => rfl, nofun⟩⟩
  | append_singleton steps step ih =>
    obtain ⟨locked, fresh⟩ := ih
    rw [after, List.foldl_append, List.foldl_cons, List.foldl_nil]
    exact ⟨locked.perform step, fun uri => (fresh uri).perform locked step⟩

end Pool
end Server
end GrammarDesk
