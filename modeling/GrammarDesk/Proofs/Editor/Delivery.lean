import GrammarDesk.Proofs.Editor.Highlights
import Mathlib

/-! What the editor has been sent once all calls are done and the delay is
over: of each sample the report against the text that is stored now. -/
namespace GrammarDesk

namespace Server

namespace Pool

def Step.time : Step → Nat
  | elapse time => time
  | start _ | resume _ | settle | forward => 0

/-- A pool without tasks, some time later and with no call in between. -/
structure Rests (pool : Pool) (time : Nat) (later : Pool) : Prop where
  tasks : later.tasks = []
  documents : later.server.documents = pool.server.documents
  samples : later.server.samples = pool.server.samples
  clock : later.server.highlighter.now = pool.server.highlighter.now + time
  waiting : ∀ uri, later.server.highlighter.pendingFor uri ⊆
    pool.server.highlighter.pendingFor uri

theorem Rests.perform {pool later : Pool} {time : Nat} (rests : pool.Rests time later) {step : Step}
    (calm : ∀ call, step ≠ .start call) : pool.Rests (time + step.time) (later.perform step) := by
  cases step with
  | start call => exact absurd rfl (calm call)
  | resume index =>
    have same : later.perform (.resume index) = later := by
      simp [Pool.perform, rests.tasks]
    rw [same]
    exact rests
  | elapse more =>
    refine ⟨rests.tasks, rests.documents, rests.samples, ?_, rests.waiting⟩
    rw [Step.time, ← Nat.add_assoc, ← rests.clock]
    rfl
  | settle =>
    refine ⟨rests.tasks, rests.documents, rests.samples, ?_, fun uri work member => ?_⟩
    · rw [Step.time, Nat.add_zero, ← rests.clock]
      exact later.server.highlighter.now_advance later.server.samples 0
    · rw [Pool.perform, pendingFor_settled] at member
      exact rests.waiting uri (List.mem_filter.mp member).1
  | forward =>
    simp only [Pool.perform]
    split
    · exact ⟨rests.tasks, rests.documents, rests.samples, rests.clock, rests.waiting⟩
    · exact rests

theorem rests_after {pool : Pool} (done : pool.tasks = []) {steps : List Step}
    (calm : ∀ call, .start call ∉ steps) :
    pool.Rests (steps.map Step.time).sum (pool.after steps) := by
  induction steps using List.reverseRecOn with
  | nil => exact ⟨done, rfl, rfl, rfl, fun _ => List.Subset.refl _⟩
  | append_singleton steps step ih =>
    have rests := ih fun call member => calm call (List.mem_append_left _ member)
    have next : pool.Rests _ ((pool.after steps).perform step) :=
      rests.perform fun call same => calm call (by simp [same])
    simpa [after] using next

theorem rests_after_pause {pool : Pool} (done : pool.tasks = []) {pause rest : List Step}
    (calm : ∀ call, .start call ∉ pause ++ rest) {uri : Uri}
    (due : ∀ work ∈ pool.server.highlighter.pendingFor uri,
      work.due ≤ pool.server.highlighter.now + (pause.map Step.time).sum) :
    let later := pool.after (pause ++ .settle :: rest)
    later.tasks = [] ∧ later.server.documents = pool.server.documents ∧
      later.server.samples = pool.server.samples ∧
      later.server.highlighter.pendingFor uri = [] := by
  intro later
  have paused := rests_after done fun call member => calm call (List.mem_append_left _ member)
  have settled : pool.Rests _ ((pool.after pause).perform .settle) := paused.perform nofun
  have rests := rests_after settled.tasks fun call member =>
    calm call (List.mem_append_right _ member)
  rw [show ((pool.after pause).perform .settle).after rest = later by
    simp [later, after]] at rests
  refine ⟨rests.tasks, rests.documents.trans settled.documents,
    rests.samples.trans settled.samples, ?_⟩
  have empty : ((pool.after pause).perform .settle).server.highlighter.pendingFor uri = [] := by
    rw [Pool.perform, pendingFor_settled, List.filter_eq_nil_iff]
    intro work member
    have reached := due work (paused.waiting uri member)
    rw [← paused.clock] at reached
    simpa using reached
  exact List.subset_nil.mp (empty ▸ rests.waiting uri)

theorem debounce_after (limits : Limits) (debounce : Nat) (steps : List Step) :
    ((start limits debounce).after steps).server.highlighter.debounce = debounce := by
  induction steps using List.reverseRecOn with
  | nil => rfl
  | append_singleton steps step ih =>
    rw [after, List.foldl_append, List.foldl_cons, List.foldl_nil, ← after]
    refine Eq.trans ?_ ih
    generalize (start limits debounce).after steps = pool
    cases step with
    | start call => rfl
    | resume index =>
      simp only [perform]
      split
      · split
        · exact (clock_resume pool.server _).2
        · rfl
      · rfl
    | elapse time | settle => rfl
    | forward =>
      simp only [perform]
      split <;> rfl

theorem Displays.sent {pool : Pool} {uri : Uri} {buffer : Buffer} {report : Report}
    (displays : pool.Displays uri buffer report)
    (none : pool.server.highlighter.pendingFor uri = []) (forwarded : pool.queue = []) :
    lastShown? (pool.sent.filterMap Notice.highlight?) uri .matched = some report.matched ∧
      lastShown? (pool.sent.filterMap Notice.highlight?) uri .unmatched =
        some report.unmatched := by
  have log : pool.highlights = pool.sent.filterMap Notice.highlight? := by
    rw [highlights, forwarded, List.append_nil]
  rw [← log]
  obtain ⟨matched, ⟨-, unmatched⟩ | ⟨due, -, waits⟩⟩ := displays
  · exact ⟨matched, unmatched⟩
  · rw [none] at waits
    cases waits

/-- No update is lost, however the tasks of the calls have taken turns. With all
of them done, a document without a sample has nothing that waits; a sample was
last matched with the text that is stored, and after the delay the highlights
that were sent for it are the two parts of that match. -/
theorem highlights_delivered (limits : Limits) (debounce : Nat) (steps : List Step)
    (done : ((start limits debounce).after steps).tasks = []) (uri : Uri) :
    let pool := (start limits debounce).after steps
    (pool.server.samples.get? uri = none → pool.server.highlighter.hasPending uri = false) ∧
      ∀ buffer, pool.server.samples.get? uri = some buffer →
        let source := (pool.server.document? uri).getD []
        let report := Report.compute source buffer.text
        pool.lastRefresh? uri = some ⟨uri, source, buffer.text⟩ ∧
          ∀ pause rest : List Step, (∀ call, .start call ∉ pause ++ rest) →
            debounce ≤ (pause.map Step.time).sum →
            let later := pool.after (pause ++ .settle :: rest)
            later.queue = [] →
              lastShown? (later.sent.filterMap Notice.highlight?) uri .matched =
                  some report.matched ∧
                lastShown? (later.sent.filterMap Notice.highlight?) uri .unmatched =
                  some report.unmatched := by
  intro pool
  have fresh := (fresh_after limits debounce steps).2 uri
  have delay := debounce_after limits debounce steps
  -- A match that is out of date would need a task.
  have current : ∀ later : Pool, later.tasks = [] → ∀ source, later.Current uri source →
      source = (later.server.document? uri).getD [] := by
    intro later idle source current
    cases current with
    | stored same => exact same
    | rematched stored task member rematches => simp [idle] at member
    | released member => simp [idle] at member
  refine ⟨fun detached => ?_, fun buffer held => ?_⟩
  · have none := fresh.idle detached
    simpa [Bool.eq_false_iff, Highlighter.hasPending_iff] using none
  · obtain ⟨source, last, up, displays⟩ := fresh.displayed buffer held
    have same := current pool done source up
    subst same
    refine ⟨last, fun pause rest calm long => ?_⟩
    intro later forwarded
    have due : ∀ work ∈ pool.server.highlighter.pendingFor uri,
        work.due ≤ pool.server.highlighter.now + (pause.map Step.time).sum := by
      intro work member
      rcases displays.unmatched with ⟨none, -⟩ | ⟨due, within, waits⟩
      · rw [none] at member
        cases member
      · rw [waits, List.mem_singleton] at member
        subst member
        rw [delay] at within
        exact Nat.le_trans within (Nat.add_le_add_left long _)
    obtain ⟨idle, documents, samples, none⟩ := rests_after_pause done calm due
    have fresh := (fresh_after limits debounce (steps ++ (pause ++ .settle :: rest))).2 uri
    rw [show (start limits debounce).after (steps ++ (pause ++ .settle :: rest)) = later from
      List.foldl_append] at fresh
    obtain ⟨source, -, up, shown⟩ := fresh.displayed buffer (by rw [samples]; exact held)
    have same := current later idle source up
    rw [show later.server.document? uri = pool.server.document? uri from
      congrArg (List.lookup uri) documents] at same
    subst same
    exact shown.sent none forwarded

/-- A document is opened while its sample is being changed. -/
def overlapping : List Step :=
  [.start (.sampled "u" ['b']), .resume 0, .start (.opened "u" ['s', '=', 't'] 1), .resume 1,
    .resume 0, .resume 0, .resume 0, .resume 0]

theorem highlights_delivered_overlapping :
    ((start {} 1000).after overlapping).tasks = [] ∧
      let later := ((start {} 1000).after overlapping).after
        ([.elapse 1000] ++ .settle :: List.replicate 5 .forward)
      lastShown? (later.sent.filterMap Notice.highlight?) "u" .unmatched =
        some [⟨⟨0, 1⟩, false⟩] := by
  have done : ((start {} 1000).after overlapping).tasks = [] := by rfl
  have held : ((start {} 1000).after overlapping).server.samples.get? "u" = some ⟨['b'], ⟨0⟩⟩ := by
    cbv
  have report : (Report.compute
      ((((start {} 1000).after overlapping).server.document? "u").getD []) ['b']).unmatched =
      [⟨⟨0, 1⟩, false⟩] := by cbv
  have forwarded : (((start {} 1000).after overlapping).after
      ([.elapse 1000] ++ .settle :: List.replicate 5 .forward)).queue = [] := by cbv
  have delivered := ((highlights_delivered {} 1000 overlapping done "u").2 _ held).2 [.elapse 1000]
    (List.replicate 5 .forward) (by simp) (by simp [Step.time]) forwarded
  exact ⟨done, delivered.2.trans (congrArg some report)⟩

end Pool
end Server
end GrammarDesk
