import GrammarDesk.Proofs.Live.Debounce
import Mathlib

/-! Unmatched segments and the text that they describe. While the version of an
attached buffer stands, the buffer stays attached and keeps its text, so what is
shown for it is never outdated. A clone that is outdated already when it is
refreshed has the same version, and nothing tells it apart. -/
namespace GrammarDesk

namespace Session

variable {κ : Type} [DecidableEq κ]

def Stamped (session : Session κ) : Prop :=
  ∀ handle buffer, session.buffer? handle = some buffer → buffer.stamp.id < session.freshId

/-- What holds between a session and a later one: versions only grow, and a
buffer stays attached until its version does. -/
structure Precedes (before after : Session κ) : Prop where
  version : ∀ stamp, before.samples.version stamp ≤ after.samples.version stamp
  attached : ∀ key buffer, before.buffer? (.attached key) = some buffer →
    after.samples.version buffer.stamp = before.samples.version buffer.stamp →
    after.buffer? (.attached key) = some buffer

theorem Precedes.refl (session : Session κ) : session.Precedes session where
  version _ := Nat.le_refl _
  attached _ _ held _ := held

theorem Precedes.trans {before between after : Session κ} (first : before.Precedes between)
    (second : between.Precedes after) : before.Precedes after where
  version stamp := Nat.le_trans (first.version stamp) (second.version stamp)
  attached key buffer held same := by
    have lower := first.version buffer.stamp
    have upper := second.version buffer.stamp
    apply second.attached key buffer
    · apply first.attached key buffer held
      omega
    · omega

section

variable {session : Session κ}

theorem Stamped.store (stamped : session.Stamped) {buffer : Buffer}
    (known : buffer.stamp.id < session.freshId) (handle : Handle κ) :
    (session.store handle buffer).Stamped := by
  intro other found
  rw [buffer?_store, freshId_store]
  split
  · rintro ⟨⟩
    exact known
  · exact stamped other found

theorem Stamped.bump (stamped : session.Stamped) (stamp : Stamp) :
    (session.bump stamp).Stamped := by
  intro other found
  rw [buffer?_bump, freshId_bump]
  exact stamped other found

theorem Stamped.grow (stamped : session.Stamped) : session.grow.Stamped := by
  intro other found held
  rw [buffer?_grow] at held
  rw [freshId_grow]
  exact Nat.lt_succ_of_lt (stamped other found held)

theorem Stamped.detach (stamped : session.Stamped) (key : κ) : (session.detach key).Stamped := by
  intro other found
  rw [buffer?_detach, freshId_detach]
  split
  · rintro ⟨⟩
  · exact stamped other found

theorem precedes_of_bump {stamp : Stamp} (known : stamp.id < session.freshId) {after : Session κ}
    (version : ∀ other, after.samples.version other = (session.bump stamp).samples.version other)
    (attached : ∀ key buffer, session.buffer? (.attached key) = some buffer →
      buffer.stamp ≠ stamp → after.buffer? (.attached key) = some buffer) :
    session.Precedes after := by
  refine ⟨fun other => ?_, fun key buffer held same => ?_⟩
  · rw [version, session.version_bump known]
    split <;> omega
  · apply attached key buffer held
    intro bumped
    rw [version, session.version_bump known, if_pos bumped] at same
    omega

theorem next_attach_stamped (stamped : session.Stamped) (key : κ) :
    (session.next (.attach key)).Stamped ∧ session.Precedes (session.next (.attach key)) := by
  rw [next_attach]
  cases found : session.buffer? (.attached key) with
  | some buffer => exact ⟨stamped, .refl session⟩
  | none =>
    refine ⟨stamped.grow.store (by simp) _, fun stamp => by simp, fun other buffer held _ => ?_⟩
    rw [buffer?_store, buffer?_grow, if_neg, held]
    rintro ⟨⟩
    rw [found] at held
    cases held

theorem next_setText_stamped (stamped : session.Stamped) (handle : Handle κ) (text : Text) :
    (session.next (.setText handle text)).Stamped ∧
      session.Precedes (session.next (.setText handle text)) := by
  rw [next_setText]
  cases found : session.buffer? handle with
  | none => exact ⟨stamped, .refl session⟩
  | some buffer =>
    have known := stamped handle buffer found
    refine ⟨(stamped.bump _).store (by simpa using known) handle,
      precedes_of_bump known (by simp) fun key other held distinct => ?_⟩
    rw [buffer?_store, buffer?_bump, if_neg, held]
    rintro rfl
    rw [found] at held
    cases held
    exact distinct rfl

theorem next_stamped (stamped : session.Stamped) (step : Step κ) :
    (session.next step).Stamped ∧ session.Precedes (session.next step) := by
  cases uses : step.highlights with
  | true =>
    rw [next_of_highlights session uses]
    exact ⟨stamped, fun _ => Nat.le_refl _, fun _ _ held _ => held⟩
  | false =>
    cases step with
    | attach key => exact next_attach_stamped stamped key
    | update key text =>
      obtain ⟨attached, first⟩ := next_attach_stamped stamped key
      obtain ⟨changed, second⟩ := next_setText_stamped attached (.attached key) text
      rw [next_update]
      exact ⟨changed, first.trans second⟩
    | release key =>
      rw [next_release]
      cases found : session.buffer? (.attached key) with
      | none => exact ⟨stamped, .refl session⟩
      | some buffer =>
        have known := stamped _ buffer found
        refine ⟨(stamped.detach key).bump _,
          precedes_of_bump known (fun _ => rfl) fun name other held distinct => ?_⟩
        rw [buffer?_bump, buffer?_detach, if_neg, held]
        rintro ⟨⟩
        rw [found] at held
        cases held
        exact distinct rfl
    | create name text =>
      rw [next_create]
      refine ⟨stamped.grow.store (by simp) _, fun stamp => by simp, fun key buffer held _ => ?_⟩
      simpa [buffer?_store] using held
    | hold name handle =>
      rw [next_hold]
      cases found : session.buffer? handle with
      | none => exact ⟨stamped, .refl session⟩
      | some buffer =>
        refine ⟨stamped.store (stamped handle buffer found) _, fun stamp => by simp,
          fun key other held _ => ?_⟩
        simpa [buffer?_store] using held
    | setText handle text => exact next_setText_stamped stamped handle text
    | refresh key source handle | publish key report handle captured | forget key | drop
    | advance time => cases uses

theorem after_stamped (stamped : session.Stamped) (steps : List (Step κ)) :
    (session.after steps).Stamped ∧ session.Precedes (session.after steps) := by
  induction steps generalizing session with
  | nil => exact ⟨stamped, .refl session⟩
  | cons step steps ih =>
    obtain ⟨next, first⟩ := next_stamped stamped step
    obtain ⟨last, rest⟩ := ih next
    exact ⟨last, first.trans rest⟩

theorem stamped_start (debounce : Nat) : (start debounce : Session κ).Stamped := by
  intro handle buffer held
  cases handle <;> cases held

end

theorem exists_steps_of_moments {session : Session κ} {steps : List (Step κ)}
    {before since : List (Moment κ)} {moment : Moment κ}
    (split : session.moments steps = before ++ moment :: since) :
    ∃ earlier later, steps = earlier ++ moment.step :: later ∧
      moment.session = session.after earlier ∧
      since = (moment.session.next moment.step).moments later := by
  induction before generalizing session steps with
  | nil =>
    cases steps with
    | nil => cases split
    | cons step steps =>
      cases split
      exact ⟨[], steps, rfl, rfl, rfl⟩
  | cons first before ih =>
    cases steps with
    | nil => cases split
    | cons step steps =>
      obtain ⟨earlier, later, rfl, here, rest⟩ := ih (List.cons.inj split).2
      exact ⟨step :: earlier, later, rfl, here, rest⟩

/-- Unmatched segments for a key come only from refreshing a buffer that the key
had at one of the given times. -/
def Moment.Refreshes (moment : Moment κ) (key : κ) (times : List (Moment κ)) : Prop :=
  ∀ publication, moment.published = some publication → publication.key = key →
    publication.report.unmatched ≠ [] → ∃ source handle buffer,
      moment.step = .refresh key source handle ∧ moment.session.buffer? handle = some buffer ∧
      ∃ other ∈ times, other.session.buffer? (.attached key) = some buffer

/-- A refreshed buffer that its key has still is the one that its key has when
the version is found unchanged. -/
theorem attached_of_version {session : Session κ} (stamped : session.Stamped) {key : κ}
    {source : Text} {handle : Handle κ} {buffer : Buffer} {publication : Publication κ}
    (published : session.publication? (.refresh key source handle) = some publication)
    (held : session.buffer? handle = some buffer)
    (attached : session.buffer? (.attached key) = some buffer) {steps : List (Step κ)}
    (current : (session.after steps).samples.version publication.stamp = publication.captured) :
    publication.report = Report.compute source buffer.text ∧
      (session.after steps).buffer? (.attached key) = some buffer := by
  simp only [publication?, held, Option.map_some, Option.some.injEq] at published
  subst published
  exact ⟨rfl, (after_stamped stamped steps).2.attached key buffer attached current⟩

/-- If whatever is refreshed for a key is what the key has then, the unmatched
segments that are shown for it are those of its text and of the last grammar. -/
theorem unmatched_current (debounce : Nat) (steps : List (Step κ)) (key : κ)
    (refreshed : ∀ moment ∈ (start debounce).moments steps, moment.Refreshes key [moment])
    (step : Step κ) (highlight : Highlight κ)
    (member : highlight ∈ ((start debounce).after steps).shows step key)
    (phase : highlight.phase = .unmatched) (some_segments : highlight.segments ≠ []) :
    ∃ earlier source handle later buffer, steps = earlier ++ .refresh key source handle :: later ∧
      (∀ moment ∈ ((start debounce).after (earlier ++ [.refresh key source handle])).moments later,
        ¬ moment.Supersedes key) ∧
      ((start debounce).after steps).buffer? (.attached key) = some buffer ∧
      highlight.segments = (Report.compute source buffer.text).unmatched := by
  obtain ⟨publication, since, waits, same, time, -, -, shown, -, current⟩ :=
    (tracks_after debounce steps key).late member phase some_segments
  obtain ⟨before, ⟨session, last⟩, split, published⟩ := waits.published
  obtain ⟨source, handle, buffer, rfl, held, other, here, attached⟩ :=
    refreshed ⟨session, last⟩ (by simp [split]) publication published same waits.unmatched
  rw [List.mem_singleton.mp here] at attached
  obtain ⟨earlier, later, rfl, rfl, rfl⟩ := exists_steps_of_moments split
  have stamped := (after_stamped (stamped_start debounce) earlier).1
  rw [after, List.foldl_append] at current
  obtain ⟨report, stands⟩ := attached_of_version stamped published held attached current
  refine ⟨earlier, source, handle, later, buffer, rfl, ?_, ?_, ?_⟩
  · rw [after_concat]
    exact same ▸ waits.stands
  · rw [after, List.foldl_append]
    exact stands
  · rw [shown, ← report]

/-- A clone is refreshed while it has the text of its key. -/
def refreshedClone : List (Step Nat) :=
  [.update 7 ['b'], .hold 0 (.attached 7), .refresh 7 ['s'] (.held 0)]

theorem unmatched_current_clone :
    ⟨1000, 7, .unmatched, [⟨⟨0, 1⟩, false⟩]⟩ ∈
        ((start 1000).after refreshedClone).shows (.advance 1000) 7 ∧
      ∃ earlier source handle later buffer,
        refreshedClone = earlier ++ .refresh 7 source handle :: later ∧
        (∀ moment ∈ ((start 1000).after (earlier ++ [.refresh 7 source handle])).moments later,
          ¬ moment.Supersedes 7) ∧
        ((start 1000).after refreshedClone).buffer? (.attached 7) = some buffer ∧
        [⟨⟨0, 1⟩, false⟩] = (Report.compute source buffer.text).unmatched := by
  have shown : ((start 1000).after refreshedClone).shows (.advance 1000) 7 =
      [⟨1000, 7, .unmatched, [⟨⟨0, 1⟩, false⟩]⟩] := by cbv
  have member := shown ▸ List.mem_singleton_self _
  refine ⟨member, unmatched_current 1000 refreshedClone 7 ?_ _ _ member rfl (by simp)⟩
  simp only [refreshedClone, moments, List.forall_mem_cons]
  refine ⟨fun _ published => ?_, fun _ published => ?_, ?_, by simp⟩
  · cases published
  · cases published
  intro publication published same unmatched
  exact ⟨['s'], .held 0, ⟨['b'], ⟨0⟩⟩, rfl, by cbv, _, List.mem_singleton_self _, by cbv⟩

/-- The text changes between taking a clone and refreshing it. -/
def outdatedClone : List (Step Nat) :=
  [.update 7 ['b', 'b'], .hold 0 (.attached 7), .update 7 ['b'], .refresh 7 ['s'] (.held 0)]

/-- An outdated clone is shown: its version is read only when it is refreshed,
and not when it was taken. -/
theorem outdated_clone_shown :
    (∀ (index : Nat) (moment : Moment Nat),
      ((start 1000).moments outdatedClone)[index]? = some moment →
        moment.Refreshes 7 (((start 1000).moments outdatedClone).take (index + 1))) ∧
    ((start 1000).after outdatedClone).shows (.advance 1000) 7 =
      [⟨1000, 7, .unmatched, [⟨⟨0, 2⟩, false⟩]⟩] ∧
    ((start 1000).after outdatedClone).buffer? (.attached 7) = some ⟨['b'], ⟨0⟩⟩ ∧
    (Report.compute ['s'] ['b']).unmatched = [⟨⟨0, 1⟩, false⟩] := by
  refine ⟨fun index moment found => ?_, by cbv, by cbv, by cbv⟩
  simp only [outdatedClone, moments] at found ⊢
  -- Only the last of the four steps publishes something.
  rcases index with _ | _ | _ | _ | index
  case succ.succ.succ.zero =>
    cases found
    intro publication published same unmatched
    refine ⟨['s'], .held 0, ⟨['b', 'b'], ⟨0⟩⟩, rfl, by cbv, ?_⟩
    exact ⟨_, List.mem_cons_of_mem _ List.mem_cons_self, by cbv⟩
  all_goals cases found
  all_goals exact fun _ published => by cases published

end Session
end GrammarDesk
