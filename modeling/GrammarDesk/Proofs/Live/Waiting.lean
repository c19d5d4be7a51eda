import GrammarDesk.Proofs.Live.Session
import Mathlib.Data.List.Induction

/-! What waits in a session, told from its history: the latest publication for
a key waits until the clock reaches its due time, unless it is cancelled. -/
namespace GrammarDesk

namespace Session

variable {κ : Type} [DecidableEq κ]

structure Moment (κ : Type) where
  session : Session κ
  step : Step κ

namespace Moment

def published (moment : Moment κ) : Option (Publication κ) :=
  moment.session.publication? moment.step

def shows (moment : Moment κ) (key : κ) : List (Highlight κ) :=
  moment.session.shows moment.step key

/-- The step replaces what was published for a key, or cancels it. -/
def Supersedes (moment : Moment κ) (key : κ) : Prop :=
  (∃ publication, moment.published = some publication ∧ publication.key = key) ∨
    moment.step = .forget key ∨ moment.step = .drop

end Moment

def moments (session : Session κ) (steps : List (Step κ)) : List (Moment κ) :=
  match steps with
  | [] => []
  | step :: steps => ⟨session, step⟩ :: (session.next step).moments steps

theorem moments_concat (session : Session κ) (steps : List (Step κ)) (step : Step κ) :
    session.moments (steps ++ [step]) = session.moments steps ++ [⟨session.after steps, step⟩] := by
  induction steps generalizing session with
  | nil => rfl
  | cons first steps ih => exact congrArg _ (ih (session.next first))

/-- A publication that nothing has superseded since. -/
structure Latest (history : List (Moment κ)) (publication : Publication κ)
    (since : List (Moment κ)) : Prop where
  published : ∃ before moment, history = before ++ moment :: since ∧
    moment.published = some publication
  stands : ∀ moment ∈ since, ¬ moment.Supersedes publication.key

/-- A publication whose unmatched segments are still to be shown: the clock has
not come to its due time. -/
structure Waits (history : List (Moment κ)) (debounce : Nat) (publication : Publication κ)
    (since : List (Moment κ)) : Prop extends Latest history publication since where
  unmatched : publication.report.unmatched ≠ []
  early : ∀ moment ∈ since, ∀ time, moment.step = .advance time →
    moment.session.highlighter.now + time < publication.time + debounce

section

variable {history : List (Moment κ)} {debounce : Nat} {publication : Publication κ}
  {since : List (Moment κ)} {moment : Moment κ}

theorem Waits.of_published (published : moment.published = some publication)
    (unmatched : publication.report.unmatched ≠ []) :
    Waits (history ++ [moment]) debounce publication [] :=
  ⟨⟨⟨history, moment, rfl, published⟩, by simp⟩, unmatched, by simp⟩

theorem Waits.concat (waits : Waits history debounce publication since)
    (stands : ¬ moment.Supersedes publication.key)
    (early : ∀ time, moment.step = .advance time →
      moment.session.highlighter.now + time < publication.time + debounce) :
    Waits (history ++ [moment]) debounce publication (since ++ [moment]) := by
  obtain ⟨before, source, split, published⟩ := waits.published
  refine ⟨⟨⟨before, source, by simp [split], published⟩, ?_⟩, waits.unmatched, ?_⟩
  · exact List.forall_mem_append.mpr ⟨waits.stands, by simpa using stands⟩
  · exact List.forall_mem_append.mpr ⟨waits.early, by simpa using early⟩

theorem Waits.of_concat (waits : Waits (history ++ [moment]) debounce publication since) :
    (since = [] ∧ moment.published = some publication) ∨
      ∃ earlier, since = earlier ++ [moment] ∧ Waits history debounce publication earlier := by
  obtain ⟨before, source, split, published⟩ := waits.published
  cases since using List.reverseRecOn with
  | nil =>
    obtain ⟨-, same⟩ := List.append_inj' split rfl
    cases same
    exact Or.inl ⟨rfl, published⟩
  | append_singleton earlier last =>
    rw [← List.cons_append, ← List.append_assoc] at split
    obtain ⟨front, same⟩ := List.append_inj' split rfl
    cases same
    exact Or.inr ⟨earlier, rfl, ⟨⟨before, source, front, published⟩,
      fun moment member => waits.stands moment (List.mem_append_left _ member)⟩, waits.unmatched,
      fun moment member => waits.early moment (List.mem_append_left _ member)⟩

end

def Publication.work (publication : Publication κ) (debounce : Nat) : Delayed κ :=
  ⟨publication.key, publication.time + debounce, publication.stamp, publication.captured,
    publication.report.unmatched⟩

section

variable {session : Session κ} {step : Step κ} {key : κ}

theorem next_of_published {publication : Publication κ}
    (published : session.publication? step = some publication) :
    publication.time = session.highlighter.now ∧
      (session.next step).highlighter.now = session.highlighter.now ∧
      (session.next step).highlighter.pendingFor publication.key =
        (if publication.report.unmatched = [] then []
          else [publication.work session.highlighter.debounce]) ∧
      session.shows step publication.key =
        [⟨session.highlighter.now, publication.key, .matched, publication.report.matched⟩,
          ⟨session.highlighter.now, publication.key, .unmatched, []⟩] := by
  cases session.effect step with
  | published other found time effect =>
    cases found.symm.trans published
    have waiting := session.highlighter.pendingFor_publish publication.key publication.report
      publication.stamp publication.captured publication.key
    have shown := session.highlighter.shownFor_publish publication.key publication.report
      publication.stamp publication.captured publication.key
    have clock := session.highlighter.now_publish publication.key publication.report
      publication.stamp publication.captured
    rw [effect] at waiting shown clock
    rw [if_pos rfl] at waiting shown
    refine ⟨time, clock, ?_, shown⟩
    rw [waiting, Highlighter.delayed, Publication.work, time]
  | forgot key found => subst found; cases published
  | dropped found => subst found; cases published
  | advanced time found => subst found; cases published
  | quiet unpublished => cases unpublished.symm.trans published

theorem next_of_cancelled (session : Session κ) (cancelled : step = .forget key ∨ step = .drop) :
    session.publication? step = none ∧
      (session.next step).highlighter.now = session.highlighter.now ∧
      (session.next step).highlighter.pendingFor key = [] ∧ session.shows step key = [] := by
  rcases cancelled with rfl | rfl
  · have waiting := session.highlighter.pendingFor_forget key key
    rw [if_pos rfl] at waiting
    exact ⟨rfl, rfl, waiting, rfl⟩
  · exact ⟨rfl, rfl, rfl, rfl⟩

theorem pendingFor_next (stands : ¬ (⟨session, step⟩ : Moment κ).Supersedes key) :
    (∃ time, step = .advance time ∧
        (session.next step).highlighter.now = session.highlighter.now + time ∧
        (session.next step).highlighter.pendingFor key =
          (session.highlighter.pendingFor key).filter (session.highlighter.now + time < ·.due) ∧
        session.shows step key =
          ((session.highlighter.pendingFor key).filter
            (·.due ≤ session.highlighter.now + time)).filterMap
              (Highlighter.Delayed.show? session.samples)) ∨
      (∀ time, step ≠ .advance time) ∧
        (session.next step).highlighter.now = session.highlighter.now ∧
        (session.next step).highlighter.pendingFor key = session.highlighter.pendingFor key ∧
        session.shows step key = [] := by
  cases session.effect step with
  | published publication found time effect =>
    have other : key ≠ publication.key := fun same =>
      stands (.inl ⟨publication, found, same.symm⟩)
    have still : ∀ time, step ≠ .advance time := by
      rintro time rfl
      cases found
    have waiting := session.highlighter.pendingFor_publish publication.key publication.report
      publication.stamp publication.captured key
    have shown := session.highlighter.shownFor_publish publication.key publication.report
      publication.stamp publication.captured key
    have clock := session.highlighter.now_publish publication.key publication.report
      publication.stamp publication.captured
    rw [effect] at waiting shown clock
    rw [if_neg other] at waiting shown
    exact Or.inr ⟨still, clock, waiting, shown⟩
  | forgot name found effect silent =>
    subst found
    have other : key ≠ name := fun same => stands (.inr (.inl (by rw [same])))
    have waiting := session.highlighter.pendingFor_forget name key
    rw [if_neg other, effect] at waiting
    exact Or.inr ⟨nofun, rfl, waiting, by rw [shows, silent, Highlighter.shownFor_nil]⟩
  | dropped found effect silent => exact absurd (.inr (.inr found)) stands
  | advanced time found effect =>
    have waiting := session.highlighter.pendingFor_advance session.samples time key
    have shown := session.highlighter.shownFor_advance session.samples time key
    have clock := session.highlighter.now_advance session.samples time
    rw [effect] at waiting shown clock
    exact Or.inl ⟨time, found, clock, waiting, shown⟩
  | quiet unpublished plain effect silent =>
    have still : ∀ time, step ≠ .advance time := by
      rintro time rfl
      cases plain
    rw [← effect]
    exact Or.inr ⟨still, rfl, rfl, by rw [shows, silent, Highlighter.shownFor_nil]⟩

theorem debounce_next (session : Session κ) (step : Step κ) :
    (session.next step).highlighter.debounce = session.highlighter.debounce := by
  cases session.effect step with
  | published publication found time effect =>
    have kept := session.highlighter.debounce_publish publication.key publication.report
      publication.stamp publication.captured
    rwa [effect] at kept
  | forgot name found effect silent => rw [← effect]; rfl
  | dropped found effect silent => rw [← effect]; rfl
  | advanced time found effect =>
    have kept := session.highlighter.debounce_advance session.samples time
    rwa [effect] at kept
  | quiet unpublished plain effect silent => rw [← effect]

theorem debounce_after (debounce : Nat) (steps : List (Step κ)) :
    ((start debounce : Session κ).after steps).highlighter.debounce = debounce := by
  induction steps using List.reverseRecOn with
  | nil => rfl
  | append_singleton steps step ih => rw [after_concat, debounce_next, ih]

end

/-- The work that waits for a key is that of its waiting publication. -/
structure Tracks (history : List (Moment κ)) (session : Session κ) (key : κ) : Prop where
  kept : ∀ publication since, Waits history session.highlighter.debounce publication since →
    publication.key = key →
      session.highlighter.pendingFor key = [publication.work session.highlighter.debounce] ∧
      session.highlighter.now ≤ publication.time + session.highlighter.debounce ∧
      ∀ moment ∈ since, moment.shows key = []
  only : session.highlighter.pendingFor key = [] ∨
    ∃ publication since, Waits history session.highlighter.debounce publication since ∧
      publication.key = key

theorem Tracks.superseded {history : List (Moment κ)} {session : Session κ} {step : Step κ}
    {key : κ} (superseded : (⟨session, step⟩ : Moment κ).Supersedes key) :
    Tracks (history ++ [⟨session, step⟩]) (session.next step) key := by
  have fresh : ∀ publication since,
      Waits (history ++ [⟨session, step⟩]) (session.next step).highlighter.debounce publication
        since → publication.key = key →
      since = [] ∧ session.publication? step = some publication := by
    rintro publication since waits rfl
    rcases waits.of_concat with found | ⟨earlier, rfl, -⟩
    · exact found
    · exact absurd superseded (waits.stands _ (by simp))
  rcases superseded with ⟨publication, published, rfl⟩ | cancelled
  · obtain ⟨time, clock, waiting, -⟩ := next_of_published published
    refine ⟨fun other since waits same => ?_, ?_⟩
    · obtain ⟨rfl, found⟩ := fresh other since waits same
      cases found.symm.trans published
      rw [if_neg waits.unmatched] at waiting
      rw [waiting, clock, debounce_next, time]
      exact ⟨rfl, Nat.le_add_right _ _, by simp⟩
    · by_cases clean : publication.report.unmatched = []
      · rw [if_pos clean] at waiting
        exact Or.inl waiting
      · exact Or.inr ⟨publication, [], .of_published published clean, rfl⟩
  · obtain ⟨unpublished, -, waiting, -⟩ := next_of_cancelled session cancelled
    refine ⟨fun other since waits same => ?_, Or.inl waiting⟩
    obtain ⟨-, found⟩ := fresh other since waits same
    cases unpublished.symm.trans found

theorem Tracks.stands {history : List (Moment κ)} {session : Session κ} {step : Step κ} {key : κ}
    (tracks : Tracks history session key)
    (stands : ¬ (⟨session, step⟩ : Moment κ).Supersedes key) :
    Tracks (history ++ [⟨session, step⟩]) (session.next step) key := by
  have effect := pendingFor_next stands
  -- First, what waits by the history is the work that is there; then the other way round.
  refine ⟨?_, ?_⟩
  · rw [debounce_next]
    rintro publication since waits rfl
    rcases waits.of_concat with ⟨-, published⟩ | ⟨earlier, rfl, waited⟩
    · exact absurd (.inl ⟨publication, published, rfl⟩) stands
    obtain ⟨waiting, ahead, silent⟩ := tracks.kept publication earlier waited rfl
    rcases effect with ⟨time, rfl, clock, next, shown⟩ | ⟨-, clock, next, shown⟩
    · have early : session.highlighter.now + time <
          publication.time + session.highlighter.debounce :=
        waits.early ⟨session, .advance time⟩ (by simp) time rfl
      rw [waiting] at next shown
      refine ⟨?_, by rw [clock]; exact Nat.le_of_lt early, ?_⟩
      · rw [next]
        simpa [Publication.work] using early
      · refine List.forall_mem_append.mpr ⟨silent, List.forall_mem_singleton.mpr (shown.trans ?_)⟩
        simp [Publication.work, Nat.not_le.mpr early]
    · exact ⟨next.trans waiting, clock ▸ ahead,
        List.forall_mem_append.mpr ⟨silent, List.forall_mem_singleton.mpr shown⟩⟩
  · rw [debounce_next]
    rcases tracks.only with none | ⟨publication, since, waits, rfl⟩
    · left
      rcases effect with ⟨time, -, -, next, -⟩ | ⟨-, -, next, -⟩
      · rw [next, none, List.filter_nil]
      · rw [next, none]
    · obtain ⟨waiting, -, -⟩ := tracks.kept publication since waits rfl
      rcases effect with ⟨time, rfl, -, next, -⟩ | ⟨still, -, -, -⟩
      · by_cases early : session.highlighter.now + time <
            publication.time + session.highlighter.debounce
        · refine Or.inr ⟨publication, _, waits.concat stands fun passed moved => ?_, rfl⟩
          cases moved
          exact early
        · left
          rw [next, waiting]
          simpa [Publication.work] using early
      · exact Or.inr ⟨publication, _,
          waits.concat stands fun passed moved => absurd moved (still passed), rfl⟩

/-- Of every run, the work that waits for a key is told by the history. -/
theorem tracks_after (debounce : Nat) (steps : List (Step κ)) (key : κ) :
    Tracks ((start debounce).moments steps) ((start debounce).after steps) key := by
  induction steps using List.reverseRecOn with
  | nil =>
    refine ⟨fun publication since waits => ?_, Or.inl rfl⟩
    obtain ⟨before, moment, split, -⟩ := waits.published
    simp [moments] at split
  | append_singleton steps step ih =>
    rw [moments_concat, after_concat]
    by_cases superseded : (⟨(start debounce).after steps, step⟩ : Moment κ).Supersedes key
    · exact .superseded superseded
    · exact ih.stands superseded

end Session
end GrammarDesk
