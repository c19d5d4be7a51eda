import GrammarDesk.Proofs.Live.Independence

/-! What a key is shown in a session: matches at once, and the rest of the
latest report after the delay, if its sample has not changed. -/
namespace GrammarDesk

namespace Session

variable {κ : Type} [DecidableEq κ]

/-- What the next step of a session shows for a key, given its history. -/
structure Debounced (debounce : Nat) (history : List (Moment κ)) (session : Session κ) (key : κ) :
    Prop where
  at_once : ∀ step publication, session.publication? step = some publication →
    publication.key = key → session.shows step key =
      [⟨session.highlighter.now, key, .matched, publication.report.matched⟩,
        ⟨session.highlighter.now, key, .unmatched, []⟩]
  /-- Unmatched segments are those of the latest publication, which has not been
  cancelled, and are shown when the clock comes to its due time; not twice, and
  not after a change. -/
  late : ∀ step highlight, highlight ∈ session.shows step key → highlight.phase = .unmatched →
    highlight.segments ≠ [] → ∃ publication since, Latest history publication since ∧
      publication.key = key ∧ highlight.segments = publication.report.unmatched ∧
      highlight.time = publication.time + debounce ∧
      (∃ time, step = .advance time ∧ session.highlighter.now ≤ highlight.time ∧
        highlight.time ≤ session.highlighter.now + time) ∧
      session.samples.version publication.stamp = publication.captured ∧
      session.shows step key = [highlight] ∧ ∀ moment ∈ since, moment.shows key = []
  shown : ∀ publication since, Waits history debounce publication since → publication.key = key →
    ∀ time, publication.time + debounce ≤ session.highlighter.now + time →
      session.samples.version publication.stamp = publication.captured →
      session.shows (.advance time) key =
        [⟨publication.time + debounce, key, .unmatched, publication.report.unmatched⟩]
  single : (session.highlighter.pending.filter (·.key = key)).length ≤ 1
  hasPending : session.highlighter.hasPending key = true ↔
    ∃ publication since, Waits history debounce publication since ∧ publication.key = key

section

variable {history : List (Moment κ)} {session : Session κ} {key : κ}

theorem Tracks.length_pendingFor_le (tracks : Tracks history session key) :
    (session.highlighter.pendingFor key).length ≤ 1 := by
  rcases tracks.only with none | ⟨publication, since, waits, same⟩
  · simp [none]
  · simp [(tracks.kept publication since waits same).1]

theorem Tracks.hasPending_iff (tracks : Tracks history session key) :
    session.highlighter.hasPending key = true ↔ ∃ publication since,
      Waits history session.highlighter.debounce publication since ∧ publication.key = key := by
  rw [Highlighter.hasPending_iff]
  constructor
  · exact tracks.only.resolve_left
  · rintro ⟨publication, since, waits, same⟩
    simp [(tracks.kept publication since waits same).1]

/-- What the clock brings is the work of the waiting publication, unless its
sample has changed. -/
theorem Tracks.shows_advance (tracks : Tracks history session key) {publication : Publication κ}
    {since : List (Moment κ)}
    (waits : Waits history session.highlighter.debounce publication since)
    (same : publication.key = key) (time : Nat) : session.shows (.advance time) key =
      if publication.time + session.highlighter.debounce ≤ session.highlighter.now + time ∧
          session.samples.version publication.stamp = publication.captured then
        [⟨publication.time + session.highlighter.debounce, key, .unmatched,
          publication.report.unmatched⟩]
      else [] := by
  have stands : ¬ (⟨session, .advance time⟩ : Moment κ).Supersedes key := by
    rintro (⟨_, published, -⟩ | moved | moved)
    · cases published
    · cases moved
    · cases moved
  obtain ⟨_, moved, -, -, shown⟩ | ⟨still, -⟩ := pendingFor_next stands
  · cases moved
    rw [shown, (tracks.kept publication since waits same).1]
    by_cases due : publication.time + session.highlighter.debounce ≤ session.highlighter.now + time
    · by_cases current : session.samples.version publication.stamp = publication.captured
      · simp [Publication.work, Highlighter.Delayed.show?, due, current, same]
      · simp [Publication.work, Highlighter.Delayed.show?, due, current]
    · simp [Publication.work, due]
  · exact absurd rfl (still time)

theorem Tracks.late (tracks : Tracks history session key) {step : Step κ} {highlight : Highlight κ}
    (member : highlight ∈ session.shows step key) (phase : highlight.phase = .unmatched)
    (some_segments : highlight.segments ≠ []) : ∃ publication since,
      Waits history session.highlighter.debounce publication since ∧ publication.key = key ∧
      ∃ time, step = .advance time ∧ session.shows step key = [highlight] ∧
        highlight = ⟨publication.time + session.highlighter.debounce, key, .unmatched,
          publication.report.unmatched⟩ ∧
        highlight.time ≤ session.highlighter.now + time ∧
        session.samples.version publication.stamp = publication.captured := by
  by_cases superseded : (⟨session, step⟩ : Moment κ).Supersedes key
  · exfalso
    rcases superseded with ⟨publication, published, rfl⟩ | cancelled
    · obtain ⟨-, -, -, shown⟩ := next_of_published published
      rw [shown] at member
      rcases List.mem_pair.mp member with rfl | rfl
      · cases phase
      · exact some_segments rfl
    · obtain ⟨-, -, -, shown⟩ := next_of_cancelled session cancelled
      rw [shown] at member
      cases member
  · rcases pendingFor_next superseded with ⟨time, rfl, -, -, shown⟩ | ⟨-, -, -, shown⟩
    · rcases tracks.only with none | ⟨publication, since, waits, same⟩
      · rw [shown, none] at member
        cases member
      · have shows := tracks.shows_advance waits same time
        split at shows
        · rename_i due
          rw [shows, List.mem_singleton] at member
          subst member
          exact ⟨publication, since, waits, same, time, rfl, shows, rfl, due⟩
        · rw [shows] at member
          cases member
    · rw [shown] at member
      cases member

end

/-- Debounced highlighting, for every run and every key: shown at once is what
matched, and later what did not, if nothing came in between. Steps on other
keys and their buffers have no part in it. -/
theorem debounced_after (debounce : Nat) (steps : List (Step κ)) (key : κ) :
    Debounced debounce ((start debounce).moments steps) ((start debounce).after steps) key ∧
      ∀ mine : Handle κ → Bool,
        (∀ step ∈ steps, step.own mine = true ∨ step.foreign mine key = true) →
          (start debounce).shown steps key =
            (start debounce).shown (steps.filter (!·.foreign mine key)) key := by
  have tracks := tracks_after debounce steps key
  have delay := debounce_after debounce steps
  refine ⟨⟨?_, ?_, ?_, tracks.length_pendingFor_le, ?_⟩,
    fun mine split => (follows_start mine key debounce).shown_eq split⟩
  · rintro step publication published rfl
    exact (next_of_published published).2.2.2
  · intro step highlight member phase some_segments
    obtain ⟨publication, since, waits, same, time, moved, alone, shown, due, current⟩ :=
      tracks.late member phase some_segments
    obtain ⟨-, ahead, silent⟩ := tracks.kept publication since waits same
    rw [delay] at shown ahead
    exact ⟨publication, since, waits.toLatest, same, by rw [shown], by rw [shown],
      ⟨time, moved, by rw [shown]; exact ahead, due⟩, current, alone, silent⟩
  · intro publication since waits same time due current
    have shown := tracks.shows_advance (by rwa [delay]) same time
    rwa [delay, if_pos ⟨due, current⟩] at shown
  · rw [tracks.hasPending_iff, delay]

/-- The due time counts, however the clock comes to it. -/
example : (start 1000).shown [.create 0 ['b'], .publish 7 (.failed ['b']) (.held 0) 0,
      .advance 999, .advance 1, .advance 5] 7 =
    [⟨0, 7, .matched, []⟩, ⟨0, 7, .unmatched, []⟩, ⟨1000, 7, .unmatched, [⟨⟨0, 1⟩, false⟩]⟩] := by
  rfl

end Session
end GrammarDesk
