import GrammarDesk.Live.Samples

/-! Lookup laws of the sample buffers: what each operation leaves attached, and
what the stamps read after it. -/
namespace GrammarDesk

theorem lookup_filter {κ β : Type} [DecidableEq κ] (entries : List (κ × β)) (key other : κ) :
    (entries.filter (·.1 ≠ key)).lookup other =
      if other = key then none else entries.lookup other := by
  induction entries with
  | nil => simp
  | cons entry entries ih =>
    obtain ⟨name, value⟩ := entry
    by_cases dropped : name = key
    · rw [List.filter_cons_of_neg (by simpa using dropped), ih, List.lookup_cons, dropped]
      by_cases same : other = key
      · simp [same]
      · simp [same, beq_eq_false_iff_ne.mpr same]
    · rw [List.filter_cons_of_pos (by simpa using dropped), List.lookup_cons, List.lookup_cons, ih]
      by_cases here : other = name
      · simp [here, dropped]
      · simp [beq_eq_false_iff_ne.mpr here]

namespace Samples

section

variable {κ : Type} (samples : Samples κ)

@[simp] theorem length_bump (stamp : Stamp) :
    (samples.bump stamp).versions.length = samples.versions.length := List.length_modify ..

theorem version_bump {stamp : Stamp} (known : stamp.id < samples.versions.length) (other : Stamp) :
    (samples.bump stamp).version other =
      if other = stamp then samples.version other + 1 else samples.version other := by
  simp only [version, bump, List.getElem?_modify]
  by_cases same : other = stamp
  · subst same
    simp [List.getElem?_eq_getElem known]
  · have distinct : stamp.id ≠ other.id := fun ids => same (by cases other; cases stamp; simp_all)
    simp [same, distinct]

theorem version_freshStamp (stamp : Stamp) :
    samples.freshStamp.2.version stamp = samples.version stamp := by
  simp only [freshStamp, version, List.getElem?_append]
  split
  · rfl
  · rename_i outside
    rw [List.getElem?_eq_none (Nat.le_of_not_lt outside), List.getElem?_singleton]
    split <;> rfl

end

variable {κ : Type} [DecidableEq κ] (samples : Samples κ) (key other : κ)

theorem get?_put (buffer : Buffer) :
    (samples.put key buffer).get? other =
      if other = key then some buffer else samples.get? other := by
  rw [get?, put, List.lookup_cons, lookup_filter]
  by_cases same : other = key
  · simp [same]
  · simp [same, beq_eq_false_iff_ne.mpr same, get?]

def detach : Samples κ := { samples with buffers := samples.buffers.filter (·.1 ≠ key) }

theorem get?_detach :
    (samples.detach key).get? other = if other = key then none else samples.get? other :=
  lookup_filter samples.buffers key other

section

variable {samples key}

theorem attach_of_some {buffer : Buffer} (found : samples.get? key = some buffer) :
    samples.attach key = (buffer, samples) := by
  simp [attach, found]

theorem attach_of_none (missing : samples.get? key = none) :
    samples.attach key = (⟨[], ⟨samples.versions.length⟩⟩,
      samples.freshStamp.2.put key ⟨[], ⟨samples.versions.length⟩⟩) := by
  simp [attach, missing, freshBuffer, freshStamp]

theorem release_of_some {buffer : Buffer} (found : samples.get? key = some buffer) :
    samples.release key = (some buffer, (samples.detach key).bump buffer.stamp) := by
  simp [release, found, detach]

theorem release_of_none (missing : samples.get? key = none) :
    samples.release key = (none, samples) := by
  simp [release, missing]

theorem update_eq (text : Text) : samples.update key text =
    (⟨text, (samples.attach key).1.stamp⟩,
      ((samples.attach key).2.bump (samples.attach key).1.stamp).put key
        ⟨text, (samples.attach key).1.stamp⟩) := rfl

end

theorem get?_attach : (samples.attach key).2.get? other =
    if other = key then some (samples.attach key).1 else samples.get? other := by
  cases found : samples.get? key with
  | some buffer =>
    rw [attach_of_some found]
    split
    · rename_i same
      rw [same, found]
    · rfl
  | none =>
    rw [attach_of_none found, get?_put]
    rfl

theorem get?_update (text : Text) : (samples.update key text).2.get? other =
    if other = key then some ⟨text, (samples.attach key).1.stamp⟩ else samples.get? other := by
  have attached := samples.get?_attach key other
  rw [update_eq, get?_put]
  split
  · rfl
  · rename_i apart
    rw [if_neg apart] at attached
    exact attached

theorem get?_release : (samples.release key).2.get? other =
    if other = key then none else samples.get? other := by
  cases found : samples.get? key with
  | some buffer =>
    rw [release_of_some found]
    exact samples.get?_detach key other
  | none =>
    rw [release_of_none found]
    split
    · rename_i same
      rw [same, found]
    · rfl

/-- Attached buffers have stamps that are handed out, and each its own. -/
structure Apart : Prop where
  known : ∀ key buffer, samples.get? key = some buffer → buffer.stamp.id < samples.versions.length
  apart : ∀ key buffer other otherBuffer, samples.get? key = some buffer →
    samples.get? other = some otherBuffer → buffer.stamp = otherBuffer.stamp → key = other

namespace Apart

variable {samples}

theorem attach (apart : samples.Apart) : (samples.attach key).2.Apart := by
  cases found : samples.get? key with
  | some buffer =>
    rw [attach_of_some found]
    exact apart
  | none =>
    have size : (samples.attach key).2.versions.length = samples.versions.length + 1 := by
      simp [attach_of_none found, put, freshStamp]
    have stamp : (samples.attach key).1.stamp = ⟨samples.versions.length⟩ := by
      rw [attach_of_none found]
    -- The stamp of no other buffer is as new.
    have older : ∀ name buffer, samples.get? name = some buffer →
        buffer.stamp ≠ ⟨samples.versions.length⟩ := by
      rintro name buffer held same
      exact absurd (congrArg Stamp.id same) (Nat.ne_of_lt (apart.known name buffer held))
    refine ⟨fun name buffer held => ?_, fun first buffer second other held holds same => ?_⟩
    · rw [get?_attach] at held
      split at held
      · cases held
        rw [stamp, size]
        exact Nat.lt_succ_self _
      · rw [size]
        exact Nat.lt_succ_of_lt (apart.known name buffer held)
    · rw [get?_attach] at held holds
      split at held <;> split at holds
      · rename_i here there
        rw [here, there]
      · cases held
        exact absurd (same.symm.trans stamp) (older second other holds)
      · cases holds
        exact absurd (same.trans stamp) (older first buffer held)
      · exact apart.apart first buffer second other held holds same

theorem of_stamps (apart : samples.Apart) {changed : Samples κ}
    (size : changed.versions.length = samples.versions.length)
    (stamps : ∀ name buffer, changed.get? name = some buffer →
      ∃ before, samples.get? name = some before ∧ before.stamp = buffer.stamp) : changed.Apart := by
  refine ⟨fun name buffer held => ?_, fun first buffer second other held holds same => ?_⟩
  · obtain ⟨before, found, stamp⟩ := stamps name buffer held
    rw [← stamp, size]
    exact apart.known name before found
  · obtain ⟨before, found, stamp⟩ := stamps first buffer held
    obtain ⟨old, known, stamp'⟩ := stamps second other holds
    exact apart.apart first before second old found known (by rw [stamp, stamp', same])

theorem update (apart : samples.Apart) (text : Text) : (samples.update key text).2.Apart := by
  refine (apart.attach key).of_stamps ((samples.attach key).2.length_bump _) ?_
  intro name buffer held
  rw [get?_update] at held
  rw [get?_attach]
  split at held
  · rename_i same
    cases held
    exact ⟨_, if_pos same, rfl⟩
  · rename_i other
    exact ⟨buffer, by rw [if_neg other]; exact held, rfl⟩

theorem release (apart : samples.Apart) : (samples.release key).2.Apart := by
  cases found : samples.get? key with
  | some buffer =>
    rw [release_of_some found]
    refine apart.of_stamps ((samples.detach key).length_bump _) fun name held attached => ?_
    rw [show ((samples.detach key).bump buffer.stamp).get? name = (samples.detach key).get? name
      from rfl, get?_detach] at attached
    split at attached
    · cases attached
    · exact ⟨held, attached, rfl⟩
  | none =>
    rw [release_of_none found]
    exact apart

variable {key other : κ} {buffer : Buffer}

theorem version_update (apart : samples.Apart) (held : samples.get? other = some buffer)
    (distinct : other ≠ key) (text : Text) :
    (samples.update key text).2.version buffer.stamp = samples.version buffer.stamp := by
  have attached := apart.attach key
  have mine : (samples.attach key).2.get? key = some (samples.attach key).1 := by
    rw [get?_attach, if_pos rfl]
  have theirs : (samples.attach key).2.get? other = some buffer := by
    rw [get?_attach, if_neg distinct, held]
  have differs : buffer.stamp ≠ (samples.attach key).1.stamp := fun same =>
    distinct (attached.apart other buffer key _ theirs mine same)
  have bumped := (samples.attach key).2.version_bump (attached.known key _ mine) buffer.stamp
  rw [if_neg differs] at bumped
  refine bumped.trans ?_
  cases found : samples.get? key with
  | some own => rw [attach_of_some found]
  | none =>
    rw [attach_of_none found]
    exact samples.version_freshStamp buffer.stamp

theorem version_release (apart : samples.Apart) (held : samples.get? other = some buffer)
    (distinct : other ≠ key) :
    (samples.release key).2.version buffer.stamp = samples.version buffer.stamp := by
  cases found : samples.get? key with
  | some own =>
    have differs : buffer.stamp ≠ own.stamp := fun same =>
      distinct (apart.apart other buffer key own held found same)
    rw [release_of_some found]
    have bumped := (samples.detach key).version_bump (apart.known key own found) buffer.stamp
    rwa [if_neg differs] at bumped
  | none => rw [release_of_none found]

end Apart

end Samples
end GrammarDesk
