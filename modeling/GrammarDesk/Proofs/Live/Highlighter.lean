import GrammarDesk.Live.Highlighter

/-! The work that waits for one key: what each operation of the highlighter
does to it, and what is shown for the key. -/
namespace GrammarDesk

namespace Highlighter

section

variable {κ : Type} (highlighter : Highlighter κ) (samples : Samples κ) (time : Nat)

def advance : Highlighter κ × List (Highlight κ) := (highlighter.elapse time).settle samples

theorem now_advance : (highlighter.advance samples time).1.now = highlighter.now + time := by
  simp [advance, settle, elapse]

theorem debounce_advance :
    (highlighter.advance samples time).1.debounce = highlighter.debounce := by
  simp [advance, settle, elapse]

end

variable {κ : Type} [DecidableEq κ]

def shownFor (key : κ) (highlights : List (Highlight κ)) : List (Highlight κ) :=
  highlights.filter (·.key = key)

@[simp] theorem shownFor_nil (key : κ) : shownFor key ([] : List (Highlight κ)) = [] := rfl

@[simp] theorem shownFor_append (key : κ) (first second : List (Highlight κ)) :
    shownFor key (first ++ second) = shownFor key first ++ shownFor key second :=
  List.filter_append ..

variable (highlighter : Highlighter κ)

def pendingFor (key : κ) : List (Delayed κ) := highlighter.pending.filter (·.key = key)

theorem hasPending_iff (key : κ) :
    highlighter.hasPending key = true ↔ highlighter.pendingFor key ≠ [] := by
  simp [hasPending, pendingFor, List.filter_eq_nil_iff]

theorem pendingFor_forget (key other : κ) :
    (highlighter.forget key).pendingFor other =
      if other = key then [] else highlighter.pendingFor other := by
  simp only [pendingFor, forget, List.filter_filter]
  split
  · rename_i same
    subst same
    simp
  · rename_i distinct
    refine List.filter_congr fun work _ => ?_
    by_cases mine : work.key = other
    · simp [mine, distinct]
    · simp [mine]

section

variable (key : κ) (report : Report) (stamp : Stamp) (captured : Nat)

/-- What a report leaves to be shown after the delay. -/
def delayed : List (Delayed κ) :=
  if report.unmatched = [] then []
  else [⟨key, highlighter.now + highlighter.debounce, stamp, captured, report.unmatched⟩]

theorem publish_eq : highlighter.publish key report stamp captured =
    ({ highlighter with
        pending := (highlighter.forget key).pending ++
          highlighter.delayed key report stamp captured },
      [⟨highlighter.now, key, .matched, report.matched⟩,
        ⟨highlighter.now, key, .unmatched, []⟩]) := by
  unfold publish delayed
  by_cases clean : report.unmatched = []
  · simp [clean, forget]
  · simp [clean, forget]

theorem now_publish :
    (highlighter.publish key report stamp captured).1.now = highlighter.now := by rw [publish_eq]

theorem debounce_publish :
    (highlighter.publish key report stamp captured).1.debounce = highlighter.debounce := by
  rw [publish_eq]

theorem pendingFor_publish (other : κ) :
    (highlighter.publish key report stamp captured).1.pendingFor other =
      if other = key then highlighter.delayed key report stamp captured
      else highlighter.pendingFor other := by
  have kept := highlighter.pendingFor_forget key other
  rw [publish_eq]
  simp only [pendingFor, List.filter_append] at kept ⊢
  rw [kept]
  unfold delayed
  split <;> split <;> rename_i same clean
  · simp
  · simp [same]
  · simp
  · simp [Ne.symm same]

theorem shownFor_publish (other : κ) :
    shownFor other (highlighter.publish key report stamp captured).2 =
      if other = key then [⟨highlighter.now, key, .matched, report.matched⟩,
        ⟨highlighter.now, key, .unmatched, []⟩] else [] := by
  rw [publish_eq]
  by_cases same : other = key
  · simp [shownFor, same]
  · simp [shownFor, same, Ne.symm same]

end

section

variable (samples : Samples κ) (time : Nat)

theorem pendingFor_advance (key : κ) : (highlighter.advance samples time).1.pendingFor key =
    (highlighter.pendingFor key).filter (highlighter.now + time < ·.due) := by
  simp only [advance, settle, elapse, pendingFor, List.partition_eq_filter_filter,
    List.filter_filter]
  refine List.filter_congr fun work _ => ?_
  by_cases due : work.due ≤ highlighter.now + time
  · simp [due, Nat.not_lt.mpr due]
  · simp [due, Nat.lt_of_not_le due]

theorem shownFor_advance (key : κ) : shownFor key (highlighter.advance samples time).2 =
    ((highlighter.pendingFor key).filter (·.due ≤ highlighter.now + time)).filterMap
      (Delayed.show? samples) := by
  simp only [advance, settle, elapse, pendingFor, List.partition_eq_filter_filter, shownFor,
    List.filter_filter]
  induction highlighter.pending with
  | nil => rfl
  | cons work pending ih =>
    have labelled : ∀ shown, Delayed.show? samples work = some shown → shown.key = work.key := by
      intro shown found
      unfold Delayed.show? at found
      split at found
      · cases found
        rfl
      · cases found
    by_cases due : work.due ≤ highlighter.now + time <;> by_cases mine : work.key = key <;>
      cases found : Delayed.show? samples work with
      | none => simp [due, mine, found, ih]
      | some shown => simp [due, mine, found, ih, labelled shown found]

end

end Highlighter
end GrammarDesk
