import GrammarDesk.Proofs.Live.Samples
import GrammarDesk.Proofs.Live.Waiting
import Mathlib.Data.List.Basic

/-! Steps on other keys and other buffers do not matter. A run and the same run
without them differ in the stamps they hand out, and in nothing else that a key
can see. -/
namespace GrammarDesk

namespace Session

variable {κ : Type} [DecidableEq κ]

/-- The step uses no buffer outside of those picked. -/
def Step.own (mine : Handle κ → Bool) : Step κ → Bool
  | attach key | update key _ | release key => mine (.attached key)
  | create name _ => mine (.held name)
  | hold name handle => mine (.held name) && mine handle
  | setText handle _ | refresh _ _ handle | publish _ _ handle _ => mine handle
  | forget _ | drop | advance _ => true

/-- The step changes none of the picked buffers, and its reports are for other keys. -/
def Step.foreign (mine : Handle κ → Bool) (key : κ) : Step κ → Bool
  | attach other | update other _ | release other => !mine (.attached other)
  | create name _ => !mine (.held name)
  | hold name handle => !mine (.held name) && !mine handle
  | setText handle _ => !mine handle
  | refresh other _ _ | publish other _ _ _ | forget other => other ≠ key
  | drop | advance _ => false

section

variable {κ : Type} (session : Session κ)

def freshId : Nat := session.samples.versions.length

def bump (stamp : Stamp) : Session κ :=
  { session with samples := session.samples.bump stamp }

@[simp] theorem freshId_bump (stamp : Stamp) : (session.bump stamp).freshId = session.freshId :=
  session.samples.length_bump stamp

theorem version_bump {stamp : Stamp} (known : stamp.id < session.freshId) (other : Stamp) :
    (session.bump stamp).samples.version other =
      if other = stamp then session.samples.version other + 1 else session.samples.version other :=
  session.samples.version_bump known other

def grow : Session κ := { session with samples := session.samples.freshStamp.2 }

@[simp] theorem freshId_grow : session.grow.freshId = session.freshId + 1 :=
  List.length_append

@[simp] theorem version_grow (stamp : Stamp) :
    session.grow.samples.version stamp = session.samples.version stamp :=
  session.samples.version_freshStamp stamp

theorem version_freshId : session.samples.version ⟨session.freshId⟩ = 0 := by
  simp [Samples.version, freshId]

end

section

variable (session : Session κ)

def detach (key : κ) : Session κ := { session with samples := session.samples.detach key }

@[simp] theorem freshId_detach (key : κ) : (session.detach key).freshId = session.freshId := rfl

theorem buffer?_store (handle other : Handle κ) (buffer : Buffer) :
    (session.store handle buffer).buffer? other =
      if other = handle then some buffer else session.buffer? other := by
  cases handle with
  | attached key =>
    cases other with
    | attached name => simp [store, buffer?, Samples.get?_put]
    | held name => simp [store, buffer?]
  | held name =>
    cases other with
    | attached key => simp [store, buffer?]
    | held other =>
      by_cases same : other = name
      · simp [store, buffer?, same]
      · simp [store, buffer?, List.lookup_cons, same, beq_eq_false_iff_ne.mpr same]

theorem buffer?_detach (key : κ) (other : Handle κ) : (session.detach key).buffer? other =
    if other = .attached key then none else session.buffer? other := by
  cases other with
  | attached name => simp [detach, buffer?, Samples.get?_detach]
  | held name => simp [detach, buffer?]

@[simp] theorem freshId_store (handle : Handle κ) (buffer : Buffer) :
    (session.store handle buffer).freshId = session.freshId := by
  cases handle <;> rfl

@[simp] theorem version_store (handle : Handle κ) (buffer : Buffer) (stamp : Stamp) :
    (session.store handle buffer).samples.version stamp = session.samples.version stamp := by
  cases handle <;> rfl

@[simp] theorem buffer?_bump (stamp : Stamp) (handle : Handle κ) :
    (session.bump stamp).buffer? handle = session.buffer? handle := by
  cases handle <;> rfl

@[simp] theorem buffer?_grow (handle : Handle κ) :
    session.grow.buffer? handle = session.buffer? handle := by
  cases handle <;> rfl

/-! Steps on the samples, put together from those above. -/

theorem next_attach (key : κ) : session.next (.attach key) =
    match session.buffer? (.attached key) with
    | some _ => session
    | none => session.grow.store (.attached key) ⟨[], ⟨session.freshId⟩⟩ := by
  cases found : session.samples.get? key with
  | some buffer => simp [next, perform, buffer?, found, Samples.attach_of_some found]
  | none => simp [next, perform, buffer?, found, Samples.attach_of_none found, grow, store, freshId]

theorem next_release (key : κ) : session.next (.release key) =
    match session.buffer? (.attached key) with
    | some buffer => (session.detach key).bump buffer.stamp
    | none => session := by
  cases found : session.samples.get? key with
  | some buffer => simp [next, perform, buffer?, found, Samples.release_of_some found, detach, bump]
  | none => simp [next, perform, buffer?, found, Samples.release_of_none found]

theorem next_create (name : Nat) (text : Text) : session.next (.create name text) =
    session.grow.store (.held name) ⟨text, ⟨session.freshId⟩⟩ := rfl

theorem next_hold (name : Nat) (handle : Handle κ) : session.next (.hold name handle) =
    match session.buffer? handle with
    | some buffer => session.store (.held name) buffer
    | none => session := by
  cases found : session.buffer? handle <;> simp [next, perform, found]

theorem next_setText (handle : Handle κ) (text : Text) : session.next (.setText handle text) =
    match session.buffer? handle with
    | some buffer => (session.bump buffer.stamp).store handle ⟨text, buffer.stamp⟩
    | none => session := by
  cases found : session.buffer? handle with
  | some buffer => simp [next, perform, found, Samples.setText, bump]
  | none => simp [next, perform, found]

theorem next_update (key : κ) (text : Text) : session.next (.update key text) =
    (session.next (.attach key)).next (.setText (.attached key) text) := by
  have attached : (session.next (.attach key)).buffer? (.attached key) =
      some (session.samples.attach key).1 := by
    cases found : session.samples.get? key with
    | some buffer => simp [next, perform, buffer?, found, Samples.attach_of_some found]
    | none => simp [next, perform, buffer?, Samples.attach_of_none found, Samples.get?_put]
  rw [next_setText, attached]
  rfl

end

def renamed (rename : Nat → Nat) (buffer : Buffer) : Buffer :=
  { buffer with stamp := ⟨rename buffer.stamp.id⟩ }

/-- Every picked buffer of the reduced session has its image in the full one,
apart from all others there. -/
structure Mirrors (mine : Handle κ → Bool) (rename : Nat → Nat) (full reduced : Session κ) :
    Prop where
  injective : ∀ a < reduced.freshId, ∀ b < reduced.freshId, rename a = rename b → a = b
  inside : ∀ a < reduced.freshId, rename a < full.freshId
  versions : ∀ a < reduced.freshId,
    full.samples.version ⟨rename a⟩ = reduced.samples.version ⟨a⟩
  own : ∀ handle, mine handle = true →
    full.buffer? handle = (reduced.buffer? handle).map (renamed rename)
  known : ∀ handle, mine handle = true → ∀ buffer, reduced.buffer? handle = some buffer →
    buffer.stamp.id < reduced.freshId
  apart : ∀ handle, mine handle = false → ∀ buffer, full.buffer? handle = some buffer →
    buffer.stamp.id < full.freshId ∧ ∀ a < reduced.freshId, rename a ≠ buffer.stamp.id

namespace Mirrors

variable {mine : Handle κ → Bool} {rename : Nat → Nat} {full reduced : Session κ}

theorem store_own (mirrors : Mirrors mine rename full reduced) {handle : Handle κ}
    (buffer : Buffer) (owned : mine handle = true) (known : buffer.stamp.id < reduced.freshId) :
    Mirrors mine rename (full.store handle (renamed rename buffer))
      (reduced.store handle buffer) where
  injective := by simpa using mirrors.injective
  inside := by simpa using mirrors.inside
  versions := by simpa using mirrors.versions
  own other picked := by
    rw [buffer?_store, buffer?_store]
    split
    · rfl
    · exact mirrors.own other picked
  known other picked found := by
    rw [buffer?_store, freshId_store]
    split
    · rintro ⟨⟩
      exact known
    · exact mirrors.known other picked found
  apart other skipped found := by
    rw [buffer?_store, freshId_store, freshId_store, if_neg (by rintro rfl; simp_all)]
    exact mirrors.apart other skipped found

theorem bump_own (mirrors : Mirrors mine rename full reduced) {stamp : Stamp}
    (known : stamp.id < reduced.freshId) :
    Mirrors mine rename (full.bump ⟨rename stamp.id⟩) (reduced.bump stamp) where
  injective := by simpa using mirrors.injective
  inside := by simpa using mirrors.inside
  versions a within := by
    rw [freshId_bump] at within
    rw [version_bump _ known, version_bump _ (mirrors.inside _ known), mirrors.versions a within]
    by_cases same : a = stamp.id
    · simp [same]
    · have distinct : rename a ≠ rename stamp.id :=
        fun images => same (mirrors.injective a within _ known images)
      have differs : (⟨a⟩ : Stamp) ≠ stamp := fun stamps => same (congrArg Stamp.id stamps)
      simp [distinct, differs]
  own := by simpa using mirrors.own
  known := by simpa using mirrors.known
  apart := by simpa using mirrors.apart

theorem detach_own (mirrors : Mirrors mine rename full reduced) {key : κ}
    (owned : mine (.attached key) = true) :
    Mirrors mine rename (full.detach key) (reduced.detach key) where
  injective := mirrors.injective
  inside := mirrors.inside
  versions := mirrors.versions
  own other picked := by
    rw [buffer?_detach, buffer?_detach]
    split
    · rfl
    · exact mirrors.own other picked
  known other picked found := by
    rw [buffer?_detach]
    split
    · rintro ⟨⟩
    · exact mirrors.known other picked found
  apart other skipped found := by
    rw [buffer?_detach, if_neg (by rintro rfl; simp_all)]
    exact mirrors.apart other skipped found

theorem grow_own (mirrors : Mirrors mine rename full reduced) :
    let extended := fun a => if a = reduced.freshId then full.freshId else rename a
    Mirrors mine extended full.grow reduced.grow ∧
      ∀ a < reduced.freshId, extended a = rename a := by
  intro extended
  have kept : ∀ a < reduced.freshId, extended a = rename a :=
    fun a within => if_neg (Nat.ne_of_lt within)
  have last : extended reduced.freshId = full.freshId := if_pos rfl
  -- Of the stamps in the reduced session one is new, and its image is new in the full one.
  refine ⟨⟨fun a withinA b withinB same => ?_, fun a within => ?_, fun a within => ?_,
    fun handle picked => ?_, fun handle picked buffer found => ?_,
    fun handle skipped buffer found => ?_⟩, kept⟩
  · rw [freshId_grow] at withinA withinB
    rcases Nat.lt_succ_iff_lt_or_eq.mp withinA with oldA | rfl <;>
      rcases Nat.lt_succ_iff_lt_or_eq.mp withinB with oldB | rfl
    · rw [kept a oldA, kept b oldB] at same
      exact mirrors.injective a oldA b oldB same
    · rw [kept a oldA, last] at same
      exact absurd same (Nat.ne_of_lt (mirrors.inside a oldA))
    · rw [kept b oldB, last] at same
      exact absurd same.symm (Nat.ne_of_lt (mirrors.inside b oldB))
    · rfl
  · rw [freshId_grow] at within ⊢
    rcases Nat.lt_succ_iff_lt_or_eq.mp within with old | rfl
    · rw [kept a old]
      exact Nat.lt_succ_of_lt (mirrors.inside a old)
    · rw [last]
      exact Nat.lt_succ_self _
  · rw [freshId_grow] at within
    rw [version_grow, version_grow]
    rcases Nat.lt_succ_iff_lt_or_eq.mp within with old | rfl
    · rw [kept a old, mirrors.versions a old]
    · rw [last, version_freshId, version_freshId]
  · rw [buffer?_grow, buffer?_grow, mirrors.own handle picked]
    refine Option.map_congr fun buffer found => ?_
    rw [renamed, renamed, kept _ (mirrors.known handle picked buffer found)]
  · rw [buffer?_grow] at found
    rw [freshId_grow]
    exact Nat.lt_succ_of_lt (mirrors.known handle picked buffer found)
  · rw [buffer?_grow] at found
    obtain ⟨known, apart⟩ := mirrors.apart handle skipped buffer found
    rw [freshId_grow, freshId_grow]
    refine ⟨Nat.lt_succ_of_lt known, fun a within => ?_⟩
    rcases Nat.lt_succ_iff_lt_or_eq.mp within with old | rfl
    · rw [kept a old]
      exact apart a old
    · rw [last]
      exact (Nat.ne_of_lt known).symm

theorem store_other (mirrors : Mirrors mine rename full reduced) {handle : Handle κ}
    {buffer : Buffer} (skipped : mine handle = false) (known : buffer.stamp.id < full.freshId)
    (apart : ∀ a < reduced.freshId, rename a ≠ buffer.stamp.id) :
    Mirrors mine rename (full.store handle buffer) reduced where
  injective := mirrors.injective
  inside := by simpa using mirrors.inside
  versions := by simpa using mirrors.versions
  own other picked := by
    rw [buffer?_store, if_neg (by rintro rfl; simp_all)]
    exact mirrors.own other picked
  known := mirrors.known
  apart other skipped found := by
    rw [buffer?_store, freshId_store]
    split
    · rintro ⟨⟩
      exact ⟨known, apart⟩
    · exact mirrors.apart other skipped found

theorem bump_other (mirrors : Mirrors mine rename full reduced) {stamp : Stamp}
    (known : stamp.id < full.freshId) (apart : ∀ a < reduced.freshId, rename a ≠ stamp.id) :
    Mirrors mine rename (full.bump stamp) reduced where
  injective := mirrors.injective
  inside := by simpa using mirrors.inside
  versions a within := by
    have differs : (⟨rename a⟩ : Stamp) ≠ stamp :=
      fun stamps => apart a within (congrArg Stamp.id stamps)
    rw [version_bump _ known, if_neg differs, mirrors.versions a within]
  own := by simpa using mirrors.own
  known := mirrors.known
  apart := by simpa using mirrors.apart

theorem detach_other (mirrors : Mirrors mine rename full reduced) {key : κ}
    (skipped : mine (.attached key) = false) : Mirrors mine rename (full.detach key) reduced where
  injective := mirrors.injective
  inside := mirrors.inside
  versions := mirrors.versions
  own other picked := by
    rw [buffer?_detach, if_neg (by rintro rfl; simp_all)]
    exact mirrors.own other picked
  known := mirrors.known
  apart other skipped found := by
    rw [buffer?_detach]
    split
    · rintro ⟨⟩
    · exact mirrors.apart other skipped found

theorem grow_other (mirrors : Mirrors mine rename full reduced) :
    Mirrors mine rename full.grow reduced where
  injective := mirrors.injective
  inside a within := by
    rw [freshId_grow]
    exact Nat.lt_succ_of_lt (mirrors.inside a within)
  versions := by simpa using mirrors.versions
  own := by simpa using mirrors.own
  known := mirrors.known
  apart other skipped buffer found := by
    rw [buffer?_grow] at found
    obtain ⟨known, apart⟩ := mirrors.apart other skipped buffer found
    rw [freshId_grow]
    exact ⟨Nat.lt_succ_of_lt known, apart⟩

theorem highlighters (mirrors : Mirrors mine rename full reduced)
    (first second : Highlighter κ) :
    Mirrors mine rename { full with highlighter := first }
      { reduced with highlighter := second } where
  injective := mirrors.injective
  inside := mirrors.inside
  versions := mirrors.versions
  own := mirrors.own
  known := mirrors.known
  apart := mirrors.apart

end Mirrors

def Step.highlights : Step κ → Bool
  | refresh _ _ _ | publish _ _ _ _ | forget _ | drop | advance _ => true
  | _ => false

theorem next_of_highlights (session : Session κ) {step : Step κ} (uses : step.highlights = true) :
    session.next step = { session with highlighter := (session.next step).highlighter } := by
  cases step with
  | refresh key source handle | publish key report handle captured =>
    cases found : session.buffer? handle <;> simp [next, perform, found]
  | forget key | drop | advance time => rfl
  | attach key | update key text | release key | create name text | hold name handle
  | setText handle text => cases uses

namespace Mirrors

variable {mine : Handle κ → Bool} {rename : Nat → Nat} {full reduced : Session κ}

theorem attach_own (mirrors : Mirrors mine rename full reduced) (key : κ)
    (owned : mine (.attached key) = true) : ∃ extended,
      Mirrors mine extended (full.next (.attach key)) (reduced.next (.attach key)) ∧
        (∀ a < reduced.freshId, extended a = rename a) ∧
        reduced.freshId ≤ (reduced.next (.attach key)).freshId := by
  rw [next_attach, next_attach, mirrors.own _ owned]
  cases found : reduced.buffer? (.attached key) with
  | some buffer => exact ⟨rename, mirrors, fun _ _ => rfl, Nat.le_refl _⟩
  | none =>
    obtain ⟨grown, kept⟩ := mirrors.grow_own
    refine ⟨_, ?_, kept, by simp⟩
    have stored := grown.store_own ⟨[], ⟨reduced.freshId⟩⟩ owned (by simp)
    simpa [renamed] using stored

theorem setText_own (mirrors : Mirrors mine rename full reduced) (handle : Handle κ)
    (text : Text) (owned : mine handle = true) :
    Mirrors mine rename (full.next (.setText handle text)) (reduced.next (.setText handle text)) ∧
      (reduced.next (.setText handle text)).freshId = reduced.freshId := by
  rw [next_setText, next_setText, mirrors.own _ owned]
  cases found : reduced.buffer? handle with
  | some buffer =>
    have known := mirrors.known handle owned buffer found
    exact ⟨(mirrors.bump_own known).store_own ⟨text, buffer.stamp⟩ owned
      (by simpa using known), by simp⟩
  | none => exact ⟨mirrors, rfl⟩

theorem next_own (mirrors : Mirrors mine rename full reduced) {step : Step κ}
    (owned : step.own mine = true) : ∃ extended,
      Mirrors mine extended (full.next step) (reduced.next step) ∧
        (∀ a < reduced.freshId, extended a = rename a) ∧
        reduced.freshId ≤ (reduced.next step).freshId := by
  cases uses : step.highlights with
  | true =>
    rw [next_of_highlights full uses, next_of_highlights reduced uses]
    exact ⟨rename, mirrors.highlighters _ _, fun _ _ => rfl, Nat.le_refl _⟩
  | false =>
    cases step with
    | attach key => exact mirrors.attach_own key owned
    | update key text =>
      obtain ⟨extended, attached, kept, grown⟩ := mirrors.attach_own key owned
      obtain ⟨changed, size⟩ := attached.setText_own (.attached key) text owned
      rw [next_update, next_update, size]
      exact ⟨extended, changed, kept, grown⟩
    | release key =>
      rw [next_release, next_release, mirrors.own _ owned]
      cases found : reduced.buffer? (.attached key) with
      | some buffer =>
        have known := mirrors.known _ owned buffer found
        exact ⟨rename, (mirrors.detach_own owned).bump_own known, fun _ _ => rfl, by simp⟩
      | none => exact ⟨rename, mirrors, fun _ _ => rfl, Nat.le_refl _⟩
    | create name text =>
      obtain ⟨grown, kept⟩ := mirrors.grow_own
      rw [next_create, next_create]
      refine ⟨_, ?_, kept, by simp⟩
      have stored := grown.store_own ⟨text, ⟨reduced.freshId⟩⟩ owned (by simp)
      simpa [renamed] using stored
    | hold name handle =>
      obtain ⟨named, picked⟩ := Bool.and_eq_true_iff.mp owned
      rw [next_hold, next_hold, mirrors.own _ picked]
      cases found : reduced.buffer? handle with
      | some buffer =>
        exact ⟨rename, mirrors.store_own buffer named (mirrors.known handle picked buffer found),
          fun _ _ => rfl, by simp⟩
      | none => exact ⟨rename, mirrors, fun _ _ => rfl, Nat.le_refl _⟩
    | setText handle text =>
      obtain ⟨changed, size⟩ := mirrors.setText_own handle text owned
      exact ⟨rename, changed, fun _ _ => rfl, Nat.le_of_eq size.symm⟩
    | refresh key source handle | publish key report handle captured | forget key | drop
    | advance time => cases uses

theorem attach_other (mirrors : Mirrors mine rename full reduced) {key : κ}
    (skipped : mine (.attached key) = false) :
    Mirrors mine rename (full.next (.attach key)) reduced := by
  rw [next_attach]
  cases found : full.buffer? (.attached key) with
  | some buffer => exact mirrors
  | none =>
    exact mirrors.grow_other.store_other skipped (by simp)
      fun a within => Nat.ne_of_lt (mirrors.inside a within)

theorem setText_other (mirrors : Mirrors mine rename full reduced) {handle : Handle κ}
    (skipped : mine handle = false) (text : Text) :
    Mirrors mine rename (full.next (.setText handle text)) reduced := by
  rw [next_setText]
  cases found : full.buffer? handle with
  | some buffer =>
    obtain ⟨known, apart⟩ := mirrors.apart handle skipped buffer found
    exact (mirrors.bump_other known apart).store_other skipped (by simpa using known) apart
  | none => exact mirrors

/-- The reduced session need not follow a foreign step. -/
theorem next_other (mirrors : Mirrors mine rename full reduced) {step : Step κ} {key : κ}
    (other : step.foreign mine key = true) : Mirrors mine rename (full.next step) reduced := by
  cases uses : step.highlights with
  | true =>
    rw [next_of_highlights full uses]
    exact mirrors.highlighters _ reduced.highlighter
  | false =>
    cases step with
    | attach key => exact mirrors.attach_other (by simpa [Step.foreign] using other)
    | update key text =>
      have skipped : mine (.attached key) = false := by simpa [Step.foreign] using other
      rw [next_update]
      exact (mirrors.attach_other skipped).setText_other skipped text
    | release key =>
      have skipped : mine (.attached key) = false := by simpa [Step.foreign] using other
      rw [next_release]
      cases found : full.buffer? (.attached key) with
      | some buffer =>
        obtain ⟨known, apart⟩ := mirrors.apart _ skipped buffer found
        exact (mirrors.detach_other skipped).bump_other known apart
      | none => exact mirrors
    | create name text =>
      rw [next_create]
      exact mirrors.grow_other.store_other
        (by simpa [Step.foreign] using other) (by simp)
        fun a within => Nat.ne_of_lt (mirrors.inside a within)
    | hold name handle =>
      obtain ⟨named, skipped⟩ : mine (.held name) = false ∧ mine handle = false := by
        simpa [Step.foreign] using other
      rw [next_hold]
      cases found : full.buffer? handle with
      | some buffer =>
        obtain ⟨known, apart⟩ := mirrors.apart handle skipped buffer found
        exact mirrors.store_other named known apart
      | none => exact mirrors
    | setText handle text => exact mirrors.setText_other (by simpa [Step.foreign] using other) text
    | refresh key source handle | publish key report handle captured | forget key | drop
    | advance time => cases uses

end Mirrors

def Publication.moved (rename : Nat → Nat) (publication : Publication κ) : Publication κ :=
  { publication with stamp := ⟨rename publication.stamp.id⟩ }

def movedWork (rename : Nat → Nat) (work : Delayed κ) : Delayed κ :=
  { work with stamp := ⟨rename work.stamp.id⟩ }

theorem map_movedWork {κ : Type} {rename extended : Nat → Nat} {known : Nat}
    (kept : ∀ a < known, extended a = rename a) {works : List (Delayed κ)}
    (within : ∀ work ∈ works, work.stamp.id < known) :
    works.map (movedWork rename) = works.map (movedWork extended) :=
  List.map_congr_left fun work member => by
    rw [movedWork, movedWork, kept _ (within work member)]

/-- The sessions also agree on what waits for a key. -/
structure Follows (mine : Handle κ → Bool) (key : κ) (rename : Nat → Nat)
    (full reduced : Session κ) : Prop extends Mirrors mine rename full reduced where
  clock : full.highlighter.now = reduced.highlighter.now
  delay : full.highlighter.debounce = reduced.highlighter.debounce
  pending : full.highlighter.pendingFor key =
    (reduced.highlighter.pendingFor key).map (movedWork rename)
  waiting : ∀ work ∈ reduced.highlighter.pendingFor key, work.stamp.id < reduced.freshId

namespace Follows

variable {mine : Handle κ → Bool} {key : κ} {rename : Nat → Nat} {full reduced : Session κ}
  {step : Step κ}

theorem publication?_own (follows : Follows mine key rename full reduced)
    (owned : step.own mine = true) :
    full.publication? step = (reduced.publication? step).map (Publication.moved rename) ∧
      ∀ publication, reduced.publication? step = some publication →
        publication.stamp.id < reduced.freshId := by
  cases step with
  | refresh name source handle =>
    rw [publication?, publication?, follows.own _ owned, follows.clock]
    cases found : reduced.buffer? handle with
    | none => simp
    | some buffer =>
      have known := follows.known handle owned buffer found
      refine ⟨?_, by rintro _ ⟨⟩; exact known⟩
      simp only [Option.map_some, Publication.moved, renamed, follows.versions _ known]
  | publish name report handle captured =>
    rw [publication?, publication?, follows.own _ owned, follows.clock]
    cases found : reduced.buffer? handle with
    | none => simp
    | some buffer =>
      exact ⟨rfl, by rintro _ ⟨⟩; exact follows.known handle owned buffer found⟩
  | attach key | update key text | release key | create name text | hold name handle
  | setText handle text | forget key | drop | advance time => simp [publication?]

theorem supersedes_iff (follows : Follows mine key rename full reduced)
    (owned : step.own mine = true) : (⟨full, step⟩ : Moment κ).Supersedes key ↔
      (⟨reduced, step⟩ : Moment κ).Supersedes key := by
  simp only [Moment.Supersedes, Moment.published, (follows.publication?_own owned).1]
  refine or_congr_left ⟨?_, ?_⟩
  · rintro ⟨_, found, rfl⟩
    obtain ⟨publication, published, rfl⟩ := Option.map_eq_some_iff.mp found
    exact ⟨publication, published, rfl⟩
  · rintro ⟨publication, published, rfl⟩
    exact ⟨publication.moved rename, by rw [published, Option.map_some], rfl⟩

theorem shows_waiting (follows : Follows mine key rename full reduced) (time : Nat) :
    ((full.highlighter.pendingFor key).filter (·.due ≤ time)).filterMap
        (Highlighter.Delayed.show? full.samples) =
      ((reduced.highlighter.pendingFor key).filter (·.due ≤ time)).filterMap
        (Highlighter.Delayed.show? reduced.samples) := by
  rw [follows.pending, List.filter_map, List.filterMap_map]
  refine List.filterMap_congr fun work member => ?_
  have read := follows.versions _ (follows.waiting work (List.mem_of_mem_filter member))
  simp only [Function.comp, Highlighter.Delayed.show?, movedWork, read]

theorem next_own (follows : Follows mine key rename full reduced) (owned : step.own mine = true) :
    (∃ extended, Follows mine key extended (full.next step) (reduced.next step)) ∧
      full.shows step key = reduced.shows step key := by
  obtain ⟨extended, mirrors, kept, grown⟩ := follows.toMirrors.next_own owned
  have delay : (full.next step).highlighter.debounce =
      (reduced.next step).highlighter.debounce := by
    rw [debounce_next, debounce_next, follows.delay]
  -- The work of the key is replaced or taken back, or the clock shows some of it, or it waits.
  by_cases superseded : (⟨reduced, step⟩ : Moment κ).Supersedes key
  · rcases superseded with ⟨publication, found, rfl⟩ | cancelled
    · obtain ⟨published, known⟩ := follows.publication?_own owned
      have found : reduced.publication? step = some publication := found
      have within := known publication found
      rw [found, Option.map_some] at published
      obtain ⟨-, clock, waiting, shown⟩ := next_of_published published
      obtain ⟨-, clock', waiting', shown'⟩ := next_of_published found
      refine ⟨⟨extended, mirrors, ?_, delay, ?_, ?_⟩, ?_⟩
      · rw [clock, clock', follows.clock]
      · change (full.next step).highlighter.pendingFor (publication.moved rename).key = _
        rw [waiting, waiting', follows.delay]
        by_cases clean : publication.report.unmatched = []
        · simp [Publication.moved, clean]
        · simp [Publication.moved, Publication.work, clean, movedWork, kept _ within]
      · rw [waiting']
        split
        · simp
        · simpa [Publication.work] using Nat.lt_of_lt_of_le within grown
      · change full.shows step (publication.moved rename).key = _
        rw [shown, shown', follows.clock]
        rfl
    · obtain ⟨-, clock, waiting, shown⟩ := next_of_cancelled full cancelled
      obtain ⟨-, clock', waiting', shown'⟩ := next_of_cancelled reduced cancelled
      exact ⟨⟨extended, mirrors, by rw [clock, clock', follows.clock], delay,
        by rw [waiting, waiting', List.map_nil], by simp [waiting']⟩, by rw [shown, shown']⟩
  · rcases pendingFor_next (mt (follows.supersedes_iff owned).mp superseded) with
      ⟨time, rfl, clock, waiting, shown⟩ | ⟨still, clock, waiting, shown⟩
    · obtain ⟨_, same, clock', waiting', shown'⟩ | ⟨still, -⟩ := pendingFor_next superseded
      · cases same
        refine ⟨⟨extended, mirrors, by rw [clock, clock', follows.clock], delay, ?_, ?_⟩, ?_⟩
        · rw [waiting, waiting', follows.pending, follows.clock, List.filter_map,
            ← map_movedWork kept fun work member =>
              follows.waiting work (List.mem_of_mem_filter member)]
          rfl
        · rw [waiting']
          exact fun work member => Nat.lt_of_lt_of_le
            (follows.waiting work (List.mem_of_mem_filter member)) grown
        · rw [shown, shown', follows.clock, follows.shows_waiting]
      · exact absurd rfl (still time)
    · obtain ⟨time, rfl, -⟩ | ⟨-, clock', waiting', shown'⟩ := pendingFor_next superseded
      · exact absurd rfl (still time)
      · refine ⟨⟨extended, mirrors, by rw [clock, clock', follows.clock], delay, ?_, ?_⟩, ?_⟩
        · rw [waiting, waiting', follows.pending, map_movedWork kept follows.waiting]
        · rw [waiting']
          exact fun work member => Nat.lt_of_lt_of_le (follows.waiting work member) grown
        · rw [shown, shown']

theorem next_other (follows : Follows mine key rename full reduced)
    (other : step.foreign mine key = true) :
    Follows mine key rename (full.next step) reduced ∧ full.shows step key = [] := by
  have stands : ¬ (⟨full, step⟩ : Moment κ).Supersedes key := by
    rintro (⟨publication, published, rfl⟩ | rfl | rfl)
    · cases step with
      | refresh name source handle | publish name report handle captured =>
        obtain ⟨buffer, -, rfl⟩ := Option.map_eq_some_iff.mp published
        simp [Step.foreign] at other
      | attach key | update key text | release key | create name text | hold name handle
      | setText handle text | forget key | drop | advance time => cases published
    · simp [Step.foreign] at other
    · cases other
  rcases pendingFor_next stands with ⟨time, rfl, -⟩ | ⟨-, clock, waiting, shown⟩
  · cases other
  · exact ⟨⟨follows.toMirrors.next_other other, clock.trans follows.clock,
      (debounce_next full step).trans follows.delay, waiting.trans follows.pending,
      follows.waiting⟩, shown⟩

/-- Without its foreign steps a run shows the same. -/
theorem shown_eq (follows : Follows mine key rename full reduced) {steps : List (Step κ)}
    (split : ∀ step ∈ steps, step.own mine = true ∨ step.foreign mine key = true) :
    full.shown steps key = reduced.shown (steps.filter (!·.foreign mine key)) key := by
  induction steps generalizing full reduced rename with
  | nil => rfl
  | cons step steps ih =>
    obtain ⟨here, others⟩ := List.forall_mem_cons.mp split
    cases other : step.foreign mine key with
    | true =>
      obtain ⟨next, silent⟩ := follows.next_other other
      rw [List.filter_cons_of_neg (by simp [other]), shown, silent, List.nil_append]
      exact ih next others
    | false =>
      obtain ⟨⟨extended, next⟩, same⟩ := follows.next_own (here.resolve_right (by simp [other]))
      rw [List.filter_cons_of_pos (by simp [other]), shown, shown, same, ih next others]

end Follows

theorem follows_start (mine : Handle κ → Bool) (key : κ) (debounce : Nat) :
    Follows mine key id (start debounce) (start debounce) := by
  have empty : ∀ handle, (start debounce : Session κ).buffer? handle = none := by
    intro handle
    cases handle <;> rfl
  refine ⟨⟨nofun, nofun, nofun, fun handle _ => ?_, fun handle _ buffer found => ?_,
    fun handle _ buffer found => ?_⟩, rfl, rfl, rfl, nofun⟩
  · rw [empty, Option.map_none]
  · rw [empty] at found
    cases found
  · rw [empty] at found
    cases found

end Session
end GrammarDesk
