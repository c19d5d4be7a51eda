import GrammarDesk.Proofs.Reading.Leaves
import GrammarDesk.Proofs.Reading.Sentence
import Mathlib.Data.List.Forall2

/-! The events of a reading, told rule by rule. A rule that is kept has its
tokens reported and then itself; of a rule that is not finished only the tokens
are. This holds wherever the reading stops. -/
namespace GrammarDesk

/-- The reports of tokens that follow one another from `index` on. -/
def Event.ofTokens (index : Nat) : List Text → List Event
  | [] => []
  | text :: texts => .ofToken text index :: ofTokens (index + 1) texts

theorem Event.ofTokens_append (index : Nat) (first second : List Text) :
    Event.ofTokens index (first ++ second) =
      Event.ofTokens index first ++ Event.ofTokens (index + first.length) second := by
  induction first generalizing index with
  | nil => rfl
  | cons text texts ih =>
    simp only [List.cons_append, ofTokens, ih, List.length_cons, Nat.add_right_comm, Nat.add_assoc]

theorem ReaderState.advance_terminator {state : ReaderState} {rule : Rule}
    (pending : state.pending? = some rule) : state.advance [';'] = .finished rule := by
  have kind : Kind.classify [';'] = .terminator := rfl
  cases state with
  | rule => cases pending
  | defining name => cases pending
  | body inside =>
    obtain ⟨name, outer, draft, need⟩ := inside
    simp only [pending?] at pending
    split at pending
    · rename_i bare
      obtain ⟨factor, last, rfl⟩ := Option.map_eq_some_iff.mp pending
      cases need <;> cases last <;>
        simp [advance, kind, Body.advance, Body.primary, Body.suffix, Body.link, counted, bare]
    · cases pending

theorem Parse.Partial.Sound.finishes {stage : Partial} (sound : stage.Sound) {rule : Rule}
    (pending : stage.state.pending? = some rule) : ∃ done : SyntaxRule, done.Allowed ∧
      done.rule = rule ∧ done.tokens = stage.tokens ++ [[';']] := by
  have moved := stage.advance_move [';']
  rw [ReaderState.advance_terminator pending] at moved
  have step := sound.advance [';']
  cases taken : stage.advance [';'] with
  | finished done =>
    rw [taken] at moved step
    cases moved
    exact ⟨done, step.1, rfl, step.2⟩
  | on next => simp [taken, Step.move] at moved
  | refused => simp [taken, Step.move] at moved
  | overflow => simp [taken, Step.move] at moved

namespace Parse

/-- The tokens of a rule, but for its terminator. -/
inductive Tells (rule : Rule) : List Text → Prop where
  | mk {inner} : Kind.classify rule.name = .name → Kind.classify defining = .defining →
      Bears inner rule.body.leaves → Tells rule (rule.name :: defining :: inner)

/-- The first tokens of a rule that goes on behind them. -/
inductive Opens : List Text → Prop where
  | nothing : Opens []
  | name : Kind.classify name = .name → Opens [name]
  | definitions {inner} : Kind.classify name = .name → Kind.classify defining = .defining →
      (∀ text ∈ inner, Plain text) → Opens (name :: defining :: inner)

theorem Opens.named {name : Text} {tail : List Text} (opens : Opens (name :: tail)) :
    Kind.classify name = .name := by
  cases opens with
  | name named => exact named
  | definitions named _ _ => exact named

theorem SyntaxRule.Allowed.tells {rule : SyntaxRule} (allowed : rule.Allowed) :
    ∃ texts, rule.tokens = texts ++ [rule.stop] ∧ Tells rule.rule texts :=
  ⟨rule.name :: Kind.defining.symbol :: rule.definitions.tokens, rfl,
    .mk allowed.1 (Kind.classify_symbol rfl) (rule.definitions.bears allowed.2.1)⟩

theorem Tells.opens {rule : Rule} {texts rest : List Text} (tells : Tells rule (texts ++ rest)) :
    Opens texts := by
  generalize same : texts ++ rest = whole at tells
  cases tells with
  | mk name defining bears =>
    match texts with
    | [] => exact .nothing
    | [first] =>
      cases same
      exact .name name
    | first :: second :: inner =>
      cases same
      exact .definitions name defining fun text member =>
        bears.plain text (List.mem_append_left _ member)

theorem Tells.exists_cons {rule : Rule} {texts : List Text} (tells : Tells rule texts) :
    Kind.classify rule.name = .name ∧ ∃ tail, texts = rule.name :: tail ∧ Opens texts := by
  have opens : Opens texts := by
    rw [← List.append_nil texts] at tells
    exact tells.opens
  cases tells with
  | mk name defining bears => exact ⟨name, _, rfl, opens⟩

theorem Tells.leaves {rule : Rule} {texts : List Text} (tells : Tells rule texts) :
    texts.filterMap leaf? = .reference rule.name :: rule.body.leaves := by
  cases tells with
  | mk name defining bears => simp [leaf?, name, defining, ← bears.leaves]

theorem Partial.Sound.opens {stage : Partial} (sound : stage.Sound) : Opens stage.tokens := by
  by_cases begun : stage = .rule
  · subst begun
    exact .nothing
  · obtain ⟨rule, rest, allowed, spelled, some_rest⟩ := sound.begins begun
    obtain ⟨texts, split, tells⟩ := allowed.tells
    obtain ⟨more, last, rfl⟩ := List.eq_nil_or_concat rest |>.resolve_left some_rest
    rw [split, List.concat_eq_append, ← List.append_assoc] at spelled
    obtain ⟨rfl, -⟩ := List.append_inj' spelled rfl
    exact tells.opens

theorem Partial.Sound.tells_finished {stage : Partial} (sound : stage.Sound) {text : Text}
    {done : SyntaxRule} (moved : stage.advance text = .finished done) :
    Tells done.rule stage.tokens ∧ Kind.classify text = .terminator := by
  have step := sound.advance text
  rw [moved] at step
  obtain ⟨allowed, spelled⟩ := step
  obtain ⟨front, split, tells⟩ := allowed.tells
  obtain ⟨rfl, last⟩ := List.append_inj' (spelled.symm.trans split) rfl
  cases last
  exact ⟨tells, allowed.2.2⟩

theorem Partial.Sound.tells_pending {stage : Partial} (sound : stage.Sound) {rule : Rule}
    (pending : stage.state.pending? = some rule) : Tells rule stage.tokens := by
  obtain ⟨done, allowed, rfl, ends⟩ := sound.finishes pending
  obtain ⟨texts, split, tells⟩ := allowed.tells
  obtain ⟨rfl, -⟩ := List.append_inj' (ends.symm.trans split) rfl
  exact tells

namespace Inside

variable (inside : Inside) (text : Text)

theorem link_ne_overflow (factor : Factor) : inside.link factor text ≠ .overflow := by
  unfold link
  dsimp only
  repeat' split
  all_goals exact Step.noConfusion

theorem suffix_ne_overflow (count : Option Text) (primary : Primary) :
    inside.suffix count primary text ≠ .overflow := by
  unfold suffix
  split
  · exact Step.noConfusion
  · exact Step.noConfusion
  · exact inside.link_ne_overflow text _

theorem primary_ne_overflow (count : Option Text) : inside.primary count text ≠ .overflow := by
  unfold primary
  dsimp only
  split
  case h_4 =>
    split
    · exact inside.link_ne_overflow text _
    · repeat' split
      all_goals exact Step.noConfusion
  all_goals exact Step.noConfusion

theorem integer_of_overflow {inside : Inside} {text : Text}
    (moved : inside.advance text = .overflow) : Kind.classify text = .integer := by
  unfold advance at moved
  split at moved
  · split at moved
    · assumption
    · exact absurd moved (inside.primary_ne_overflow text none)
  · split at moved <;> cases moved
  · exact absurd moved (inside.primary_ne_overflow text _)
  · exact absurd moved (inside.suffix_ne_overflow text _ _)
  · exact absurd moved (inside.link_ne_overflow text _)

end Inside

theorem Partial.overflow_cases {stage : Partial} {text : Text}
    (moved : stage.advance text = .overflow) :
    (∃ inside, stage = .body inside) ∧ Kind.classify text = .integer := by
  cases stage with
  | rule =>
    rw [advance] at moved
    split at moved <;> cases moved
  | defining name =>
    rw [advance] at moved
    split at moved <;> cases moved
  | body inside => exact ⟨⟨inside, rfl⟩, Inside.integer_of_overflow moved⟩

theorem Partial.Sound.opens_overflow {stage : Partial} (sound : stage.Sound) {text : Text}
    (moved : stage.advance text = .overflow) : Opens (stage.tokens ++ [text]) := by
  obtain ⟨⟨inside, rfl⟩, integer⟩ := overflow_cases moved
  have plain : Plain text := by simp [Plain, integer]
  have opens := sound.opens
  unfold Partial.tokens Inside.tokensWith at opens ⊢
  cases opens with
  | definitions name defining inner =>
    exact .definitions name defining
      (List.forall_mem_append.mpr ⟨inner, List.forall_mem_singleton.mpr plain⟩)

end Parse

namespace Reading

open Parse

/-- Rules and events that tokens from `start` on give. -/
inductive Story : Nat → List Text → List Rule → List Event → Prop where
  | unfinished : Opens texts → Story start texts [] (Event.ofTokens start texts)
  | unterminated : Tells rule texts → Story start texts [rule]
      (Event.ofTokens start texts ++ [.ofRule texts (start + texts.length)])
  | rule {rules events} : Tells rule texts → Kind.classify stop = .terminator →
      Story (start + (texts ++ [stop]).length) more rules events →
      Story start (texts ++ [stop] ++ more) (rule :: rules)
        (Event.ofTokens start (texts ++ [stop]) ++
          .ofRule (texts ++ [stop]) (start + (texts ++ [stop]).length) :: events)

/-- How many tokens from `index` on are told: all of them, or those in front of
a halt and perhaps the one there. -/
def Reports (tokens : List Text) (index count : Nat) : Outcome → Prop
  | .complete => count = tokens.length
  | .haltedAt halt => halt < index + tokens.length ∧ index + count ≤ halt + 1 ∧ halt ≤ index + count

theorem Reports.succ {text : Text} {texts : List Text} {index count : Nat} {outcome : Outcome}
    (reports : Reports texts (index + 1) count outcome) :
    Reports (text :: texts) index (count + 1) outcome := by
  cases outcome with
  | complete => exact congrArg (· + 1) reports
  | haltedAt halt =>
    simp only [Reports, List.length_cons] at reports ⊢
    omega

/-- Wherever a reading stops, it has told a story. -/
theorem exists_story_of_sound {stage : Partial} (sound : stage.Sound) (start : Nat)
    (tokens : List Text) :
    let reading :=
      readFrom stage.state (start + stage.tokens.length) stage.tokens.reverse tokens
    ∃ count, Reports tokens (start + stage.tokens.length) count reading.outcome ∧
      Story start (stage.tokens ++ tokens.take count) reading.rules
        (Event.ofTokens start stage.tokens ++ reading.events) := by
  dsimp only
  -- The tokens of the stage are those of the rule that is being read.
  induction tokens generalizing stage start with
  | nil =>
    refine ⟨0, ?_⟩
    rw [List.take_nil, List.append_nil, readFrom]
    cases pending : stage.state.pending? with
    | none => exact ⟨rfl, by simpa using Story.unfinished sound.opens⟩
    | some rule => exact ⟨rfl, by simpa using Story.unterminated (sound.tells_pending pending)⟩
  | cons text texts ih =>
    have step := sound.advance text
    have simulated := stage.advance_move text
    rw [readFrom, ← simulated]
    cases moved : stage.advance text with
    | on next =>
      rw [moved] at step
      obtain ⟨fine, spelled⟩ := step
      obtain ⟨count, reports, story⟩ := ih fine start
      rw [spelled] at reports story
      simp only [List.length_append, List.length_singleton, List.reverse_append,
        List.reverse_singleton, List.singleton_append, ← Nat.add_assoc] at reports story
      refine ⟨count + 1, reports.succ, ?_⟩
      simpa [Step.move, Event.ofTokens_append, Event.ofTokens, Nat.add_assoc] using story
    | finished done =>
      obtain ⟨tells, stops⟩ := sound.tells_finished moved
      have fresh : Partial.rule.Sound := trivial
      obtain ⟨count, reports, story⟩ := ih fresh (start + (stage.tokens ++ [text]).length)
      have width : start + (stage.tokens ++ [text]).length + Partial.rule.tokens.length =
          start + stage.tokens.length + 1 := by
        simp [Partial.tokens, Nat.add_assoc]
      rw [width] at reports
      refine ⟨count + 1, reports.succ, ?_⟩
      simpa [Step.move, Partial.tokens, Event.ofTokens_append, Event.ofTokens, Nat.add_assoc,
        Partial.state] using Story.rule tells stops story
    | refused =>
      refine ⟨0, ?_, by simpa [Step.move] using Story.unfinished sound.opens⟩
      simp only [Step.move, Reports, List.length_cons]
      omega
    | overflow =>
      have story := @Story.unfinished _ start (sound.opens_overflow moved)
      refine ⟨1, ?_, by simpa [Step.move, Event.ofTokens_append, Event.ofTokens] using story⟩
      simp only [Step.move, Reports, List.length_cons]
      omega

theorem exists_story (tokens : List Text) : ∃ count,
    Reports tokens 0 count (ofTokens tokens).outcome ∧
    Story 0 (tokens.take count) (ofTokens tokens).rules (ofTokens tokens).events :=
  have fresh : Partial.rule.Sound := trivial
  exists_story_of_sound fresh 0 tokens

end Reading

namespace Event

def isRule (event : Event) : Bool := event.node = ruleNode

def isName (event : Event) : Bool := event.node = nameNode

def leaf? (event : Event) : Option Phrase :=
  if event.node = nameNode then some (.reference event.result)
  else if event.node = literalNode then some (.terminal (Text.unquote event.result))
  else if event.node = specialNode then some (.special (Text.trim (Text.unquote event.result)))
  else none

def within (span event : Event) : Bool := span.first ≤ event.first && event.stop ≤ span.stop

theorem within_iff {span event : Event} :
    span.within event ↔ span.first ≤ event.first ∧ event.stop ≤ span.stop := by
  simp [within]

theorem first_ofRule (texts : List Text) (start : Nat) :
    (ofRule texts (start + texts.length)).first = start :=
  Nat.add_sub_cancel ..

@[simp] theorem stop_ofRule (texts : List Text) (stop : Nat) : (ofRule texts stop).stop = stop :=
  rfl

@[simp] theorem isRule_ofToken (text : Text) (index : Nat) :
    (ofToken text index).isRule = false := by
  unfold ofToken
  cases Kind.classify text <;> rfl

theorem isName_ofToken (text : Text) (index : Nat) :
    (ofToken text index).isName = decide (Kind.classify text = .name) := by
  unfold ofToken
  cases Kind.classify text <;> rfl

@[simp] theorem isRule_ofRule (texts : List Text) (stop : Nat) :
    (ofRule texts stop).isRule = true :=
  rfl

theorem leaf?_ofToken (text : Text) (index : Nat) :
    (ofToken text index).leaf? = Parse.leaf? text := by
  unfold ofToken Parse.leaf?
  cases Kind.classify text <;> rfl

theorem exists_of_mem_ofTokens {event : Event} {index : Nat} {texts : List Text}
    (member : event ∈ ofTokens index texts) :
    ∃ offset text, texts[offset]? = some text ∧ event = ofToken text (index + offset) := by
  induction texts generalizing index with
  | nil => cases member
  | cons text texts ih =>
    rcases List.mem_cons.mp member with rfl | member
    · exact ⟨0, text, rfl, rfl⟩
    · obtain ⟨offset, other, place, rfl⟩ := ih member
      exact ⟨offset + 1, other, place, by rw [Nat.add_assoc, Nat.add_comm 1]⟩

theorem bounds_of_mem_ofTokens {event : Event} {index : Nat} {texts : List Text}
    (member : event ∈ ofTokens index texts) :
    index ≤ event.first ∧ event.first < index + texts.length ∧ event.stop = event.first + 1 := by
  obtain ⟨offset, text, place, rfl⟩ := exists_of_mem_ofTokens member
  obtain ⟨inside, -⟩ := List.getElem?_eq_some_iff.mp place
  exact ⟨Nat.le_add_right .., Nat.add_lt_add_left inside index, rfl⟩

theorem isRule_of_mem_ofTokens {event : Event} {index : Nat} {texts : List Text}
    (member : event ∈ ofTokens index texts) : event.isRule = false := by
  obtain ⟨offset, text, -, rfl⟩ := exists_of_mem_ofTokens member
  exact isRule_ofToken text _

@[simp] theorem filter_isRule_ofTokens (index : Nat) (texts : List Text) :
    (ofTokens index texts).filter isRule = [] :=
  List.filter_eq_nil_iff.mpr fun event member => by simp [isRule_of_mem_ofTokens member]

theorem filter_isRule_rule (index stop : Nat) (texts passed : List Text) (events : List Event) :
    (ofTokens index texts ++ ofRule passed stop :: events).filter isRule =
      ofRule passed stop :: events.filter isRule := by
  rw [List.filter_append, filter_isRule_ofTokens, List.filter_cons_of_pos (isRule_ofRule ..)]
  rfl

@[simp] theorem filter_not_isRule_ofTokens (index : Nat) (texts : List Text) :
    (ofTokens index texts).filter (!·.isRule) = ofTokens index texts :=
  List.filter_eq_self.mpr fun event member => by simp [isRule_of_mem_ofTokens member]

theorem filterMap_leaf?_ofTokens (index : Nat) (texts : List Text) :
    (ofTokens index texts).filterMap leaf? = texts.filterMap Parse.leaf? := by
  induction texts generalizing index with
  | nil => rfl
  | cons text texts ih => simp only [ofTokens, List.filterMap_cons, leaf?_ofToken, ih]

end Event

namespace Reading

/-- The reports in the span of a rule are of its name and of the leaves of its
body, from left to right. -/
structure Covers (inside : List Event) (rule : Rule) : Prop where
  leaves : inside.filterMap Event.leaf? = .reference rule.name :: rule.body.leaves
  names : (inside.filter Event.isName).map Event.result = rule.name :: rule.body.references
  literals : (inside.filter (·.node = Event.literalNode)).map (Text.unquote ·.result) =
    rule.body.terminals
  specials : (inside.filter (·.node = Event.specialNode)).map (Text.trim <| Text.unquote ·.result) =
    rule.body.specials

theorem told_by_leaves (events : List Event) :
    (events.filter Event.isName).map Event.result =
        (events.filterMap Event.leaf?).flatMap Phrase.references ∧
      (events.filter (·.node = Event.literalNode)).map (Text.unquote ·.result) =
        (events.filterMap Event.leaf?).flatMap Phrase.terminals ∧
      (events.filter (·.node = Event.specialNode)).map (Text.trim <| Text.unquote ·.result) =
        (events.filterMap Event.leaf?).flatMap Phrase.specials := by
  have distinct : Event.nameNode ≠ Event.literalNode ∧ Event.nameNode ≠ Event.specialNode ∧
      Event.literalNode ≠ Event.specialNode := by decide
  induction events with
  | nil => exact ⟨rfl, rfl, rfl⟩
  | cons event events ih =>
    obtain ⟨names, literals, specials⟩ := ih
    simp only [List.filter_cons, List.filterMap_cons, Event.leaf?]
    by_cases name : event.node = Event.nameNode
    · simp [name, distinct, Event.isName, Phrase.references, Phrase.terminals, Phrase.specials,
        names, literals, specials]
    by_cases literal : event.node = Event.literalNode
    · simp [literal, distinct, distinct.1.symm, Event.isName, Phrase.references, Phrase.terminals,
        Phrase.specials, names, literals, specials]
    by_cases special : event.node = Event.specialNode
    · simp [special, distinct.2.1.symm, distinct.2.2.symm, Event.isName, Phrase.references,
        Phrase.terminals, Phrase.specials, names, literals, specials]
    · simp [name, literal, special, Event.isName, names, literals, specials]

theorem Covers.of_leaves {inside : List Event} {rule : Rule}
    (leaves : inside.filterMap Event.leaf? = .reference rule.name :: rule.body.leaves) :
    Covers inside rule := by
  obtain ⟨names, literals, specials⟩ := told_by_leaves inside
  obtain ⟨references, terminals, sequences⟩ := rule.body.flatMap_leaves
  rw [leaves, List.flatMap_cons] at names literals specials
  rw [references] at names
  rw [terminals] at literals
  rw [sequences] at specials
  exact ⟨leaves, names, literals, specials⟩

theorem references_of_tells {rule : Rule} {tail : List Text}
    (tells : Parse.Tells rule (rule.name :: tail)) (index : Nat) :
    ((Event.ofTokens index tail).filter Event.isName).map Event.result = rule.body.references := by
  obtain ⟨named, -⟩ := tells.exists_cons
  have leaves := tells.leaves
  rw [List.filterMap_cons, Parse.leaf?, named] at leaves
  rw [(told_by_leaves _).1, Event.filterMap_leaf?_ofTokens, (List.cons.inj leaves).2]
  exact rule.body.flatMap_leaves.1

def leaves (reading : Reading) : List Event := reading.events.filter (!·.isRule)

def spans (reading : Reading) : List Event := reading.events.filter Event.isRule

def Consecutive (start : Nat) : List Event → Prop
  | [] => True
  | span :: spans => span.first = start ∧ start < span.stop ∧ Consecutive span.stop spans

namespace Story

variable {start : Nat} {texts : List Text} {rules : List Rule} {events : List Event}

theorem filter_not_isRule (story : Story start texts rules events) :
    events.filter (!·.isRule) = Event.ofTokens start texts := by
  induction story with
  | unfinished => simp
  | unterminated => simp
  | rule _ _ _ ih =>
    rw [List.filter_append, List.filter_cons_of_neg (by simp), Event.filter_not_isRule_ofTokens, ih]
    exact (Event.ofTokens_append ..).symm

theorem consecutive (story : Story start texts rules events) :
    Consecutive start (events.filter Event.isRule) := by
  induction story with
  | unfinished => rw [Event.filter_isRule_ofTokens]; trivial
  | unterminated tells =>
    cases tells
    rw [Event.filter_isRule_rule]
    exact ⟨Event.first_ofRule .., by simp, trivial⟩
  | rule _ _ _ ih =>
    rw [Event.filter_isRule_rule]
    exact ⟨Event.first_ofRule .., by simp, ih⟩

theorem span_stop_le (story : Story start texts rules events) :
    ∀ span ∈ events.filter Event.isRule, span.stop ≤ start + texts.length := by
  induction story with
  | unfinished => simp
  | unterminated => simp
  | @rule rule texts stop start more rules events _ _ _ ih =>
    rw [Event.filter_isRule_rule, @List.length_append _ (texts ++ [stop]), ← Nat.add_assoc]
    exact List.forall_mem_cons.mpr ⟨Nat.le_add_right .., ih⟩

theorem covers_span {rule : Rule} {before after : List Event}
    (leaves : texts.filterMap Parse.leaf? = .reference rule.name :: rule.body.leaves)
    (ahead : ∀ event ∈ before, event.first < start)
    (behind : ∀ event ∈ after, start + texts.length < event.stop) :
    Covers ((before ++ (Event.ofTokens start texts ++ after)).filter
      (Event.ofRule texts (start + texts.length)).within) rule := by
  have first : before.filter (Event.ofRule texts (start + texts.length)).within = [] := by
    refine List.filter_eq_nil_iff.mpr fun event member => ?_
    have := ahead event member
    rw [Event.within_iff, Event.first_ofRule]
    omega
  have last : after.filter (Event.ofRule texts (start + texts.length)).within = [] := by
    refine List.filter_eq_nil_iff.mpr fun event member => ?_
    have := behind event member
    rw [Event.within_iff, Event.stop_ofRule]
    omega
  have inside : (Event.ofTokens start texts).filter
      (Event.ofRule texts (start + texts.length)).within = Event.ofTokens start texts := by
    refine List.filter_eq_self.mpr fun event member => ?_
    have := Event.bounds_of_mem_ofTokens member
    rw [Event.within_iff, Event.first_ofRule, Event.stop_ofRule]
    omega
  rw [List.filter_append, List.filter_append, first, inside, last, List.nil_append, List.append_nil]
  exact .of_leaves ((Event.filterMap_leaf?_ofTokens ..).trans leaves)

/-- Each rule that is kept is told by the tokens in its span. -/
theorem covers (story : Story start texts rules events) (before : List Event)
    (ahead : ∀ event ∈ before, event.first < start) :
    List.Forall₂ (fun rule span =>
        Covers ((before ++ Event.ofTokens start texts).filter span.within) rule)
      rules (events.filter Event.isRule) := by
  induction story generalizing before with
  | unfinished =>
    rw [Event.filter_isRule_ofTokens]
    exact .nil
  | unterminated tells =>
    rw [Event.filter_isRule_rule]
    have covered := covers_span tells.leaves ahead (List.forall_mem_nil _)
    rw [List.append_nil] at covered
    exact .cons covered .nil
  | @rule rule texts stop start more rules events tells stops story ih =>
    have whole : (texts ++ [stop]).filterMap Parse.leaf? =
        .reference rule.name :: rule.body.leaves := by
      rw [List.filterMap_append, tells.leaves]
      simp [Parse.leaf?, stops]
    rw [Event.ofTokens_append, Event.filter_isRule_rule]
    -- For the rules behind it, this rule is part of what comes before them.
    refine .cons (covers_span whole ahead fun event member => ?_) ?_
    · have := Event.bounds_of_mem_ofTokens member
      omega
    · rw [← List.append_assoc]
      refine ih _ (List.forall_mem_append.mpr ⟨fun event member => ?_, fun event member => ?_⟩)
      · have := ahead event member
        omega
      · exact (Event.bounds_of_mem_ofTokens member).2.1

end Story

end Reading
end GrammarDesk
