import GrammarDesk.Analysis.Symbols
import GrammarDesk.Proofs.Reading.Story

/-! What the tracker records while it listens to a reading: the name that begins
a rule, be it kept or not, is a definition, and every other name is a reference. -/
namespace GrammarDesk

def Symbol.ofEvent (kind : SymbolKind) (event : Event) : Symbol :=
  ⟨event.result, event.first, event.stop, kind⟩

@[simp] theorem Symbol.name_ofEvent (kind : SymbolKind) (event : Event) :
    (ofEvent kind event).name = event.result := rfl

namespace Symbols

open Parse

structure Hears (defined referred : List Event) (before after : Symbols) : Prop where
  definitions : after.definitions = before.definitions ++ defined.map (.ofEvent .definition)
  references : after.references = before.references ++ referred.map (.ofEvent .reference)

theorem Hears.nothing (symbols : Symbols) : Hears [] [] symbols symbols :=
  ⟨(List.append_nil _).symm, (List.append_nil _).symm⟩

theorem Hears.trans {defined more referred others : List Event} {before between after : Symbols}
    (first : Hears defined referred before between) (second : Hears more others between after) :
    Hears (defined ++ more) (referred ++ others) before after := by
  constructor
  · rw [second.definitions, first.definitions, List.append_assoc, List.map_append]
  · rw [second.references, first.references, List.append_assoc, List.map_append]

def sideAfter (side : Side) : Kind → Side
  | .defining => .referring
  | .terminator => .defining
  | _ => side

section

variable {symbols : Symbols} {text : Text}

theorem hears_name_defining (named : Kind.classify text = .name) (side : symbols.side = .defining)
    (index : Nat) :
    Hears [.ofToken text index] [] symbols (symbols.observe (.ofToken text index)) ∧
      (symbols.observe (.ofToken text index)).side = .defining := by
  have seen : symbols.observe (.ofToken text index) = { symbols with
      definitions := symbols.definitions ++ [⟨text, index, index + 1, .definition⟩] } := by
    simp [observe, Event.ofToken, named, Event.tokenNode, side]
  rw [seen]
  exact ⟨⟨rfl, (List.append_nil _).symm⟩, side⟩

theorem hears_name_referring (named : Kind.classify text = .name)
    (side : symbols.side = .referring) (index : Nat) :
    Hears [] [.ofToken text index] symbols (symbols.observe (.ofToken text index)) ∧
      (symbols.observe (.ofToken text index)).side = .referring := by
  have seen : symbols.observe (.ofToken text index) = { symbols with
      references := symbols.references ++ [⟨text, index, index + 1, .reference⟩] } := by
    simp [observe, Event.ofToken, named, Event.tokenNode, side]
  rw [seen]
  exact ⟨⟨(List.append_nil _).symm, rfl⟩, side⟩

theorem hears_other (symbols : Symbols) (other : Kind.classify text ≠ .name) (index : Nat) :
    Hears [] [] symbols (symbols.observe (.ofToken text index)) ∧
      (symbols.observe (.ofToken text index)).side =
        sideAfter symbols.side (Kind.classify text) := by
  have seen : (symbols.observe (.ofToken text index)).definitions = symbols.definitions ∧
      (symbols.observe (.ofToken text index)).references = symbols.references ∧
      (symbols.observe (.ofToken text index)).side =
        sideAfter symbols.side (Kind.classify text) := by
    unfold Event.ofToken
    cases classified : Kind.classify text <;>
      first | exact absurd classified other | exact ⟨rfl, rfl, rfl⟩
  exact ⟨⟨by simp [seen.1], by simp [seen.2.1]⟩, seen.2.2⟩

theorem sideAfter_plain (plain : Plain text) (side : Side) :
    sideAfter side (Kind.classify text) = side := by
  obtain ⟨defining, terminator⟩ := plain
  cases classified : Kind.classify text <;>
    first | rfl | exact absurd classified defining | exact absurd classified terminator

theorem hears_plain {texts : List Text} (plain : ∀ text ∈ texts, Plain text)
    (side : symbols.side = .referring) (index : Nat) :
    Hears [] ((Event.ofTokens index texts).filter Event.isName) symbols
        ((Event.ofTokens index texts).foldl observe symbols) ∧
      ((Event.ofTokens index texts).foldl observe symbols).side = .referring := by
  induction texts generalizing symbols index with
  | nil => exact ⟨.nothing symbols, side⟩
  | cons text texts ih =>
    obtain ⟨here, others⟩ := List.forall_mem_cons.mp plain
    rw [Event.ofTokens, List.foldl_cons, List.filter_cons, Event.isName_ofToken]
    by_cases named : Kind.classify text = .name
    · obtain ⟨first, still⟩ := hears_name_referring named side index
      obtain ⟨later, ends⟩ := ih others still (index + 1)
      rw [if_pos (by simp [named])]
      exact ⟨first.trans later, ends⟩
    · obtain ⟨first, still⟩ := hears_other symbols named index
      rw [sideAfter_plain here] at still
      obtain ⟨later, ends⟩ := ih others (still.trans side) (index + 1)
      rw [if_neg (by simp [named])]
      exact ⟨first.trans later, ends⟩

variable {name stop : Text} {tail : List Text}

theorem hears_opens (opens : Opens (name :: tail)) (side : symbols.side = .defining)
    (index : Nat) :
    Hears [.ofToken name index] ((Event.ofTokens (index + 1) tail).filter Event.isName) symbols
      ((Event.ofTokens index (name :: tail)).foldl observe symbols) := by
  rw [Event.ofTokens, List.foldl_cons]
  cases opens with
  | name named => exact (hears_name_defining named side index).1
  | @definitions _ defining _ named defines plain =>
    have other : Kind.classify defining ≠ .name := by rw [defines]; decide
    obtain ⟨first, -⟩ := hears_name_defining named side index
    obtain ⟨second, turned⟩ := hears_other (symbols.observe (.ofToken name index)) other (index + 1)
    rw [defines] at turned
    obtain ⟨third, -⟩ := hears_plain plain turned (index + 1 + 1)
    rw [Event.ofTokens, List.foldl_cons,
      List.filter_cons_of_neg (by simp [Event.isName_ofToken, other])]
    exact (first.trans second).trans third

theorem hears_terminated (opens : Opens (name :: tail)) (stops : Kind.classify stop = .terminator)
    (side : symbols.side = .defining) (index : Nat) :
    Hears [.ofToken name index] ((Event.ofTokens (index + 1) tail).filter Event.isName) symbols
        ((Event.ofTokens index (name :: tail ++ [stop])).foldl observe symbols) ∧
      ((Event.ofTokens index (name :: tail ++ [stop])).foldl observe symbols).side = .defining := by
  have other : Kind.classify stop ≠ .name := by rw [stops]; decide
  have first := hears_opens opens side index
  obtain ⟨last, waits⟩ := hears_other
    ((Event.ofTokens index (name :: tail)).foldl observe symbols) other
    (index + (name :: tail).length)
  rw [stops] at waits
  have whole := first.trans last
  simp only [List.append_nil] at whole
  rw [Event.ofTokens_append, List.foldl_append]
  exact ⟨whole, waits⟩

theorem observe_ofRule (symbols : Symbols) (texts : List Text) (index : Nat) :
    symbols.observe (.ofRule texts index) = symbols := rfl

end

/-- What a tracker records that is assigned to its nodes. -/
def listen (events : List Event) : Symbols :=
  ofEvents (((({} : Listeners).assign nodes).deliver events).map Prod.snd)

theorem observe_unheard {event : Event} (unheard : event.node ∉ nodes) (symbols : Symbols) :
    symbols.observe event = symbols := by
  simp only [nodes, List.mem_cons, List.not_mem_nil, or_false, not_or] at unheard
  obtain ⟨name, defining, terminator, literal, special⟩ := unheard
  simp only [observe, name, defining, terminator, literal, special, if_false]

/-- The events that the tracker does not hear would not change it. -/
theorem listen_eq_ofEvents (events : List Event) : listen events = ofEvents events := by
  have heard (symbols : Symbols) (event : Event) :
      (((({} : Listeners).assign nodes).hearers event).map (·, event)).foldl
        (fun symbols (delivery : Nat × Event) => symbols.observe delivery.2) symbols =
        symbols.observe event := by
    by_cases wanted : event.node ∈ nodes
    · simp [Listeners.hearers, Listeners.assign, wanted]
    · simp [Listeners.hearers, Listeners.assign, wanted, observe_unheard wanted]
  rw [listen, ofEvents, ofEvents, List.foldl_map, Listeners.deliver, List.foldl_flatMap]
  exact congrFun (congrFun (congrArg _ (funext₂ heard)) _) _

end Symbols

namespace Reading

open Parse

/-- Where rules begin that have these spans; behind the last one, a rule may
begin that is not finished. -/
def starts (start : Nat) (spans : List Event) : List Nat := start :: spans.map Event.stop

theorem starts_rule (start stop : Nat) (texts : List Text) (spans : List Event) :
    starts start (.ofRule texts stop :: spans) = start :: starts stop spans := rfl

theorem Consecutive.le_starts {start : Nat} {spans : List Event}
    (consecutive : Consecutive start spans) : ∀ index ∈ starts start spans, start ≤ index := by
  induction spans generalizing start with
  | nil => simp [starts]
  | cons span spans ih =>
    obtain ⟨-, forward, rest⟩ := consecutive
    intro index member
    rcases List.mem_cons.mp member with rfl | member
    · exact Nat.le_refl _
    · exact Nat.le_trans (Nat.le_of_lt forward) (ih rest index member)

def standsAt (indices : List Nat) (event : Event) : Bool := event.first ∈ indices

theorem standsAt_iff {indices : List Nat} {event : Event} :
    standsAt indices event ↔ event.first ∈ indices := by
  simp [standsAt]

theorem names_of_rule {name : Text} (named : Kind.classify name = .name) (tail : List Text)
    (start : Nat) (later : List Nat)
    (apart : ∀ index ∈ later, start + (name :: tail).length ≤ index) :
    ((Event.ofTokens start (name :: tail)).filter Event.isName).filter (standsAt (start :: later)) =
        [.ofToken name start] ∧
      ((Event.ofTokens start (name :: tail)).filter Event.isName).filter
          (!standsAt (start :: later) ·) =
        (Event.ofTokens (start + 1) tail).filter Event.isName := by
  have behind : ∀ event ∈ (Event.ofTokens (start + 1) tail).filter Event.isName,
      ¬ standsAt (start :: later) event := by
    intro event member found
    have bounds := Event.bounds_of_mem_ofTokens (List.mem_filter.mp member).1
    rcases List.mem_cons.mp (standsAt_iff.mp found) with same | found
    · omega
    · have := apart _ found
      rw [List.length_cons] at this
      omega
  have first : standsAt (start :: later) (.ofToken name start) :=
    standsAt_iff.mpr List.mem_cons_self
  rw [Event.ofTokens, List.filter_cons_of_pos (by simp [Event.isName_ofToken, named])]
  constructor
  · rw [List.filter_cons_of_pos first, List.filter_eq_nil_iff.mpr behind]
  · rw [List.filter_cons_of_neg (by simp [first]), List.filter_eq_self.mpr]
    simpa using behind

theorem names_behind {start next : Nat} (forward : start < next) (texts : List Text)
    (later : List Nat) :
    ((Event.ofTokens next texts).filter Event.isName).filter (standsAt (start :: later)) =
        ((Event.ofTokens next texts).filter Event.isName).filter (standsAt later) ∧
      ((Event.ofTokens next texts).filter Event.isName).filter (!standsAt (start :: later) ·) =
        ((Event.ofTokens next texts).filter Event.isName).filter (!standsAt later ·) := by
  have same : ∀ event ∈ (Event.ofTokens next texts).filter Event.isName,
      standsAt (start :: later) event = standsAt later event := by
    intro event member
    have bounds := Event.bounds_of_mem_ofTokens (List.mem_filter.mp member).1
    have other : event.first ≠ start := by omega
    simp [standsAt, other]
  exact ⟨List.filter_congr same, List.filter_congr fun event member => by rw [same event member]⟩

theorem names_rule {name stop : Text} {tail : List Text} {start : Nat} {spans : List Event}
    (named : Kind.classify name = .name) (other : Kind.classify stop ≠ .name)
    (consecutive : Consecutive (start + (name :: tail ++ [stop]).length) spans)
    (more : List Text) :
    let width := (name :: tail ++ [stop]).length
    let names := (Event.ofTokens start (name :: tail ++ [stop] ++ more)).filter Event.isName
    let later := (Event.ofTokens (start + width) more).filter Event.isName
    let indices := starts (start + width) spans
    names.filter (standsAt (start :: indices)) =
        .ofToken name start :: later.filter (standsAt indices) ∧
      names.filter (!standsAt (start :: indices) ·) =
        (Event.ofTokens (start + 1) tail).filter Event.isName ++
          later.filter (!standsAt indices ·) := by
  dsimp only
  have forward : start < start + (name :: tail ++ [stop]).length := by simp
  obtain ⟨defined, referred⟩ := names_of_rule named (tail ++ [stop]) start _ consecutive.le_starts
  obtain ⟨define, refer⟩ := names_behind forward more
    (starts (start + (name :: tail ++ [stop]).length) spans)
  have silent : (Event.ofTokens (start + 1 + tail.length) [stop]).filter Event.isName = [] := by
    simp [Event.ofTokens, Event.isName_ofToken, other]
  rw [Event.ofTokens_append _ tail, List.filter_append, silent, List.append_nil] at referred
  rw [Event.ofTokens_append, List.filter_append, List.filter_append, List.filter_append, define,
    refer]
  exact ⟨congrArg (· ++ _) defined, congrArg (· ++ _) referred⟩

end Reading

namespace Reading.Story

open Parse

variable {start : Nat} {texts : List Text} {rules : List Rule} {events : List Event}
  {symbols : Symbols}

/-- Listening to a story, the tracker takes the names where rules begin for
definitions and all others for references. -/
theorem hears (story : Story start texts rules events) (side : symbols.side = .defining) :
    let names := (Event.ofTokens start texts).filter Event.isName
    let indices := starts start (events.filter Event.isRule)
    Symbols.Hears (names.filter (standsAt indices)) (names.filter (!standsAt indices ·)) symbols
      (events.foldl Symbols.observe symbols) := by
  dsimp only
  induction story generalizing symbols with
  | @unfinished texts start opens =>
    rw [Event.filter_isRule_ofTokens]
    cases texts with
    | nil => exact .nothing symbols
    | cons name tail =>
      obtain ⟨defined, referred⟩ := names_of_rule opens.named tail start [] (by simp)
      rw [starts, List.map_nil, defined, referred]
      exact Symbols.hears_opens opens side start
  | @unterminated rule texts start tells =>
    obtain ⟨named, tail, rfl, opens⟩ := tells.exists_cons
    obtain ⟨defined, referred⟩ := names_of_rule named tail start
      [start + (rule.name :: tail).length] (by simp)
    rw [Event.filter_isRule_rule, List.foldl_append, starts, List.filter_nil, List.map_singleton,
      Event.stop_ofRule, defined, referred]
    exact Symbols.hears_opens opens side start
  | @rule rule texts stop start more rules events tells stops story ih =>
    obtain ⟨named, tail, rfl, opens⟩ := tells.exists_cons
    have other : Kind.classify stop ≠ .name := by rw [stops]; decide
    obtain ⟨first, waits⟩ := Symbols.hears_terminated opens stops side start
    obtain ⟨defined, referred⟩ := names_rule named other story.consecutive more
    rw [Event.filter_isRule_rule, List.foldl_append, List.foldl_cons, Symbols.observe_ofRule,
      starts_rule, defined, referred]
    exact first.trans (ih waits)

end Reading.Story

namespace Reading

def symbols (reading : Reading) : Symbols := Symbols.ofEvents reading.events

theorem exists_heard (tokens : List Text) : ∃ count,
    Reports tokens 0 count (ofTokens tokens).outcome ∧
    Story 0 (tokens.take count) (ofTokens tokens).rules (ofTokens tokens).events ∧
    let names := (Event.ofTokens 0 (tokens.take count)).filter Event.isName
    let indices := starts 0 (ofTokens tokens).spans
    (ofTokens tokens).symbols.definitions =
        (names.filter (standsAt indices)).map (.ofEvent .definition) ∧
      (ofTokens tokens).symbols.references =
        (names.filter (!standsAt indices ·)).map (.ofEvent .reference) := by
  obtain ⟨count, reports, story⟩ := exists_story tokens
  have fresh : ({} : Symbols).side = .defining := rfl
  have heard := story.hears fresh
  exact ⟨count, reports, story, heard.definitions, heard.references⟩

theorem token_of_symbol (tokens : List Text) {symbol : Symbol}
    (member : symbol ∈ (ofTokens tokens).symbols.definitions ∨
      symbol ∈ (ofTokens tokens).symbols.references) :
    tokens[symbol.first]? = some symbol.name ∧ symbol.stop = symbol.first + 1 := by
  obtain ⟨count, -, -, definitions, references⟩ := exists_heard tokens
  obtain ⟨kind, event, told, rfl⟩ : ∃ kind, ∃ event ∈ Event.ofTokens 0 (tokens.take count),
      symbol = .ofEvent kind event := by
    rw [definitions, references] at member
    rcases member with member | member
    all_goals
      obtain ⟨event, named, rfl⟩ := List.mem_map.mp member
      exact ⟨_, event, (List.mem_filter.mp (List.mem_filter.mp named).1).1, rfl⟩
  obtain ⟨offset, text, place, rfl⟩ := Event.exists_of_mem_ofTokens told
  rw [List.getElem?_take] at place
  split at place
  · rw [Nat.zero_add]
    exact ⟨place, rfl⟩
  · cases place

/-- Events, rules and symbols of a reading that has reported some tokens. -/
structure Agrees (reading : Reading) (reported : List Text) : Prop where
  leaves : reading.leaves = Event.ofTokens 0 reported
  consecutive : Consecutive 0 reading.spans
  inside : ∀ span ∈ reading.spans, span.stop ≤ reported.length
  covers : List.Forall₂ (fun rule span => Covers (reading.leaves.filter span.within) rule)
    reading.rules reading.spans
  definitions : (Symbols.listen reading.events).definitions =
    ((reading.leaves.filter Event.isName).filter (standsAt (starts 0 reading.spans))).map
      (.ofEvent .definition)
  references : (Symbols.listen reading.events).references =
    ((reading.leaves.filter Event.isName).filter (!standsAt (starts 0 reading.spans) ·)).map
      (.ofEvent .reference)

/-- Events, rules and symbols agree, wherever the reading stops. -/
theorem ofTokens_agrees (tokens : List Text) : ∃ count,
    Reports tokens 0 count (ofTokens tokens).outcome ∧
      (ofTokens tokens).Agrees (tokens.take count) := by
  obtain ⟨count, reports, story, definitions, references⟩ := exists_heard tokens
  have leaves : (ofTokens tokens).leaves = Event.ofTokens 0 (tokens.take count) :=
    story.filter_not_isRule
  refine ⟨count, reports, leaves, story.consecutive, ?_, ?_, ?_, ?_⟩
  · have inside := story.span_stop_le
    rwa [Nat.zero_add] at inside
  · have covers := story.covers [] (by simp)
    rwa [List.nil_append, ← leaves] at covers
  · rw [Symbols.listen_eq_ofEvents, leaves]
    exact definitions
  · rw [Symbols.listen_eq_ofEvents, leaves]
    exact references

end Reading
end GrammarDesk
