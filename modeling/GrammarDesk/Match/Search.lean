import GrammarDesk.Grammar.Program
import GrammarDesk.Match.Ends
import Std.Data.HashMap

/-! Matching tokens against a program. A node started at a spot is evaluated to
all spots where it can end, and the ends of a rule are remembered per spot.

A rule that comes back to itself at the same spot sees the ends found so far,
at first none; when its body is done it is evaluated again from the larger
seed, until nothing new is found. Whatever was remembered during a round may
rest on the smaller seed, so it is forgotten before the next round.

Rules nest at most `maxDepth` deep; one that would go deeper fails where it
stands. The searches are total: rules by the nesting that is left, nodes by
their structure, and the loops by the room left in a set of ends. -/
namespace GrammarDesk

/-- What is known of a rule at a spot: the ends so far of one that is being
evaluated, and whether it came back to itself, or all its ends. -/
inductive Entry (n : Nat) where
  | growing (seed : Ends n) (reentered : Bool)
  | settled (ends : Ends n)

abbrev Goal (rules n : Nat) := Fin rules × Spot n

/-- The state of a search: what is known, which goals were settled, newest
first, the furthest spot where a token was missing, and the goals that were
turned away because rules nested too deep, newest first. -/
structure Search (rules n : Nat) where
  memo : Std.HashMap (Goal rules n) (Entry n) := ∅
  settled : List (Goal rules n) := []
  furthest : Option (Spot n) := none
  refused : List (Goal rules n) := []

namespace Search

variable {rules n : Nat}

def fail (p : Spot n) (search : Search rules n) : Search rules n :=
  match search.furthest with
  | some q => if q < p then { search with furthest := some p } else search
  | none => { search with furthest := some p }

/-- Whether a goal came back to itself since its seed was set. -/
def reentered (goal : Goal rules n) (search : Search rules n) : Bool :=
  match search.memo[goal]? with
  | some (.growing _ reentered) => reentered
  | _ => false

def refuse (goal : Goal rules n) (search : Search rules n) : Search rules n :=
  { search with refused := goal :: search.refused }

def grow (goal : Goal rules n) (seed : Ends n) (reentered : Bool) (search : Search rules n) :
    Search rules n :=
  { search with memo := search.memo.insert goal (.growing seed reentered) }

def settle (goal : Goal rules n) (ends : Ends n) (search : Search rules n) : Search rules n :=
  { search with
    memo := search.memo.insert goal (.settled ends), settled := goal :: search.settled }

def forget (mark : Nat) (search : Search rules n) : Search rules n :=
  let stale := search.settled.take (search.settled.length - mark)
  { search with
    memo := stale.foldl (fun memo goal => memo.erase goal) search.memo
    settled := search.settled.drop (search.settled.length - mark) }

end Search

abbrev Find (rules n : Nat) := StateM (Search rules n) (Ends n)

namespace Find

variable {rules n : Nat}

def miss (p : Spot n) : Find rules n := fun search => (∅, search.fail p)

def token (tokens : Vector Text n) (test : Text → Bool) (p : Spot n) : Find rules n :=
  if h : p.val < n then
    if test tokens[p.val] then pure {⟨p.val + 1, Nat.succ_lt_succ h⟩} else miss p
  else miss p

def each (find : Spot n → Find rules n) : List (Spot n) → Find rules n
  | [] => pure ∅
  | p :: ps => do
    let first ← find p
    let others ← each find ps
    return first ∪ others

/-- `count` rounds, each from the ends of the round before. A round without
ends or without change is the last: all further ones would repeat it. -/
def rounds (find : Spot n → Find rules n) : Nat → Ends n → Find rules n
  | 0, ends => pure ends
  | count + 1, ends => do
    let next ← each find ends.toList
    if next = ∅ ∨ next = ends then return next else rounds find count next

/-- Adds the ends beyond `p` to the reached ones; new ones are put on the
frontier, the last on top. -/
def push (p : Spot n) : List (Spot n) → List (Spot n) × Ends n → List (Spot n) × Ends n
  | [], state => state
  | e :: es, (frontier, reached) =>
    if p < e ∧ e ∉ reached then push p es (e :: frontier, reached ∪ {e})
    else push p es (frontier, reached)

/-- A new frontier spot takes room in the reached set. -/
theorem push_size (p : Spot n) (es : List (Spot n)) (frontier : List (Spot n)) (reached : Ends n) :
    (push p es (frontier, reached)).1.length + (push p es (frontier, reached)).2.room ≤
      frontier.length + reached.room := by
  induction es generalizing frontier reached with
  | nil => exact Nat.le_refl _
  | cons e es ih =>
    unfold push
    split
    · have new : ¬ ({e} : Ends n) ⊆ reached := fun sub =>
        (by assumption : p < e ∧ e ∉ reached).2 (sub e (List.mem_singleton.mpr rfl))
      have := ih (e :: frontier) (reached ∪ {e})
      have := Ends.room_union_lt new
      simp only [List.length_cons] at *
      omega
    · exact ih frontier reached

/-- Everything reachable from the frontier by repetition, the top first. Rounds
that consume nothing are dropped, so empty loops end. -/
def reach (find : Spot n → Find rules n) (frontier : List (Spot n)) (reached : Ends n) :
    Find rules n := fun search =>
  match frontier with
  | [] => (reached, search)
  | p :: rest =>
    let (ends, search) := find p search
    let next := push p ends.toList (rest, reached)
    reach find next.1 next.2 search
termination_by frontier.length + reached.room
decreasing_by
  have := push_size p ends.toList rest reached
  simp only [List.length_cons]
  omega

def closure (find : Spot n → Find rules n) (start : Ends n) : Find rules n :=
  reach find start.toList.reverse start

/-- Repeats the search for a goal from larger and larger seeds, as long as it
came back to itself and found anything new. -/
def regrow (goal : Goal rules n) (mark : Nat) (find : Find rules n) (ends : Ends n) :
    Find rules n := fun search =>
  if search.reentered goal then
    let (next, search) := find ((search.forget mark).grow goal ends false)
    if next ⊆ ends then (ends, search) else regrow goal mark find (ends ∪ next) search
  else (ends, search)
termination_by ends.room
decreasing_by exact Ends.room_union_lt (by assumption)

/-- A goal that is not yet known: its body is searched until its ends settle. -/
def goal (goal : Goal rules n) (find : Find rules n) : Find rules n := fun search =>
  let mark := search.settled.length
  let (first, search) := find (search.grow goal ∅ false)
  let (ends, search) := regrow goal mark find first search
  (ends, search.settle goal ends)

end Find

namespace Node

variable {rules n : Nat} (tokens : Vector Text n) (call : Fin rules → Spot n → Find rules n)

mutual

def eval : Node rules → Spot n → Find rules n
  | alternation items, p => evalAny items p
  | sequence items, p => evalAll items {p}
  | optional inner, p => do return {p} ∪ (← eval inner p)
  | repeated inner, p => Find.closure (eval inner) {p}
  | oneOrMore inner, p => do Find.closure (eval inner) (← eval inner p)
  | times count inner, p => Find.rounds (eval inner) count {p}
  | except kept dropped, p => do
    let ends ← eval kept p
    let excluded ← eval dropped p
    return ends \ excluded
  | terminal literal, p =>
    if literal.isEmpty then pure {p} else Find.token tokens (· == literal) p
  | rule index, p => call index p
  | anyToken, p => Find.token tokens (fun _ => true) p
  | empty, p => pure {p}

def evalAny : List (Node rules) → Spot n → Find rules n
  | [], _ => pure ∅
  | item :: items, p => do
    let first ← eval item p
    let others ← evalAny items p
    return first ∪ others

def evalAll : List (Node rules) → Ends n → Find rules n
  | [], ends => pure ends
  | item :: items, ends => do
    let next ← Find.each (eval item) ends.toList
    if next = ∅ then return next else evalAll items next

end

end Node

namespace Program

/-- Most rules that may be nested inside one another. -/
def maxDepth : Nat := 2048

variable (program : Program) {n : Nat} (tokens : Vector Text n)

/-- The ends of a rule at a spot, with `depth` more rules allowed to nest. -/
def rule : Nat → Fin program.names.length → Spot n → Find program.names.length n
  | depth, index, p => fun search =>
    match search.memo[(index, p)]? with
    | some (.settled ends) => (ends, search)
    | some (.growing seed _) => (seed, search.grow (index, p) seed true)
    | none =>
      match depth with
      | 0 => Find.miss p (search.refuse (index, p))
      | depth + 1 =>
        Find.goal (index, p) ((program.body index).eval tokens (rule depth) p) search

/-- The furthest spot that a search ended at or looked beyond. -/
def reached (ends : Ends n) (search : Search rules n) : Nat :=
  max ((ends.toList.getLast?.map Fin.val).getD 0) ((search.furthest.map Fin.val).getD 0)

def run : Ends n × Search program.names.length n :=
  program.rule tokens maxDepth program.startRule 0 {}

/-- Matches all tokens against the start rule. A match that reached the end of
the tokens is complete, even where it wanted more. -/
def outcome (tokens : List Text) : Outcome :=
  let (ends, search) := program.run tokens.toArray.toVector
  let reached := reached ends search
  if reached < tokens.length then .haltedAt reached else .complete

end Program
end GrammarDesk
