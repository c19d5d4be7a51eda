import GrammarDesk.Proofs.Match.Redundancy
import GrammarDesk.Proofs.Match.Trace

/-! Evaluating a node again. All that the second evaluation looks at is as the first one
left it: what was found stays settled, what is in progress has been noted as come back to,
and missing tokens have been looked for. The derivation of an evaluation shows that this
goes for every part of the node too, however often its loops repeat it. -/
namespace GrammarDesk

theorem Ends.sdiff_self {n : Nat} (ends : Ends n) : ends \ ends = ∅ :=
  eq_empty_of_forall_not_mem fun _ member => (mem_sdiff.mp member).2 (mem_sdiff.mp member).1

/-- Whether it is part of the evaluation of a node, and no goal that is searched again. -/
def Find.Query.IsPart {rules n : Nat} : Find.Query rules n → Prop
  | .regrow .. => False
  | _ => True

def Find.Note.Within {rules n : Nat} (depth : Nat) : Find.Note rules n → Prop
  | .evaluated left .. => left ≤ depth
  | .regrown .. => True

theorem Find.Note.Within.mono {rules n depth depth' : Nat} {note : Find.Note rules n}
    (within : note.Within depth) (le : depth ≤ depth') : note.Within depth' := by
  cases note with
  | evaluated => exact Nat.le_trans within le
  | regrown => trivial

namespace Program

variable (program : Program) {n : Nat} (tokens : Vector Text n) (depth : Nat)

/-- In this state a node has these ends, and it adds nothing to the state to find them. -/
def Recalls (search : Search program.names.length n) (node : Node program.names.length)
    (p : Spot n) (ends : Ends n) : Prop :=
  (node.eval tokens (program.rule tokens depth) p search).1 = ends ∧
    (node.eval tokens (program.rule tokens depth) p search).2.Alike search

/-- What was noted at this nesting would be noted again. -/
def Confirms (search : Search program.names.length n) : Find.Note program.names.length n → Prop
  | .evaluated left node p _ ends => left = depth → program.Recalls tokens depth search node p ends
  | .regrown .. => True

variable {program tokens depth}

theorem confirms_of_within {note : Find.Note program.names.length n} (within : note.Within depth)
    (last : Search program.names.length n) : program.Confirms tokens (depth + 1) last note := by
  cases note with
  | evaluated left =>
    intro (same : left = depth + 1)
    have le : left ≤ depth := within
    omega
  | regrown => trivial

variable (program tokens depth) in
theorem twins_self : Find.Twins (program.rule tokens depth) (program.rule tokens depth) :=
  twins_rule (fun _ => Node.like_refl _) depth

variable (tokens depth) in
theorem lasting_answer {query : Find.Query program.names.length n} (part : query.IsPart) :
    Find.Lasting (program.rule tokens depth) (program.answer tokens depth query) := by
  have twins := twins_self program tokens depth
  cases query with
  | node node p => exact node.lasting_eval twins p
  | work node p => exact node.lasting_eval twins p
  | any items p => exact Node.lasting_evalAny twins items p
  | all items ends => exact Node.lasting_evalAll twins items ends
  | each node spots => exact Find.lasting_each (node.lasting_eval twins) spots
  | rounds node count ends => exact Find.lasting_rounds (node.lasting_eval twins) count ends
  | reach node frontier found => exact Find.lasting_reach (node.lasting_eval twins) frontier found
  | regrow => exact part.elim

namespace Finds

variable {query : Find.Query program.names.length n}
  {before after last : Search program.names.length n}
  {log : List (Find.Note program.names.length n)} {ends : Ends n}

theorem later (finds : program.Finds tokens depth query before log ends after)
    (part : query.IsPart) : Find.Later (program.rule tokens depth) before after := by
  have takes := (lasting_answer tokens depth part).takes before
  rwa [finds.answer_eq] at takes

theorem recalls {node : Node program.names.length} {p : Spot n}
    (finds : program.Finds tokens depth (.work node p) before log ends after)
    (later : Find.Later (program.rule tokens depth) after last) :
    program.Recalls tokens depth last node p ends := by
  have value : node.eval tokens (program.rule tokens depth) p before = (ends, after) :=
    finds.answer_eq
  have lasting : Find.Lasting (program.rule tokens depth)
      (node.eval tokens (program.rule tokens depth) p) :=
    node.lasting_eval (twins_self program tokens depth) p
  have again := lasting.again before last
  rw [value] at again
  exact again later

theorem within (finds : program.Finds tokens depth query before log ends after) :
    ∀ note ∈ log, note.Within depth := by
  induction finds with
  | node _ ih =>
    exact List.forall_mem_append.mpr ⟨ih, List.forall_mem_singleton.mpr (Nat.le_refl _)⟩
  | rule _ _ _ ih₁ ih₂ =>
    have notes := List.forall_mem_append.mpr ⟨ih₁, ih₂⟩
    refine List.forall_mem_append.mpr ⟨fun note found => ?_, List.forall_mem_singleton.mpr trivial⟩
    exact (notes note found).mono (Nat.le_succ _)
  | _ => grind

/-- Whatever is searched for after the evaluation of a node, all that was noted of it at
its own nesting would be noted again. -/
theorem confirms (finds : program.Finds tokens depth query before log ends after)
    (part : query.IsPart) (later : Find.Later (program.rule tokens depth) after last) :
    ∀ note ∈ log, program.Confirms tokens depth last note := by
  induction finds generalizing last with
  | node work ih =>
    exact List.forall_mem_append.mpr ⟨ih trivial later,
      List.forall_mem_singleton.mpr fun _ => work.recalls later⟩
  | alternation _ ih | sequence _ ih | optional _ ih | repeated _ ih | times _ ih
  | allStop _ ih | roundsStop _ _ ih => exact ih trivial later
  | oneOrMore _ second ih₁ ih₂ | except _ second ih₁ ih₂ | anyCons _ second ih₁ ih₂
  | allCons _ _ second ih₁ ih₂ | eachCons _ second ih₁ ih₂ | roundsMore _ _ second ih₁ ih₂
  | reachCons _ second ih₁ ih₂ =>
    have first := ih₁ trivial ((second.later trivial).trans later)
    exact List.forall_mem_append.mpr ⟨first, ih₂ trivial later⟩
  | rule _ body again =>
    -- All notes of the rule are made with less nesting left.
    have inside := List.forall_mem_append.mpr ⟨body.within, again.within⟩
    refine List.forall_mem_append.mpr ⟨fun note found => ?_, List.forall_mem_singleton.mpr trivial⟩
    exact confirms_of_within (inside note found) last
  | regrowDone | regrowLast | regrowMore => exact part.elim
  | _ => simp

end Finds

/-- Evaluating a node is idempotent in every state, whatever nesting is left: directly
afterwards it has the same ends again and adds nothing to the state, and nothing is left
of a node without itself. All parts that were evaluated on the way, by loops perhaps more
than once, had the ends that they still have when the node is done. -/
theorem eval_idempotent (program : Program) {n : Nat} (tokens : Vector Text n) (depth : Nat)
    (node : Node program.names.length) (p : Spot n) (search : Search program.names.length n) :
    ∃ ends after, node.eval tokens (program.rule tokens depth) p search = (ends, after) ∧
      program.Recalls tokens depth after node p ends ∧
      ((Node.except node node).eval tokens (program.rule tokens depth) p search).1 = ∅ ∧
      (∃ log, program.Finds tokens depth (.work node p) search log ends after) ∧
      ∀ log, program.Finds tokens depth (.work node p) search log ends after →
        ∀ part q before found, .evaluated depth part q before found ∈ log →
          program.Recalls tokens depth after part q found := by
  obtain ⟨log, ends, after, finds⟩ := answers_work (answers_rule depth) node p search
  have value : node.eval tokens (program.rule tokens depth) p search = (ends, after) :=
    finds.answer_eq
  have again : program.Recalls tokens depth after node p ends := finds.recalls (.refl after)
  refine ⟨ends, after, value, again, ?_, ⟨log, finds⟩, ?_⟩
  · change (node.eval tokens (program.rule tokens depth) p search).1 \
      (node.eval tokens (program.rule tokens depth) p
        (node.eval tokens (program.rule tokens depth) p search).2).1 = ∅
    rw [value, again.1]
    exact ends.sdiff_self
  · intro log finds part q before found noted
    exact finds.confirms trivial (.refl after) _ noted rfl

end Program

end GrammarDesk
