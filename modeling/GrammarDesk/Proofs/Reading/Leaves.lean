import GrammarDesk.Proofs.Reading.References
import GrammarDesk.Proofs.Reading.Tree

/-! Names, literals and special sequences are the leaves of a phrase, in the
order of its tokens. No other token of a definition leaves a trace that tells
where rules begin or end. -/
namespace GrammarDesk

namespace Phrase

mutual

def leaves : Phrase → List Phrase
  | alternation items | sequence items => leavesAll items
  | optional inner | repeated inner | times _ inner | zeroOrMore inner | oneOrMore inner =>
    leaves inner
  | except kept dropped => leaves kept ++ leaves dropped
  | terminal literal => [terminal literal]
  | reference name => [reference name]
  | special text => [special text]
  | empty => []

def leavesAll : List Phrase → List Phrase
  | [] => []
  | item :: items => leaves item ++ leavesAll items

end

mutual

def specials : Phrase → List Text
  | alternation items | sequence items => specialsAll items
  | optional inner | repeated inner | times _ inner | zeroOrMore inner | oneOrMore inner =>
    specials inner
  | except kept dropped => specials kept ++ specials dropped
  | special text => [text]
  | terminal _ | reference _ | empty => []

def specialsAll : List Phrase → List Text
  | [] => []
  | item :: items => specials item ++ specialsAll items

end

theorem leavesAll_eq (items : List Phrase) : leavesAll items = items.flatMap leaves := by
  induction items with
  | nil => rfl
  | cons item items ih => rw [leavesAll, ih, List.flatMap_cons]

mutual

theorem flatMap_leaves (phrase : Phrase) :
    phrase.leaves.flatMap references = phrase.references ∧
      phrase.leaves.flatMap terminals = phrase.terminals ∧
      phrase.leaves.flatMap specials = phrase.specials := by
  cases phrase with
  | alternation items | sequence items =>
    rw [leaves, references, terminals, specials]
    exact flatMap_leavesAll items
  | optional inner | repeated inner | times _ inner | zeroOrMore inner | oneOrMore inner =>
    rw [leaves, references, terminals, specials]
    exact flatMap_leaves inner
  | except kept dropped =>
    obtain ⟨names, literals, special⟩ := flatMap_leaves kept
    obtain ⟨others, more, rest⟩ := flatMap_leaves dropped
    simp only [leaves, references, terminals, specials, List.flatMap_append, names, literals,
      special, others, more, rest, and_self]
  | terminal _ | reference _ | special _ | empty => exact ⟨rfl, rfl, rfl⟩

theorem flatMap_leavesAll (items : List Phrase) :
    (leavesAll items).flatMap references = referencesAll items ∧
      (leavesAll items).flatMap terminals = terminalsAll items ∧
      (leavesAll items).flatMap specials = specialsAll items := by
  cases items with
  | nil => exact ⟨rfl, rfl, rfl⟩
  | cons item items =>
    obtain ⟨names, literals, special⟩ := flatMap_leaves item
    obtain ⟨others, more, rest⟩ := flatMap_leavesAll items
    simp only [leavesAll, referencesAll, terminalsAll, specialsAll, List.flatMap_append, names,
      literals, special, others, more, rest, and_self]

end

end Phrase

namespace Parse

def leaf? (text : Text) : Option Phrase :=
  match Kind.classify text with
  | .name => some (.reference text)
  | .literal => some (.terminal (Text.unquote text))
  | .special => some (.special (Text.trim (Text.unquote text)))
  | _ => none

/-- The token neither starts nor ends the definitions of a rule. -/
def Plain (text : Text) : Prop :=
  Kind.classify text ≠ .defining ∧ Kind.classify text ≠ .terminator

/-- Tokens that stand inside the definitions of a rule, and their leaves. -/
structure Bears (tokens : List Text) (leaves : List Phrase) : Prop where
  leaves : tokens.filterMap leaf? = leaves
  plain : ∀ text ∈ tokens, Plain text

namespace Bears

variable {first second : List Text} {leaves more : List Phrase} {text : Text} {kind : Kind}

theorem nil : Bears [] [] := ⟨rfl, by simp⟩

theorem append (left : Bears first leaves) (right : Bears second more) :
    Bears (first ++ second) (leaves ++ more) := by
  refine ⟨?_, List.forall_mem_append.mpr ⟨left.plain, right.plain⟩⟩
  rw [List.filterMap_append, left.leaves, right.leaves]

theorem leaf {phrase : Phrase} (found : leaf? text = some phrase) : Bears [text] [phrase] := by
  refine ⟨by simp [found], List.forall_mem_singleton.mpr ?_⟩
  unfold leaf? at found
  unfold Plain
  cases classified : Kind.classify text <;> simp [classified] at found ⊢

theorem other (classified : Kind.classify text = kind)
    (inner : kind ≠ .name ∧ kind ≠ .literal ∧ kind ≠ .special ∧ kind ≠ .defining ∧
      kind ≠ .terminator) : Bears [text] [] := by
  subst classified
  obtain ⟨name, literal, special, plain⟩ := inner
  refine ⟨?_, List.forall_mem_singleton.mpr plain⟩
  have none : leaf? text = none := by
    unfold leaf?
    split <;> simp_all
  simp [none]

theorem symbol (delimiter : kind.isDelimiter)
    (plain : kind ≠ .defining ∧ kind ≠ .terminator) : Bears [kind.symbol] [] := by
  have distinct (other : Kind) (word : ¬ other.isDelimiter) : kind ≠ other :=
    fun same => word (same ▸ delimiter)
  exact other (Kind.classify_symbol delimiter)
    ⟨distinct _ (by decide), distinct _ (by decide), distinct _ (by decide), plain⟩

end Bears

theorem bears_countTokens {count : Option Text} (allowed : CountAllowed count) :
    Bears (countTokens count) [] := by
  cases count with
  | none => exact .nil
  | some count => exact (Bears.other allowed.1 (by decide)).append (.symbol rfl (by decide))

theorem bears_markTokens (mark : Option Mark) : Bears (markTokens mark) [] := by
  cases mark with
  | none => exact .nil
  | some mark => cases mark <;> exact .symbol rfl (by decide)

theorem leaves_numbered (count : Option Text) (inner : Phrase) :
    (numbered count inner).leaves = inner.leaves := by
  cases count <;> rfl

theorem leaves_marked (mark : Option Mark) (inner : Phrase) :
    (marked mark inner).leaves = inner.leaves := by
  rcases mark with _ | (_ | _) <;> rfl

theorem leaves_phrase (definition : Definition) :
    definition.phrase.leaves = definition.phrases.flatMap Phrase.leaves := by
  cases definition with
  | one term => simp [Definition.phrase, Definition.phrases]
  | snoc earlier term =>
    rw [Definition.phrase, Definition.phrases, Phrase.leaves, Phrase.leavesAll_eq]

theorem leaves_phrases (definitions : Definitions) :
    definitions.phrase.leaves = definitions.phrases.flatMap Phrase.leaves := by
  cases definitions with
  | one definition => simp [Definitions.phrase, Definitions.phrases]
  | snoc earlier definition =>
    rw [Definitions.phrase, Definitions.phrases, Phrase.leaves, Phrase.leavesAll_eq]

mutual

theorem Primary.bears {opened : Nat} {next : Kind} (primary : Primary)
    (allowed : primary.Allowed opened next) : Bears primary.tokens primary.phrase.leaves := by
  cases primary with
  | bracketed bracket inner =>
    have opens : Bears [bracket.opening.symbol] [] := by
      cases bracket <;> exact .symbol rfl (by decide)
    have closes : Bears [bracket.closing.symbol] [] := by
      cases bracket <;> exact .symbol rfl (by decide)
    have whole := opens.append ((inner.bears allowed.2).append closes)
    rw [List.append_nil, List.nil_append] at whole
    cases bracket <;> exact whole
  | name text => exact .leaf (by rw [leaf?, show Kind.classify text = .name from allowed])
  | literal text => exact .leaf (by rw [leaf?, show Kind.classify text = .literal from allowed])
  | special text => exact .leaf (by rw [leaf?, show Kind.classify text = .special from allowed])
  | nothing => exact .nil

theorem Factor.bears {opened : Nat} {next : Kind} (factor : Factor)
    (allowed : factor.Allowed opened next) : Bears factor.tokens factor.phrase.leaves := by
  cases factor with
  | mk count primary mark =>
    have whole := ((bears_countTokens allowed.1).append (primary.bears allowed.2)).append
      (bears_markTokens mark)
    rw [Factor.phrase, leaves_marked, leaves_numbered]
    simpa [Factor.tokens] using whole

theorem Term.bears {opened : Nat} {next : Kind} (term : Term)
    (allowed : term.Allowed opened next) : Bears term.tokens term.phrase.leaves := by
  cases term with
  | plain factor => exact factor.bears allowed
  | except kept dropped =>
    have minus : Bears [Kind.minus.symbol] [] := .symbol rfl (by decide)
    exact (kept.bears allowed.1).append (minus.append (dropped.bears allowed.2))

theorem Definition.bears {opened : Nat} {next : Kind} (definition : Definition)
    (allowed : definition.Allowed opened next) :
    Bears definition.tokens (definition.phrases.flatMap Phrase.leaves) := by
  cases definition with
  | one term => simpa [Definition.tokens, Definition.phrases] using term.bears allowed
  | snoc earlier term =>
    have comma : Bears [Kind.comma.symbol] [] := .symbol rfl (by decide)
    have whole := (earlier.bears allowed.1).append (comma.append (term.bears allowed.2))
    simpa [Definition.tokens, Definition.phrases] using whole

theorem Definitions.bears {opened : Nat} {next : Kind} (definitions : Definitions)
    (allowed : definitions.Allowed opened next) :
    Bears definitions.tokens definitions.phrase.leaves := by
  rw [leaves_phrases]
  cases definitions with
  | one definition =>
    simpa [Definitions.tokens, Definitions.phrases, leaves_phrase] using definition.bears allowed
  | snoc earlier definition =>
    have bar : Bears [Kind.bar.symbol] [] := .symbol rfl (by decide)
    have front := earlier.bears allowed.1
    rw [leaves_phrases] at front
    have whole := front.append (bar.append (definition.bears allowed.2))
    simpa [Definitions.tokens, Definitions.phrases, leaves_phrase] using whole

end

end Parse

end GrammarDesk
