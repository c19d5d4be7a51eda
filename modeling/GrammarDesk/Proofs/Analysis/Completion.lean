import GrammarDesk.Analysis.Completion
import GrammarDesk.Proofs.Analysis.Tracking
import GrammarDesk.Proofs.Live.Confirmation
import GrammarDesk.Proofs.Reading.Halting
import GrammarDesk.Proofs.Sample.Literals
import GrammarDesk.Proofs.Text.Places
import Mathlib

/-! What completion offers at a cursor: the names among the consumed tokens that properly
extend the word in front of it, in the order of their bytes and each once. It only fails
where a word follows a character of several bytes. -/
namespace GrammarDesk

namespace Text

def bytes (s : Text) : List UInt8 := s.flatMap String.utf8EncodeChar

theorem utf8EncodeChar_lt {c d : Char} (less : c.toNat < d.toNat) (s t : List UInt8) :
    String.utf8EncodeChar c ++ s < String.utf8EncodeChar d ++ t := by
  have top : d.toNat < 1114112 := by
    rcases d.valid with low | high
    · exact Nat.lt_trans low (by decide)
    · exact high.2
  change c.val.toNat < d.val.toNat at less
  change d.val.toNat < 1114112 at top
  unfold String.utf8EncodeChar
  dsimp only
  generalize c.val.toNat = a at *
  generalize d.val.toNat = b at *
  -- One case for each pair of lengths; the first byte tells lengths apart.
  split_ifs <;>
    simp (disch := omega) only [List.cons_append, List.nil_append, List.cons_lt_cons_iff,
      UInt8.lt_iff_toNat_lt, ← UInt8.toNat_inj, UInt8.toNat_ofNat', Nat.mod_eq_of_lt] <;>
    omega

theorem bytes_lt {a b : Text} (le : a.atMost b = true) (ne : a ≠ b) : a.bytes < b.bytes := by
  induction a generalizing b with
  | nil =>
    cases b with
    | nil => exact absurd rfl ne
    | cons d b =>
      have some_bytes : 0 < (String.utf8EncodeChar d).length := by
        rw [String.length_utf8EncodeChar]
        exact d.utf8Size_pos
      rw [bytes, bytes, List.flatMap_cons]
      cases first : String.utf8EncodeChar d with
      | nil => simp [first] at some_bytes
      | cons byte more => exact List.nil_lt_cons ..
  | cons c a ih =>
    cases b with
    | nil => cases le
    | cons d b =>
      rw [bytes, bytes, List.flatMap_cons, List.flatMap_cons]
      rcases atMost_cons_iff.mp le with less | ⟨same, rest⟩
      · exact utf8EncodeChar_lt less _ _
      · obtain rfl := Char.toNat_inj.mp same
        exact List.append_left_lt (ih rest fun same => ne (congrArg (c :: ·) same))

end Text

namespace Event

theorem exists_name_iff {texts : List Text} {name : Text} (index : Nat) :
    (∃ event ∈ (ofTokens index texts).filter isName, event.result = name) ↔
      name ∈ texts ∧ Kind.classify name = .name := by
  induction texts generalizing index with
  | nil => simp [ofTokens]
  | cons text texts ih =>
    rw [ofTokens, List.filter_cons, isName_ofToken, List.mem_cons, or_and_right, ← ih (index + 1)]
    by_cases named : Kind.classify text = .name
    · rw [if_pos (by simpa using named), List.exists_mem_cons_iff]
      refine or_congr_left ⟨fun same => ?_, fun found => found.1.symm⟩
      exact ⟨same.symm, same ▸ named⟩
    · rw [if_neg (by simpa using named)]
      refine (or_iff_right fun found => named ?_).symm
      exact found.1 ▸ found.2

end Event

namespace Reading

theorem names_consumed (tokens : List Text) :
    (ofTokens tokens).leaves.filter Event.isName =
      (Event.ofTokens 0 ((ofTokens tokens).outcome.consumed tokens)).filter Event.isName := by
  cases outcome : (ofTokens tokens).outcome with
  | complete =>
    obtain ⟨result, reached⟩ :=
      Option.isSome_iff_exists.mp ((ofTokens_complete_iff tokens).mp outcome)
    rw [leaves_of_run reached]
    rfl
  | haltedAt halt =>
    obtain ⟨consumed, overcounted⟩ := leaves_of_halt outcome
    by_cases overcounts : Overcounts tokens halt
    · -- The count that is reported too is no name.
      have leaves := overcounted overcounts
      obtain ⟨token, stands, integer, -⟩ := overcounts
      obtain ⟨inside, rfl⟩ := List.getElem?_eq_some_iff.mp stands
      have other : Kind.classify tokens[halt] ≠ .name := by rw [integer]; decide
      rw [leaves, List.take_succ_eq_append_getElem inside, Event.ofTokens_append,
        List.filter_append, Event.ofTokens, Event.ofTokens,
        List.filter_cons_of_neg (by simpa [Event.isName_ofToken] using other), List.filter_nil,
        List.append_nil]
      rfl
    · rw [consumed overcounts]
      rfl

theorem exists_symbol_iff (tokens : List Text) (name : Text) :
    (∃ symbol ∈ (ofTokens tokens).symbols.definitions ++ (ofTokens tokens).symbols.references,
      symbol.name = name) ↔
      name ∈ (ofTokens tokens).outcome.consumed tokens ∧ Kind.classify name = .name := by
  obtain ⟨count, -, story, definitions, references⟩ := exists_heard tokens
  have leaves : (ofTokens tokens).leaves = Event.ofTokens 0 (tokens.take count) :=
    story.filter_not_isRule
  rw [← leaves, names_consumed] at definitions references
  rw [← Event.exists_name_iff 0, definitions, references]
  simp only [List.mem_append, or_and_right, exists_or, List.mem_map, List.mem_filter]
  constructor
  · rintro (⟨symbol, ⟨event, ⟨found, -⟩, rfl⟩, same⟩ | ⟨symbol, ⟨event, ⟨found, -⟩, rfl⟩, same⟩)
    · exact ⟨event, found, same⟩
    · exact ⟨event, found, same⟩
  · rintro ⟨event, found, same⟩
    by_cases begins : standsAt (starts 0 (ofTokens tokens).spans) event = true
    · exact .inl ⟨_, ⟨event, ⟨found, begins⟩, rfl⟩, same⟩
    · exact .inr ⟨_, ⟨event, ⟨found, by simpa using begins⟩, rfl⟩, same⟩

end Reading

namespace Completion

/-- What may be offered for a word: in the order of bytes, each once and no others, the
names among the consumed tokens that properly extend it. -/
structure Offers (source word : Text) (names : List Text) : Prop where
  ascending : names.Pairwise (·.bytes < ·.bytes)
  exact : ∀ name, name ∈ names ↔
    (name ∈ (Reading.ofText source).outcome.consumed (Token.texts source false) ∧
      Kind.classify name = .name) ∧ word <+: name ∧ name ≠ word

theorem mem_names_iff (source name : Text) : name ∈ names source ↔
    name ∈ (Reading.ofText source).outcome.consumed (Token.texts source false) ∧
      Kind.classify name = .name := by
  rw [Reading.ofText, ← Reading.exists_symbol_iff]
  simp only [names, List.mem_mergeSort, List.mem_eraseDups, List.mem_map]
  rfl

theorem ascending_names (source : Text) : (names source).Pairwise (·.bytes < ·.bytes) := by
  have trans : ∀ a b c : Text, a.atMost b = true → b.atMost c = true → a.atMost c = true :=
    fun _ _ _ => Text.atMost_trans
  have total : ∀ a b : Text, (a.atMost b || b.atMost a) = true := fun a b => by
    simpa using a.atMost_total b
  have sorted : (names source).Pairwise (Text.atMost · ·) := List.pairwise_mergeSort trans total _
  have nodup : (names source).Nodup :=
    (List.mergeSort_perm _ _).nodup_iff.mpr (nodup_eraseDups _)
  exact sorted.imp₂ (fun _ _ => Text.bytes_lt) nodup

theorem offers_candidates (source word : Text) : Offers source word (candidates source word) where
  ascending := (ascending_names source).filter _
  exact name := by
    rw [candidates, List.mem_filter, mem_names_iff]
    simp

/-- The longest run of name characters that ends a text, and what it follows. -/
structure EndsIn (text passed word : Text) : Prop where
  split : text = passed ++ word
  named : ∀ c ∈ word, Kind.continuesName c
  longest : ∀ c ∈ passed.getLast?, Kind.continuesName c = false

/-- The word is cut off one byte behind the start of the character that it follows. -/
theorem exists_lastWord (text : Text) : ∃ passed word, EndsIn text passed word ∧
    ((∀ c ∈ passed.getLast?, c.utf8Size = 1) → lastWord text = .ok word) ∧
    ∀ c ∈ passed.getLast?, c.utf8Size ≠ 1 → lastWord text = .error .insideCharacter := by
  have split : text.reverse.takeWhile Kind.continuesName ++
      text.reverse.dropWhile Kind.continuesName = text.reverse := List.takeWhile_append_dropWhile
  have named : ∀ c ∈ (text.reverse.takeWhile Kind.continuesName).reverse, Kind.continuesName c :=
    fun c found => List.mem_takeWhile_imp (List.mem_reverse.mp found)
  have other := List.head?_dropWhile_not Kind.continuesName text.reverse
  cases rest : text.reverse.dropWhile Kind.continuesName with
  | nil =>
    rw [rest, ← List.reverse_inj, List.reverse_append, List.reverse_reverse] at split
    exact ⟨_, _, ⟨split.symm, named, by simp⟩, fun _ => by simp only [lastWord, rest], by simp⟩
  | cons c passed =>
    rw [rest] at split other
    rw [← List.reverse_inj, List.reverse_append, List.reverse_reverse] at split
    refine ⟨_, _, ⟨split.symm, named, ?_⟩, fun narrow => ?_, fun d last wide => ?_⟩
    · simpa using other
    · have narrow : c.utf8Size = 1 := narrow c (by simp)
      simp only [lastWord, rest, if_pos narrow]
    · obtain rfl : c = d := by simpa using last
      simp only [lastWord, rest, if_neg wide]

/-- What is offered at a place: all that its word may be completed to, unless the word
follows a character of several bytes. -/
theorem atPlace_exact (text : Text) (place : Place) : ∃ before passed word after : Text,
    text = before ++ after ∧ before.width = (LineTable.ofText text).offset place ∧
    EndsIn before passed word ∧
    ((∀ c ∈ passed.getLast?, c.utf8Size = 1) →
      ∃ names, atPlace text place = .ok names ∧ Offers text word names) ∧
    ∀ c ∈ passed.getLast?, c.utf8Size ≠ 1 → atPlace text place = .error .insideCharacter := by
  obtain ⟨before, after, split, offset⟩ := LineTable.boundary_offset text place
  obtain ⟨passed, word, ends, single, several⟩ := exists_lastWord before
  have cut : text.splitAtByte ((LineTable.ofText text).offset place) = some (before, after) :=
    Text.splitAtByte_eq_some_iff.mpr ⟨split, offset⟩
  have start : atPlace text place = (lastWord before).map (candidates text) := by
    rw [atPlace, cut]
    cases lastWord before <;> rfl
  refine ⟨before, passed, word, after, split, offset.symm, ends, fun narrow => ?_,
    fun c last wide => ?_⟩
  · exact ⟨_, by rw [start, single narrow]; rfl, offers_candidates text word⟩
  · rw [start, several c last wide]
    rfl

/-- Nothing is offered behind a character of two bytes, where the empty word could be
completed to a name. -/
theorem atPlace_insideCharacter :
    atPlace "a = é".toList ⟨0, 5⟩ = .error .insideCharacter ∧
      Offers "a = é".toList [] [['a']] := by
  refine ⟨by cbv, ?_⟩
  have offered : candidates "a = é".toList [] = [['a']] := by cbv
  exact offered ▸ offers_candidates "a = é".toList []

end Completion

end GrammarDesk
