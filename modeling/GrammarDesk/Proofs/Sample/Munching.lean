import GrammarDesk.Proofs.Sample.Literals
import GrammarDesk.Proofs.Sample.Pieces
import Mathlib.Data.List.Destutter

/-! A sample is cut by its longest literals. In the order that a cutter keeps, the first
literal that fits is the longest that does; so the tokens of a sample are told by its
literals alone, and there is one way to cut it. -/
namespace GrammarDesk.Cutter

/-- The longest of some literals that a text begins with; if it begins with none of
them, its first character. -/
inductive Munches (literals : List Text) : Text → Text → Prop where
  | literal {token text : Text} : token ∈ literals → token ≠ [] → token <+: text →
      (∀ other ∈ literals, other <+: text → other.length ≤ token.length) →
      Munches literals token text
  | single {c : Char} {cs : Text} : (∀ literal ∈ literals, literal ≠ [] → ¬ literal <+: c :: cs) →
      Munches literals [c] (c :: cs)

/-- A sample as tokens with white space before, between and behind them. -/
inductive Cuts (literals : List Text) : Text → List Text → Prop where
  | done {gap : Text} : gap.isBlank = true → Cuts literals gap []
  | token {gap token rest : Text} {tokens : List Text} : gap.isBlank = true →
      (∀ c ∈ token.head?, Text.blank c = false) → Munches literals token (token ++ rest) →
      Cuts literals rest tokens → Cuts literals (gap ++ (token ++ rest)) (token :: tokens)

section

variable {literals : List Text} {token other text : Text} {c : Char} {cs : Text}

theorem Munches.ne_nil (munches : Munches literals token text) : token ≠ [] := by
  cases munches with
  | literal _ some_chars => exact some_chars
  | single => exact List.cons_ne_nil _ _

theorem Munches.unique (one : Munches literals token text) (two : Munches literals other text) :
    token = other := by
  cases one with
  | literal member some_chars begins longest =>
    cases two with
    | literal member' some_chars' begins' longest' =>
      have le := longest' token member begins
      have ge := longest other member' begins'
      exact (List.prefix_of_prefix_length_le begins begins' le).eq_of_length (Nat.le_antisymm le ge)
    | single alone => exact absurd begins (alone token member some_chars)
  | single alone =>
    cases two with
    | literal member some_chars begins => exact absurd begins (alone other member some_chars)
    | single => rfl

theorem length_le_of_width_le (begins : token <+: text) (begins' : other <+: text)
    (le : other.width ≤ token.width) : other.length ≤ token.length := by
  rcases List.prefix_or_prefix_of_prefix begins' begins with shorter | ⟨more, rfl⟩
  · exact shorter.length_le
  · have nothing : more = [] := by
      by_contra some_chars
      have wide := Text.width_pos some_chars
      rw [Text.width_append] at le
      omega
    simp [nothing]

theorem width_le_of_before {a b : Text} (ordered : before a b = true) : b.width ≤ a.width := by
  rw [before_iff] at ordered
  omega

theorem width_le_of_find? {sorted : List Text} (ordered : sorted.Pairwise (before · ·))
    (found : sorted.find? (·.isPrefixOf text) = some token) (member : other ∈ sorted)
    (begins : other <+: text) : other.width ≤ token.width := by
  obtain ⟨-, front, back, rfl, unfit⟩ := List.find?_eq_some_iff_append.mp found
  have fits : other.isPrefixOf text = true := List.isPrefixOf_iff_prefix.mpr begins
  rcases List.mem_append.mp member with early | late
  · have refused := unfit other early
    rw [fits] at refused
    cases refused
  · rcases List.mem_cons.mp late with rfl | later
    · exact Nat.le_refl _
    · exact width_le_of_before
        (List.rel_of_pairwise_cons (List.pairwise_append.mp ordered).2.1 later)

theorem munches_first (literals : List Text) (c : Char) (cs : Text) :
    Munches literals ((ofLiterals literals).first c cs) (c :: cs) := by
  unfold first
  cases found : (ofLiterals literals).literals.find? (·.isPrefixOf (c :: cs)) with
  | none =>
    refine .single fun literal member some_chars begins => ?_
    have unfit := List.find?_eq_none.mp found literal (mem_ofLiterals.mpr ⟨member, some_chars⟩)
    exact unfit (List.isPrefixOf_iff_prefix.mpr begins)
  | some literal =>
    obtain ⟨member, some_chars⟩ := mem_ofLiterals.mp (List.mem_of_find?_eq_some found)
    have begins : literal <+: c :: cs :=
      List.isPrefixOf_iff_prefix.mp (by simpa using List.find?_some found)
    refine .literal member some_chars begins fun other inside begins' => ?_
    by_cases empty : other = []
    · simp [empty]
    · exact length_le_of_width_le begins begins' (width_le_of_find? (sorted_ofLiterals literals)
        found (mem_ofLiterals.mpr ⟨inside, empty⟩) begins')

theorem blank_of_first {cutter : Cutter} {sample : Text}
    (trimmed : Text.trimStart sample = c :: cs) :
    ∀ d ∈ (cutter.first c cs).head?, Text.blank d = false := by
  obtain ⟨more, first⟩ := cutter.exists_first c cs
  simpa [first] using Text.blank_of_trimStart trimmed

theorem cuts_cut (literals : List Text) (sample : Text) :
    Cuts literals sample ((ofLiterals literals).cut sample) := by
  induction sample using cut_induction (ofLiterals literals) with
  | blank sample blank =>
    rw [cut_of_blank blank]
    exact .done (Text.trimStart_eq_nil_iff.mp blank)
  | token sample c cs trimmed ih =>
    have munches := munches_first literals c cs
    have parts := (ofLiterals literals).first_append_drop c cs
    have split := Text.takeWhile_append_trimStart sample
    rw [cut_of_trimStart trimmed]
    rw [← parts] at munches
    rw [trimmed, ← parts] at split
    rw [← split]
    exact .token (Text.isBlank_takeWhile sample) (blank_of_first trimmed) munches ih

theorem cut_of_cuts {sample : Text} {tokens : List Text} (cuts : Cuts literals sample tokens) :
    (ofLiterals literals).cut sample = tokens := by
  induction cuts with
  | done blank => exact cut_of_blank (Text.trimStart_eq_nil_iff.mpr blank)
  | @token gap token rest tokens blank shown munches later ih =>
    obtain ⟨c, more, rfl⟩ := List.exists_cons_of_ne_nil munches.ne_nil
    have trimmed : Text.trimStart (gap ++ (c :: more ++ rest)) = c :: (more ++ rest) := by
      rw [Text.trimStart, List.dropWhile_append_of_pos (List.all_eq_true.mp blank)]
      simp [shown c rfl]
    have first : (ofLiterals literals).first c (more ++ rest) = c :: more :=
      (munches_first literals c (more ++ rest)).unique munches
    rw [cut_of_trimStart trimmed, first, ← List.cons_append, List.drop_left, ih]

theorem first_self (member : c :: cs ∈ literals) : (ofLiterals literals).first c cs = c :: cs :=
  (munches_first literals c cs).unique
    (.literal member (List.cons_ne_nil c cs) List.prefix_rfl fun _ _ begins => begins.length_le)

theorem trimStart_of_first {cutter : Cutter} {sample : Text}
    (trimmed : Text.trimStart sample = c :: cs) (whole : cutter.first c cs = sample) :
    Text.trimStart sample = sample := by
  have begins := List.isPrefixOf_iff_prefix.mp (cutter.first_isPrefixOf c cs)
  have shorter := Text.length_trimStart_le sample
  rw [whole, ← trimmed] at begins
  exact (begins.eq_of_length_le shorter).symm

theorem cut_self_iff {literal : Text} (member : literal ∈ literals)
    (written : literal.isBlank = false) :
    (ofLiterals literals).cut literal = [literal] ↔ Text.trimStart literal = literal := by
  obtain ⟨c, cs, trimmed⟩ := Text.exists_trimStart written
  rw [cut_of_trimStart trimmed]
  constructor
  · exact fun whole => trimStart_of_first trimmed (List.cons.inj whole).1
  · intro kept
    obtain rfl : literal = c :: cs := kept.symm.trans trimmed
    rw [first_self member, List.drop_length, cut_of_blank rfl]

theorem pieces_self {literal : Text} (member : literal ∈ literals)
    (written : literal.isBlank = false) (kept : Text.trimStart literal = literal) :
    (ofLiterals literals).pieces literal = [⟨[], literal⟩] := by
  obtain ⟨c, cs, trimmed⟩ := Text.exists_trimStart written
  obtain rfl : literal = c :: cs := kept.symm.trans trimmed
  have gap := Text.takeWhile_append_trimStart (c :: cs)
  rw [trimmed, List.append_left_eq_self] at gap
  rw [pieces_of_trimStart trimmed, gap, first_self member, List.drop_length, pieces_of_blank rfl]

end

/-! The order brings equal literals together, so that it is enough to make one of equal
neighbours. -/

section

variable {literal : Text}

theorem mem_destutter' (first : Text) (others : List Text) :
    literal ∈ others.destutter' (· ≠ ·) first ↔ literal = first ∨ literal ∈ others := by
  induction others generalizing first with
  | nil => simp
  | cons next others ih =>
    rw [List.destutter'_cons]
    split
    · simp [ih]
    · rename_i same
      simp [ih, not_not.mp same]

theorem mem_destutter (list : List Text) : literal ∈ list.destutter (· ≠ ·) ↔ literal ∈ list := by
  cases list with
  | nil => simp
  | cons first others => rw [List.destutter_cons', mem_destutter', List.mem_cons]

theorem nodup_destutter {sorted : List Text} (ordered : sorted.Pairwise (before · ·)) :
    (sorted.destutter (· ≠ ·)).Nodup := by
  have apart := List.isChain_destutter (· ≠ ·) sorted
  have ordered := ordered.sublist (List.destutter_sublist (· ≠ ·) sorted)
  generalize sorted.destutter (· ≠ ·) = list at apart ordered
  induction list with
  | nil => exact List.nodup_nil
  | cons first others ih =>
    obtain ⟨least, ordered⟩ := List.pairwise_cons.mp ordered
    refine List.nodup_cons.mpr ⟨fun again => ?_, ih apart.tail ordered⟩
    cases others with
    | nil => cases again
    | cons next others =>
      -- What stands between two equal literals is equal to them.
      have same : first = next := by
        refine before_antisymm (least next List.mem_cons_self) ?_
        rcases List.mem_cons.mp again with rfl | later
        · exact least _ List.mem_cons_self
        · exact List.rel_of_pairwise_cons ordered later
      exact List.rel_of_isChain_cons_cons apart same

theorem literals_ofLiterals (literals : List Text) : (ofLiterals literals).literals =
    ((literals.filter (!·.isEmpty)).mergeSort before).destutter (· ≠ ·) := by
  have ordered : ((literals.filter (!·.isEmpty)).mergeSort before).Pairwise (before · ·) :=
    List.pairwise_mergeSort before_trans before_total _
  refine eq_of_sorted (sorted_ofLiterals literals) (nodup_ofLiterals literals)
    (ordered.sublist (List.destutter_sublist _ _)) (nodup_destutter ordered) fun literal => ?_
  rw [mem_ofLiterals, mem_destutter, List.mem_mergeSort]
  simp

end

/-- Whatever the literals, each sample is cut in exactly one way into white space and
tokens, each the longest literal at its place or a character where none fits. Which
literals with characters there are tells the cutter, and nothing else does. -/
theorem cut_longest (literals : List Text) :
    (∀ (sample : Text) (tokens : List Text),
      Cuts literals sample tokens ↔ (ofLiterals literals).cut sample = tokens) ∧
    (ofLiterals literals).literals =
      ((literals.filter (!·.isEmpty)).mergeSort before).destutter (· ≠ ·) ∧
    ∀ others, ofLiterals others = ofLiterals literals ↔
      ∀ literal ≠ [], (literal ∈ others ↔ literal ∈ literals) := by
  refine ⟨fun sample tokens => ⟨cut_of_cuts, ?_⟩, literals_ofLiterals literals, fun others =>
    ⟨fun same literal some_chars => ?_, ofLiterals_congr⟩⟩
  · rintro rfl
    exact cuts_cut literals sample
  · have members : literal ∈ (ofLiterals others).literals ↔
        literal ∈ (ofLiterals literals).literals := by rw [same]
    simpa [some_chars] using members

/-- A literal inside another, one with a blank, and repetitions. -/
example : (ofLiterals ["if".toList, "i f".toList, [], "iff".toList, "if".toList]).cut
    " iffif i fi".toList = ["iff", "if", "i f", "i"].map String.toList := by cbv

end GrammarDesk.Cutter
