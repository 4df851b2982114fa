import Mathlib.Data.List.Pairwise
import Phrasebook.Proofs.DigitPlaces

/-! Sections of English, Spanish and French numbers.

Between two multipliers a number takes words whose decimal places are still free. So the words
of a section supply places of their own, and their values follow the order of these places.
-/

set_option autoImplicit false

namespace Phrasebook.Numeral

/-- The tokens other than linking words. -/
def unlinked (tokens : List Token) : List Token := tokens.filter fun token => !token.isConnector

theorem unlinked_append (first second : List Token) :
    unlinked (first ++ second) = unlinked first ++ unlinked second := List.filter_append ..

theorem unlinked_cons_of_connector {token : Token} (linking : token.isConnector = true)
    (tokens : List Token) : unlinked (token :: tokens) = unlinked tokens :=
  List.filter_cons_of_neg (by simp [linking])

theorem unlinked_cons_of_plain {token : Token} (plain : token.isConnector = false)
    (tokens : List Token) : unlinked (token :: tokens) = token :: unlinked tokens :=
  List.filter_cons_of_pos (by simp [plain])

theorem mem_unlinked {tokens : List Token} {token : Token} :
    token ∈ unlinked tokens ↔ token ∈ tokens ∧ token.isConnector = false := by
  simp [unlinked]

theorem or_and_eq_zero_iff {first second other : Nat} :
    (first ||| second) &&& other = 0 ↔ first &&& other = 0 ∧ second &&& other = 0 := by
  rw [Nat.and_or_distrib_right, Nat.or_eq_zero_iff]

/-- The mask is below a bound, or that of a digit string. -/
def Token.IsNarrow (bound : Nat) (token : Token) : Prop :=
  token.mask < bound ∨ token.kind = .explicit ∧ ∃ count, token.mask = 2 ^ (count + 1) - 1

/-- What is known of a token that is no linking word and no multiplier. -/
structure Token.IsWord (bound : Nat) (token : Token) : Prop where
  places : token.HasPlaces
  narrow : token.IsNarrow bound

/-- The words of a lexicon bound the masks of what a text says, digit strings apart. -/
theorem Scheme.isWord_of_from {scheme : Scheme} {isMultiplier : Token → Bool} {bound : Nat}
    (narrow : ∀ entry ∈ scheme.lexicon.entries, entry.token.isConnector = true ∨
      isMultiplier entry.token = true ∨ entry.token.mask < bound) {token : Token}
    (found : Token.From scheme.lexicon token) (plain : token.isConnector = false)
    (additive : isMultiplier token = false) : token.IsWord bound := by
  refine ⟨hasPlaces_of_from found plain, ?_⟩
  cases found with
  | entry listed =>
    rcases narrow _ listed with linking | scales | small
    · simp [plain] at linking
    · simp [additive] at scales
    · exact .inl small
  | connector => cases plain
  | explicit written =>
    obtain ⟨nonempty, -, rfl⟩ := Token.eq_written_of_explicit? written
    obtain ⟨count, length⟩ := Nat.exists_eq_add_of_le' (List.length_pos_iff.2 nonempty)
    exact .inr ⟨rfl, count, by rw [Token.written, Nat.one_shiftLeft, length]⟩

/-- What is read as a whole is read in two parts. -/
theorem Grammar.exists_of_replayBefore_append {g : Grammar} {ahead : Option Token}
    {state final : g.State} {first second : List Token}
    (reads : g.replayBefore ahead state (first ++ second) = .joined final) :
    ∃ middle, g.replayBefore (second.head?.or ahead) state first = .joined middle ∧
      g.replayBefore ahead middle second = .joined final := by
  rw [replayBefore_append] at reads
  exact Verdict.exists_of_bind_eq_joined reads

namespace Western

variable {capacity : Capacity} {rule : ConnectorRule} {state after : Western} {token : Token}
  {next ahead : Option Token} {tokens : List Token}

/-- What a token does to the number that it joins. -/
inductive Joins (state : Western) (token : Token) : Western → Prop
  | link (linking : token.isConnector = true) : Joins state token state
  | add (plain : token.isConnector = false) (additive : isMultiplier token = false)
    (free : state.mask &&& token.mask = 0) :
    Joins state token { state with
      current := state.current + token.value
      mask := state.mask ||| token.mask
      started := true }
  | hundred (scales : isMultiplier token = true) (small : token.value < 1000)
    (low : state.mask >>> token.highest = 0) :
    Joins state token { state with
      current := state.base * token.value
      mask := 1 <<< token.highest
      started := true }
  | scale (scales : isMultiplier token = true) (large : 1000 ≤ token.value)
    (below : state.scale = 0 ∨ token.value < state.scale) :
    Joins state token
      { total := state.total + state.base * token.value
        current := 0
        mask := 0
        scale := token.value
        started := true }

theorem joins_of_push (joined : push capacity rule state token next = .joined after) :
    Joins state token after := by
  unfold push at joined
  split at joined
  · next linking =>
    split at joined
    · cases joined
      exact .link linking
    · cases joined
  · next plain =>
    split at joined
    · next scales =>
      unfold multiply at joined
      split at joined
      · next small =>
        split at joined
        · cases joined
        · next low =>
          obtain rfl := Verdict.eq_of_ofHeld joined
          exact .hundred scales small (Decidable.not_not.1 low)
      · next large =>
        split at joined
        · cases joined
        · next below =>
          obtain rfl := Verdict.eq_of_ofHeld joined
          exact .scale scales (Nat.le_of_not_lt large) (by omega)
    · next additive =>
      unfold add at joined
      split at joined
      · cases joined
      · next free =>
        obtain rfl := Verdict.eq_of_ofHeld joined
        exact .add (by simpa using plain) (by simpa using additive) (Decidable.not_not.1 free)

/-- What words other than multipliers do: they are counted together, each at places that no
other one supplies. -/
structure Gathers (state : Western) (words : List Token) (after : Western) : Prop where
  total : after.total = state.total
  scale : after.scale = state.scale
  current : after.current = state.current + (words.map Token.value).sum
  keeps : ∀ place, state.mask.testBit place = true → after.mask.testBit place = true
  free : ∀ word ∈ words, state.mask &&& word.mask = 0
  apart : words.Pairwise fun first second => first.mask &&& second.mask = 0

theorem gathers_of_replayBefore (additive : ∀ token ∈ tokens, isMultiplier token = false)
    (reads : (grammar capacity rule).replayBefore ahead state tokens = .joined after) :
    Gathers state (unlinked tokens) after := by
  -- Each word finds the places of all words before it taken.
  induction tokens generalizing state with
  | nil =>
    cases reads
    exact ⟨rfl, rfl, rfl, fun _ => id, by simp [unlinked], .nil⟩
  | cons token rest ih =>
    obtain ⟨single, others⟩ := List.forall_mem_cons.1 additive
    obtain ⟨middle, step, reads⟩ := Verdict.exists_of_bind_eq_joined reads
    have gathers := ih others reads
    cases joins_of_push step with
    | link linking =>
      rw [unlinked_cons_of_connector linking]
      exact gathers
    | add plain _ free =>
      rw [unlinked_cons_of_plain plain]
      have both : ∀ word ∈ unlinked rest,
          state.mask &&& word.mask = 0 ∧ token.mask &&& word.mask = 0 := fun word member =>
        or_and_eq_zero_iff.1 (gathers.free word member)
      refine ⟨gathers.total, gathers.scale, ?_, fun place taken => gathers.keeps place ?_, ?_, ?_⟩
      · rw [gathers.current, List.map_cons, List.sum_cons, Nat.add_assoc]
      · simp [taken]
      · exact List.forall_mem_cons.2 ⟨free, fun word member => (both word member).1⟩
      · exact List.pairwise_cons.2 ⟨fun word member => (both word member).2, gathers.apart⟩
    | hundred scales | scale scales => simp [single] at scales

/-- The place of a hundred is taken by it. -/
theorem mask_of_hundred (joins : Joins state token after) (scales : isMultiplier token = true)
    (small : token.value < 1000) :
    token.value = 100 ∧ after.mask = 4 ∧ after.current = state.base * 100 ∧
      after.total = state.total ∧ after.scale = state.scale ∧ state.mask < 4 := by
  have value := eq_hundred scales small
  have place : token.highest = 2 := by
    rw [Token.highest, value]
    decide +kernel
  cases joins with
  | hundred _ _ low =>
    rw [place, Nat.shiftRight_eq_div_pow] at low
    exact ⟨value, by rw [place]; rfl, by rw [value], rfl, rfl, by omega⟩
  | link linking =>
    simp only [isMultiplier, Token.isPowerFrom, Bool.and_eq_true, beq_iff_eq] at scales
    simp [Token.isConnector, scales.1.1] at linking
  | add _ additive => simp [additive] at scales
  | scale _ large => omega

/-- Where the hundreds are taken, a word supplies tens and units. -/
theorem mask_lt_four (word : token.IsWord 8) (free : 4 &&& token.mask = 0) :
    token.mask < 2 ^ 2 := by
  have missing : token.mask.testBit 2 = false := by
    have hundreds : Nat.testBit 4 2 = true := rfl
    have bit := congrArg (Nat.testBit · 2) free
    simpa [hundreds] using bit
  rcases word.narrow with small | ⟨-, count, mask⟩
  · rw [Nat.testBit_eq_decide_div_mod_eq] at missing
    simp only [decide_eq_false_iff_not] at missing
    omega
  · rw [mask, Nat.testBit_two_pow_sub_one, decide_eq_false_iff_not] at missing
    have power : 2 ^ (count + 1) ≤ 2 ^ 2 := Nat.pow_le_pow_right (by decide) (by omega)
    omega

end Western

namespace Scheme

/-- English, Spanish and French numbers are put together alike. -/
def isWestern : Scheme → Bool
  | english | spanish | french => true
  | japanese | chinese => false

variable {scheme : Scheme} {capacity : Capacity} {token : Token}

theorem exists_grammar_eq (western : scheme.isWestern = true) (capacity : Capacity) :
    ∃ rule, scheme.grammar capacity = Western.grammar capacity rule := by
  cases scheme with
  | english | french => exact ⟨.beforeNumber, rfl⟩
  | spanish => exact ⟨.beforeUnit, rfl⟩
  | japanese | chinese => cases western

/-- An English, Spanish or French word that is no multiplier has three places at most. -/
theorem narrow_of_western (western : scheme.isWestern = true) :
    ∀ entry ∈ scheme.lexicon.entries, entry.token.isConnector = true ∨
      Western.isMultiplier entry.token = true ∨ entry.token.mask < 8 := by
  cases scheme with
  | english | spanish | french => decide +kernel
  | japanese | chinese => cases western

theorem from_of_mem_group {text : List Char} {tokens group : List Token}
    {groups : List (List Token)}
    (read : scheme.tokenize scheme.lexicon.vocabulary text = some tokens)
    (cut : (scheme.grammar capacity).segment tokens = some groups) (member : group ∈ groups) :
    ∀ token ∈ group, Token.From scheme.lexicon token := by
  intro token listed
  refine from_of_tokenize scheme read token ?_
  exact ((scheme.isSteady capacity).cuts_segment cut).ordered.subset
    (List.mem_flatten_of_mem member listed)

/-- In every number of a text, the words between two multipliers supply places of their own. So no
two of them are worth the same, they come in descending order exactly if their places do, and
beside a word without value there are only whole tens. After a hundred they are below it. -/
theorem places_apart_of_segment (western : scheme.isWestern = true) {text : List Char}
    {tokens group before part after : List Token} {groups : List (List Token)}
    (read : scheme.tokenize scheme.lexicon.vocabulary text = some tokens)
    (cut : (scheme.grammar capacity).segment tokens = some groups) (member : group ∈ groups)
    (split : group = before ++ part ++ after)
    (additive : ∀ token ∈ part, Western.isMultiplier token = false) :
    (unlinked part).Pairwise (fun first second =>
        first.mask &&& second.mask = 0 ∧ first.value ≠ second.value) ∧
      ((unlinked part).Pairwise (fun first second => second.value < first.value) ↔
        (unlinked part).Pairwise fun first second => second.mask < first.mask) ∧
      (∀ zero ∈ unlinked part, zero.value = 0 →
        ∀ other ∈ unlinked part, other.value % 10 = 0) ∧
      ∀ hundred ∈ before.getLast?, Western.isMultiplier hundred = true → hundred.value < 1000 →
        ∀ word ∈ unlinked part, word.value < hundred.value := by
  have words : ∀ word ∈ unlinked part, word.IsWord 8 := by
    intro word listed
    obtain ⟨inside, plain⟩ := mem_unlinked.1 listed
    have found := from_of_mem_group read cut member word (by simp [split, inside])
    exact isWord_of_from (narrow_of_western western) found plain (additive word inside)
  have places : ∀ word ∈ unlinked part, word.HasPlaces := fun word listed =>
    (words word listed).places
  obtain ⟨rule, same⟩ := exists_grammar_eq western capacity
  rw [same] at cut
  have cuts := (Western.isSteady capacity rule).cuts_segment cut
  obtain ⟨-, final, joined⟩ := cuts.joined group member
  rw [split, List.append_assoc, Grammar.replay_eq_replayBefore] at joined
  obtain ⟨start, begins, joined⟩ := Grammar.exists_of_replayBefore_append joined
  obtain ⟨stop, reads, -⟩ := Grammar.exists_of_replayBefore_append joined
  have gathers := Western.gathers_of_replayBefore additive reads
  refine ⟨gathers.apart.imp_of_mem fun first second apart => ?_, ?_, ?_, ?_⟩
  · exact ⟨apart, (places _ first).value_ne (places _ second) apart⟩
  · -- Word by word, the values compare as the masks do.
    have alike := gathers.apart.imp_of_mem fun first second apart =>
      (places _ second).value_lt_iff (places _ first) (by rwa [Nat.and_comm])
    exact ⟨fun values => (alike.and values).imp fun both => both.1.1 both.2,
      fun masks => (alike.and masks).imp fun both => both.1.2 both.2⟩
  · intro zero listed none other present
    by_cases same : zero = other
    · rw [← same, none]
    · have symmetric : Std.Symm fun first second : Token => first.mask &&& second.mask = 0 :=
        ⟨fun first second apart => by rwa [Nat.and_comm]⟩
      exact (places zero listed).tens_of_eq_zero (places other present)
        (gathers.apart.forall listed present same) none
  · intro hundred ends scales small word listed
    obtain ⟨front, rfl⟩ := List.getLast?_eq_some_iff.1 ends
    obtain ⟨middle, -, last⟩ := Grammar.exists_of_replayBefore_append begins
    obtain ⟨moved, step, rest⟩ := Verdict.exists_of_bind_eq_joined last
    cases rest
    obtain ⟨value, mask, -⟩ := Western.mask_of_hundred (Western.joins_of_push step) scales small
    have free := gathers.free word listed
    rw [mask] at free
    rw [value]
    exact (places word listed).supplies.lt (Western.mask_lt_four (words word listed) free)

/-- After a hundred, a linking word apart. -/
theorem places_apart_two_hundred :
    english.tokenize english.lexicon.vocabulary "two hundred and thirty five".toList =
      some [.number 2, .number 100, .connector, .number 30, .number 5] ∧
    [Token.number 30, .number 5].Pairwise (fun first second =>
      first.mask &&& second.mask = 0 ∧ first.value ≠ second.value) ∧
    ∀ word ∈ [Token.number 30, .number 5], word.value < 100 := by
  have read : english.tokenize english.lexicon.vocabulary "two hundred and thirty five".toList =
      some [.number 2, .number 100, .connector, .number 30, .number 5] := by
    decide +kernel
  have cut : (english.grammar .word64).segment
      [.number 2, .number 100, .connector, .number 30, .number 5] =
        some [[.number 2, .number 100, .connector, .number 30, .number 5]] := by
    decide +kernel
  have split : [Token.number 2, .number 100, .connector, .number 30, .number 5] =
      [.number 2, .number 100] ++ [.connector, .number 30, .number 5] ++ [] := rfl
  obtain ⟨apart, -, -, below⟩ := places_apart_of_segment rfl read cut List.mem_cons_self split
    (by decide +kernel)
  exact ⟨read, apart, below (.number 100) rfl (by decide +kernel) (by decide)⟩

/-- A unit before a ten, and a zero after a ten, make one number with it. -/
theorem segment_six_twenty :
    english.tokenize english.lexicon.vocabulary "six twenty".toList =
        some [.number 6, .number 20] ∧
      (english.grammar .word64).segment [.number 6, .number 20] =
        some [[.number 6, .number 20]] ∧
      english.reader.read? "six twenty".toList = some "26".toList ∧
      english.tokenize english.lexicon.vocabulary "twenty zero".toList =
        some [.number 20, .number 0] ∧
      (english.grammar .word64).segment [.number 20, .number 0] =
        some [[.number 20, .number 0]] ∧
      english.reader.read? "twenty zero".toList = some "20".toList := by
  decide +kernel

end Scheme

end Phrasebook.Numeral
