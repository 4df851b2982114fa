import Phrasebook.Proofs.WesternSections

/-! Which texts the guard against repeated tens rejects.

A word for ten that comes again within two tokens is in another number than the first one, or
in the same one with a multiplier between the two. So of the texts that are one number only
those are not read that say ten, a multiplier and ten, or a linking word at the front.
-/

set_option autoImplicit false

namespace Phrasebook.Numeral

/-- Two elements of groups side by side stand in one group as they are, or in two. -/
theorem exists_sublist_of_flatten {α : Type} {groups : List (List α)}
    {before between after : List α} {first second : α}
    (split : groups.flatten = before ++ first :: (between ++ second :: after)) :
    (∃ group ∈ groups, ∃ front back, group = front ++ first :: (between ++ second :: back)) ∨
      ∃ one two, [one, two].Sublist groups ∧ first ∈ one ∧ second ∈ two := by
  induction groups generalizing before with
  | nil => simp at split
  | cons group rest ih =>
    have later : ∀ {before}, rest.flatten = before ++ first :: (between ++ second :: after) →
        (∃ found ∈ group :: rest, ∃ front back,
          found = front ++ first :: (between ++ second :: back)) ∨
        ∃ one two, [one, two].Sublist (group :: rest) ∧ first ∈ one ∧ second ∈ two := by
      intro before split
      rcases ih split with ⟨found, listed, same⟩ | ⟨one, two, apart, both⟩
      · exact .inl ⟨found, List.mem_cons_of_mem _ listed, same⟩
      · exact .inr ⟨one, two, apart.cons _, both⟩
    have next : ∀ {back}, group = before ++ first :: back → second ∈ rest.flatten →
        ∃ one two, [one, two].Sublist (group :: rest) ∧ first ∈ one ∧ second ∈ two := by
      rintro back rfl listed
      obtain ⟨two, member, inside⟩ := List.mem_flatten.1 listed
      exact ⟨_, two, .cons_cons _ (List.singleton_sublist.2 member), by simp, inside⟩
    rw [List.flatten_cons, List.append_eq_append_iff] at split
    rcases split with ⟨more, -, split⟩ | ⟨more, whole, split⟩
    · exact later split
    · -- The first of the two is in this group, or right at the front of the others.
      cases more with
      | nil => exact later (split.symm.trans (List.nil_append _).symm)
      | cons other more =>
        obtain ⟨rfl, others⟩ := List.cons.inj split
        rcases List.append_eq_append_iff.1 others with ⟨back, rfl, ends⟩ | ⟨back, rfl, ends⟩
        · cases back with
          | nil =>
            rw [List.nil_append] at ends
            exact .inr (next whole (ends ▸ List.mem_cons_self))
          | cons other back =>
            obtain ⟨rfl, -⟩ := List.cons.inj ends
            exact .inl ⟨group, List.mem_cons_self, before, back, whole⟩
        · exact .inr (next whole (by simp [ends]))

namespace Token

theorem decimalValue_toDigits (value : Nat) : decimalValue (Nat.toDigits 10 value) = value :=
  Nat.ofDigitChars_toDigits (by decide) (by decide)

theorem decimalValue_zeros_append (zeros : Nat) (text : List Char) :
    decimalValue (List.replicate zeros '0' ++ text) = decimalValue text := by
  induction zeros with
  | zero => rfl
  | succ zeros ih =>
    rw [List.replicate_succ, List.cons_append, ← ih]
    rfl

end Token

/-- What is written for a number is its value. -/
theorem Grammar.decimalValue_of_render? {g : Grammar} {group : List Token} {written : List Char}
    {value : Nat} (counted : g.groupValue? group = some value)
    (alone : ∀ token : Token, g.groupValue? [token] = some value → token.kind = .explicit →
      token.value = value)
    (rendered : g.render? group = some written) :
    Token.decimalValue written = value ∧ (group.length ≠ 1 → written = Nat.toDigits 10 value) := by
  unfold render? at rendered
  split at rendered
  · next number mask =>
    cases rendered
    refine ⟨?_, fun several => absurd rfl several⟩
    rw [Token.decimalValue_zeros_append, Token.decimalValue_toDigits]
    exact alone _ counted rfl
  · rw [counted, Option.map_some, Option.some.injEq] at rendered
    rw [← rendered, Token.decimalValue_toDigits]
    exact ⟨rfl, fun _ => rfl⟩

namespace Western

variable {capacity : Capacity} {rule : ConnectorRule} {state after : Western}
  {ahead : Option Token} {tokens group front part back : List Token}

/-- Linking words leave no trace in a number. -/
theorem replayBefore_unlinked
    (reads : (grammar capacity rule).replayBefore ahead state tokens = .joined after) :
    (grammar capacity rule).replayBefore none state (unlinked tokens) = .joined after := by
  induction tokens generalizing state with
  | nil => exact reads
  | cons token rest ih =>
    obtain ⟨middle, step, reads⟩ := Verdict.exists_of_bind_eq_joined reads
    cases linking : token.isConnector with
    | true =>
      rw [unlinked_cons_of_connector linking]
      rw [(weight_of_push step).2 linking] at reads
      exact ih reads
    | false =>
      rw [unlinked_cons_of_plain linking]
      have first := ((isSteady capacity rule).blind linking state
        ((unlinked rest).head?.or none) (rest.head?.or ahead)).trans step
      exact (congrArg (Verdict.bind · fun next =>
        (grammar capacity rule).replayBefore none next (unlinked rest)) first).trans (ih reads)

/-- Words of a number with no multiplier between them supply different places. -/
theorem apart_of_replay
    (joined : ∃ final, (grammar capacity rule).replay (grammar capacity rule).initial group =
      .joined final)
    (split : unlinked group = front ++ (part ++ back))
    (additive : ∀ token ∈ part, isMultiplier token = false) :
    part.Pairwise fun first second => first.mask &&& second.mask = 0 := by
  obtain ⟨final, joined⟩ := joined
  rw [Grammar.replay_eq_replayBefore] at joined
  have reads := replayBefore_unlinked joined
  rw [split] at reads
  obtain ⟨start, -, reads⟩ := Grammar.exists_of_replayBefore_append reads
  obtain ⟨stop, reads, -⟩ := Grammar.exists_of_replayBefore_append reads
  have plain : ∀ token ∈ part, token.isConnector = false := fun token listed => by
    have inside : token ∈ unlinked group := by
      rw [split]
      simp [listed]
    exact (mem_unlinked.1 inside).2
  have same : unlinked part = part := List.filter_eq_self.2 fun token listed => by
    simp [plain token listed]
  have gathers := gathers_of_replayBefore additive reads
  rw [same] at gathers
  exact gathers.apart

/-- Without a multiplier between them a second ten does not join. -/
theorem exists_scale_between_tens {between : List Token}
    (joined : ∃ final, (grammar capacity rule).replay (grammar capacity rule).initial group =
      .joined final)
    (split : unlinked group = front ++ .number 10 :: (between ++ .number 10 :: back)) :
    ∃ scale ∈ between, isMultiplier scale = true := by
  by_contra single
  simp only [not_exists, not_and, Bool.not_eq_true] at single
  have whole : unlinked group = front ++ ((.number 10 :: (between ++ [.number 10])) ++ back) := by
    rw [split]
    simp
  have places := apart_of_replay joined whole fun token listed => by
    simp only [List.mem_cons, List.mem_append, List.not_mem_nil, or_false] at listed
    rcases listed with rfl | inner | rfl
    · decide
    · exact single token inner
    · decide
  have meets := (List.pairwise_cons.1 places).1 (.number 10) (by simp)
  exact absurd meets (by decide +kernel)

theorem value_of_singleton {token : Token} {value : Nat}
    (counted : (grammar capacity rule).groupValue? [token] = some value)
    (explicit : token.kind = .explicit) : token.value = value := by
  unfold Grammar.groupValue? at counted
  split at counted
  · next final joined =>
    obtain ⟨after, step, same⟩ := Verdict.exists_of_bind_eq_joined joined
    cases same
    have unscaled : ∀ least, token.isPowerFrom least = false := fun least => by
      rw [Token.isPowerFrom, explicit]
      rfl
    cases joins_of_push step with
    | add =>
      have held := Capacity.eq_of_hold? counted
      rw [held]
      exact ((Nat.zero_add _).trans (Nat.zero_add _)).symm
    | link linking => simp [Token.isConnector, explicit] at linking
    | hundred scales | scale scales => simp [isMultiplier, unscaled] at scales
  · cases counted

end Western

namespace Scheme

variable {scheme : Scheme} {tokens : List Token} {groups : List (List Token)}

/-- A word for ten comes again after one token at most. -/
theorem repeatsTen_iff_append :
    repeatsTen tokens = true ↔ ∃ before first between second after,
      tokens = before ++ first :: (between ++ second :: after) ∧ isTen first = true ∧
        isTen second = true ∧ between.length ≤ 1 := by
  induction tokens with
  | nil => simp [repeatsTen]
  | cons token rest ih =>
    have near : (rest.take 2).any isTen = true ↔ ∃ between second after,
        rest = between ++ second :: after ∧ isTen second = true ∧ between.length ≤ 1 := by
      constructor
      · rw [List.any_eq_true]
        rintro ⟨second, listed, ten⟩
        obtain ⟨between, after, split⟩ := List.append_of_mem listed
        refine ⟨between, second, after ++ rest.drop 2, ?_, ten, ?_⟩
        · rw [← List.cons_append, ← List.append_assoc, ← split, List.take_append_drop]
        · have short := congrArg List.length split
          simp only [List.length_take, List.length_append, List.length_cons] at short
          omega
      · rintro ⟨between, second, after, rfl, ten, short⟩
        rcases Nat.le_one_iff_eq_zero_or_eq_one.1 short with none | one
        · simp [List.length_eq_zero_iff.1 none, ten]
        · obtain ⟨token, rfl⟩ := List.length_eq_one_iff.1 one
          simp [ten]
    rw [repeatsTen, Bool.or_eq_true, Bool.and_eq_true, near, ih]
    constructor
    · rintro (⟨ten, between, second, after, rfl, again, short⟩ |
        ⟨before, first, between, second, after, rfl, ten, again, short⟩)
      · exact ⟨[], token, between, second, after, rfl, ten, again, short⟩
      · exact ⟨token :: before, first, between, second, after, rfl, ten, again, short⟩
    · rintro ⟨before, first, between, second, after, split, ten, again, short⟩
      cases before with
      | nil =>
        obtain ⟨rfl, rfl⟩ := List.cons.inj split
        exact .inl ⟨ten, between, second, after, rfl, again, short⟩
      | cons other before =>
        obtain ⟨rfl, rfl⟩ := List.cons.inj split
        exact .inr ⟨before, first, between, second, after, rfl, ten, again, short⟩

/-- Ten, a multiplier and ten one after the other. -/
def RescalesTen (tokens : List Token) : Prop :=
  ∃ before scale after, tokens = before ++ .number 10 :: scale :: .number 10 :: after ∧
    Western.isMultiplier scale = true

theorem repeatsTen_of_rescalesTen (rescales : RescalesTen tokens) : repeatsTen tokens = true := by
  obtain ⟨before, scale, after, rfl, -⟩ := rescales
  exact repeatsTen_iff_append.2 ⟨before, _, [scale], _, after, rfl, rfl, rfl, Nat.le_refl _⟩

theorem eq_ten_of_from {token : Token} (found : Token.From scheme.lexicon token)
    (ten : isTen token = true) : token = .number 10 := by
  simp only [isTen, Bool.and_eq_true, beq_iff_eq] at ten
  cases found with
  | entry listed =>
    rcases token_of_mem_entries listed with linking | number
    · simp [linking, Token.connector] at ten
    · rw [number, ten.2]
  | connector => simp [Token.connector] at ten
  | explicit written =>
    obtain ⟨-, -, rfl⟩ := Token.eq_written_of_explicit? written
    simp [Token.written] at ten

/-- Tens that are close stand in two numbers, or in one with a multiplier between them. -/
theorem tens_of_repeatsTen (western : scheme.isWestern = true) {capacity : Capacity}
    (found : ∀ token ∈ tokens, Token.From scheme.lexicon token)
    (cuts : (scheme.grammar capacity).Cuts tokens groups) (repeats : repeatsTen tokens = true) :
    (∃ one two, [one, two].Sublist groups ∧ .number 10 ∈ one ∧ .number 10 ∈ two) ∨
      RescalesTen tokens ∧ ∃ group ∈ groups, RescalesTen (unlinked group) := by
  obtain ⟨before, first, between, second, after, rfl, ten, again, short⟩ :=
    repeatsTen_iff_append.1 repeats
  obtain rfl := eq_ten_of_from (found first (by simp)) ten
  obtain rfl := eq_ten_of_from (found second (by simp)) again
  obtain ⟨rule, same⟩ := exists_grammar_eq western capacity
  rw [same] at cuts
  have complete : (groups.map unlinked).flatten = unlinked before ++
      .number 10 :: (unlinked between ++ .number 10 :: unlinked after) := by
    have complete := cuts.complete
    rw [List.filter_flatten] at complete
    refine Eq.trans complete (Eq.trans (unlinked_append _ _) ?_)
    rw [unlinked_cons_of_plain rfl, unlinked_append, unlinked_cons_of_plain rfl]
  rcases exists_sublist_of_flatten complete with ⟨_, listed, front, back, split⟩ |
    ⟨one, two, apart, inside, further⟩
  · obtain ⟨group, member, rfl⟩ := List.mem_map.1 listed
    have joined := (cuts.joined group member).2
    obtain ⟨scale, member', scales⟩ := Western.exists_scale_between_tens joined split
    obtain ⟨inside, plain⟩ := mem_unlinked.1 member'
    obtain ⟨left, right, rfl⟩ := List.append_of_mem inside
    -- It is the only token between the two.
    rw [List.length_append, List.length_cons] at short
    obtain rfl := List.length_eq_zero_iff.1 (show left.length = 0 by omega)
    obtain rfl := List.length_eq_zero_iff.1 (show right.length = 0 by omega)
    rw [List.nil_append, unlinked_cons_of_plain plain] at split
    exact .inr ⟨⟨before, scale, after, rfl, scales⟩, group, member, front, scale, back, split,
      scales⟩
  · obtain ⟨pair, chosen, same⟩ := List.sublist_map_iff.1 apart
    have length := congrArg List.length same
    obtain ⟨first, second, rfl⟩ := List.length_eq_two.1 (by simpa using length.symm)
    obtain ⟨rfl, rfl⟩ : one = unlinked first ∧ two = unlinked second := by simpa using same
    exact .inl ⟨_, _, chosen, (mem_unlinked.1 inside).1, (mem_unlinked.1 further).1⟩

variable {text : List Char}

/-- The guard rejects a text that says ten twice in two numbers, or in one of them with a multiplier
between. A text that is one number is read as its value, unless it says ten, a multiplier and ten,
or a linking word at the front. -/
theorem read?_of_repeated_tens (western : scheme.isWestern = true)
    (read : scheme.tokenize scheme.lexicon.vocabulary text = some tokens)
    (cut : (scheme.grammar .word64).segment tokens = some groups) :
    (scheme.isAmbiguous tokens = true →
      (∃ one two, [one, two].Sublist groups ∧ .number 10 ∈ one ∧ .number 10 ∈ two) ∨
        ∃ group ∈ groups, RescalesTen (unlinked group)) ∧
      ∀ group, groups = [group] → ¬(scheme.grammar .word64).Overflows tokens →
        ∃ value, (scheme.grammar .word64).groupValue? group = some value ∧
          (scheme.reader.read? text = none ↔
            RescalesTen tokens ∨ tokens.head?.any Token.isConnector = true) ∧
          ∀ written, scheme.reader.read? text = some written →
            Token.decimalValue written = value ∧
              (group.length ≠ 1 → written = Nat.toDigits 10 value) := by
  have cuts := (scheme.isSteady .word64).cuts_segment cut
  have tens := fun repeats => tens_of_repeatsTen western (from_of_tokenize scheme read) cuts repeats
  have guard : scheme.isAmbiguous tokens = repeatsTen tokens := by
    cases scheme with
    | english | spanish | french => rfl
    | japanese | chinese => cases western
  rw [guard]
  refine ⟨fun repeats => (tens repeats).imp id And.right, ?_⟩
  rintro group rfl holds
  have rescales : repeatsTen tokens = true ↔ RescalesTen tokens := by
    refine ⟨fun repeats => ?_, repeatsTen_of_rescalesTen⟩
    rcases tens repeats with ⟨one, two, apart, -⟩ | ⟨rescales, -⟩
    · exact absurd apart.length_le (by simp)
    · exact rescales
  obtain ⟨groups, texts, again, -, rendered, answers⟩ := exists_segment_resolve holds
  cases cut.symm.trans again
  obtain ⟨silent, spoken⟩ := answers scheme.order
  obtain ⟨nonempty, final, joined⟩ := cuts.joined group List.mem_cons_self
  obtain ⟨value, counted⟩ : ∃ value, (scheme.grammar .word64).groupValue? group = some value := by
    rw [Grammar.groupValue?, joined]
    exact Option.ne_none_iff_exists'.1 fun lost =>
      holds (.inr ⟨_, cut, group, List.mem_cons_self, .inr ⟨final, joined, lost⟩⟩)
  obtain ⟨first, rest, rfl⟩ : ∃ first rest, tokens = first :: rest := by
    refine List.exists_cons_of_ne_nil fun none => nonempty ?_
    simpa [none] using cuts.ordered
  have answer : scheme.reader.read? text =
      if repeatsTen (first :: rest) then none
      else (scheme.grammar .word64).resolve scheme.order (first :: rest) := by
    rw [← guard]
    exact congrArg (Option.bind · (scheme.evaluate .word64)) read
  refine ⟨value, counted, ?_, fun written found => ?_⟩
  · rw [answer, ← rescales]
    split
    · next repeats => simp [repeats]
    · next apart => simpa [apart] using silent
  · rw [answer] at found
    split at found
    · cases found
    · obtain ⟨rfl, -⟩ := spoken written found
      rw [mapM_eq_some_iff] at rendered
      obtain ⟨one, others, single, last, rfl⟩ := List.forall₂_cons_left_iff.1 rendered
      rw [List.forall₂_nil_left_iff.1 last, List.flatten_singleton]
      obtain ⟨rule, same⟩ := exists_grammar_eq western .word64
      rw [same] at counted single
      exact Grammar.decimalValue_of_render? counted (fun _ => Western.value_of_singleton) single

/-- Two tens in different numbers, and a ten after a thousand. -/
theorem read?_two_thousand_ten :
    ((∃ one two, [one, two].Sublist [[Token.number 10, .number 2], [.number 10]] ∧
        .number 10 ∈ one ∧ .number 10 ∈ two) ∨
      ∃ group ∈ [[Token.number 10, .number 2], [.number 10]], RescalesTen (unlinked group)) ∧
      ∀ written, english.reader.read? "two thousand ten".toList = some written →
        Token.decimalValue written = 2010 := by
  have read : english.tokenize english.lexicon.vocabulary "ten two ten".toList =
      some [.number 10, .number 2, .number 10] := by
    decide +kernel
  have cut : (english.grammar .word64).segment [.number 10, .number 2, .number 10] =
      some [[.number 10, .number 2], [.number 10]] := by
    decide +kernel
  have readOne : english.tokenize english.lexicon.vocabulary "two thousand ten".toList =
      some [.number 2, .number 1000, .number 10] := by
    decide +kernel
  have cutOne : (english.grammar .word64).segment [.number 2, .number 1000, .number 10] =
      some [[.number 2, .number 1000, .number 10]] := by
    decide +kernel
  obtain ⟨value, counted, -, spoken⟩ := (read?_of_repeated_tens rfl readOne cutOne).2 _ rfl
    (Grammar.not_overflows cutOne (by decide +kernel))
  have total : (english.grammar .word64).groupValue? [.number 2, .number 1000, .number 10] =
      some 2010 := by
    decide +kernel
  cases total.symm.trans counted
  exact ⟨(read?_of_repeated_tens rfl read cut).1 (by decide +kernel),
    fun written found => (spoken written found).1⟩

/-- One number that is not read: ten, a thousand and ten. -/
theorem segment_ten_thousand_ten :
    english.tokenize english.lexicon.vocabulary "ten thousand ten".toList =
        some [.number 10, .number 1000, .number 10] ∧
      (english.grammar .word64).segment [.number 10, .number 1000, .number 10] =
        some [[.number 10, .number 1000, .number 10]] ∧
      (english.grammar .word64).groupValue? [.number 10, .number 1000, .number 10] =
        some 10010 ∧
      english.reader.read? "ten thousand ten".toList = none := by
  decide +kernel

end Scheme

end Phrasebook.Numeral
