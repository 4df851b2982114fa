import Phrasebook.Proofs.WesternSections

/-! Room below a scale word.

A scale word moves the section before it into the total, so what a number goes on with has to
fit below it. It does unless some section, between a scale word and the next lower one, is too
large for the two. In an English, Spanish or French number only a digit string or what a
hundred scales can be too large.
-/

set_option autoImplicit false

namespace Phrasebook.Numeral

/-- Between two powers of a scale there is a whole number of its steps. -/
theorem exists_ratio {least upper lower : Nat} (many : 1 < least)
    (power : ∃ exponent, upper = least ^ (exponent + 1))
    (also : ∃ exponent, lower = least ^ (exponent + 1)) (below : upper = 0 ∨ lower < upper) :
    0 < lower ∧ lower < upper ∧ ∃ ratio, 0 < ratio ∧ upper = lower * (least * ratio) := by
  obtain ⟨first, rfl⟩ := power
  obtain ⟨second, rfl⟩ := also
  have positive : ∀ exponent, 0 < least ^ exponent := fun exponent => Nat.pow_pos (by omega)
  have less := below.resolve_left (Nat.ne_of_gt (positive _))
  have lower : second + 1 < first + 1 := (Nat.pow_lt_pow_iff_right many).1 less
  obtain ⟨steps, eq⟩ := Nat.exists_eq_add_of_lt lower
  refine ⟨positive _, less, least ^ steps, positive _, ?_⟩
  rw [← Nat.pow_succ', ← Nat.pow_add, eq]
  exact congrArg _ (Nat.add_assoc _ _ _)

namespace Grammar

/-- The scale that a section goes down to: that of the next scale word, or one. -/
def floor (back : List Token) : Nat := (back.head?.map Token.value).getD 1

/-- In what follows a scale word, some section between two scale words exceeds its room. -/
def Overruns (isScale : Token → Bool) (Exceeds : Nat → Nat → List Token → Prop) (scale : Token)
    (rest : List Token) : Prop :=
  ∃ front upper part back, scale :: rest = front ++ upper :: (part ++ back) ∧
    isScale upper = true ∧ (∀ token ∈ part, isScale token = false) ∧
    (∀ lower ∈ back.head?, isScale lower = true) ∧ Exceeds upper.value (floor back) part

/-- A grammar that moves one section after the other into a total, each by a scale word below the
one before. A section that does not exceed its room stays below the scale word before it. -/
structure Rooms (g : Grammar) (isScale : Token → Bool) (Known : Token → Prop)
    (Exceeds : Nat → Nat → List Token → Prop) where
  /-- A state right after a scale word, with the total and the scale. -/
  Pauses : g.State → Nat → Nat → Prop
  pauses : ∀ {state scale next after}, Known scale → isScale scale = true →
    g.push state scale next = .joined after →
      ∃ total, Pauses after total scale.value ∧ g.value? after = some total
  folds : ∀ {start middle after total upper part scale next}, Pauses start total upper →
    (∀ token ∈ part, Known token ∧ isScale token = false) → Known scale → isScale scale = true →
    g.replayBefore (some scale) start part = .joined middle →
    g.push middle scale next = .joined after →
      scale.value < upper ∧ scale.value ∣ upper ∧
        ∃ count, Pauses after (total + count * scale.value) scale.value ∧
          (count * scale.value < upper ∨ Exceeds upper scale.value part)
  ends : ∀ {start final total upper part}, Pauses start total upper →
    (∀ token ∈ part, Known token ∧ isScale token = false) →
    g.replayBefore none start part = .joined final →
      ∃ worth, g.value? final = some (total + worth) ∧ (worth < upper ∨ Exceeds upper 1 part)

variable {g : Grammar} {isScale : Token → Bool} {Known : Token → Prop}
  {Exceeds : Nat → Nat → List Token → Prop} {scale : Token} {rest : List Token}

/-- What overruns after a lower scale word overruns after the one before. -/
theorem Overruns.append {lower : Token} {part back : List Token}
    (overruns : Overruns isScale Exceeds lower back) :
    Overruns isScale Exceeds scale (part ++ lower :: back) := by
  obtain ⟨front, upper, piece, rest, split, isUpper, plain, next, exceeds⟩ := overruns
  refine ⟨scale :: part ++ front, upper, piece, rest, ?_, isUpper, plain, next, exceeds⟩
  rw [split]
  simp

/-- What is read after a scale word stays below it, unless some section is too large. -/
theorem Rooms.exists_value? (rooms : Rooms g isScale Known Exceeds) {start final : g.State}
    {total : Nat} (pauses : rooms.Pauses start total scale.value) (isUpper : isScale scale = true)
    (known : ∀ token ∈ rest, Known token)
    (reads : g.replayBefore none start rest = .joined final) :
    ∃ whole, g.value? final = some whole ∧ total ≤ whole ∧
      (whole < total + scale.value ∨ Overruns isScale Exceeds scale rest) := by
  -- The first section ends at the next scale word, and what follows has room below that one.
  induction size : rest.length using Nat.strongRecOn generalizing start total scale rest with
  | _ length ih =>
    subst size
    cases found : rest.find? isScale with
    | none =>
      rw [List.find?_eq_none] at found
      have plain : ∀ token ∈ rest, isScale token = false := fun token listed => by
        simpa using found token listed
      obtain ⟨worth, value, fits⟩ := rooms.ends pauses
        (fun token listed => ⟨known token listed, plain token listed⟩) reads
      refine ⟨_, value, Nat.le_add_right ..,
        fits.imp (Nat.add_lt_add_left · total) fun exceeds => ?_⟩
      exact ⟨[], scale, rest, [], by simp, isUpper, plain, by simp, exceeds⟩
    | some lower =>
      obtain ⟨isLower, part, back, rfl, plain⟩ := List.find?_eq_some_iff_append.1 found
      have plain : ∀ token ∈ part, isScale token = false := fun token listed => by
        simpa using plain token listed
      obtain ⟨middle, first, reads⟩ := exists_of_replayBefore_append reads
      obtain ⟨after, step, reads⟩ := Verdict.exists_of_bind_eq_joined reads
      obtain ⟨less, divides, count, pauses, fits⟩ := rooms.folds pauses
        (fun token listed => ⟨known token (by simp [listed]), plain token listed⟩)
        (known lower (by simp)) isLower first step
      obtain ⟨whole, value, more, below⟩ := ih back.length (by simp; omega) pauses isLower
        (fun token listed => known token (by simp [listed])) reads rfl
      refine ⟨whole, value, by omega, ?_⟩
      rcases fits with fits | exceeds
      · refine below.imp (fun below => ?_) Overruns.append
        -- The sections that are counted leave room for one more.
        obtain ⟨steps, upper⟩ := divides
        rw [upper, Nat.mul_comm] at fits
        have counted : count + 1 ≤ steps := Nat.lt_of_mul_lt_mul_left fits
        have room := Nat.mul_le_mul_left lower.value counted
        rw [Nat.mul_add, Nat.mul_one, Nat.mul_comm _ count] at room
        omega
      · refine .inr ⟨[], scale, part, lower :: back, rfl, isUpper, plain, ?_, exceeds⟩
        simpa using isLower

/-- The value of a number up to a scale word, and what the rest of it contributes. -/
theorem Rooms.exists_groupValue? (rooms : Rooms g isScale Known Exceeds) (steady : g.IsSteady)
    {front : List Token} {final : g.State} (isUpper : isScale scale = true)
    (plain : scale.isConnector = false) (known : ∀ token ∈ front ++ scale :: rest, Known token)
    (reads : g.replay g.initial (front ++ scale :: rest) = .joined final) :
    ∃ before whole, g.groupValue? (front ++ [scale]) = some before ∧
      g.groupValue? (front ++ scale :: rest) = some whole ∧ before ≤ whole ∧
      (whole < before + scale.value ∨ Overruns isScale Exceeds scale rest) := by
  have split := reads
  rw [replay_eq_replayBefore] at split
  obtain ⟨middle, first, split⟩ := exists_of_replayBefore_append split
  obtain ⟨after, step, split⟩ := Verdict.exists_of_bind_eq_joined split
  obtain ⟨before, pauses, value⟩ := rooms.pauses (known scale (by simp)) isUpper step
  obtain ⟨whole, total, more, below⟩ := rooms.exists_value? pauses isUpper
    (fun token listed => known token (by simp [listed])) split
  refine ⟨before, whole, ?_, by rw [groupValue?, reads]; exact total, more, below⟩
  have alone : g.replay g.initial (front ++ [scale]) = .joined after := by
    rw [replay_concat, show g.replayBefore (some scale) g.initial front = .joined middle from first]
    exact (steady.blind plain middle none _).trans step
  rw [groupValue?, alone]
  exact value

end Grammar

namespace Token

variable {words : List Token}

/-- The large multipliers are those from a larger value on. -/
theorem isPowerFrom_iff {least more : Nat} {token : Token} (le : least ≤ more) :
    token.isPowerFrom more = true ↔ token.isPowerFrom least = true ∧ more ≤ token.value := by
  simp only [isPowerFrom, Bool.and_eq_true, decide_eq_true_eq]
  constructor
  · rintro ⟨⟨number, large⟩, power⟩
    exact ⟨⟨⟨number, Nat.le_trans le large⟩, power⟩, large⟩
  · rintro ⟨⟨⟨number, -⟩, power⟩, large⟩
    exact ⟨⟨number, large⟩, power⟩

theorem not_isConnector_of_isPowerFrom {least : Nat} {token : Token}
    (scales : token.isPowerFrom least = true) : token.isConnector = false := by
  simp only [isPowerFrom, Bool.and_eq_true, beq_iff_eq] at scales
  rw [isConnector, scales.1.1]
  rfl

/-- Words with places of their own stay below the first place that none of them supplies. -/
theorem sum_lt {count : Nat} (places : ∀ word ∈ words, word.HasPlaces)
    (narrow : ∀ word ∈ words, word.mask < 2 ^ count)
    (apart : words.Pairwise fun first second => first.mask &&& second.mask = 0) :
    (words.map value).sum < 10 ^ count := by
  -- The sum has its digits at the places of all words.
  have union : ∃ mask, Supplies mask (words.map value).sum ∧ mask < 2 ^ count ∧
      ∀ other, (∀ word ∈ words, word.mask &&& other = 0) → mask &&& other = 0 := by
    induction words with
    | nil => exact ⟨0, supplies_zero 0, Nat.two_pow_pos count, fun _ _ => Nat.zero_and _⟩
    | cons word words ih =>
      obtain ⟨placed, others⟩ := List.forall_mem_cons.1 places
      obtain ⟨low, more⟩ := List.forall_mem_cons.1 narrow
      obtain ⟨first, rest⟩ := List.pairwise_cons.1 apart
      obtain ⟨mask, supplies, bound, separate⟩ := ih others more rest
      have free := separate word.mask fun other listed => by
        rw [Nat.and_comm]
        exact first other listed
      refine ⟨word.mask ||| mask, ?_, Nat.or_lt_two_pow low bound, fun other clear => ?_⟩
      · rw [List.map_cons, List.sum_cons]
        exact placed.supplies.add supplies (by rwa [Nat.and_comm])
      · obtain ⟨here, there⟩ := List.forall_mem_cons.1 clear
        exact or_and_eq_zero_iff.2 ⟨here, separate other there⟩
  obtain ⟨mask, supplies, bound, -⟩ := union
  exact supplies.lt bound

/-- What is known of the tokens of a text: words, linking words, and multipliers of which the large
ones are powers of the least. -/
structure IsKnown (isMultiplier : Token → Bool) (bound least : Nat) (token : Token) : Prop where
  word : token.isConnector = false → isMultiplier token = false → token.IsWord bound
  scale : token.isPowerFrom least = true → ∃ exponent, token.value = least ^ (exponent + 1)

/-- A digit string that reaches the bound has places in common with every other token. -/
theorem IsNarrow.meets {bound : Nat} {token string : Token} (narrow : token.IsNarrow bound)
    (occupied : token.mask ≠ 0) (full : ∃ count, string.mask = 2 ^ (count + 1) - 1)
    (wide : bound ≤ string.mask) : token.mask &&& string.mask ≠ 0 := by
  obtain ⟨count, mask⟩ := full
  have power := Nat.two_pow_pos count
  rw [mask] at wide ⊢
  rcases narrow with small | ⟨-, length, same⟩
  · rwa [Nat.and_two_pow_sub_one_eq_mod, Nat.mod_eq_of_lt (by omega)]
  · intro apart
    have other := Nat.two_pow_pos length
    have units := units_apart apart
    rw [same, Nat.pow_succ, Nat.pow_succ] at units
    omega

/-- What has no place in common with some word is narrow. -/
theorem IsNarrow.lt_of_apart {bound : Nat} {token other : Token} (narrow : token.IsNarrow bound)
    (word : other.IsWord bound) (apart : token.mask &&& other.mask = 0) : token.mask < bound := by
  by_contra wide
  obtain ⟨-, full⟩ := narrow.resolve_left wide
  rw [Nat.and_comm] at apart
  exact word.narrow.meets word.places.occupied full (Nat.le_of_not_lt wide) apart

/-- A digit string that reaches the bound stands alone among words apart. -/
theorem eq_singleton_of_wide {bound : Nat} {string : Token}
    (known : ∀ word ∈ words, word.IsWord bound)
    (apart : words.Pairwise fun first second => first.mask &&& second.mask = 0)
    (listed : string ∈ words) (wide : bound ≤ string.mask) :
    words = [string] ∧ string.kind = .explicit := by
  have narrow := (known string listed).narrow
  obtain ⟨explicit, -⟩ := narrow.resolve_left (Nat.not_lt.2 wide)
  obtain ⟨front, back, rfl⟩ := List.append_of_mem listed
  obtain ⟨-, after, before⟩ := List.pairwise_append.1 apart
  have alone : ∀ word ∈ front ++ back, string.mask &&& word.mask ≠ 0 := by
    intro word member free
    have inside : word ∈ front ++ string :: back := by
      rcases List.mem_append.1 member with left | right
      · exact List.mem_append_left _ left
      · exact List.mem_append_right _ (List.mem_cons_of_mem _ right)
    exact absurd (narrow.lt_of_apart (known word inside) free) (Nat.not_lt.2 wide)
  have first : front = [] := by
    rw [List.eq_nil_iff_forall_not_mem]
    intro word member
    refine alone word (List.mem_append_left _ member) ?_
    rw [Nat.and_comm]
    exact before word member string List.mem_cons_self
  have last : back = [] := by
    rw [List.eq_nil_iff_forall_not_mem]
    intro word member
    exact alone word (List.mem_append_right _ member) ((List.pairwise_cons.1 after).1 word member)
  exact ⟨by rw [first, last]; rfl, explicit⟩

end Token

namespace Western

variable {capacity : Capacity} {rule : ConnectorRule} {start middle : Western}
  {ahead : Option Token} {part : List Token} {scheme : Scheme}

/-- What is too large between two scales: a digit string, or what a hundred scales. -/
def Exceeds (upper lower : Nat) (part : List Token) : Prop :=
  (∃ string ∈ part, string.kind = .explicit ∧ upper ≤ string.value * lower) ∨
    ∃ words hundred tail, part = words ++ hundred :: tail ∧ isMultiplier hundred = true ∧
      upper ≤ ((unlinked words).map Token.value).sum * hundred.value * lower

theorem base_cases (state : Western) : state.base = 1 ∨ state.base = state.current := by
  unfold base
  split
  · exact .inl rfl
  · exact .inr rfl

/-- A hundred is the only multiplier of a section, and what comes after it is below a hundred. -/
theorem tail_of_hundred {tail : List Token} {after : Western}
    (words : ∀ token ∈ tail, token.isConnector = false → isMultiplier token = false →
      token.IsWord 8)
    (unscaled : ∀ token ∈ tail, isMultiplier token = true → token.value < 1000)
    (taken : start.mask = 4)
    (reads : (grammar capacity rule).replayBefore ahead start tail = .joined after) :
    after.total = start.total ∧ after.scale = start.scale ∧
      ∃ more < 100, after.current = start.current + more := by
  cases found : tail.find? isMultiplier with
  | some again =>
    -- The place of a second hundred is taken.
    obtain ⟨scales, front, back, rfl, plain⟩ := List.find?_eq_some_iff_append.1 found
    obtain ⟨middle, first, reads⟩ :=
      Grammar.exists_of_replayBefore_append (g := grammar capacity rule) reads
    obtain ⟨next, step, -⟩ := Verdict.exists_of_bind_eq_joined reads
    have gathers := gathers_of_replayBefore
      (fun token listed => by simpa using plain token listed) first
    obtain ⟨-, -, -, -, -, low⟩ := mask_of_hundred (joins_of_push step) scales
      (unscaled again (by simp) scales)
    have least := Nat.ge_two_pow_of_testBit (gathers.keeps 2 (by rw [taken]; rfl))
    omega
  | none =>
    rw [List.find?_eq_none] at found
    have plain : ∀ token ∈ tail, isMultiplier token = false := fun token listed => by
      simpa using found token listed
    have gathers := gathers_of_replayBefore plain reads
    refine ⟨gathers.total, gathers.scale, _, ?_, gathers.current⟩
    have known : ∀ word ∈ unlinked tail, word.IsWord 8 := fun word listed => by
      obtain ⟨inside, single⟩ := mem_unlinked.1 listed
      exact words word inside single (plain word inside)
    have below : ∀ word ∈ unlinked tail, word.mask < 2 ^ 2 := fun word listed => by
      have free := gathers.free word listed
      rw [taken] at free
      exact mask_lt_four (known word listed) free
    exact Token.sum_lt (fun word listed => (known word listed).places) below gathers.apart

/-- How much a section counts: less than a thousand, or as much as a digit string, or its hundred
scales some number. -/
inductive Counts (part : List Token) (count : Nat) : Prop
  | words (small : count < 1000)
  | string {token : Token} (listed : token ∈ part) (explicit : token.kind = .explicit)
    (value : count = token.value)
  | hundreds {words tail : List Token} {hundred : Token} (split : part = words ++ hundred :: tail)
    (scales : isMultiplier hundred = true) (value : hundred.value = 100)
    (less : count < (((unlinked words).map Token.value).sum + 1) * 100)

theorem counts_of_replayBefore
    (known : ∀ token ∈ part, token.isConnector = false → isMultiplier token = false →
      token.IsWord 8)
    (unscaled : ∀ token ∈ part, isMultiplier token = true → token.value < 1000)
    (empty : start.current = 0)
    (reads : (grammar capacity rule).replayBefore ahead start part = .joined middle) :
    middle.total = start.total ∧ middle.scale = start.scale ∧ Counts part middle.current := by
  have isWord : ∀ words : List Token, words ⊆ part →
      (∀ token ∈ words, isMultiplier token = false) → ∀ word ∈ unlinked words, word.IsWord 8 := by
    intro words within plain word listed
    obtain ⟨inside, single⟩ := mem_unlinked.1 listed
    exact known word (within inside) single (plain word inside)
  cases found : part.find? isMultiplier with
  | none =>
    rw [List.find?_eq_none] at found
    have plain : ∀ token ∈ part, isMultiplier token = false := fun token listed => by
      simpa using found token listed
    have words := isWord part (List.Subset.refl _) plain
    have gathers := gathers_of_replayBefore plain reads
    refine ⟨gathers.total, gathers.scale, ?_⟩
    rw [gathers.current, empty, Nat.zero_add]
    by_cases narrow : ∀ word ∈ unlinked part, word.mask < 2 ^ 3
    · have places := fun word listed => (words word listed).places
      exact .words (Token.sum_lt places narrow gathers.apart)
    · obtain ⟨string, listed, wide⟩ : ∃ string ∈ unlinked part, 8 ≤ string.mask := by
        simpa using narrow
      obtain ⟨alone, explicit⟩ := Token.eq_singleton_of_wide words gathers.apart listed wide
      exact .string (mem_unlinked.1 listed).1 explicit (by simp [alone])
  | some hundred =>
    obtain ⟨scales, words, tail, rfl, plain⟩ := List.find?_eq_some_iff_append.1 found
    have plain : ∀ token ∈ words, isMultiplier token = false := fun token listed => by
      simpa using plain token listed
    obtain ⟨counted, first, reads⟩ :=
      Grammar.exists_of_replayBefore_append (g := grammar capacity rule) reads
    obtain ⟨next, step, reads⟩ := Verdict.exists_of_bind_eq_joined reads
    have gathers := gathers_of_replayBefore plain first
    obtain ⟨value, mask, current, total, scale, -⟩ := mask_of_hundred (joins_of_push step) scales
      (unscaled hundred (by simp) scales)
    obtain ⟨sameTotal, sameScale, more, few, sum⟩ := tail_of_hundred
      (fun token listed => known token (by simp [listed]))
      (fun token listed => unscaled token (by simp [listed])) mask reads
    refine ⟨by rw [sameTotal, total, gathers.total], by rw [sameScale, scale, gathers.scale], ?_⟩
    have counts : counted.current = ((unlinked words).map Token.value).sum := by
      rw [gathers.current, empty, Nat.zero_add]
    rw [sum, current]
    rcases base_cases counted with single | several
    · exact .words (by omega)
    · exact .hundreds rfl scales value (by omega)

/-- A section fits between two scales, a thousand times some number apart, unless it exceeds
them. -/
theorem Counts.fits {upper lower ratio count : Nat} (counts : Counts part count)
    (many : upper = lower * (1000 * ratio)) (positive : 0 < ratio) (steps : 0 < lower) :
    count * lower < upper ∨ Exceeds upper lower part := by
  have below : count < 1000 * ratio → count * lower < upper := fun less => by
    rw [many, Nat.mul_comm lower]
    exact Nat.mul_lt_mul_of_pos_right less steps
  cases counts with
  | words small => exact .inl (below (by omega))
  | @string string listed explicit value =>
    subst value
    rcases Nat.lt_or_ge (string.value * lower) upper with fits | large
    · exact .inl fits
    · exact .inr (.inl ⟨string, listed, explicit, large⟩)
  | @hundreds words tail hundred split scales value less =>
    rcases Nat.lt_or_ge (((unlinked words).map Token.value).sum * 100 * lower) upper with
      fits | large
    · rw [many, Nat.mul_comm lower] at fits
      have room := Nat.lt_of_mul_lt_mul_right fits
      exact .inl (below (by omega))
    · exact .inr (.inr ⟨words, hundred, tail, split, scales, by rwa [value]⟩)

theorem isScale_iff {token : Token} :
    token.isPowerFrom 1000 = true ↔ isMultiplier token = true ∧ 1000 ≤ token.value :=
  Token.isPowerFrom_iff (by decide)

/-- A state right after a scale word. -/
structure Pauses (state : Western) (total upper : Nat) : Prop where
  total : state.total = total
  current : state.current = 0
  scale : state.scale = upper
  power : ∃ exponent, upper = 1000 ^ (exponent + 1)

theorem Pauses.value {state : Western} {total upper : Nat} (pauses : Pauses state total upper) :
    state.total + state.current = total := by
  rw [pauses.total, pauses.current, Nat.add_zero]

theorem pauses_of_joins {state after : Western} {scale : Token}
    (known : scale.IsKnown isMultiplier 8 1000) (isScale : scale.isPowerFrom 1000 = true)
    (joins : Joins state scale after) :
    (state.scale = 0 ∨ scale.value < state.scale) ∧
      Pauses after (state.total + state.base * scale.value) scale.value := by
  obtain ⟨scales, large⟩ := isScale_iff.1 isScale
  cases joins with
  | scale _ _ below => exact ⟨below, rfl, rfl, rfl, known.scale isScale⟩
  | hundred _ small => omega
  | link linking => simp [Token.not_isConnector_of_isPowerFrom scales] at linking
  | add _ additive => simp [scales] at additive

/-- What a section right after a scale word says. -/
theorem section_of_pauses {total upper : Nat} (pauses : Pauses start total upper)
    (plain : ∀ token ∈ part, token.IsKnown isMultiplier 8 1000 ∧ token.isPowerFrom 1000 = false)
    (reads : (grammar capacity rule).replayBefore ahead start part = .joined middle) :
    middle.total = total ∧ middle.scale = upper ∧ ∀ lower ratio, upper = lower * (1000 * ratio) →
      0 < ratio → 0 < lower → middle.current * lower < upper ∨ Exceeds upper lower part := by
  have unscaled : ∀ token ∈ part, isMultiplier token = true → token.value < 1000 := by
    intro token listed scales
    by_contra large
    have isScale := isScale_iff.2 ⟨scales, Nat.le_of_not_lt large⟩
    simp [(plain token listed).2] at isScale
  obtain ⟨same, above, size⟩ := counts_of_replayBefore
    (fun token listed => (plain token listed).1.word) unscaled pauses.current reads
  exact ⟨same.trans pauses.total, above.trans pauses.scale,
    fun _ _ many positive steps => size.fits many positive steps⟩

/-- Sections between powers of a thousand. -/
def rooms (rule : ConnectorRule) :
    Grammar.Rooms (grammar .unlimited rule) (Token.isPowerFrom 1000)
      (Token.IsKnown isMultiplier 8 1000) Exceeds where
  Pauses := Pauses
  pauses := by
    intro state scale next after known isScale step
    have pauses := (pauses_of_joins known isScale (joins_of_push step)).2
    exact ⟨_, pauses, congrArg some pauses.value⟩
  folds := by
    intro start middle after total upper part scale next pauses plain known isScale reads step
    obtain ⟨same, above, fits⟩ := section_of_pauses pauses plain reads
    obtain ⟨below, moved⟩ := pauses_of_joins known isScale (joins_of_push step)
    rw [above] at below
    obtain ⟨steps, less, ratio, some, many⟩ :=
      exists_ratio (by decide) pauses.power moved.power below
    rw [same] at moved
    refine ⟨less, ⟨_, many⟩, _, moved, ?_⟩
    rcases base_cases middle with single | several
    · left
      rwa [single, Nat.one_mul]
    · rw [several]
      exact fits _ _ many some steps
  ends := by
    intro start final total upper part pauses plain reads
    obtain ⟨same, -, fits⟩ := section_of_pauses pauses plain reads
    obtain ⟨exponent, rfl⟩ := pauses.power
    refine ⟨Western.current final,
      congrArg (fun total => some (total + Western.current final)) same, ?_⟩
    simpa using fits 1 (1000 ^ exponent) (by rw [Nat.one_mul, Nat.pow_succ'])
      (Nat.pow_pos (by decide)) Nat.one_pos

end Western

end Phrasebook.Numeral
