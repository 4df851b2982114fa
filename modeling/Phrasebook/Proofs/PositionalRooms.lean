import Phrasebook.Proofs.PositionalReading
import Phrasebook.Proofs.ScaleRooms

/-! Room below a large multiplier.

Between two large multipliers a Japanese or Chinese number builds a block of four places, what
waits at places of its own. Only two things can be too large for it: a digit string, and a word
of ten or more that a small multiplier claims.
-/

set_option autoImplicit false

namespace Phrasebook.Numeral

namespace Positional

variable {capacity : Capacity} {abbreviates : Bool} {state after start middle : Positional}
  {token : Token} {ahead : Option Token} {part : List Token} {total upper : Nat}

/-- What a token does to the number that it joins. -/
inductive Joins (state : Positional) (token : Token) : Positional → Prop
  | link (linking : token.isConnector = true) :
    Joins state token { state with afterMultiplier := false }
  | wait (plain : token.isConnector = false) (additive : isMultiplier token = false)
    (vacant : state.pending = none) (free : token.mask &&& state.blockMask = 0) :
    Joins state token (state.wait token)
  | commit {pending : Pending} (plain : token.isConnector = false)
    (additive : isMultiplier token = false) (waits : state.pending = some pending)
    (free : token.mask &&& state.blockMask = 0) (apart : pending.mask &&& token.mask = 0) :
    Joins state token
      (Positional.wait
        { state with
          block := state.block + pending.value
          blockMask := state.blockMask ||| pending.mask } token)
  | small (scales : isMultiplier token = true) (small : token.value < 10000)
    (free : FreeTo state.blockMask token.highest) :
    Joins state token
      { state with
        block := state.block + state.pendingValue 1 * token.value
        blockMask := state.blockMask ||| 2 ^ token.highest
        pending := none
        lastMultiplier := token.value
        afterMultiplier := true }
  | large (scales : isMultiplier token = true) (large : 10000 ≤ token.value)
    (below : state.lastLarge = 0 ∨ token.value < state.lastLarge) :
    Joins state token
      { total := state.total + state.base * token.value
        block := 0
        blockMask := 0
        pending := none
        lastMultiplier := token.value
        lastLarge := token.value
        afterMultiplier := true }

theorem joins_of_push (joined : push capacity state token = .joined after) :
    Joins state token after := by
  unfold push at joined
  split at joined
  · next linking =>
    split at joined
    · cases joined
      exact .link linking
    · cases joined
  · next plain =>
    have plain : token.isConnector = false := by simpa using plain
    split at joined
    · next scales =>
      unfold multiply at joined
      split at joined
      · next small =>
        split at joined
        · cases joined
        · next free =>
          obtain rfl := Verdict.eq_of_ofHeld joined
          rw [Nat.one_shiftLeft, Nat.and_two_pow_sub_one_eq_mod, ne_eq, Decidable.not_not] at free
          rw [Nat.one_shiftLeft]
          exact .small scales small free
      · next large =>
        split at joined
        · cases joined
        · next below =>
          obtain rfl := Verdict.eq_of_ofHeld joined
          exact .large scales (Nat.le_of_not_lt large) (by omega)
    · next additive =>
      have additive : isMultiplier token = false := by simpa using additive
      unfold add at joined
      split at joined
      · cases joined
      · next free =>
        have free := Decidable.not_not.1 free
        split at joined
        · next vacant =>
          cases joined
          exact .wait plain additive vacant free
        · next pending waits =>
          split at joined
          · cases joined
          · next allowed =>
            obtain rfl := Verdict.eq_of_ofHeld joined
            exact .commit plain additive waits free
              (Decidable.not_not.1 fun meets => allowed (.inl meets))

theorem isScale_iff :
    token.isPowerFrom 10000 = true ↔ isMultiplier token = true ∧ 10000 ≤ token.value :=
  Token.isPowerFrom_iff (by decide)

/-- The small multipliers are ten, hundred and thousand. -/
theorem exists_place (scales : isMultiplier token = true) (small : token.value < 10000) :
    ∃ place < 3, token.value = 10 ^ (place + 1) ∧ token.highest = place + 1 := by
  simp only [isMultiplier, Token.isPowerFrom, isPowerOfTen, Bool.and_eq_true, decide_eq_true_eq,
    beq_iff_eq] at scales
  obtain ⟨⟨-, least⟩, power⟩ := scales
  have power : token.value = 10 ^ token.highest := power.symm
  rw [power] at least small
  have few : token.highest < 4 := (Nat.pow_lt_pow_iff_right (by decide : 1 < 10)).1 small
  have some : token.highest ≠ 0 := by
    intro none
    simp [none] at least
  obtain ⟨place, highest⟩ := Nat.exists_eq_succ_of_ne_zero some
  exact ⟨place, by omega, by rw [power, highest], highest⟩

/-- A word that is claimed by no multiplier yet, with linking words at most after it. -/
def Ends (part : List Token) (number : Token) : Prop :=
  ∃ words links, part = words ++ number :: links ∧ number.isConnector = false ∧
    isMultiplier number = false ∧ ∀ link ∈ links, link.isConnector = true

theorem Ends.mem {number : Token} (ends : Ends part number) : number ∈ part := by
  obtain ⟨words, links, rfl, -⟩ := ends
  simp

theorem ends_concat (plain : token.isConnector = false) (additive : isMultiplier token = false)
    (part : List Token) : Ends (part ++ [token]) token :=
  ⟨part, [], rfl, plain, additive, by simp⟩

/-- A linking word claims nothing. -/
theorem Ends.concat {number : Token} (ends : Ends part number)
    (linking : token.isConnector = true) : Ends (part ++ [token]) number := by
  obtain ⟨words, links, rfl, plain, additive, linked⟩ := ends
  refine ⟨words, links ++ [token], by simp, plain, additive, fun link listed => ?_⟩
  rcases List.mem_append.1 listed with before | last
  · exact linked link before
  · rwa [List.mem_singleton.1 last]

/-- A word of ten or more that a multiplier claims. -/
def Overscales (part : List Token) : Prop :=
  ∃ words number multiplier tail, part = words ++ multiplier :: tail ∧ Ends words number ∧
    isMultiplier multiplier = true ∧ 10 ≤ number.value

theorem Overscales.append (overscales : Overscales part) (more : List Token) :
    Overscales (part ++ more) := by
  obtain ⟨words, number, multiplier, tail, rfl, claimed⟩ := overscales
  exact ⟨words, number, multiplier, tail ++ more, by simp, claimed⟩

/-- A block whose digits stand at the places of its mask, beside what waits. An abbreviated unit
stands below all of them. -/
structure Builds (state : Positional) (upper : Nat) (part : List Token) : Prop where
  supplies : Supplies state.blockMask state.block
  narrow : state.blockMask < 2 ^ 4
  waits : ∀ pending, state.pending = some pending → pending.mask &&& state.blockMask = 0 ∧
    ∃ number, Ends part number ∧ pending.value = number.value ∧ pending.mask = number.mask
  rested : state.afterMultiplier = true → state.pending = none
  short : (state.afterMultiplier = true ∨
      ∃ pending, state.pending = some pending ∧ pending.afterMultiplier = true) →
    (state.lastMultiplier = upper ∧ state.blockMask = 0) ∨
      ∃ place < 3, state.lastMultiplier = 10 ^ (place + 1) ∧ FreeTo state.blockMask place

theorem Builds.pendingValue_lt (builds : Builds state upper part)
    (single : ∀ number, Ends part number → number.value < 10) : state.pendingValue 1 < 10 := by
  cases waits : state.pending with
  | none => simp [pendingValue, waits]
  | some pending =>
    obtain ⟨-, number, ends, same, -⟩ := builds.waits pending waits
    simp only [pendingValue, waits, Option.map_some, Option.getD_some, same]
    exact single number ends

/-- One more token, as long as none is scaled too much. -/
theorem Builds.step (builds : Builds state upper part)
    (known : ∀ other ∈ part ++ [token], other.IsKnown isMultiplier 16 10000)
    (inner : token.isPowerFrom 10000 = false) (joins : Joins state token after) :
    Builds after upper (part ++ [token]) ∨ Overscales (part ++ [token]) := by
  have isWord : ∀ {other}, other ∈ part ++ [token] → other.isConnector = false →
      isMultiplier other = false → other.IsWord 16 := fun listed => (known _ listed).word
  cases joins with
  | link linking =>
    refine .inl ⟨builds.supplies, builds.narrow, fun pending waits => ?_, by simp, fun short => ?_⟩
    · obtain ⟨apart, number, ends, same⟩ := builds.waits pending waits
      exact ⟨apart, number, ends.concat linking, same⟩
    · exact builds.short (.inr (short.resolve_left (by simp)))
  | wait plain additive vacant free =>
    refine .inl ⟨builds.supplies, builds.narrow, ?_, by simp [Positional.wait], ?_⟩
    · rintro pending waits
      obtain rfl := Option.some.inj waits
      exact ⟨free, token, ends_concat plain additive part, rfl, rfl⟩
    · rintro (never | ⟨pending, waits, fresh⟩)
      · cases never
      · obtain rfl := Option.some.inj waits
        exact builds.short (.inl fresh)
  | @commit pending plain additive waits free apart =>
    obtain ⟨separate, number, ends, value, mask⟩ := builds.waits pending waits
    obtain ⟨words, links, split, whole, single, -⟩ := id ends
    have before := isWord (List.mem_append_left _ ends.mem) whole single
    have next := isWord (List.mem_append_right _ List.mem_cons_self) plain additive
    have narrow : pending.mask < 2 ^ 4 := by
      rw [mask] at apart ⊢
      exact before.narrow.lt_of_apart next apart
    refine .inl ⟨?_, Nat.or_lt_two_pow builds.narrow narrow, ?_, by simp [Positional.wait], ?_⟩
    · have supplies := before.places.supplies
      rw [← value, ← mask] at supplies
      exact builds.supplies.add supplies (by rwa [Nat.and_comm])
    · rintro other waits
      obtain rfl := Option.some.inj waits
      refine ⟨?_, token, ends_concat plain additive part, rfl, rfl⟩
      show token.mask &&& (state.blockMask ||| pending.mask) = 0
      rw [Nat.and_comm, or_and_eq_zero_iff]
      exact ⟨by rwa [Nat.and_comm], apart⟩
    · rintro (never | ⟨other, same, fresh⟩)
      · cases never
      · obtain rfl := Option.some.inj same
        simp [builds.rested fresh] at waits
  | small scales small free =>
    by_cases claims : ∃ number, Ends part number ∧ 10 ≤ number.value
    · obtain ⟨number, ends, large⟩ := claims
      exact .inr ⟨part, number, token, [], rfl, ends, scales, large⟩
    · obtain ⟨place, few, value, highest⟩ := exists_place scales small
      rw [highest] at free
      have digit := builds.pendingValue_lt fun number ends =>
        Nat.lt_of_not_le fun large => claims ⟨number, ends, large⟩
      have power : 2 ^ (place + 1) < 2 ^ 4 := Nat.pow_lt_pow_right (by decide) (by omega)
      have separate := free.two_pow_and (Nat.le_refl _)
      rw [Nat.and_comm] at separate
      refine .inl ⟨?_, ?_, by simp, by simp, fun _ => .inr ⟨place, few, value, ?_⟩⟩
      · simp only [highest, value]
        exact builds.supplies.add (supplies_mul_pow digit _) separate
      · simp only [highest]
        exact Nat.or_lt_two_pow builds.narrow power
      · simp only [highest]
        exact (free.of_le (Nat.le_succ _)).or (freeTo_two_pow (Nat.lt_succ_self _))
  | large scales large =>
    have isScale := isScale_iff.2 ⟨scales, large⟩
    simp [inner] at isScale

/-- Tokens other than large multipliers keep the total, and build the block. -/
theorem builds_of_replayBefore {rest : List Token}
    (builds : Builds start upper part ∨ Overscales part)
    (known : ∀ token ∈ part ++ rest, token.IsKnown isMultiplier 16 10000)
    (inner : ∀ token ∈ rest, token.isPowerFrom 10000 = false)
    (reads : (grammar capacity abbreviates).replayBefore ahead start rest = .joined middle) :
    middle.total = start.total ∧ middle.lastLarge = start.lastLarge ∧
      (Builds middle upper (part ++ rest) ∨ Overscales (part ++ rest)) := by
  induction rest generalizing start part with
  | nil =>
    cases reads
    exact ⟨rfl, rfl, by rwa [List.append_nil]⟩
  | cons token rest ih =>
    obtain ⟨single, others⟩ := List.forall_mem_cons.1 inner
    obtain ⟨next, step, reads⟩ := Verdict.exists_of_bind_eq_joined reads
    have joins := joins_of_push step
    have further : Builds next upper (part ++ [token]) ∨ Overscales (part ++ [token]) := by
      rcases builds with builds | overscales
      · refine builds.step (fun other listed => known other ?_) single joins
        rw [List.append_cons]
        exact List.mem_append_left _ listed
      · exact .inr (overscales.append _)
    rw [List.append_cons] at known ⊢
    obtain ⟨total, last, built⟩ := ih further known others reads
    have kept : next.total = start.total ∧ next.lastLarge = start.lastLarge := by
      cases joins with
      | link | wait | commit | small => exact ⟨rfl, rfl⟩
      | large scales large =>
        have isScale := isScale_iff.2 ⟨scales, large⟩
        simp [single] at isScale
    exact ⟨total.trans kept.1, last.trans kept.2, built⟩

/-- What is too large between two scales: a digit string, or a word of ten or more that a small
multiplier claims. -/
def Exceeds (upper lower : Nat) (part : List Token) : Prop :=
  (∃ string ∈ part, string.kind = .explicit ∧ upper ≤ string.value * lower) ∨ Overscales part

/-- A block with what waits has four places, or it is a digit string. -/
theorem Builds.size (builds : Builds state upper part)
    (known : ∀ token ∈ part, token.IsKnown isMultiplier 16 10000) :
    state.block + state.pendingValue 0 < 10 ^ 4 ∨
      ∃ string ∈ part, string.kind = .explicit ∧
        state.block + state.pendingValue 0 = string.value := by
  cases waits : state.pending with
  | none =>
    left
    rw [pendingValue, waits]
    exact builds.supplies.lt builds.narrow
  | some pending =>
    obtain ⟨apart, number, ends, value, mask⟩ := builds.waits pending waits
    obtain ⟨words, links, split, plain, additive, -⟩ := id ends
    have isWord := (known number ends.mem).word plain additive
    have supplies := isWord.places.supplies
    rw [← value, ← mask] at supplies
    rw [pendingValue, waits, Option.map_some, Option.getD_some]
    by_cases narrow : number.mask < 2 ^ 4
    · rw [← mask] at narrow
      left
      exact (builds.supplies.add supplies (by rwa [Nat.and_comm])).lt
        (Nat.or_lt_two_pow builds.narrow narrow)
    · obtain ⟨explicit, count, full⟩ := isWord.narrow.resolve_left narrow
      -- No place is left for the block beside such a string.
      have low := builds.narrow
      have blank : state.blockMask = 0 := by
        rw [mask, full, Nat.and_comm, Nat.and_two_pow_sub_one_eq_mod, Nat.mod_eq_of_lt] at apart
        · exact apart
        · omega
      have supplies := builds.supplies
      rw [blank] at supplies
      exact .inr ⟨number, ends.mem, explicit, by rw [supplies.eq_zero, value, Nat.zero_add]⟩

theorem Builds.fits (builds : Builds state upper part)
    (known : ∀ token ∈ part, token.IsKnown isMultiplier 16 10000) {lower ratio : Nat}
    (many : upper = lower * (10000 * ratio)) (positive : 0 < ratio) (steps : 0 < lower) :
    (state.block + state.pendingValue 0) * lower < upper ∨ Exceeds upper lower part := by
  rcases builds.size known with small | ⟨string, listed, explicit, same⟩
  · left
    rw [many, Nat.mul_comm lower]
    exact Nat.mul_lt_mul_of_pos_right (by omega) steps
  · rw [same]
    rcases Nat.lt_or_ge (string.value * lower) upper with fits | large
    · exact .inl fits
    · exact .inr (.inl ⟨string, listed, explicit, large⟩)

/-- An abbreviated unit finds its place free. -/
theorem Builds.fits_tail (builds : Builds state upper part)
    (known : ∀ token ∈ part, token.IsKnown isMultiplier 16 10000) {ratio : Nat}
    (many : upper = 10000 * ratio) (positive : 0 < ratio) :
    state.block + state.tail abbreviates < upper ∨ Exceeds upper 1 part := by
  by_cases abbreviated : state.tail abbreviates = state.pendingValue 0
  · have fits := builds.fits known (by rwa [Nat.one_mul]) positive Nat.one_pos
    rwa [Nat.mul_one, ← abbreviated] at fits
  · left
    unfold tail pendingValue at *
    cases waits : state.pending with
    | none => simp [waits] at abbreviated
    | some pending =>
      simp only [waits, Option.map_some, Option.getD_some] at abbreviated ⊢
      split at abbreviated
      · next shortened =>
        rw [if_pos shortened]
        simp only [Bool.and_eq_true, decide_eq_true_eq] at shortened
        obtain ⟨⟨⟨-, fresh⟩, digit⟩, -⟩ := shortened
        rcases builds.short (.inr ⟨pending, waits, fresh⟩) with
          ⟨last, blank⟩ | ⟨place, few, last, free⟩
        · have supplies := builds.supplies
          rw [blank] at supplies
          rw [supplies.eq_zero, last, many, Nat.zero_add]
          have tenth : 10000 * ratio / 10 = 1000 * ratio := by omega
          have least := Nat.mul_le_mul_right (1000 * ratio) (Nat.le_of_lt_succ digit)
          rw [tenth]
          omega
        · have low : 2 ^ place < 2 ^ 4 := Nat.pow_lt_pow_right (by decide) (by omega)
          have apart := free.two_pow_and (Nat.le_refl _)
          rw [Nat.and_comm] at apart
          have room := (builds.supplies.add (supplies_mul_pow digit place) apart).lt
            (Nat.or_lt_two_pow builds.narrow low)
          rw [last, Nat.pow_succ, Nat.mul_div_cancel _ (by decide)]
          omega
      · exact absurd rfl abbreviated

/-- A state right after a large multiplier. -/
structure Pauses (state : Positional) (total upper : Nat) : Prop where
  total : state.total = total
  block : state.block = 0
  mask : state.blockMask = 0
  vacant : state.pending = none
  last : state.lastMultiplier = upper
  large : state.lastLarge = upper
  power : ∃ exponent, upper = 10000 ^ (exponent + 1)

theorem Pauses.builds (pauses : Pauses state total upper) : Builds state upper [] := by
  refine ⟨?_, by rw [pauses.mask]; decide, ?_, fun _ => pauses.vacant, ?_⟩
  · rw [pauses.mask, pauses.block]
    exact supplies_zero 0
  · simp [pauses.vacant]
  · exact fun _ => .inl ⟨pauses.last, pauses.mask⟩

theorem Pauses.value (pauses : Pauses state total upper) :
    state.total + state.block + state.tail abbreviates = total := by
  rw [pauses.total, pauses.block, tail, pauses.vacant]
  rfl

theorem pauses_of_joins {scale : Token} (known : scale.IsKnown isMultiplier 16 10000)
    (isScale : scale.isPowerFrom 10000 = true) (joins : Joins state scale after) :
    (state.lastLarge = 0 ∨ scale.value < state.lastLarge) ∧
      Pauses after (state.total + state.base * scale.value) scale.value := by
  obtain ⟨scales, large⟩ := isScale_iff.1 isScale
  cases joins with
  | large _ _ below => exact ⟨below, rfl, rfl, rfl, rfl, rfl, rfl, known.scale isScale⟩
  | small _ small => omega
  | link linking => simp [Token.not_isConnector_of_isPowerFrom scales] at linking
  | wait _ additive | commit _ additive =>
    simp [scales] at additive

theorem base_cases (state : Positional) :
    state.base = 1 ∨ state.base = state.block + state.pendingValue 0 := by
  unfold base
  split
  · exact .inl rfl
  · exact .inr rfl

/-- Sections between powers of ten thousand. -/
def rooms (abbreviates : Bool) :
    Grammar.Rooms (grammar .unlimited abbreviates) (Token.isPowerFrom 10000)
      (Token.IsKnown isMultiplier 16 10000) Exceeds where
  Pauses := Pauses
  pauses := by
    intro state scale next after known isScale step
    have pauses := (pauses_of_joins known isScale (joins_of_push step)).2
    exact ⟨_, pauses, congrArg some pauses.value⟩
  folds := by
    intro start middle after total upper part scale next pauses plain known isScale reads step
    have each := fun token listed => (plain token listed).1
    have inner := fun token listed => (plain token listed).2
    obtain ⟨same, above, built⟩ := builds_of_replayBefore (.inl pauses.builds) each inner reads
    obtain ⟨below, moved⟩ := pauses_of_joins known isScale (joins_of_push step)
    rw [above, pauses.large] at below
    obtain ⟨steps, less, ratio, some, many⟩ :=
      exists_ratio (by decide) pauses.power moved.power below
    rw [same, pauses.total] at moved
    refine ⟨less, ⟨_, many⟩, _, moved, ?_⟩
    rcases base_cases middle with single | several
    · left
      rwa [single, Nat.one_mul]
    · rw [several]
      rcases built with builds | overscales
      · exact builds.fits each many some steps
      · exact .inr (.inr overscales)
  ends := by
    intro start final total upper part pauses plain reads
    have each := fun token listed => (plain token listed).1
    have inner := fun token listed => (plain token listed).2
    obtain ⟨same, -, built⟩ := builds_of_replayBefore (.inl pauses.builds) each inner reads
    obtain ⟨exponent, power⟩ := pauses.power
    refine ⟨Positional.block final + Positional.tail abbreviates final, ?_, ?_⟩
    · refine congrArg some (Eq.trans (Nat.add_assoc ..) ?_)
      exact congrArg (· + (Positional.block final + Positional.tail abbreviates final))
        (same.trans pauses.total)
    · rcases built with builds | overscales
      · have many : upper = 10000 * 10000 ^ exponent := by rw [power, Nat.pow_succ']
        exact builds.fits_tail each many (Nat.pow_pos (by decide))
      · exact .inr (.inr overscales)

end Positional

namespace Scheme

/-- The least multiplier that moves what was said before it into the total. -/
def leastScale : Scheme → Nat
  | english | spanish | french => 1000
  | japanese | chinese => 10000

/-- What is too large for its room between two scale words. -/
def Exceeds : Scheme → Nat → Nat → List Token → Prop
  | english | spanish | french => Western.Exceeds
  | japanese | chinese => Positional.Exceeds

variable {scheme : Scheme} {token : Token}

/-- A Japanese or Chinese word that is no multiplier has four places at most. -/
theorem narrow_of_positional (positional : scheme.isWestern = false) :
    ∀ entry ∈ scheme.lexicon.entries, entry.token.isConnector = true ∨
      Positional.isMultiplier entry.token = true ∨ entry.token.mask < 16 := by
  cases scheme with
  | english | spanish | french => cases positional
  | japanese | chinese => decide +kernel

/-- The scale words are powers of the least one. -/
theorem exists_exponent_of_from (found : Token.From scheme.lexicon token)
    (isScale : token.isPowerFrom scheme.leastScale = true) :
    ∃ exponent, token.value = scheme.leastScale ^ (exponent + 1) := by
  cases found with
  | @entry entry listed =>
    have powers : ∀ entry ∈ scheme.lexicon.entries,
        entry.token.isPowerFrom scheme.leastScale = true →
          ∃ exponent < 8, entry.token.value = scheme.leastScale ^ (exponent + 1) := by
      cases scheme <;> decide +kernel
    obtain ⟨exponent, -, power⟩ := powers entry listed isScale
    exact ⟨exponent, power⟩
  | connector => cases isScale
  | explicit written =>
    obtain ⟨-, -, rfl⟩ := Token.eq_written_of_explicit? written
    cases isScale

/-- The rooms of a scheme, for whatever a text says. -/
theorem exists_rooms (scheme : Scheme) : ∃ Known,
    Nonempty ((scheme.grammar .unlimited).Rooms (Token.isPowerFrom scheme.leastScale) Known
      scheme.Exceeds) ∧ ∀ token, Token.From scheme.lexicon token → Known token := by
  cases scheme with
  | english | spanish | french =>
    exact ⟨_, ⟨Western.rooms _⟩, fun token found =>
      ⟨isWord_of_from (narrow_of_western rfl) found, exists_exponent_of_from found⟩⟩
  | japanese | chinese =>
    exact ⟨_, ⟨Positional.rooms _⟩, fun token found =>
      ⟨isWord_of_from (narrow_of_positional rfl) found, exists_exponent_of_from found⟩⟩

/-- A number of a text is put together alike if it holds values of any size. -/
theorem exists_replay_unlimited {group : List Token}
    (found : ∀ token ∈ group, Token.From scheme.lexicon token)
    (joined : ∃ final, (scheme.grammar .word64).replay (scheme.grammar .word64).initial group =
      .joined final) :
    ∃ final, (scheme.grammar .unlimited).replay (scheme.grammar .unlimited).initial group =
      .joined final := by
  obtain ⟨final, joined⟩ := joined
  cases scheme with
  | english | spanish | french =>
    have admitted := fun token listed => Western.admitted_of_from (found token listed)
    obtain ⟨further, reads, -⟩ :=
      (Western.widens _).replay_agrees admitted (Western.widens _).initial joined
    exact ⟨further, reads⟩
  | japanese | chinese =>
    obtain ⟨further, reads, -⟩ :=
      (Positional.widens _).replay_agrees (fun _ _ => trivial) rfl joined
    exact ⟨further, reads⟩

/-- In every number of a text, what comes after a scale word adds less than the scale word is
worth, unless some section between two scale words is too large for the room between them. -/
theorem exists_groupValue?_below_scale {text : List Char} {tokens front rest : List Token}
    {groups : List (List Token)} {scale : Token}
    (read : scheme.tokenize scheme.lexicon.vocabulary text = some tokens)
    (cut : (scheme.grammar .word64).segment tokens = some groups)
    (member : front ++ scale :: rest ∈ groups)
    (isScale : scale.isPowerFrom scheme.leastScale = true) :
    ∃ before whole, (scheme.grammar .unlimited).groupValue? (front ++ [scale]) = some before ∧
      (scheme.grammar .unlimited).groupValue? (front ++ scale :: rest) = some whole ∧
      before ≤ whole ∧ (whole < before + scale.value ∨
        Grammar.Overruns (Token.isPowerFrom scheme.leastScale) scheme.Exceeds scale rest) := by
  have found := from_of_mem_group read cut member
  obtain ⟨Known, ⟨rooms⟩, known⟩ := exists_rooms scheme
  obtain ⟨final, reads⟩ := exists_replay_unlimited found
    (((scheme.isSteady .word64).cuts_segment cut).joined _ member).2
  exact rooms.exists_groupValue? (scheme.isSteady .unlimited) isScale
    (Token.not_isConnector_of_isPowerFrom isScale)
    (fun token listed => known token (found token listed)) reads

/-- Thousands and units after a million, and a block after ten thousand. -/
theorem exists_groupValue?_two_million :
    (∃ before whole,
      (english.grammar .unlimited).groupValue? [.number 2, .number 1000000] = some before ∧
        (english.grammar .unlimited).groupValue?
          [.number 2, .number 1000000, .number 3, .number 1000, .number 5] = some whole ∧
        before ≤ whole ∧ (whole < before + 1000000 ∨
          Grammar.Overruns (Token.isPowerFrom 1000) Western.Exceeds (.number 1000000)
            [.number 3, .number 1000, .number 5])) ∧
      ∃ before whole,
        (chinese.grammar .unlimited).groupValue? [.number 2, .number 10000] = some before ∧
          (chinese.grammar .unlimited).groupValue?
            [.number 2, .number 10000, .number 3, .number 1000, .number 5] = some whole ∧
          before ≤ whole ∧ (whole < before + 10000 ∨
            Grammar.Overruns (Token.isPowerFrom 10000) Positional.Exceeds (.number 10000)
              [.number 3, .number 1000, .number 5]) := by
  have read : english.tokenize english.lexicon.vocabulary "two million three thousand five".toList =
      some [.number 2, .number 1000000, .number 3, .number 1000, .number 5] := by
    decide +kernel
  have cut : (english.grammar .word64).segment
      [.number 2, .number 1000000, .number 3, .number 1000, .number 5] =
        some [[.number 2] ++ .number 1000000 :: [.number 3, .number 1000, .number 5]] := by
    decide +kernel
  have readBlock : chinese.tokenize chinese.lexicon.vocabulary "二万三千五".toList =
      some [.number 2, .number 10000, .number 3, .number 1000, .number 5] := by
    decide +kernel
  have cutBlock : (chinese.grammar .word64).segment
      [.number 2, .number 10000, .number 3, .number 1000, .number 5] =
        some [[.number 2] ++ .number 10000 :: [.number 3, .number 1000, .number 5]] := by
    decide +kernel
  exact ⟨exists_groupValue?_below_scale read cut List.mem_cons_self (by decide +kernel),
    exists_groupValue?_below_scale readBlock cutBlock List.mem_cons_self (by decide +kernel)⟩

/-- A digit string after a thousand supplies thousands again, and so does a thousand that a hundred
scales. -/
theorem segment_one_thousand_5000 :
    english.tokenize english.lexicon.vocabulary "one thousand 5000".toList =
        some [.number 1, .number 1000, .written "5000".toList] ∧
      (english.grammar .word64).segment [.number 1, .number 1000, .written "5000".toList] =
        some [[.number 1, .number 1000, .written "5000".toList]] ∧
      (english.grammar .word64).groupValue? [.number 1, .number 1000] = some 1000 ∧
      (english.grammar .word64).groupValue? [.number 1, .number 1000, .written "5000".toList] =
        some 6000 ∧
      ¬6000 < 1000 + 1000 ∧
      english.reader.read? "one thousand 5000".toList = some "6000".toList ∧
      japanese.reader.read? "いちまんさんぜんひゃく".toList = some "310000".toList := by
  decide +kernel

end Scheme

end Phrasebook.Numeral
