import Phrasebook.Proofs.ChineseNumerals
import Phrasebook.Proofs.PositionalRooms

/-! Scale words after scale words.

A scale word multiplies the section before it, and the scale words of a number descend. So a
scale word that does not come below the last one starts a number of its own, and takes a
number word along that stands right before it. The two numbers are written side by side: in
Spanish, "dos mil millones" is 2000 and 1000000.
-/

set_option autoImplicit false

namespace Phrasebook.Numeral

namespace Grammar

variable {g : Grammar} {tokens front : List Token} {last token : Token} {state after : g.State}

theorem IsSteady.replayBefore_eq (steady : g.IsSteady) (ends : tokens.getLast? = some last)
    (plain : last.isConnector = false) (ahead : Option Token) (state : g.State) :
    g.replayBefore ahead state tokens = g.replay state tokens := by
  refine replayBefore_eq_replay (fun other member state => ?_) _ _
  rw [ends] at member
  cases member
  exact steady.blind plain state

/-- A number ends before a multiplier that it refuses, if no number word is taken along. -/
theorem IsSteady.segment_of_started (steady : g.IsSteady)
    (joined : g.replay g.initial tokens = .joined state) (ends : tokens.getLast? = some last)
    (plain : last.isConnector = false) (scaled : g.isMultiplier last = true)
    (refused : g.push state token none = .refused) (closes : token.isConnector = false)
    (starts : g.push g.initial token none = .joined after) :
    g.segment (tokens ++ [token]) = some [tokens, [token]] := by
  have reads := (steady.replayBefore_eq ends plain [token].head? g.initial).trans joined
  have alone : g.carry tokens token none = .refused := by
    rw [carry, ends]
    simp [scaled]
  rw [segment, segmentFrom_append reads, List.nil_append,
    segmentFrom_of_moves (.start refused alone starts), segmentFrom, close_eq ends plain,
    close_eq rfl closes]
  rfl

/-- A multiplier that a number refuses takes the number word before it along. -/
theorem IsSteady.segment_of_carried (steady : g.IsSteady)
    (joined : g.replay g.initial (front ++ [last]) = .joined state) (filled : front ≠ [])
    (plain : last.isConnector = false) (number : g.isMultiplier last = false)
    (refused : g.push state token none = .refused) (scales : g.isMultiplier token = true)
    (closes : token.isConnector = false)
    (pair : g.replay g.initial [last, token] = .joined after) :
    g.segment (front ++ [last, token]) = some (close front ++ [[last, token]]) := by
  have ends : (front ++ [last]).getLast? = some last := List.getLast?_concat
  have reads := (steady.replayBefore_eq ends plain [token].head? g.initial).trans joined
  have both : g.replayBefore none g.initial [last, token] = .joined after := by
    rw [← replay_eq_replayBefore, pair]
  have carried : g.carry (front ++ [last]) token none = .joined after := by
    have several : ¬(front ++ [last]).length < 2 := by
      have positive := List.length_pos_iff.2 filled
      rw [List.length_append, List.length_singleton]
      omega
    rw [← both, carry, ends]
    simp only [several, scales, plain, number, replayBefore, Verdict.bind_joined]
    rfl
  have closed : close [last, token] = [[last, token]] := close_eq rfl closes
  have moves : g.Moves (front ++ [last]) state token (List.head? []) (close front) [last, token]
      after := .carry refused rfl scales number carried both
  have whole : front ++ [last, token] = front ++ [last] ++ [token] := by simp
  rw [whole, segment, segmentFrom_append reads, List.nil_append,
    segmentFrom_of_moves moves, segmentFrom, closed]
  rfl

/-- Two numbers are written side by side. -/
theorem resolve_of_segment {kept others : List Token} {first second : Nat}
    (cut : g.segment tokens = some [kept, others]) (starts : tokens.head? = some token)
    (plain : token.isConnector = false)
    (spoken : ∀ token ∈ kept ++ others, token.kind ≠ .explicit)
    (value : g.groupValue? kept = some first) (further : g.groupValue? others = some second)
    (order : ReadingOrder) :
    g.resolve order tokens = some (Nat.toDigits 10 first ++ Nat.toDigits 10 second) := by
  rw [List.forall_mem_append] at spoken
  rw [resolve_eq cut (List.cons_ne_nil _ _) starts plain, List.mapM_cons, List.mapM_cons,
    render?_eq spoken.1, render?_eq spoken.2, value, further]
  simp

/-- Linking words are worth nothing. -/
def LinksAreBlank (g : Grammar) : Prop :=
  ∀ {token : Token} {state after : g.State} {next : Option Token}, token.isConnector = true →
    g.push state token next = .joined after → g.value? after = g.value? state

theorem LinksAreBlank.value?_eq {links : List Token} (blank : g.LinksAreBlank)
    (linking : ∀ token ∈ links, token.isConnector = true) {ahead : Option Token}
    (reads : g.replayBefore ahead state links = .joined after) :
    g.value? after = g.value? state := by
  induction links generalizing state with
  | nil =>
    cases reads
    rfl
  | cons token links ih =>
    obtain ⟨link, others⟩ := List.forall_mem_cons.1 linking
    obtain ⟨next, step, reads⟩ := Verdict.exists_of_bind_eq_joined reads
    rw [ih others reads, blank link step]

/-- What is kept of a number is worth as much as the number. -/
theorem LinksAreBlank.groupValue?_eq (blank : g.LinksAreBlank) (steady : g.IsSteady)
    {ahead : Option Token} (reads : g.replayBefore ahead g.initial front = .joined state) :
    g.groupValue? (front.rdropWhile Token.isConnector) = g.value? state := by
  obtain ⟨final, whole, linked⟩ := steady.exists_replay_kept reads
  rw [groupValue?, whole]
  exact (blank.value?_eq (fun _ member => List.mem_rtakeWhile_imp member) linked).symm

section

variable {value scaled : Nat} (steady : g.IsSteady) (plain : last.isConnector = false)
  (refused : g.push state token none = .refused) (closes : token.isConnector = false)
  (begins : ∀ first ∈ (front ++ [last]).head?, first.isConnector = false)
  (spoken : ∀ other ∈ front ++ [last, token], other.kind ≠ .explicit) (order : ReadingOrder)

include steady plain refused closes begins spoken

/-- What is written where a refused multiplier comes after another one. -/
theorem IsSteady.resolve_of_started (joined : g.replay g.initial (front ++ [last]) = .joined state)
    (power : g.isMultiplier last = true) (starts : g.push g.initial token none = .joined after)
    (whole : g.value? state = some value) (alone : g.value? after = some scaled) :
    g.resolve order (front ++ [last, token]) =
      some (Nat.toDigits 10 value ++ Nat.toDigits 10 scaled) := by
  obtain ⟨first, head⟩ : ∃ first, (front ++ [last]).head? = some first :=
    ⟨_, List.head?_eq_some_head (by simp)⟩
  have cut := steady.segment_of_started joined List.getLast?_concat plain power refused closes
    starts
  rw [List.append_cons] at spoken ⊢
  refine resolve_of_segment cut ?_ (begins first head) spoken ?_ ?_ order
  · rw [List.head?_append, head, Option.some_or]
  · rw [groupValue?, joined]
    exact whole
  · rw [groupValue?, replay, List.head?_nil, starts]
    exact alone

/-- What is written where a refused multiplier takes the number word before it along. -/
theorem IsSteady.resolve_of_carried {middle : g.State} (blank : g.LinksAreBlank)
    (filled : front ≠ []) (reads : g.replayBefore (some last) g.initial front = .joined middle)
    (joins : g.push middle last none = .joined state) (number : g.isMultiplier last = false)
    (scales : g.isMultiplier token = true)
    (pair : g.replay g.initial [last, token] = .joined after)
    (left : g.value? middle = some value) (more : g.value? middle ≠ g.value? g.initial)
    (taken : g.value? after = some scaled) :
    g.resolve order (front ++ [last, token]) =
      some (Nat.toDigits 10 value ++ Nat.toDigits 10 scaled) := by
  have kept := blank.groupValue?_eq steady reads
  have joined : g.replay g.initial (front ++ [last]) = .joined state := by
    rw [replay_concat, reads]
    exact joins
  -- Linking words alone would be worth nothing.
  have remains : front.rdropWhile Token.isConnector ≠ [] := by
    intro nothing
    rw [nothing] at kept
    exact more kept.symm
  have cut := steady.segment_of_carried joined filled plain number refused scales closes pair
  rw [close_eq_rdropWhile, if_neg (by simpa using remains)] at cut
  obtain ⟨first, rest, rfl⟩ := List.exists_cons_of_ne_nil filled
  refine resolve_of_segment cut rfl (begins first rfl) ?_ (kept.trans left) ?_ order
  · intro other member
    refine spoken other ?_
    rcases List.mem_append.1 member with before | pair
    · exact List.mem_append_left _ ((List.rdropWhile_prefix _ _).subset before)
    · exact List.mem_append_right _ pair
  · rw [groupValue?, pair]
    exact taken

end

end Grammar

namespace Western

variable {capacity : Capacity} {rule : ConnectorRule} {state final : Western}
  {front : List Token} {exponent : Nat}

/-- A scale word that does not come below the last one is refused. -/
theorem push_refused (large : 3 ≤ exponent) (scaled : state.scale ≠ 0)
    (above : state.scale ≤ 10 ^ exponent) (next : Option Token) :
    push capacity rule state (.number (10 ^ exponent)) next = .refused := by
  have least : 10 ^ 3 ≤ 10 ^ exponent := Nat.pow_le_pow_right (by decide) large
  have high : ¬(Token.number (10 ^ exponent)).value < 1000 := by
    simp only [Token.number]
    omega
  rw [push, if_neg (by simp [Token.isConnector, Token.number]), if_pos (isMultiplier_pow large),
    multiply, if_neg high, if_pos ⟨scaled, above⟩]

theorem linksAreBlank (capacity : Capacity) (rule : ConnectorRule) :
    (grammar capacity rule).LinksAreBlank := fun linking joined =>
  congrArg (grammar capacity rule).value? ((weight_of_push joined).2 linking)

/-- A word and a scale word are a number of their own. -/
theorem exists_read_pair (rule : ConnectorRule) {word : Nat}
    (number : isMultiplier (.number word) = false) (positive : 0 < word) (large : 3 ≤ exponent)
    (room : word * 10 ^ exponent < UInt64.size) :
    ∃ after, read .word64 rule initial [.number word, .number (10 ^ exponent)] = .joined after ∧
      (grammar .word64 rule).value? after = some (word * 10 ^ exponent) := by
  have holds := Capacity.holdsBelow_word64
  have least : word * 1 ≤ word * 10 ^ exponent :=
    Nat.mul_le_mul_left word (Nat.pow_pos (by decide))
  have step : read .word64 rule initial [.number word] =
      .joined { initial with
        current := initial.current + word
        mask := initial.mask ||| digitMask word
        started := true } :=
    read_cons_add holds number (Nat.zero_and _) (by simp only [initial]; omega) []
  have added : Adds initial { initial with
      current := initial.current + word
      mask := initial.mask ||| digitMask word
      started := true } word := ⟨rfl, rfl, rfl⟩
  have total : (initial.total + word * 10 ^ exponent) = word * 10 ^ exponent := Nat.zero_add _
  have plain : ∀ token ∈ ([word].map Token.number).getLast?, token.isConnector = false :=
    plain_of_mem_map
  refine ⟨_, read_scaled holds large positive rfl (.inl rfl) plain step added (by rwa [total]), ?_⟩
  rw [total]
  exact holds _ room

/-- A scale word on its own counts once. -/
theorem exists_push_once (rule : ConnectorRule) (large : 3 ≤ exponent)
    (room : 10 ^ exponent < UInt64.size) :
    ∃ after, push .word64 rule initial (.number (10 ^ exponent)) none = .joined after ∧
      (grammar .word64 rule).value? after = some (10 ^ exponent) := by
  have once : initial.total + initial.base * 10 ^ exponent = 10 ^ exponent := by
    simp [initial, base]
  have holds := Capacity.holdsBelow_word64
  have fits : initial.total + initial.base * 10 ^ exponent < UInt64.size := by rwa [once]
  have step : push .word64 rule initial (.number (10 ^ exponent)) none = .joined _ :=
    push_scale holds large (.inl rfl) fits none
  rw [once] at step
  exact ⟨_, step, holds _ room⟩

/-- What has been read before the last word, if that is no multiplier. -/
theorem exists_before_number {word : Nat}
    (joined : read .word64 rule initial (front ++ [.number word]) = .joined final)
    (number : isMultiplier (.number word) = false) :
    ∃ middle,
      (grammar .word64 rule).replayBefore (some (.number word)) initial front = .joined middle ∧
      push .word64 rule middle (.number word) none = .joined final ∧
      final.scale = middle.scale ∧
      middle.total + middle.current + word = final.total + final.current := by
  have split : read .word64 rule initial (front ++ [.number word]) =
      ((grammar .word64 rule).replayBefore (some (.number word)) initial front).bind fun next =>
        push .word64 rule next (.number word) none :=
    Grammar.replay_concat (g := grammar .word64 rule) initial front _
  obtain ⟨middle, reads, step⟩ := Verdict.exists_of_bind_eq_joined (split.symm.trans joined)
  refine ⟨middle, reads, step, ?_⟩
  cases joins_of_push step with
  | link linking => cases linking
  | add => exact ⟨rfl, Nat.add_assoc _ _ _⟩
  | hundred scales => simp [number] at scales
  | scale scales => simp [number] at scales

/-- What is written where a scale word comes after a number that it does not come below: the
number, without its last word unless that is a multiplier, and what is left with the scale word. -/
theorem resolve_of_refused {value word : Nat}
    (joined : read .word64 rule initial (front ++ [.number word]) = .joined final)
    (sum : final.total + final.current = value) (fits : value < UInt64.size)
    (positive : 0 < word) (less : isMultiplier (.number word) = false → word < value)
    (large : 3 ≤ exponent) (scaled : final.scale ≠ 0) (above : final.scale ≤ 10 ^ exponent)
    (room : word * 10 ^ exponent < UInt64.size)
    (spoken : ∀ token ∈ front ++ [.number word], token.kind ≠ .explicit) (order : ReadingOrder) :
    (grammar .word64 rule).resolve order (front ++ [.number word, .number (10 ^ exponent)]) =
      some (if isMultiplier (.number word) then
          Nat.toDigits 10 value ++ Nat.toDigits 10 (10 ^ exponent)
        else Nat.toDigits 10 (value - word) ++ Nat.toDigits 10 (word * 10 ^ exponent)) := by
  have steady := isSteady .word64 rule
  have refused : (grammar .word64 rule).push final (.number (10 ^ exponent)) none = .refused :=
    show push .word64 rule final _ none = .refused from push_refused large scaled above none
  have begins := (plain_of_read joined).1
  have spoken : ∀ token ∈ front ++ [.number word, .number (10 ^ exponent)],
      token.kind ≠ .explicit := by
    rw [List.append_cons, List.forall_mem_append]
    exact ⟨spoken, by simp [Token.number]⟩
  have holds := Capacity.holdsBelow_word64
  split
  · next power =>
    have least : 1 * 10 ^ exponent ≤ word * 10 ^ exponent := Nat.mul_le_mul_right _ positive
    obtain ⟨after, starts, alone⟩ := exists_push_once rule large (by omega)
    refine steady.resolve_of_started rfl refused rfl begins spoken order joined power starts ?_
      alone
    rw [← sum]
    exact holds _ (by rwa [sum])
  · next number =>
    have number : isMultiplier (.number word) = false := by simpa using number
    obtain ⟨after, pair, taken⟩ := exists_read_pair rule number positive large room
    obtain ⟨middle, reads, step, same, left⟩ := exists_before_number joined number
    rw [sum] at left
    have filled : front ≠ [] := by
      rintro rfl
      cases reads
      exact scaled same
    have value : (grammar .word64 rule).value? middle = some (value - word) := by
      rw [← left, Nat.add_sub_cancel]
      exact holds _ (by omega)
    have remains := less number
    refine steady.resolve_of_carried rfl refused rfl begins spoken order (linksAreBlank _ _) filled
      reads step number (isMultiplier_pow large) pair value ?_ taken
    rw [value]
    show some _ ≠ some 0
    intro nothing
    have none := Option.some.inj nothing
    omega

end Western

namespace Positional

variable {capacity : Capacity} {abbreviates : Bool} {state after final : Positional}
  {words front : List Word} {last : Word} {exponent : Nat}

/-- A large multiplier that does not come below the last one is refused. -/
theorem push_refused (large : 4 ≤ exponent) (scaled : state.lastLarge ≠ 0)
    (above : state.lastLarge ≤ 10 ^ exponent) :
    push capacity state (.number (10 ^ exponent)) = .refused := by
  have least : 10 ^ 4 ≤ 10 ^ exponent := Nat.pow_le_pow_right (by decide) large
  have high : ¬(Token.number (10 ^ exponent)).value < 10000 := by
    simp only [Token.number]
    omega
  rw [push, if_neg (by simp [Token.isConnector, Token.number]),
    if_pos (isMultiplier_pow (by omega)), multiply, if_neg high, if_pos ⟨scaled, above⟩]

theorem linksAreBlank (capacity : Capacity) (abbreviates : Bool) :
    (grammar capacity abbreviates).LinksAreBlank := by
  intro token state after next linking joined
  have joins : Joins state token after := joins_of_push joined
  cases joins with
  | link => rfl
  | wait plain | commit plain => simp [linking] at plain
  | small scales | large scales =>
    have plain := Token.not_isConnector_of_isPowerFrom scales
    simp [linking] at plain

/-- One digit waits at most. -/
theorem mask_of_push {word : Word} (usual : word.isUsual = true)
    (single : ∀ pending ∈ state.pending, pending.mask = 1)
    (joined : push capacity state word.token = .joined after) :
    ∀ pending ∈ after.pending, pending.mask = 1 := by
  have digit (plain : word.token.isConnector = false)
      (additive : isMultiplier word.token = false) : word.token.mask = 1 := by
    cases word with
    | digit value =>
      have bounds := of_decide_eq_true usual
      exact digitMask_of_unit value bounds.2 bounds.1
    | multiplier exponent =>
      have power : isMultiplier (Word.multiplier exponent).token = true := 
        isMultiplier_pow (Chinese.bounds_of_isUsual usual).1
      simp [power] at additive
    | zero => cases plain
  cases joins_of_push joined with
  | link => exact single
  | wait plain additive | commit plain additive =>
    rintro pending ⟨⟩
    exact digit plain additive
  | small | large => simp

theorem mask_of_read (usual : ∀ word ∈ words, word.isUsual = true)
    (single : ∀ pending ∈ state.pending, pending.mask = 1)
    (joined : read capacity state (words.map Word.token) = .joined after) :
    ∀ pending ∈ after.pending, pending.mask = 1 := by
  induction words generalizing state with
  | nil =>
    cases joined
    exact single
  | cons word words ih =>
    obtain ⟨first, others⟩ := List.forall_mem_cons.1 usual
    obtain ⟨next, step, joined⟩ := Verdict.exists_of_bind_eq_joined joined
    exact ih others (mask_of_push first single step) joined

/-- A large multiplier is the last one from then on, and other words keep the total. -/
theorem lastLarge_of_push {word : Word} (usual : word.isUsual = true)
    (joined : push capacity state word.token = .joined after) :
    (∃ exponent, 4 ≤ exponent ∧ word = .multiplier exponent ∧
        after.lastLarge = 10 ^ exponent) ∨
      (∀ exponent, word = .multiplier exponent → exponent < 4) ∧
        after.lastLarge = state.lastLarge ∧ after.total = state.total := by
  have small {exponent : Nat} (less : 10 ^ exponent < 10000) : exponent < 4 :=
    (Nat.pow_lt_pow_iff_right (by decide : 1 < 10)).1 less
  cases joins_of_push joined with
  | link linking =>
    refine .inr ⟨?_, rfl, rfl⟩
    rintro exponent rfl
    cases linking
  | wait _ additive | commit _ additive =>
    refine .inr ⟨?_, rfl, rfl⟩
    rintro exponent rfl
    have power : isMultiplier (Word.multiplier exponent).token = true :=
      isMultiplier_pow (Chinese.bounds_of_isUsual usual).1
    simp [power] at additive
  | small _ less =>
    refine .inr ⟨?_, rfl, rfl⟩
    rintro exponent rfl
    exact small less
  | large _ least =>
    cases word with
    | digit value =>
      have bounds := of_decide_eq_true usual
      have value : 10000 ≤ value := least
      omega
    | multiplier exponent =>
      refine .inl ⟨exponent, Nat.le_of_not_lt fun less => ?_, rfl, rfl⟩
      have least : 10 ^ 4 ≤ 10 ^ exponent := least
      have power : 10 ^ exponent < 10 ^ 4 := Nat.pow_lt_pow_right (by decide) less
      omega
    | zero => simp [Word.token, Token.connector] at least

theorem lastLarge_of_read (usual : ∀ word ∈ words, word.isUsual = true)
    (joined : read capacity state (words.map Word.token) = .joined after) :
    (∃ exponent, 4 ≤ exponent ∧ .multiplier exponent ∈ words ∧
        after.lastLarge = 10 ^ exponent) ∨
      (∀ exponent, .multiplier exponent ∈ words → exponent < 4) ∧
        after.lastLarge = state.lastLarge ∧ after.total = state.total := by
  induction words generalizing state with
  | nil =>
    cases joined
    exact .inr ⟨by simp, rfl, rfl⟩
  | cons word words ih =>
    obtain ⟨first, others⟩ := List.forall_mem_cons.1 usual
    obtain ⟨next, step, joined⟩ := Verdict.exists_of_bind_eq_joined joined
    rcases ih others joined with ⟨exponent, large, listed, last⟩ | ⟨low, last, total⟩
    · exact .inl ⟨exponent, large, List.mem_cons_of_mem _ listed, last⟩
    · rcases lastLarge_of_push first step with ⟨exponent, large, rfl, here⟩ | ⟨small, here, kept⟩
      · exact .inl ⟨exponent, large, List.mem_cons_self, last.trans here⟩
      · refine .inr ⟨fun exponent listed => ?_, last.trans here, total.trans kept⟩
        exact (List.mem_cons.1 listed).elim (fun same => small exponent same.symm) (low exponent)

theorem kind_of_mem_words (words : List Word) :
    ∀ token ∈ words.map Word.token, token.kind ≠ .explicit := by
  intro token member
  obtain ⟨word, -, rfl⟩ := List.mem_map.1 member
  cases word <;> simp [Word.token, Token.number, Token.connector]

theorem isConnector_token {word : Word} (spoken : word ≠ .zero) :
    word.token.isConnector = false := by
  rw [Word.token_eq spoken]
  rfl

theorem isConnector_head? (begins : words.head? ≠ some .zero) :
    ∀ token ∈ (words.map Word.token).head?, token.isConnector = false := by
  intro token head
  rw [List.head?_map] at head
  obtain ⟨word, starts, rfl⟩ := Option.map_eq_some_iff.1 head
  exact isConnector_token fun zero => begins (by rw [starts, zero])

/-- A large multiplier on its own counts once. -/
theorem exists_push_once (abbreviates : Bool) (large : 4 ≤ exponent)
    (room : 10 ^ exponent < UInt64.size) :
    ∃ after, push .word64 .initial (.number (10 ^ exponent)) = .joined after ∧
      (grammar .word64 abbreviates).value? after = some (10 ^ exponent) := by
  have once : initial.total + initial.base * 10 ^ exponent = 10 ^ exponent := by
    simp [initial, base, pendingValue]
  have holds := Capacity.holdsBelow_word64
  have fits : initial.total + initial.base * 10 ^ exponent < UInt64.size := by rwa [once]
  have step := push_large holds large (.inl rfl) fits
  rw [once] at step
  exact ⟨_, step, holds _ room⟩

/-- A digit and a large multiplier are a number of their own. -/
theorem exists_read_pair (abbreviates : Bool) {digit : Nat} (positive : 0 < digit)
    (small : digit < 10) (large : 4 ≤ exponent) (room : digit * 10 ^ exponent < UInt64.size) :
    ∃ after, read .word64 .initial [.number digit, .number (10 ^ exponent)] = .joined after ∧
      (grammar .word64 abbreviates).value? after = some (digit * 10 ^ exponent) := by
  have holds := Capacity.holdsBelow_word64
  have waits : push .word64 .initial (.number digit) =
      .joined (initial.wait (.number digit)) := push_digit positive small rfl (freeTo_zero 0)
  have base : (initial.wait (.number digit)).base = digit := by
    simp [base, wait, initial, pendingValue, Token.number]
    omega
  have total : (initial.wait (.number digit)).total +
      (initial.wait (.number digit)).base * 10 ^ exponent = digit * 10 ^ exponent := by
    rw [base]
    exact Nat.zero_add _
  have fits : (initial.wait (.number digit)).total +
      (initial.wait (.number digit)).base * 10 ^ exponent < UInt64.size := by rwa [total]
  have step := push_large holds large (.inl rfl) fits
  rw [total] at step
  refine ⟨_, (read_cons_of_joined waits _).trans (read_cons_of_joined step []), ?_⟩
  exact holds _ room

/-- Where one digit waits at most, none waits before another one that joins. -/
theorem eq_wait_of_push {digit : Nat} (positive : 0 < digit) (small : digit < 10)
    (single : ∀ pending ∈ state.pending, pending.mask = 1)
    (joined : push capacity state (.number digit) = .joined after) :
    state.pending = none ∧ after = state.wait (.number digit) := by
  have number := isMultiplier_of_lt small
  cases joins_of_push joined with
  | link linking => cases linking
  | wait _ _ vacant => exact ⟨vacant, rfl⟩
  | commit _ _ waits _ apart =>
    have unit := digitMask_of_unit digit small positive
    rw [single _ waits, show (Token.number digit).mask = 1 from unit] at apart
    simp at apart
  | small scales | large scales => simp [number] at scales

theorem value?_of_vacant (vacant : state.pending = none) :
    (grammar .word64 abbreviates).value? state =
      Capacity.word64.hold? (state.total + state.block) := by
  show Capacity.word64.hold? (state.total + state.block + state.tail abbreviates) = _
  rw [tail, vacant, Nat.add_zero]

/-- What is written where a large multiplier comes after a number that it does not come below: the
number, without its last digit if it ends in one, and what is left with the multiplier. -/
theorem resolve_of_refused {value : Nat} (usual : ∀ word ∈ front ++ [last], word.isUsual = true)
    (joined : read .word64 .initial ((front ++ [last]).map Word.token) = .joined final)
    (sum : final.total + final.block + final.pendingValue 0 = value) (fits : value < UInt64.size)
    (begins : (front ++ [last]).head? ≠ some .zero) (ends : last ≠ .zero) (ten : 10 ≤ value)
    (large : 4 ≤ exponent) (scaled : final.lastLarge ≠ 0) (above : final.lastLarge ≤ 10 ^ exponent)
    (room : 10 * 10 ^ exponent < UInt64.size) (order : ReadingOrder) :
    (grammar .word64 abbreviates).resolve order
        ((front ++ [last, .multiplier exponent]).map Word.token) =
      some (if isMultiplier last.token then
          Nat.toDigits 10 value ++ Nat.toDigits 10 (10 ^ exponent)
        else Nat.toDigits 10 (value - last.value) ++
          Nat.toDigits 10 (last.value * 10 ^ exponent)) := by
  have holds := Capacity.holdsBelow_word64
  have steady := isSteady .word64 abbreviates
  have refused : (grammar .word64 abbreviates).push final (.number (10 ^ exponent)) none =
      .refused := show push .word64 final _ = .refused from push_refused large scaled above
  have plain := isConnector_token ends
  have spoken := kind_of_mem_words (front ++ [last, .multiplier exponent])
  have first := isConnector_head? begins
  rw [List.map_append] at joined first spoken ⊢
  have parts := (read_append .initial (front.map Word.token) [last.token]).symm.trans joined
  obtain ⟨middle, reads, step⟩ := Verdict.exists_of_bind_eq_joined parts
  simp only [read, Verdict.bind_joined] at step
  rw [List.map_singleton, ← replay_eq_read .word64 abbreviates] at joined
  rw [← replay_eq_read .word64 abbreviates] at reads
  cases last with
  | zero => exact absurd rfl ends
  | multiplier power =>
    have bounds := Chinese.bounds_of_isUsual (usual (.multiplier power) (by simp))
    have scales : isMultiplier (Word.multiplier power).token = true := isMultiplier_pow bounds.1
    have claimed : final.After (10 ^ power) := after_of_push bounds.1 step
    obtain ⟨after, starts, alone⟩ := exists_push_once abbreviates large (by omega)
    rw [if_pos scales]
    rw [pendingValue, claimed.vacant] at sum
    refine steady.resolve_of_started plain refused rfl first spoken order joined scales
      starts ?_ alone
    rw [value?_of_vacant claimed.vacant, ← sum]
    exact holds _ (by rwa [← sum] at fits)
  | digit digit =>
    obtain ⟨positive, small⟩ := of_decide_eq_true (usual (.digit digit) (by simp))
    have number : isMultiplier (Word.digit digit).token = false := isMultiplier_of_lt small
    have single : ∀ pending ∈ middle.pending, pending.mask = 1 :=
      mask_of_read (fun word listed => usual word (List.mem_append_left _ listed))
        (by simp [initial]) (replay_eq_read .word64 abbreviates .initial _ ▸ reads)
    obtain ⟨vacant, rfl⟩ := eq_wait_of_push positive small single step
    have left : middle.total + middle.block + digit = value := sum
    have pairRoom := Nat.mul_le_mul_right (10 ^ exponent) (Nat.le_of_lt small)
    obtain ⟨after, pair, taken⟩ :=
      exists_read_pair abbreviates positive small large (by omega)
    rw [← replay_eq_read .word64 abbreviates] at pair
    have filled : front.map Word.token ≠ [] := by
      intro nothing
      rw [nothing] at reads
      cases reads
      simp [wait, initial] at scaled
    have value : (grammar .word64 abbreviates).value? middle = some (value - digit) := by
      rw [value?_of_vacant vacant, ← left, Nat.add_sub_cancel]
      exact holds _ (by omega)
    -- No word looks at the next one.
    have blind := (Grammar.replayBefore_eq_replay (g := grammar .word64 abbreviates)
      (fun _ _ _ _ _ => rfl) (some (Word.digit digit).token) .initial).trans reads
    rw [if_neg (by simp [number])]
    refine steady.resolve_of_carried plain refused rfl first spoken order
      (linksAreBlank _ _) filled blind step number (isMultiplier_pow (by omega)) pair value ?_ taken
    rw [value]
    show some _ ≠ some 0
    intro nothing
    have none := Option.some.inj nothing
    omega

end Positional

end Phrasebook.Numeral
