import Mathlib.Data.List.Infix
import Phrasebook.Text.Offset
import Phrasebook.Text.Utf8

/-! Steps over a byte buffer.

A step goes over a lead byte and the continuation bytes that it announces. What one step goes
over forward is gone over by one step back, in any buffer. In the bytes of a text the steps go
from each character to the next.
-/

set_option autoImplicit false

namespace Phrasebook.Text.Utf8

/-- A lead byte with the continuation bytes that it announces. -/
structure IsSequence (lead : UInt8) (trail : List UInt8) : Prop where
  length : announced lead = trail.length + 1
  trail : ∀ byte ∈ trail, isContinuation byte = true

variable {bytes trail : List UInt8} {lead : UInt8} {length : Nat}

theorem isContinuation_iff {byte : UInt8} :
    isContinuation byte = true ↔ 0x80 ≤ byte.toNat ∧ byte.toNat ≤ 0xBF := by
  simp only [isContinuation, UInt8.le_iff_toNat_le, UInt8.reduceToNat, Bool.and_eq_true,
    decide_eq_true_eq]

/-- The lengths that lead bytes announce, from their ranges alone. -/
theorem announced_eq (lead : UInt8) :
    announced lead =
      if lead.toNat < 0x80 then 1 else if lead.toNat < 0xC0 then 0
      else if lead.toNat < 0xE0 then 2 else if lead.toNat < 0xF0 then 3
      else if lead.toNat < 0xF8 then 4 else 0 := by
  simp only [announced, UInt8.le_iff_toNat_le, UInt8.reduceToNat, Bool.and_eq_true,
    decide_eq_true_eq]
  repeat' split
  all_goals omega

/-- No lead byte is a continuation byte. -/
theorem isContinuation_of_announced (starts : announced lead ≠ 0) :
    isContinuation lead = false := by
  rw [← Bool.not_eq_true, isContinuation_iff]
  rintro ⟨least, greatest⟩
  rw [announced_eq, if_neg (by omega), if_pos (by omega)] at starts
  exact starts rfl

theorem IsSequence.isContinuation_lead (sequence : IsSequence lead trail) :
    isContinuation lead = false :=
  isContinuation_of_announced (by rw [sequence.length]; exact Nat.succ_ne_zero _)

theorem IsSequence.length_trail_le (sequence : IsSequence lead trail) : trail.length ≤ 3 := by
  have := announced_le_four lead
  rw [sequence.length] at this
  omega

theorem firstLength_append (sequence : IsSequence lead trail) (rest : List UInt8) :
    firstLength (lead :: (trail ++ rest)) = trail.length + 1 := by
  have taken : (trail ++ rest).take trail.length = trail := List.take_left
  simp only [firstLength, sequence.length, Nat.add_sub_cancel, taken]
  rw [if_pos (by simpa using sequence.trail)]

theorem firstLength_eq_iff (positive : 0 < length) :
    firstLength bytes = length ↔
      ∃ lead trail rest, bytes = lead :: (trail ++ rest) ∧ IsSequence lead trail ∧
        trail.length + 1 = length := by
  constructor
  · intro reads
    cases bytes with
    | nil =>
      simp only [firstLength] at reads
      omega
    | cons lead rest =>
      simp only [firstLength] at reads
      split at reads
      · next fits =>
        simp only [Bool.and_eq_true, decide_eq_true_eq, List.all_eq_true] at fits
        refine ⟨lead, rest.take (announced lead - 1), rest.drop (announced lead - 1), ?_,
          ⟨fits.1.symm, fits.2⟩, fits.1.trans reads⟩
        rw [List.take_append_drop]
      · omega
  · rintro ⟨lead, trail, rest, rfl, sequence, rfl⟩
    exact firstLength_append sequence rest

theorem lengthAt_le (bytes : List UInt8) (position : Nat) :
    lengthAt bytes position ≤ bytes.length - position := by
  rw [← List.length_drop]
  exact firstLength_le _

/-- Stepping back, a sequence is found at its end. -/
theorem lengthBefore_of_lengthAt {position : Nat} (positive : 0 < length)
    (reads : lengthAt bytes position = length) :
    lengthBefore bytes (position + length) = length := by
  obtain ⟨lead, trail, rest, whole, sequence, rfl⟩ := (firstLength_eq_iff positive).1 reads
  have within := lengthAt_le bytes position
  have front : (bytes.take (position + (trail.length + 1))).reverse =
      trail.reverse ++ lead :: (bytes.take position).reverse := by
    have taken : (trail ++ rest).take trail.length = trail := List.take_left
    rw [List.take_add, whole, List.take_succ_cons, taken, List.reverse_append, List.reverse_cons,
      List.append_assoc, List.singleton_append]
  -- The continuation bytes end at the lead byte, which is at most the fourth.
  have back : ((bytes.take (position + (trail.length + 1))).reverse.take 3).takeWhile
      isContinuation = trail.reverse := by
    have short := sequence.length_trail_le
    rw [front, List.take_append, List.take_of_length_le (by simpa using short),
      List.takeWhile_append_of_pos (by simpa using sequence.trail)]
    have stop := sequence.isContinuation_lead
    cases 3 - trail.reverse.length <;> simp [stop]
  have inside : ¬(decide (position + (trail.length + 1) = 0) ||
      decide (bytes.length < position + (trail.length + 1))) = true := by
    rw [Bool.or_eq_true, decide_eq_true_eq, decide_eq_true_eq]
    omega
  rw [lengthBefore, if_neg inside]
  simp only [back, List.length_reverse, Nat.min_eq_right (Nat.le_add_left (trail.length + 1) _),
    Nat.add_sub_cancel, reads, if_true]

/-- A step back is a step forward to where it began. -/
theorem lengthBefore_eq_iff (positive : 0 < length) {stop : Nat} :
    lengthBefore bytes stop = length ↔
      length ≤ stop ∧ lengthAt bytes (stop - length) = length := by
  constructor
  · intro reads
    rw [lengthBefore] at reads
    split at reads
    · omega
    · dsimp only at reads
      split at reads
      · next fits =>
        rw [reads] at fits
        exact ⟨reads ▸ Nat.min_le_left .., fits⟩
      · omega
  · rintro ⟨within, reads⟩
    have back := lengthBefore_of_lengthAt positive reads
    rwa [Nat.sub_add_cancel within] at back

theorem lengthBefore_le (bytes : List UInt8) (stop : Nat) : lengthBefore bytes stop ≤ stop := by
  by_cases none : lengthBefore bytes stop = 0
  · omega
  · exact ((lengthBefore_eq_iff (Nat.pos_of_ne_zero none)).1 rfl).1

/-- The offsets of reading on from an offset, one sequence after the other. -/
def stepsFrom (bytes : List UInt8) (position : Nat) : List Nat :=
  if lengthAt bytes position = 0 then [position]
  else position :: stepsFrom bytes (position + lengthAt bytes position)
termination_by bytes.length - position
decreasing_by
  have := lengthAt_le bytes position
  omega

/-- The offsets of reading back from an offset, one sequence after the other. -/
def stepsBefore (bytes : List UInt8) (stop : Nat) : List Nat :=
  if lengthBefore bytes stop = 0 then [stop]
  else stop :: stepsBefore bytes (stop - lengthBefore bytes stop)
termination_by stop
decreasing_by
  have := lengthBefore_le bytes stop
  omega

theorem stepsFrom_eq_cons (bytes : List UInt8) (position : Nat) :
    ∃ others, stepsFrom bytes position = position :: others := by
  rw [stepsFrom]
  split
  · exact ⟨[], rfl⟩
  · exact ⟨_, rfl⟩

theorem stepsBefore_eq_cons (bytes : List UInt8) (stop : Nat) :
    ∃ others, stepsBefore bytes stop = stop :: others := by
  rw [stepsBefore]
  split
  · exact ⟨[], rfl⟩
  · exact ⟨_, rfl⟩

/-- From where reading on ends, reading back visits the same offsets. -/
theorem stepsBefore_of_getLast?_stepsFrom {position stop : Nat}
    (ends : (stepsFrom bytes position).getLast? = some stop) :
    stepsBefore bytes stop =
      (stepsFrom bytes position).reverse ++ (stepsBefore bytes position).tail := by
  fun_induction stepsFrom bytes position with
  | case1 position =>
    obtain rfl : position = stop := Option.some.inj ends
    obtain ⟨others, eq⟩ := stepsBefore_eq_cons bytes position
    rw [eq]
    rfl
  | case2 position reads ih =>
    have positive := Nat.pos_of_ne_zero reads
    have back := lengthBefore_of_lengthAt positive rfl
    have onward : stepsBefore bytes (position + lengthAt bytes position) =
        (position + lengthAt bytes position) :: stepsBefore bytes position := by
      rw [stepsBefore, if_neg (by omega), back, Nat.add_sub_cancel]
    obtain ⟨others, eq⟩ := stepsBefore_eq_cons bytes position
    have last : (stepsFrom bytes (position + lengthAt bytes position)).getLast? = some stop := by
      obtain ⟨further, from_eq⟩ := stepsFrom_eq_cons bytes (position + lengthAt bytes position)
      rw [from_eq] at ends ⊢
      rwa [List.getLast?_cons_cons] at ends
    rw [ih last, onward, eq]
    simp

theorem isContinuation_ofNat (code : Nat) :
    isContinuation (UInt8.ofNat (code % 0x40 + 0x80)) = true := by
  rw [isContinuation_iff, UInt8.toNat_ofNat']
  omega

/-- A character is written as one sequence. -/
theorem exists_isSequence (c : Char) :
    ∃ lead trail, String.utf8EncodeChar c = lead :: trail ∧ IsSequence lead trail := by
  unfold String.utf8EncodeChar
  dsimp only
  split
  · refine ⟨_, _, rfl, ?_, List.forall_mem_nil _⟩
    rw [announced_eq, UInt8.toNat_ofNat', if_pos (by omega)]
    rfl
  · split
    · refine ⟨_, _, rfl, ?_, List.forall_mem_singleton.2 (isContinuation_ofNat _)⟩
      rw [announced_eq, UInt8.toNat_ofNat', if_neg (by omega), if_neg (by omega), if_pos (by omega)]
      rfl
    · split
      · refine ⟨_, _, rfl, ?_, List.forall_mem_cons.2 ⟨isContinuation_ofNat _,
          List.forall_mem_singleton.2 (isContinuation_ofNat _)⟩⟩
        rw [announced_eq, UInt8.toNat_ofNat', if_neg (by omega), if_neg (by omega),
          if_neg (by omega), if_pos (by omega)]
        rfl
      · refine ⟨_, _, rfl, ?_, List.forall_mem_cons.2 ⟨isContinuation_ofNat _,
          List.forall_mem_cons.2 ⟨isContinuation_ofNat _,
            List.forall_mem_singleton.2 (isContinuation_ofNat _)⟩⟩⟩
        rw [announced_eq, UInt8.toNat_ofNat', if_neg (by omega), if_neg (by omega),
          if_neg (by omega), if_neg (by omega), if_pos (by omega)]
        rfl

theorem lengthAt_append (first second : List UInt8) :
    lengthAt (first ++ second) first.length = firstLength second := by
  rw [lengthAt, List.drop_left]

theorem firstLength_encode_cons (c : Char) (rest : List Char) :
    firstLength (encode (c :: rest)) = c.utf8Size := by
  obtain ⟨lead, trail, whole, sequence⟩ := exists_isSequence c
  rw [encode_cons, whole, List.cons_append, firstLength_append sequence,
    ← String.length_utf8EncodeChar, whole, List.length_cons]

theorem length_encode (text : List Char) : (encode text).length = byteLength text := by
  induction text with
  | nil => rfl
  | cons c rest ih =>
    rw [encode_cons, List.length_append, String.length_utf8EncodeChar, ih, byteLength_cons]

/-- From a place of a text on, the steps are those of its characters. -/
theorem stepsFrom_encode_append (before rest : List Char) :
    stepsFrom (encode (before ++ rest)) (byteLength before) =
      rest.inits.map fun start => byteLength (before ++ start) := by
  have length :
      lengthAt (encode (before ++ rest)) (byteLength before) = firstLength (encode rest) := by
    rw [encode_append, ← length_encode, lengthAt_append]
  induction rest generalizing before with
  | nil =>
    rw [stepsFrom, if_pos (by rw [length]; rfl)]
    simp
  | cons c rest ih =>
    rw [firstLength_encode_cons] at length
    have onward := ih (before ++ [c]) (by rw [encode_append, ← length_encode, lengthAt_append])
    rw [stepsFrom, if_neg (by have := c.utf8Size_pos; omega), length]
    rw [List.append_assoc, List.singleton_append, byteLength_append, byteLength_cons,
      byteLength_nil, Nat.add_zero] at onward
    rw [onward]
    simp [Function.comp_def]

/-- Any sequence that is read forward is read back from its end and no other, and in a text both
ways visit the offsets of its characters. -/
theorem steps_back_and_forth (bytes : List UInt8) (text : List Char) :
    (∀ stop length, 0 < length →
      (lengthBefore bytes stop = length ↔
        length ≤ stop ∧ lengthAt bytes (stop - length) = length)) ∧
      stepsFrom (encode text) 0 = text.inits.map byteLength ∧
      (stepsFrom (encode text) 0).getLast? = some (encode text).length ∧
      stepsBefore (encode text) (encode text).length = (stepsFrom (encode text) 0).reverse := by
  have forward : stepsFrom (encode text) 0 = text.inits.map byteLength :=
    stepsFrom_encode_append [] text
  have ends : (stepsFrom (encode text) 0).getLast? = some (encode text).length := by
    have last : text.inits.getLast? = some text := by
      rw [List.getLast?_eq_getElem?, List.getElem?_eq_getElem (by simp), List.getElem_inits]
      simp
    rw [forward, List.getLast?_map, last, length_encode]
    rfl
  refine ⟨fun stop length positive => lengthBefore_eq_iff positive, forward, ends, ?_⟩
  have back := stepsBefore_of_getLast?_stepsFrom ends
  have start : stepsBefore (encode text) 0 = [0] := by
    rw [stepsBefore, if_pos (Nat.le_zero.1 (lengthBefore_le _ 0))]
  rwa [start, List.tail_cons, List.append_nil] at back

/-- A sequence between a stray continuation byte and a cut one, and a text with characters of all
lengths. -/
theorem steps_back_and_forth_mixed :
    0 < 3 ∧ (lengthBefore [0x80, 0xE4, 0xB8, 0xAD, 0xC3] 4 = 3 ↔
        3 ≤ 4 ∧ lengthAt [0x80, 0xE4, 0xB8, 0xAD, 0xC3] 1 = 3) ∧
      lengthBefore [0x80, 0xE4, 0xB8, 0xAD, 0xC3] 4 = 3 ∧
      stepsBefore (encode "aé中😀".toList) 10 = [10, 6, 3, 1, 0] := by
  obtain ⟨reads, forward, -, back⟩ :=
    steps_back_and_forth [0x80, 0xE4, 0xB8, 0xAD, 0xC3] "aé中😀".toList
  rw [forward] at back
  exact ⟨by decide, reads 4 3 (by decide), by decide, back⟩

end Phrasebook.Text.Utf8
