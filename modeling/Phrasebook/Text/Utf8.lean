/-! Stepping through a byte buffer character by character.

A step is found without decoding: the lead byte gives the length of the
sequence, and the bytes after it must be continuation bytes. A malformed or
truncated sequence has length zero.
-/

set_option autoImplicit false

namespace Phrasebook.Text.Utf8

def isContinuation (byte : UInt8) : Bool := 0x80 ≤ byte && byte ≤ 0xBF

/-- Sequence length announced by a lead byte, zero for other bytes. -/
def announced (lead : UInt8) : Nat :=
  if lead ≤ 0x7F then 1
  else if 0xC0 ≤ lead && lead ≤ 0xDF then 2
  else if 0xE0 ≤ lead && lead ≤ 0xEF then 3
  else if 0xF0 ≤ lead && lead ≤ 0xF7 then 4
  else 0

/-- Length of the sequence that a buffer starts with. -/
def firstLength : List UInt8 → Nat
  | [] => 0
  | lead :: rest =>
    let length := announced lead
    let trail := rest.take (length - 1)
    if trail.length + 1 = length && trail.all isContinuation then length else 0

/-- Length of the sequence that starts at a position. -/
def lengthAt (bytes : List UInt8) (position : Nat) : Nat := firstLength (bytes.drop position)

/-- Length of the sequence that ends at a position: step back over at most
three continuation bytes, then read forward. -/
def lengthBefore (bytes : List UInt8) (stop : Nat) : Nat :=
  if stop = 0 || bytes.length < stop then 0
  else
    let trail := ((bytes.take stop).reverse.take 3).takeWhile isContinuation
    let length := min stop (trail.length + 1)
    if lengthAt bytes (stop - length) = length then length else 0

/-- The sequence at a position in a buffer of four bytes, filled up with zeros. -/
def sequenceAt (bytes : List UInt8) (position : Nat) : List UInt8 :=
  let sequence := (bytes.drop position).take (lengthAt bytes position)
  sequence ++ List.replicate (4 - sequence.length) 0

def countNonZero (buffer : List UInt8) : Nat := buffer.countP (· != 0)

def encode (text : List Char) : List UInt8 := text.flatMap String.utf8EncodeChar

/-- A sequence that is being read: the bits so far, the continuation bytes that
are missing, and the range of the next one. -/
structure Unfinished where
  code : Nat
  missing : Nat
  least : UInt8
  greatest : UInt8
  deriving Repr

/-- The sequence that a lead byte starts. Overlong sequences, surrogates and
codes beyond the last are excluded by the range of the second byte. -/
def Unfinished.ofLead? (lead : UInt8) : Option Unfinished :=
  let bits := lead.toNat
  if 0xC2 ≤ lead && lead ≤ 0xDF then some ⟨bits - 0xC0, 1, 0x80, 0xBF⟩
  else if lead = 0xE0 then some ⟨0, 2, 0xA0, 0xBF⟩
  else if lead = 0xED then some ⟨0xD, 2, 0x80, 0x9F⟩
  else if 0xE1 ≤ lead && lead ≤ 0xEF then some ⟨bits - 0xE0, 2, 0x80, 0xBF⟩
  else if lead = 0xF0 then some ⟨0, 3, 0x90, 0xBF⟩
  else if 0xF1 ≤ lead && lead ≤ 0xF3 then some ⟨bits - 0xF0, 3, 0x80, 0xBF⟩
  else if lead = 0xF4 then some ⟨4, 3, 0x80, 0x8F⟩
  else none

/-- What a byte at the start of a sequence gives, and the sequence it starts. -/
def startSequence (byte : UInt8) : List (Option Char) × Option Unfinished :=
  if byte ≤ 0x7F then ([some (Char.ofNat byte.toNat)], none)
  else
    match Unfinished.ofLead? byte with
    | some sequence => ([], some sequence)
    | none => ([none], none)

/-- What the next byte gives, and the sequence that is being read after it. A
byte that does not go on starts over. -/
def decodeByte (pending : Option Unfinished) (byte : UInt8) :
    List (Option Char) × Option Unfinished :=
  match pending with
  | none => startSequence byte
  | some sequence =>
    if sequence.least ≤ byte && byte ≤ sequence.greatest then
      let code := 64 * sequence.code + (byte.toNat - 0x80)
      if sequence.missing ≤ 1 then ([some (Char.ofNat code)], none)
      else ([], some ⟨code, sequence.missing - 1, 0x80, 0xBF⟩)
    else
      let (given, next) := startSequence byte
      (none :: given, next)

def decodeFrom (pending : Option Unfinished) : List UInt8 → List (Option Char)
  | [] => if pending.isSome then [none] else []
  | byte :: rest =>
    let (given, next) := decodeByte pending byte
    given ++ decodeFrom next rest

/-- The characters of a byte buffer, with nothing for each part that is no character. -/
def decode (bytes : List UInt8) : List (Option Char) := decodeFrom none bytes

def decode? (bytes : List UInt8) : Option (List Char) := (decode bytes).mapM id

/-- A text without the byte order mark at its front. -/
def withoutMark : List Char → List Char
  | '\uFEFF' :: rest => rest
  | text => text

theorem encode_cons (c : Char) (rest : List Char) :
    encode (c :: rest) = String.utf8EncodeChar c ++ encode rest := rfl

@[simp] theorem encode_append (first second : List Char) :
    encode (first ++ second) = encode first ++ encode second := by
  simp [encode]

theorem announced_le_four (lead : UInt8) : announced lead ≤ 4 := by
  unfold announced
  repeat' split
  all_goals omega

theorem firstLength_le (bytes : List UInt8) : firstLength bytes ≤ bytes.length := by
  cases bytes with
  | nil => simp [firstLength]
  | cons lead rest =>
    simp only [firstLength]
    split
    · next fits =>
      simp only [Bool.and_eq_true, decide_eq_true_eq, List.length_take] at fits
      simp only [List.length_cons]
      omega
    · simp

end Phrasebook.Text.Utf8
