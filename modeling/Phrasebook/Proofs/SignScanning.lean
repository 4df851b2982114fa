import Mathlib.Data.List.TakeWhile
import Phrasebook.Orthography
import Phrasebook.Proofs.ByteSteps
import Phrasebook.Proofs.TrieSearch

/-! Skipping over the signs of a language.

A skip from a place of a text goes over the longest run of signs of one class, and from an offset
that is no place it does not move. Signs can be told apart by their bytes alone: a trie of the
bytes of all signs, searched at any offset, answers what the tables say of the character there,
so that scanning the bytes of a text with it skips the same.
-/

set_option autoImplicit false

namespace Phrasebook

open Text Text.Utf8

namespace Text

variable {text rest : List Char} {c : Char} {offset : Nat}

theorem Utf8.drop_encode_of_suffixAt? (position : suffixAt? text offset = some rest) :
    (encode text).drop offset = encode rest := by
  obtain ⟨before, rfl, rfl⟩ := exists_of_suffixAt? position
  rw [encode_append, ← length_encode, List.drop_left]

/-- Inside a character there are continuation bytes. -/
theorem Utf8.isContinuation_of_suffixAt?_eq_none (inside : suffixAt? text offset = none) :
    ∀ byte ∈ ((encode text).drop offset).head?, isContinuation byte = true := by
  induction text generalizing offset with
  | nil => simp [encode]
  | cons c rest ih =>
    cases offset with
    | zero => cases inside
    | succ offset =>
      rw [suffixAt?, Option.map_eq_none_iff, splitAt?] at inside
      split at inside
      · next fits =>
        rw [Option.map_eq_none_iff] at inside
        have beyond : suffixAt? rest (offset + 1 - c.utf8Size) = none :=
          Option.map_eq_none_iff.2 inside
        have onward := ih beyond
        rw [← String.length_utf8EncodeChar] at fits onward
        rwa [encode_cons, List.drop_append, List.drop_eq_nil_of_le fits, List.nil_append]
      · next within =>
        obtain ⟨lead, trail, written, sequence⟩ := exists_isSequence c
        rw [← String.length_utf8EncodeChar, written, List.length_cons] at within
        have less : offset < trail.length := by omega
        rw [encode_cons, written, List.cons_append, List.drop_succ_cons,
          List.drop_append_of_le_length (Nat.le_of_lt less), List.drop_eq_getElem_cons less]
        intro byte first
        cases first
        exact sequence.trail _ (List.getElem_mem less)

/-- No character is written like the start of another one. -/
theorem Utf8.eq_of_utf8EncodeChar_append {c d : Char} {first second : List UInt8}
    (same : String.utf8EncodeChar c ++ first = String.utf8EncodeChar d ++ second) : c = d := by
  have decoded := congrArg (fun bytes => bytes.toByteArray.utf8DecodeChar? 0) same
  simpa only [List.toByteArray_append, ByteArray.utf8DecodeChar?_utf8EncodeChar_append,
    Option.some.injEq] using decoded

/-- The bytes of a character stand only where the character does. -/
theorem Utf8.prefix_drop_encode_iff :
    String.utf8EncodeChar c <+: (encode text).drop offset ↔
      ∃ rest, suffixAt? text offset = some (c :: rest) := by
  constructor
  · rintro ⟨further, whole⟩
    cases position : suffixAt? text offset with
    | none =>
      obtain ⟨lead, trail, written, sequence⟩ := exists_isSequence c
      have first := isContinuation_of_suffixAt?_eq_none position lead
        (by rw [← whole, written]; rfl)
      rw [sequence.isContinuation_lead] at first
      cases first
    | some ahead =>
      rw [drop_encode_of_suffixAt? position] at whole
      cases ahead with
      | nil => exact absurd (List.append_eq_nil_iff.1 whole).1 String.utf8EncodeChar_ne_nil
      | cons d rest =>
        rw [eq_of_utf8EncodeChar_append whole]
        exact ⟨rest, rfl⟩
  · rintro ⟨rest, position⟩
    rw [drop_encode_of_suffixAt? position, encode_cons]
    exact List.prefix_append ..

end Text

/-- Only the keys of items have something stored. -/
theorem Trie.exists_of_afterItems {κ α ι : Type} [DecidableEq κ] {create : ι → α}
    {update : α → ι → α} {entries : List (List κ × ι)} {key : List κ}
    (stored : afterItems create update entries key ≠ none) : ∃ entry ∈ entries, key = entry.1 := by
  induction entries using List.reverseRecOn with
  | nil => exact absurd rfl stored
  | append_singleton others entry ih =>
    rw [afterItems, List.foldl_append, List.foldl_cons, List.foldl_nil, afterItem] at stored
    split at stored
    · next own => exact ⟨entry, by simp, own.1⟩
    · obtain ⟨other, member, same⟩ := ih stored
      exact ⟨other, List.mem_append_left _ member, same⟩

/-- All classes that either has. -/
def CharClasses.join (first second : CharClasses) : CharClasses where
  whitespace := first.whitespace || second.whitespace
  punctuation := first.punctuation || second.punctuation
  sentenceEnd := first.sentenceEnd || second.sentenceEnd

namespace Orthography

/-- The signs of a language, each with the classes of the table that it stands in. -/
def signs (o : Orthography) (punctuation : List Char) : List (Char × CharClasses) :=
  o.whitespace.map (·, ⟨true, false, false⟩) ++ punctuation.map (·, ⟨false, true, false⟩) ++
    o.sentenceEnds.map (·, ⟨false, true, true⟩)

/-- The signs by their bytes. A sign of several tables has the classes of all. -/
def signTrie (o : Orthography) (punctuation : List Char) : Trie UInt8 CharClasses :=
  .ofListWith id CharClasses.join
    ((o.signs punctuation).map fun sign => (String.utf8EncodeChar sign.1, sign.2))

/-- The offset after the signs from an offset on whose classes pass: as long as the trie has one
there, go on after it. -/
def scanSigns (trie : Trie UInt8 CharClasses) (passes : CharClasses → Bool) (bytes : List UInt8)
    (offset : Nat) : Nat :=
  if offset < bytes.length then
    match trie.find? bytes offset 1 with
    | some found =>
      if passes found.value = true ∧ 0 < found.length then
        scanSigns trie passes bytes (offset + found.length)
      else offset
    | none => offset
  else offset
termination_by bytes.length - offset

/-- What is known of a character after a sign. -/
def addSign (c : Char) (known : Option CharClasses) (sign : Char × CharClasses) :
    Option CharClasses :=
  if sign.1 = c then some (known.elim sign.2 (·.join sign.2)) else known

variable {o : Orthography} {punctuation : List Char}

theorem afterItem_utf8EncodeChar (stored : List UInt8 → Option CharClasses)
    (sign : Char × CharClasses) (c : Char) :
    Trie.afterItem id CharClasses.join (String.utf8EncodeChar sign.1) sign.2 stored
        (String.utf8EncodeChar c) =
      addSign c (stored (String.utf8EncodeChar c)) sign := by
  rw [Trie.afterItem, addSign]
  by_cases same : sign.1 = c
  · rw [if_pos ⟨by rw [same], String.utf8EncodeChar_ne_nil⟩, if_pos same, same]
    cases stored (String.utf8EncodeChar c) <;> rfl
  · rw [if_neg, if_neg same]
    rintro ⟨written, -⟩
    exact same (eq_of_utf8EncodeChar_append (congrArg (· ++ []) written)).symm

theorem foldl_afterItem (signs : List (Char × CharClasses))
    (stored : List UInt8 → Option CharClasses) (c : Char) :
    ((signs.map fun sign => (String.utf8EncodeChar sign.1, sign.2)).foldl
        (fun stored entry => Trie.afterItem id CharClasses.join entry.1 entry.2 stored) stored)
        (String.utf8EncodeChar c) =
      signs.foldl (addSign c) (stored (String.utf8EncodeChar c)) := by
  induction signs generalizing stored with
  | nil => rfl
  | cons sign others ih =>
    rw [List.map_cons, List.foldl_cons, ih, afterItem_utf8EncodeChar, List.foldl_cons]

/-- A table adds its classes once, however often it has the character. -/
theorem foldl_addSign (table : List Char) (classes : CharClasses) (c : Char)
    (known : Option CharClasses) :
    (table.map (·, classes)).foldl (addSign c) known =
      if c ∈ table then some (known.elim classes (·.join classes)) else known := by
  induction table generalizing known with
  | nil => rfl
  | cons d table ih =>
    rw [List.map_cons, List.foldl_cons, ih, addSign]
    by_cases same : d = c
    · have again : (known.elim classes (·.join classes)).join classes =
          known.elim classes (·.join classes) := by
        cases known <;> simp [CharClasses.join]
      simp [same, again]
    · simp [same, Ne.symm same]

theorem built_signTrie (o : Orthography) (punctuation : List Char) :
    Trie.Built (o.signTrie punctuation) (Trie.afterItems id CharClasses.join
      ((o.signs punctuation).map fun sign => (String.utf8EncodeChar sign.1, sign.2))) :=
  .ofListWith ..

/-- A sign is stored with the classes that the tables give it. -/
theorem get?_signTrie (o : Orthography) (punctuation : List Char) (c : Char) :
    (o.signTrie punctuation).get? (String.utf8EncodeChar c) = o.classify punctuation c := by
  refine (congrFun (built_signTrie o punctuation).get?_eq _).trans ?_
  rw [Trie.afterItems, foldl_afterItem, signs, List.foldl_append, List.foldl_append, foldl_addSign,
    foldl_addSign, foldl_addSign]
  by_cases space : c ∈ o.whitespace <;> by_cases sign : c ∈ punctuation <;>
    by_cases stop : c ∈ o.sentenceEnds <;>
    simp [classify, isWhitespace, isSentenceEnd, CharClasses.join, space, sign, stop]

/-- Nothing but signs is stored. -/
theorem exists_of_get?_signTrie {key : List UInt8}
    (stored : (o.signTrie punctuation).get? key ≠ none) : ∃ c, key = String.utf8EncodeChar c := by
  rw [congrFun (built_signTrie o punctuation).get?_eq key] at stored
  obtain ⟨entry, member, same⟩ := Trie.exists_of_afterItems stored
  obtain ⟨sign, -, rfl⟩ := List.mem_map.1 member
  exact ⟨sign.1, same⟩

theorem classAt_of_suffixAt? {classes : Char → Option CharClasses} {text rest : List Char}
    {c : Char} {offset : Nat} (position : suffixAt? text offset = some (c :: rest)) :
    classAt classes text offset = (classes c).map fun found => (found, c.utf8Size) := by
  rw [classAt, position]

/-- Searched at an offset, the trie has what the tables say of the character there. -/
theorem find?_signTrie (o : Orthography) (punctuation text : List Char) (offset : Nat) :
    ((o.signTrie punctuation).find? (encode text) offset 1).map
        (fun found => (found.value, found.length)) =
      classAt (o.classify punctuation) text offset := by
  cases search : (o.signTrie punctuation).find? (encode text) offset 1 with
  | some found =>
    have first := Trie.isFirst_of_find? search
    obtain ⟨key, front, length, stored⟩ := first.occurs
    have start : found.start = offset := by
      have least := first.least
      have inside := first.inWindow
      omega
    change (o.signTrie punctuation).get? key = some found.value at stored
    obtain ⟨c, rfl⟩ := exists_of_get?_signTrie (stored ▸ Option.some_ne_none _)
    rw [start] at front
    obtain ⟨rest, position⟩ := prefix_drop_encode_iff.1 front
    rw [get?_signTrie] at stored
    rw [String.length_utf8EncodeChar] at length
    rw [classAt_of_suffixAt? position, stored, length]
    rfl
  | none =>
    cases position : suffixAt? text offset with
    | none => rw [classAt, position]; rfl
    | some ahead =>
      cases ahead with
      | nil => rw [classAt, position]; rfl
      | cons c rest =>
        -- A character with classes would be stored, and found where it stands.
        have front := prefix_drop_encode_iff.2 ⟨rest, position⟩
        have inside : offset < (encode text).length := by
          rw [← List.drop_eq_nil_iff.not.trans Nat.not_le]
          intro nothing
          rw [nothing, List.prefix_nil] at front
          exact String.utf8EncodeChar_ne_nil front
        have missing := Trie.startsAt_eq_nil_iff.1
          (Trie.find?_eq_none_iff.1 search offset (Nat.le_refl _) (by omega))
        have unclassed : o.classify punctuation c = none := by
          rw [← get?_signTrie]
          exact Classical.not_not.1 fun stored => missing _ stored front
        rw [classAt_of_suffixAt? position, unclassed]
        rfl

/-- A skip goes over the character at the offset, if its classes pass, and on from there. -/
theorem skipAt_eq (classes : Char → Option CharClasses) (passes : CharClasses → Bool)
    (text : List Char) (offset : Nat) :
    skipAt (fun c => (classes c).any passes) text offset =
      match classAt classes text offset with
      | some found =>
        if passes found.1 = true ∧ 0 < found.2 then
          skipAt (fun c => (classes c).any passes) text (offset + found.2)
        else offset
      | none => offset := by
  cases position : suffixAt? text offset with
  | none => simp only [skipAt, classAt, position]
  | some ahead =>
    cases ahead with
    | nil => simp [skipAt, classAt, position]
    | cons c rest =>
      obtain ⟨before, rfl, rfl⟩ := exists_of_suffixAt? position
      have onward :
          suffixAt? (before ++ c :: rest) (byteLength before + c.utf8Size) = some rest := by
        have next := suffixAt?_append (before ++ [c]) rest
        rwa [List.append_assoc, List.singleton_append, byteLength_append, byteLength_cons,
          byteLength_nil, Nat.add_zero] at next
      rw [classAt_of_suffixAt? position]
      cases known : classes c with
      | none => simp [skipAt, position, known]
      | some found =>
        by_cases passing : passes found = true <;>
          simp [skipAt, position, onward, known, passing, c.utf8Size_pos, Nat.add_assoc]

/-- Scanning the bytes of a text for signs skips what the tables say. -/
theorem scanSigns_signTrie (o : Orthography) (punctuation text : List Char)
    (passes : CharClasses → Bool) (offset : Nat) :
    scanSigns (o.signTrie punctuation) passes (encode text) offset =
      skipAt (fun c => (o.classify punctuation c).any passes) text offset := by
  fun_induction scanSigns (o.signTrie punctuation) passes (encode text) offset with
  | case1 offset inside found search passing ih =>
    rw [ih, skipAt_eq _ _ _ offset, ← find?_signTrie, search]
    exact (if_pos passing).symm
  | case2 offset inside found search stopped =>
    rw [skipAt_eq, ← find?_signTrie, search]
    exact (if_neg stopped).symm
  | case3 offset inside search => rw [skipAt_eq, ← find?_signTrie, search]; rfl
  | case4 offset outside =>
    have search : (o.signTrie punctuation).find? (encode text) offset 1 = none :=
      Trie.find?_eq_none_iff.2 fun start least less => by omega
    rw [skipAt_eq, ← find?_signTrie, search]
    rfl

/-- What a skip over the signs of a class does at any offset of a text. -/
structure IsSkip (text : List Char) (skipped : Char → Prop) (skip : Nat → Nat) : Prop where
  outside : ∀ offset, byteLength text ≤ offset → skip offset = offset
  /-- An offset inside a character stays. -/
  inside : ∀ offset, (∀ before rest, text = before ++ rest → byteLength before ≠ offset) →
    skip offset = offset
  /-- From a place on, the longest run of the class is skipped. -/
  longest : ∀ before rest, text = before ++ rest →
    ∃ run after, rest = run ++ after ∧ skip (byteLength before) = byteLength (before ++ run) ∧
      (∀ c ∈ run, skipped c) ∧ ∀ c, after.head? = some c → ¬skipped c
  again : ∀ offset, skip (skip offset) = skip offset

theorem skipAt_append (skipped : Char → Bool) (before rest : List Char) :
    skipAt skipped (before ++ rest) (byteLength before) =
      byteLength (before ++ rest.takeWhile skipped) := by
  rw [skipAt, suffixAt?_append, byteLength_append]

theorem isSkip_skipAt {skipped : Char → Bool} {isSkipped : Char → Prop} (text : List Char)
    (spec : ∀ c, skipped c = true ↔ isSkipped c) : IsSkip text isSkipped (skipAt skipped text) where
  outside := by
    intro offset beyond
    cases position : suffixAt? text offset with
    | none => rw [skipAt, position]
    | some rest =>
      obtain ⟨before, rfl, rfl⟩ := exists_of_suffixAt? position
      cases rest with
      | nil => rw [skipAt_append, List.takeWhile_nil, List.append_nil]
      | cons c rest =>
        have := c.utf8Size_pos
        rw [byteLength_append, byteLength_cons] at beyond
        omega
  inside := by
    intro offset nowhere
    have position : suffixAt? text offset = none := by
      rw [Option.eq_none_iff_forall_ne_some]
      intro rest position
      obtain ⟨before, whole, length⟩ := exists_of_suffixAt? position
      exact nowhere before rest whole length
    rw [skipAt, position]
  longest := by
    rintro before rest rfl
    refine ⟨rest.takeWhile skipped, rest.dropWhile skipped, List.takeWhile_append_dropWhile.symm,
      skipAt_append .., fun c member => (spec c).1 (List.mem_takeWhile_imp member), ?_⟩
    intro c first
    have stopped := List.head?_dropWhile_not skipped rest
    rw [first] at stopped
    rw [← spec c]
    simpa using stopped
  again := by
    intro offset
    cases position : suffixAt? text offset with
    | none =>
      have stays : skipAt skipped text offset = offset := by rw [skipAt, position]
      rw [stays, stays]
    | some rest =>
      obtain ⟨before, rfl, rfl⟩ := exists_of_suffixAt? position
      have settled := skipAt_append skipped (before ++ rest.takeWhile skipped)
        (rest.dropWhile skipped)
      rw [List.append_assoc, List.takeWhile_append_dropWhile] at settled
      have ends : (rest.dropWhile skipped).takeWhile skipped = [] := by
        cases left : rest.dropWhile skipped with
        | nil => rfl
        | cons c others =>
          have stopped := List.head?_dropWhile_not skipped rest
          rw [left] at stopped
          exact List.takeWhile_cons_of_neg (by simpa using stopped)
      rw [skipAt_append, settled, ends, List.append_nil]

/-- Skips take the longest run of their class from any place of a text and none from other offsets,
and scanning the bytes of the text with the trie of all signs skips the same. -/
theorem skips_longest_runs (o : Orthography) (text : List Char) :
    IsSkip text (fun c => (c ∈ o.inputPunctuation ∨ c ∈ o.sentenceEnds) ∧ c ∉ o.whitespace)
        (o.skipInputPunctuation text) ∧
      IsSkip text (fun c => c ∈ o.whitespace ∨ c ∈ o.inputPunctuation ∨ c ∈ o.sentenceEnds)
        (o.skipInputSeparators text) ∧
      IsSkip text (fun c => (c ∈ o.patternPunctuation ∨ c ∈ o.sentenceEnds) ∧ c ∉ o.whitespace)
        (o.skipPatternPunctuation text) ∧
      ∀ offset,
        o.skipInputPunctuation text offset =
            scanSigns (o.signTrie o.inputPunctuation) CharClasses.isSkippable (encode text) offset ∧
          o.skipInputSeparators text offset =
            scanSigns (o.signTrie o.inputPunctuation) (fun _ => true) (encode text) offset ∧
          o.skipPatternPunctuation text offset =
            scanSigns (o.signTrie o.patternPunctuation) CharClasses.isSkippable (encode text)
              offset := by
  refine ⟨isSkip_skipAt text o.isInputPunctuation_iff, isSkip_skipAt text o.isSeparator_iff,
    isSkip_skipAt text o.isPatternPunctuation_iff, fun offset => ⟨?_, ?_, ?_⟩⟩
  · exact (scanSigns_signTrie ..).symm
  · -- Separators are the signs that have any classes.
    exact (scanSigns_signTrie o o.inputPunctuation text (fun _ => true) offset).symm
  · exact (scanSigns_signTrie ..).symm

example : (ofLanguage .japanese).skipInputPunctuation "、。あ".toList 0 = 6 ∧
    (ofLanguage .japanese).skipInputPunctuation "、。あ".toList 1 = 1 := by
  decide

end Orthography

end Phrasebook
