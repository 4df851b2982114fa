/-! Byte offsets into a text.

Positions are counted in UTF-8 bytes. An offset past the end or inside a
character is no position of the text.
-/

set_option autoImplicit false

namespace Phrasebook.Text

def byteLength : List Char → Nat
  | [] => 0
  | c :: rest => c.utf8Size + byteLength rest

@[simp] theorem byteLength_nil : byteLength [] = 0 := rfl

@[simp] theorem byteLength_cons (c : Char) (rest : List Char) :
    byteLength (c :: rest) = c.utf8Size + byteLength rest := rfl

@[simp] theorem byteLength_append (first second : List Char) :
    byteLength (first ++ second) = byteLength first + byteLength second := by
  induction first with
  | nil => simp
  | cons c rest ih => simp [ih, Nat.add_assoc]

@[simp] theorem byteLength_reverse (text : List Char) :
    byteLength text.reverse = byteLength text := by
  induction text with
  | nil => rfl
  | cons c rest ih => simp [ih, Nat.add_comm]

/-- The part of a text before and from an offset. -/
def splitAt? : List Char → Nat → Option (List Char × List Char)
  | text, 0 => some ([], text)
  | [], _ + 1 => none
  | c :: rest, offset + 1 =>
    if c.utf8Size ≤ offset + 1 then
      (splitAt? rest (offset + 1 - c.utf8Size)).map fun parts => (c :: parts.1, parts.2)
    else none

/-- An offset is a position exactly when some prefix has that many bytes. -/
theorem splitAt?_eq_some_iff {text before after : List Char} {offset : Nat} :
    splitAt? text offset = some (before, after) ↔
      text = before ++ after ∧ byteLength before = offset := by
  induction text generalizing before offset with
  | nil =>
    cases offset with
    | zero =>
      simp only [splitAt?, Option.some.injEq, Prod.mk.injEq]
      constructor
      · rintro ⟨rfl, rfl⟩
        simp
      · rintro ⟨nothing, _⟩
        have := List.append_eq_nil_iff.1 nothing.symm
        exact ⟨this.1.symm, this.2.symm⟩
    | succ offset =>
      simp only [splitAt?, reduceCtorEq, false_iff]
      rintro ⟨nothing, length⟩
      have := List.append_eq_nil_iff.1 nothing.symm
      simp [this.1] at length
  | cons c rest ih =>
    have positive := c.utf8Size_pos
    cases offset with
    | zero =>
      simp only [splitAt?, Option.some.injEq, Prod.mk.injEq]
      constructor
      · rintro ⟨rfl, rfl⟩
        simp
      · rintro ⟨whole, length⟩
        cases before with
        | nil => simpa using whole
        | cons d others =>
          have := d.utf8Size_pos
          simp at length
          omega
    | succ offset =>
      unfold splitAt?
      split
      · next fits =>
        simp only [Option.map_eq_some_iff, Prod.exists, Prod.mk.injEq]
        constructor
        · rintro ⟨first, second, eq, rfl, rfl⟩
          obtain ⟨rfl, length⟩ := ih.1 eq
          refine ⟨rfl, ?_⟩
          simp only [byteLength_cons]
          omega
        · rintro ⟨whole, length⟩
          cases before with
          | nil => simp at length
          | cons d others =>
            simp only [List.cons_append, List.cons.injEq] at whole
            obtain ⟨rfl, rfl⟩ := whole
            simp only [byteLength_cons] at length
            exact ⟨others, after, ih.2 ⟨rfl, by omega⟩, rfl, rfl⟩
      · next large =>
        simp only [reduceCtorEq, false_iff]
        rintro ⟨whole, length⟩
        cases before with
        | nil => simp at length
        | cons d others =>
          simp only [List.cons_append, List.cons.injEq] at whole
          obtain ⟨rfl, rfl⟩ := whole
          simp only [byteLength_cons] at length
          omega

def suffixAt? (text : List Char) (offset : Nat) : Option (List Char) :=
  (splitAt? text offset).map (·.2)

theorem suffixAt?_append (before rest : List Char) :
    suffixAt? (before ++ rest) (byteLength before) = some rest := by
  rw [suffixAt?, splitAt?_eq_some_iff.2 ⟨rfl, rfl⟩]
  rfl

theorem exists_of_suffixAt? {text rest : List Char} {offset : Nat}
    (position : suffixAt? text offset = some rest) :
    ∃ before, text = before ++ rest ∧ byteLength before = offset := by
  obtain ⟨⟨before, after⟩, split, rfl⟩ := Option.map_eq_some_iff.1 position
  exact ⟨before, splitAt?_eq_some_iff.1 split⟩

end Phrasebook.Text
