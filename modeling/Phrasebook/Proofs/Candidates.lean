import Mathlib.Data.List.TakeWhile
import Phrasebook.Matching

/-! The texts that a slot tries are prefixes of the text ahead of it. -/

set_option autoImplicit false

namespace Phrasebook

namespace Orthography

variable {o : Orthography}

theorem trimEnd_prefix (o : Orthography) (text : List Char) : o.trimEnd text <+: text := by
  have suffix := List.dropWhile_suffix (l := text.reverse) o.isSeparator
  simpa [trimEnd] using List.reverse_prefix.2 suffix

/-- Trimming drops separators only. -/
theorem exists_trimEnd_append (o : Orthography) (text : List Char) :
    ∃ dropped, o.trimEnd text ++ dropped = text ∧ ∀ c ∈ dropped, o.isSeparator c = true := by
  refine ⟨(text.reverse.takeWhile o.isSeparator).reverse, Text.append_dropped _ text, ?_⟩
  intro c member
  exact List.mem_takeWhile_imp (List.mem_reverse.1 member)

theorem dropWord_prefix (o : Orthography) (text : List Char) : o.dropWord text <+: text := by
  have suffix : (if o.hasWordSpacing then
      (o.trimEnd text).reverse.dropWhile fun c => !o.isSpace c
      else (o.trimEnd text).reverse.drop 1) <:+ (o.trimEnd text).reverse := by
    split
    · exact List.dropWhile_suffix _
    · exact List.drop_suffix ..
  have kept := List.reverse_prefix.2 suffix
  rw [List.reverse_reverse] at kept
  exact kept.trans (o.trimEnd_prefix text)

theorem dropLastWord_prefix (o : Orthography) (text : List Char) :
    o.dropLastWord text <+: text :=
  (o.trimEnd_prefix _).trans (o.dropWord_prefix text)

theorem prefix_of_mem_grown {limit : Nat} {text taken : List Char}
    (member : taken ∈ o.grown limit text) : taken <+: text := by
  induction limit generalizing text taken with
  | zero => simp [grown] at member
  | succ limit ih =>
    unfold grown at member
    split at member
    · simp at member
    · next next found =>
      -- Longer candidates begin with the word and go on in the text after it.
      have whole := append_of_nextWord? found
      rcases List.mem_cons.1 member with rfl | longer
      · exact ⟨next.rest, whole⟩
      · obtain ⟨further, inside, rfl⟩ := List.mem_map.1 longer
        rw [← whole]
        exact (List.prefix_append_right_inj _).2 (ih inside)

theorem prefix_of_mem_shrunk {text taken : List Char} (member : taken ∈ o.shrunk text) :
    taken <+: text := by
  fun_induction o.shrunk text with
  | case1 => simp at member
  | case2 text _ ih =>
    rcases List.mem_cons.1 member with rfl | inside
    · exact List.prefix_refl _
    · split at inside
      · next shorter => exact (ih shorter inside).trans (o.dropLastWord_prefix text)
      · simp at inside

end Orthography

theorem Matcher.prefix_of_mem_candidates {m : Matcher} {entity : Entity} {text taken : List Char}
    (member : taken ∈ m.candidates entity text) : taken <+: text := by
  unfold candidates at member
  split at member
  · exact Orthography.prefix_of_mem_grown member
  · exact (Orthography.prefix_of_mem_shrunk member).trans (m.orthography.trimEnd_prefix text)

end Phrasebook
