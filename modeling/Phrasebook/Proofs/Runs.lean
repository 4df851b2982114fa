import Phrasebook.Text.Blank

/-! The runs of gap characters in a text, each with the character that ends it. -/

set_option autoImplicit false

namespace Phrasebook.Text

/-- A character of a text with the run of gap characters right before it. -/
structure Spaced where
  run : List Char
  char : Char
  deriving Repr, DecidableEq

def Spaced.after (run : List Char) (spaced : Spaced) : Spaced :=
  { spaced with run := run ++ spaced.run }

/-- The characters other than gaps. What follows the last of them is left out. -/
def spaced (gap : Char → Bool) : List Char → List Spaced
  | [] => []
  | c :: rest =>
    if gap c then (spaced gap rest).modifyHead (.after [c]) else ⟨[], c⟩ :: spaced gap rest

/-- The runs between two consecutive characters other than gaps. -/
def innerRuns (gap : Char → Bool) (text : List Char) : List (List Char) :=
  ((spaced gap text).map Spaced.run).tail

variable {gap : Char → Bool}

theorem Spaced.after_nil : Spaced.after [] = id := rfl

theorem spaced_cons_of_gap {c : Char} (blank : gap c = true) (rest : List Char) :
    spaced gap (c :: rest) = (spaced gap rest).modifyHead (.after [c]) := by
  rw [spaced, if_pos blank]

theorem spaced_cons_of_solid {c : Char} (solid : gap c = false) (rest : List Char) :
    spaced gap (c :: rest) = ⟨[], c⟩ :: spaced gap rest := by
  rw [spaced, if_neg (by simp [solid])]

theorem map_char_modifyHead (run : List Char) (characters : List Spaced) :
    (characters.modifyHead (.after run)).map Spaced.char = characters.map Spaced.char := by
  cases characters <;> rfl

theorem map_char_spaced (gap : Char → Bool) (text : List Char) :
    (spaced gap text).map Spaced.char = text.filter fun c => !gap c := by
  induction text with
  | nil => rfl
  | cons c rest ih =>
    by_cases blank : gap c = true
    · rw [spaced_cons_of_gap blank, map_char_modifyHead, ih]
      simp [blank]
    · have solid : gap c = false := by simpa using blank
      rw [spaced_cons_of_solid solid, List.map_cons, ih]
      simp [solid]

theorem modifyHead_after (first second : List Char) (characters : List Spaced) :
    (characters.modifyHead (.after second)).modifyHead (.after first) =
      characters.modifyHead (.after (first ++ second)) := by
  cases characters with
  | nil => rfl
  | cons spaced others => simp [Spaced.after]

theorem spaced_append_of_gap {run : List Char} (blank : ∀ c ∈ run, gap c = true)
    (rest : List Char) :
    spaced gap (run ++ rest) = (spaced gap rest).modifyHead (.after run) := by
  induction run with
  | nil => rw [List.nil_append, Spaced.after_nil, List.modifyHead_id, id]
  | cons c others ih =>
    have head := blank c (List.mem_cons_self ..)
    rw [List.cons_append, spaced_cons_of_gap head,
      ih fun d member => blank d (List.mem_cons_of_mem _ member), modifyHead_after]
    rfl

theorem spaced_append_of_solid {characters : List Char} (solid : ∀ c ∈ characters, gap c = false)
    (rest : List Char) :
    spaced gap (characters ++ rest) = characters.map (Spaced.mk []) ++ spaced gap rest := by
  induction characters with
  | nil => rfl
  | cons c others ih =>
    rw [List.cons_append, spaced_cons_of_solid (solid c (List.mem_cons_self ..)),
      ih fun d member => solid d (List.mem_cons_of_mem _ member)]
    rfl

theorem spaced_eq_nil_iff {text : List Char} : spaced gap text = [] ↔ ∀ c ∈ text, gap c = true := by
  rw [← List.map_eq_nil_iff (f := Spaced.char), map_char_spaced, List.filter_eq_nil_iff]
  simp

/-- What follows the last character other than gaps does not count. -/
theorem spaced_append_of_gap_right (text : List Char) {run : List Char}
    (blank : ∀ c ∈ run, gap c = true) : spaced gap (text ++ run) = spaced gap text := by
  induction text with
  | nil => exact spaced_eq_nil_iff.2 blank
  | cons c rest ih => simp only [List.cons_append, spaced, ih]

/-- The first run is what the text starts with. -/
theorem head?_run_prefix {text : List Char} {first : Spaced}
    (head : (spaced gap text).head? = some first) : first.run <+: text := by
  induction text generalizing first with
  | nil => simp [spaced] at head
  | cons c rest ih =>
    by_cases blank : gap c = true
    · rw [spaced_cons_of_gap blank, List.head?_modifyHead, Option.map_eq_some_iff] at head
      obtain ⟨next, eq, rfl⟩ := head
      exact (List.prefix_append_right_inj [c]).2 (ih eq)
    · rw [spaced_cons_of_solid (by simpa using blank)] at head
      cases head
      exact List.nil_prefix

theorem gap_of_mem_run {text : List Char} {character : Spaced} (member : character ∈ spaced gap text) :
    ∀ c ∈ character.run, gap c = true := by
  induction text generalizing character with
  | nil => simp [spaced] at member
  | cons c rest ih =>
    by_cases blank : gap c = true
    · rw [spaced_cons_of_gap blank] at member
      -- Only the first run of the rest has grown.
      cases others : spaced gap rest with
      | nil => simp [others] at member
      | cons first tail =>
        rw [others, List.modifyHead_cons] at member
        rcases List.mem_cons.1 member with rfl | inside
        · intro d inside
          rcases List.mem_cons.1 inside with rfl | inside
          · exact blank
          · exact ih (others ▸ List.mem_cons_self ..) d inside
        · exact ih (others ▸ List.mem_cons_of_mem _ inside)
    · rw [spaced_cons_of_solid (by simpa using blank)] at member
      rcases List.mem_cons.1 member with rfl | inside
      · simp
      · exact ih inside

/-- Where the first run is not empty, the text starts with it. -/
theorem head?_of_head?_run {text : List Char} {first : Spaced}
    (head : (spaced gap text).head? = some first) {c : Char} (start : first.run.head? = some c) :
    text.head? = some c ∧ gap c = true := by
  obtain ⟨rest, whole⟩ := head?_run_prefix head
  have member : first ∈ spaced gap text := List.mem_of_mem_head? head
  refine ⟨?_, gap_of_mem_run member c (List.mem_of_mem_head? start)⟩
  rw [← whole, List.head?_append, start]
  rfl

theorem run_eq_nil_of_head? {text : List Char}
    (solid : ∀ c, text.head? = some c → gap c = false) {first : Spaced}
    (head : (spaced gap text).head? = some first) : first.run = [] := by
  cases start : first.run.head? with
  | none => exact List.head?_eq_none_iff.1 start
  | some c =>
    obtain ⟨ahead, blank⟩ := head?_of_head?_run head start
    rw [solid c ahead] at blank
    simp at blank

end Phrasebook.Text
