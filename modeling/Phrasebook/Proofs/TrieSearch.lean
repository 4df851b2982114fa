import Phrasebook.Proofs.Vocabulary
import Phrasebook.Text.Utf8

/-! Searching a trie.

Tries are built by storing items one after another, and what each key has stored is known
from the items alone. A search finds the earliest place of a window where a stored key starts,
and there the longest one.
-/

set_option autoImplicit false

namespace Phrasebook.Trie

variable {κ α : Type} [DecidableEq κ]

/-- What keys have stored after an item for one of them. An empty key stores nothing. -/
def afterItem {ι : Type} (create : ι → α) (update : α → ι → α) (key : List κ) (item : ι)
    (stored : List κ → Option α) (query : List κ) : Option α :=
  if query = key ∧ key ≠ [] then
    match stored key with
    | none => some (create item)
    | some value => some (update value item)
  else stored query

/-- What keys have stored after items for some of them, with nothing stored before. -/
def afterItems {ι : Type} (create : ι → α) (update : α → ι → α) (entries : List (List κ × ι)) :
    List κ → Option α :=
  entries.foldl (fun stored entry => afterItem create update entry.1 entry.2 stored) fun _ => none

/-- The tries that can be built, with what each key has stored. -/
inductive Built : Trie κ α → (List κ → Option α) → Prop where
  | empty : Built empty fun _ => none
  | insert {trie : Trie κ α} {stored : List κ → Option α} (key : List κ) (value : α) :
      Built trie stored →
      Built (trie.insert key value) (afterItem id (fun _ item => item) key value stored)
  | merge {trie : Trie κ α} {stored : List κ → Option α} {ι : Type} (create : ι → α)
      (update : α → ι → α) (key : List κ) (item : ι) : Built trie stored →
      Built (trie.merge create update key item) (afterItem create update key item stored)
  | ofListWith {ι : Type} (create : ι → α) (update : α → ι → α) (entries : List (List κ × ι)) :
      Built (ofListWith create update entries) (afterItems create update entries)
  | ofList (entries : List (List κ × α)) :
      Built (ofList entries) (afterItems id (fun _ item => item) entries)

theorem get?_merge {ι : Type} (create : ι → α) (update : α → ι → α) (key : List κ) (item : ι)
    (trie : Trie κ α) :
    (trie.merge create update key item).get? = afterItem create update key item trie.get? := by
  funext query
  rw [merge, get?_alter, afterItem]
  cases trie.get? key <;> rfl

theorem get?_foldl_merge {ι : Type} (create : ι → α) (update : α → ι → α)
    (entries : List (List κ × ι)) (trie : Trie κ α) :
    (entries.foldl (fun trie entry => trie.merge create update entry.1 entry.2) trie).get? =
      entries.foldl (fun stored entry => afterItem create update entry.1 entry.2 stored)
        trie.get? := by
  induction entries generalizing trie with
  | nil => rfl
  | cons entry others ih => rw [List.foldl_cons, ih, get?_merge, List.foldl_cons]

/-- A trie holds what its keys have stored. -/
theorem Built.get?_eq {trie : Trie κ α} {stored : List κ → Option α} (built : Built trie stored) :
    trie.get? = stored := by
  induction built with
  | empty => rfl
  | insert key value _ ih =>
    rw [← ih]
    exact get?_merge ..
  | merge create update key item _ ih => rw [get?_merge, ih]
  | ofListWith create update entries => exact get?_foldl_merge create update entries _
  | ofList entries => exact get?_foldl_merge id (fun _ item => item) entries _

/-- A stored key stands where an occurrence says, with its value. -/
def Occurs (stored : List κ → Option α) (input : List κ) (occurrence : Occurrence α) : Prop :=
  ∃ key, key <+: input.drop occurrence.start ∧ key.length = occurrence.length ∧
    stored key = some occurrence.value

section

variable {trie : Trie κ α} {input : List κ} {position : Nat} {occurrence : Occurrence α}

omit [DecidableEq κ] in
theorem Occurs.unique {stored : List κ → Option α} {other : Occurrence α}
    (one : Occurs stored input occurrence) (two : Occurs stored input other)
    (start : occurrence.start = other.start) (length : occurrence.length = other.length) :
    occurrence = other := by
  obtain ⟨key, front, size, value⟩ := one
  obtain ⟨again, other_front, other_size, other_value⟩ := two
  have same : key = again := by
    rw [List.prefix_iff_eq_take.1 front, List.prefix_iff_eq_take.1 other_front, start, size, length,
      other_size]
  rw [same, other_value] at value
  obtain ⟨_, _, _⟩ := occurrence
  obtain ⟨_, _, _⟩ := other
  simp_all

theorem mem_startsAt_iff :
    occurrence ∈ trie.startsAt input position ↔
      occurrence.start = position ∧ Occurs trie.get? input occurrence := by
  obtain ⟨start, length, value⟩ := occurrence
  simp only [startsAt, List.mem_map, Prod.exists, mem_starts_iff, Occurrence.mk.injEq]
  constructor
  · rintro ⟨_, _, ⟨bound, found⟩, rfl, rfl, rfl⟩
    exact ⟨rfl, _, List.take_prefix .., List.length_take_of_le bound, found⟩
  · rintro ⟨rfl, key, front, rfl, found⟩
    have taken := List.prefix_iff_eq_take.1 front
    exact ⟨_, _, ⟨front.length_le, taken ▸ found⟩, rfl, rfl, rfl⟩

theorem pairwise_startsAt (trie : Trie κ α) (input : List κ) (position : Nat) :
    (trie.startsAt input position).Pairwise fun first second => first.length < second.length :=
  (trie.pairwise_starts _).map _ fun _ _ shorter => shorter

/-- The last of the occurrences at a place is the longest. -/
theorem length_le_of_mem_getLast?_startsAt {found : Occurrence α}
    (last : (trie.startsAt input position).getLast? = some found)
    (member : occurrence ∈ trie.startsAt input position) : occurrence.length ≤ found.length := by
  obtain ⟨others, split⟩ := List.getLast?_eq_some_iff.1 last
  have sorted := trie.pairwise_startsAt input position
  rw [split, List.pairwise_append] at sorted
  rw [split] at member
  rcases List.mem_append.1 member with earlier | same
  · exact Nat.le_of_lt (sorted.2.2 _ earlier _ (List.mem_singleton_self _))
  · exact Nat.le_of_eq (by rw [List.mem_singleton.1 same])

theorem find?_eq (trie : Trie κ α) (input : List κ) (offset window : Nat) :
    trie.find? input offset window =
      (List.range' offset (min (offset + window) input.length - offset)).findSome? fun start =>
        (trie.startsAt input start).getLast? := by
  unfold find? startsAt longest?
  simp only [List.getLast?_map]

omit [DecidableEq κ] in
theorem mem_window_iff {offset window start : Nat} :
    start ∈ List.range' offset (min (offset + window) input.length - offset) ↔
      offset ≤ start ∧ start < min (offset + window) input.length := by
  rw [List.mem_range'_1]
  omega

theorem startsAt_eq_nil_iff :
    trie.startsAt input position = [] ↔
      ∀ key, trie.get? key ≠ none → ¬key <+: input.drop position := by
  rw [List.eq_nil_iff_forall_not_mem]
  constructor
  · intro nothing key stored front
    obtain ⟨value, found⟩ := Option.ne_none_iff_exists'.1 stored
    exact nothing ⟨position, key.length, value⟩ (mem_startsAt_iff.2 ⟨rfl, key, front, rfl, found⟩)
  · intro nothing occurrence member
    obtain ⟨rfl, key, front, -, found⟩ := mem_startsAt_iff.1 member
    exact nothing key (by simp [found]) front

theorem find?_eq_none_iff {offset window : Nat} :
    trie.find? input offset window = none ↔
      ∀ start, offset ≤ start → start < min (offset + window) input.length →
        trie.startsAt input start = [] := by
  rw [find?_eq, List.findSome?_eq_none_iff]
  simp only [mem_window_iff, List.getLast?_eq_none_iff, and_imp]

end

/-- The occurrence that starts earliest in a window, and is the longest that starts there. -/
structure IsFirst (stored : List κ → Option α) (input : List κ) (offset window : Nat)
    (found : Occurrence α) : Prop where
  occurs : Occurs stored input found
  least : offset ≤ found.start
  inWindow : found.start < min (offset + window) input.length
  earliest : ∀ other, Occurs stored input other → offset ≤ other.start → found.start ≤ other.start
  longest : ∀ other, Occurs stored input other → other.start = found.start →
    other.length ≤ found.length

omit [DecidableEq κ] in
theorem IsFirst.unique {stored : List κ → Option α} {input : List κ} {offset window : Nat}
    {found other : Occurrence α} (first : IsFirst stored input offset window found)
    (second : IsFirst stored input offset window other) : found = other := by
  have start : found.start = other.start :=
    Nat.le_antisymm (first.earliest _ second.occurs second.least)
      (second.earliest _ first.occurs first.least)
  have length : found.length = other.length :=
    Nat.le_antisymm (second.longest _ first.occurs start)
      (first.longest _ second.occurs start.symm)
  exact first.occurs.unique second.occurs start length

theorem isFirst_of_find? {trie : Trie κ α} {input : List κ} {offset window : Nat}
    {found : Occurrence α} (search : trie.find? input offset window = some found) :
    IsFirst trie.get? input offset window found := by
  rw [find?_eq, List.findSome?_eq_some_iff] at search
  obtain ⟨before, start, after, range, last, nothing⟩ := search
  obtain ⟨rfl, occurs⟩ := mem_startsAt_iff.1 (List.mem_of_getLast? last)
  have inside : found.start ∈ List.range' offset (min (offset + window) input.length - offset) := by
    rw [range]
    simp
  obtain ⟨least, bound⟩ := mem_window_iff.1 inside
  refine ⟨occurs, least, bound, fun other stands begins => ?_, fun other stands same => ?_⟩
  · -- A start before the one that was found has been searched, and nothing starts there.
    rw [← Nat.not_lt]
    intro earlier
    have searched : other.start ∈ before ++ found.start :: after :=
      range ▸ mem_window_iff.2 ⟨begins, Nat.lt_trans earlier bound⟩
    have sorted : (before ++ found.start :: after).Pairwise (· < ·) :=
      range ▸ List.pairwise_lt_range' ..
    rcases List.mem_append.1 searched with passed | ahead
    · have empty := List.getLast?_eq_none_iff.1 (nothing _ passed)
      have member := mem_startsAt_iff.2 ⟨rfl, stands⟩
      simp [empty] at member
    · rcases List.mem_cons.1 ahead with same | later
      · omega
      · have beyond := List.rel_of_pairwise_cons (List.pairwise_append.1 sorted).2.1 later
        omega
  · exact length_le_of_mem_getLast?_startsAt last (mem_startsAt_iff.2 ⟨same, stands⟩)

/-- What searching an input for stored keys answers. -/
structure Searches (trie : Trie κ α) (stored : List κ → Option α) (input : List κ) : Prop where
  missing : ∀ offset window, trie.find? input offset window = none ↔
    ∀ start, offset ≤ start → start < min (offset + window) input.length →
      ∀ key, stored key ≠ none → ¬key <+: input.drop start
  found : ∀ offset window found, trie.find? input offset window = some found ↔
    IsFirst stored input offset window found
  listed : ∀ position occurrence, occurrence ∈ trie.startsAt input position ↔
    occurrence.start = position ∧ Occurs stored input occurrence
  /-- Shortest first, so that each key is listed once. -/
  ordered : ∀ position, (trie.startsAt input position).Pairwise fun first second =>
    first.length < second.length
  anchored : ∀ position, trie.startsAt input position = [] ↔ trie.find? input position 1 = none

/-- A search finds the earliest stored key, and the longest of those that start there. -/
theorem searches_of_built {trie : Trie κ α} {stored : List κ → Option α}
    (built : Built trie stored) (input : List κ) : Searches trie stored input := by
  cases built.get?_eq
  refine ⟨fun offset window => ?_, fun offset window found => ⟨isFirst_of_find?, fun first => ?_⟩,
    fun position occurrence => mem_startsAt_iff, pairwise_startsAt trie input, fun position => ?_⟩
  · simp only [find?_eq_none_iff, startsAt_eq_nil_iff]
  · cases search : trie.find? input offset window with
    | some other => rw [first.unique (isFirst_of_find? search)]
    | none =>
      have nothing := find?_eq_none_iff.1 search _ first.least first.inWindow
      have member := mem_startsAt_iff.2 ⟨rfl, first.occurs⟩
      simp [nothing] at member
  · rw [find?_eq_none_iff]
    constructor
    · intro nothing start least bound
      have same : start = position := by omega
      rw [same, nothing]
    · intro nothing
      by_cases inside : position < input.length
      · exact nothing position (Nat.le_refl _) (by omega)
      · -- Past the end there is nothing for a key to start.
        rw [startsAt, List.drop_eq_nil_of_le (Nat.le_of_not_lt inside)]
        cases trie <;> rfl

/-- Bytes that are no text, with a key that another one begins and a value that was merged. -/
theorem searches_vingt :
    ∃ (trie : Trie UInt8 (List Nat)) (stored : List UInt8 → Option (List Nat)),
      Built trie stored ∧
      Searches trie stored (0xFF :: Text.Utf8.encode "vingts".toList ++ [0xC3]) ∧
      trie.find? (0xFF :: Text.Utf8.encode "vingts".toList ++ [0xC3]) 0 2 =
        some ⟨1, 5, [20, 21]⟩ := by
  have built := (Built.ofListWith (fun item => [item]) (fun (items : List Nat) item => items ++ [item])
    [(Text.Utf8.encode "vin".toList, 1), (Text.Utf8.encode "vingt".toList, 20)]).merge
      (fun item => [item]) (fun items item => items ++ [item])
      (Text.Utf8.encode "vingt".toList) (21 : Nat)
  exact ⟨_, _, built, searches_of_built built _, by decide +kernel⟩

end Phrasebook.Trie
