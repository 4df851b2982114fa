import Mathlib.Data.Finset.Card
import Phrasebook.Proofs.TrieSearch

/-! What a trie makes of a sequence of edits.

Every key has what its own edits make of nothing, one after the other, whatever is stored
under the keys around it. The size of the trie counts the keys that have been edited.
-/

set_option autoImplicit false

namespace Phrasebook.Trie

variable {κ α : Type} [DecidableEq κ]

/-- A call that stores an item under a key. -/
inductive Edit (κ α : Type) : Type 1 where
  | insert (key : List κ) (value : α)
  | merge {ι : Type} (create : ι → α) (update : α → ι → α) (key : List κ) (item : ι)

namespace Edit

def key : Edit κ α → List κ
  | insert key _ | merge _ _ key _ => key

/-- What a key has after an edit of its own. -/
def value (stored : Option α) : Edit κ α → α
  | insert _ value => value
  | merge create update _ item =>
    match stored with
    | none => create item
    | some value => update value item

def apply (trie : Trie κ α) : Edit κ α → Trie κ α
  | insert key value => trie.insert key value
  | merge create update key item => trie.merge create update key item

/-- The trie that edits make of an empty one. -/
def applyAll (edits : List (Edit κ α)) : Trie κ α := edits.foldl apply empty

/-- The edits of one key, in order. -/
def under (key : List κ) (edits : List (Edit κ α)) : List (Edit κ α) :=
  edits.filter fun edit => edit.key = key

/-- What edits of one key make of nothing: the first one creates, later ones update or replace. -/
def result (edits : List (Edit κ α)) : Option α :=
  edits.foldl (fun stored edit => some (edit.value stored)) none

/-- The keys of edits, each once. Nothing is stored under the empty key. -/
def keys (edits : List (Edit κ α)) : Finset (List κ) := (edits.map key).toFinset.erase []

end Edit

omit [DecidableEq κ] in
theorem size_path (value : α) {key : List κ} (nonempty : key ≠ []) : (path value key).size = 1 := by
  induction key with
  | nil => exact absurd rfl nonempty
  | cons symbol rest ih =>
    cases rest with
    | nil => rfl
    | cons next rest => simp [path, size, ih (List.cons_ne_nil next rest)]

theorem alter_nil (change : Option α → α) (trie : Trie κ α) : trie.alter change [] = trie := by
  cases trie <;> rfl

/-- A trie grows by one where a key has nothing stored yet. -/
theorem size_alter (change : Option α → α) {key : List κ} (nonempty : key ≠ []) (trie : Trie κ α) :
    (trie.alter change key).size = trie.size + if trie.get? key = none then 1 else 0 := by
  induction trie generalizing key with
  | empty => simp [alter, size_path _ nonempty, size]
  | edge symbol value below siblings belowIH siblingsIH =>
    obtain ⟨first, rest, rfl⟩ := List.exists_cons_of_ne_nil nonempty
    rw [alter, get?_edge_cons]
    by_cases same : first = symbol
    · by_cases last : rest = []
      · rw [if_pos same, if_pos last, if_pos same, if_pos last, size, size]
        cases value <;> simp
        omega
      · rw [if_pos same, if_neg last, if_pos same, if_neg last, size, size, belowIH last]
        omega
    · rw [if_neg same, if_neg same, size, size, siblingsIH nonempty]
      omega

namespace Edit

variable {edit : Edit κ α} {edits : List (Edit κ α)} {key : List κ}

/-- An edit changes the value of its own key. -/
theorem apply_eq_alter (edit : Edit κ α) (trie : Trie κ α) :
    edit.apply trie = trie.alter edit.value edit.key := by
  cases edit with
  | insert key value =>
    refine congrArg (trie.alter · key) (funext fun stored => ?_)
    cases stored <;> rfl
  | merge create update key item =>
    refine congrArg (trie.alter · key) (funext fun stored => ?_)
    cases stored <;> rfl

theorem applyAll_concat (edits : List (Edit κ α)) (edit : Edit κ α) :
    applyAll (edits ++ [edit]) = edit.apply (applyAll edits) := List.foldl_concat ..

theorem get?_applyAll (edits : List (Edit κ α)) (nonempty : key ≠ []) :
    (applyAll edits).get? key = result (under key edits) := by
  induction edits using List.reverseRecOn with
  | nil => rfl
  | append_singleton edits edit ih =>
    rw [applyAll_concat, apply_eq_alter, get?_alter, under, List.filter_append]
    by_cases own : edit.key = key
    · subst own
      simp [nonempty, result, ih, under]
    · simp [own, Ne.symm own, ih, under]

theorem mem_keys_iff : key ∈ keys edits ↔ key ≠ [] ∧ ∃ edit ∈ edits, edit.key = key := by
  simp [keys]

theorem mem_keys_iff_under : key ∈ keys edits ↔ key ≠ [] ∧ under key edits ≠ [] := by
  simp [mem_keys_iff, under]

omit [DecidableEq κ] in
/-- A key has something stored if some edit is its own. -/
theorem result_eq_none_iff : result edits = none ↔ edits = [] := by
  cases edits using List.reverseRecOn <;> simp [result]

theorem keys_concat (nonempty : edit.key ≠ []) :
    keys (edits ++ [edit]) = Insert.insert edit.key (keys edits) := by
  ext key
  simp only [mem_keys_iff, Finset.mem_insert, List.mem_append, List.mem_singleton]
  constructor
  · rintro ⟨filled, other, listed | rfl, rfl⟩
    · exact .inr ⟨filled, other, listed, rfl⟩
    · exact .inl rfl
  · rintro (rfl | ⟨filled, other, listed, rfl⟩)
    · exact ⟨nonempty, edit, .inr rfl, rfl⟩
    · exact ⟨filled, other, .inl listed, rfl⟩

theorem size_applyAll (edits : List (Edit κ α)) : (applyAll edits).size = (keys edits).card := by
  induction edits using List.reverseRecOn with
  | nil => rfl
  | append_singleton edits edit ih =>
    rw [applyAll_concat, apply_eq_alter]
    by_cases empty : edit.key = []
    · have same : keys (edits ++ [edit]) = keys edits := by simp [keys, empty]
      rw [empty, alter_nil, ih, same]
    · -- The edit stores under a new key just when nothing has been stored there.
      have stored : (applyAll edits).get? edit.key = none ↔ edit.key ∉ keys edits := by
        rw [get?_applyAll edits empty, result_eq_none_iff, mem_keys_iff_under]
        simp [empty]
      rw [size_alter _ empty, ih, keys_concat empty]
      by_cases fresh : edit.key ∈ keys edits
      · rw [if_neg (mt stored.1 (not_not.2 fresh)), Finset.insert_eq_of_mem fresh, Nat.add_zero]
      · rw [if_pos (stored.2 fresh), Finset.card_insert_of_notMem fresh]

/-- A trie has what edits make of it. -/
structure Reflects (edits : List (Edit κ α)) (trie : Trie κ α) : Prop where
  /-- Each key has what its own edits make of nothing. -/
  stored : ∀ key, key ≠ [] → trie.get? key = result (under key edits)
  /-- A search at a key finds just that. -/
  found : ∀ key, key ≠ [] → ∀ value, ⟨0, key.length, value⟩ ∈ trie.startsAt key 0 ↔
    result (under key edits) = some value
  /-- An edit of the empty key changes nothing. -/
  idle : ∀ edit : Edit κ α, edit.key = [] → edit.apply trie = trie
  size : trie.size = (keys edits).card

theorem reflects_applyAll (edits : List (Edit κ α)) : Reflects edits (applyAll edits) where
  stored key nonempty := get?_applyAll edits nonempty
  found key nonempty value := by
    rw [mem_startsAt_iff, ← get?_applyAll edits nonempty]
    constructor
    · rintro ⟨-, start, front, length, holds⟩
      rwa [List.IsPrefix.eq_of_length front length] at holds
    · exact fun holds => ⟨rfl, key, List.prefix_refl key, rfl, holds⟩
  idle edit nothing := by rw [apply_eq_alter, nothing, alter_nil]
  size := size_applyAll edits

/-- A trie refines a finite map: edits of different keys do not meet, in whatever order they
come. Building a trie from a list of entries is a sequence of edits. -/
theorem refines_map (edits : List (Edit κ α)) :
    Reflects edits (applyAll edits) ∧
    (∀ others, (∀ key, key ≠ [] → under key others = under key edits) →
      (applyAll others).get? = (applyAll edits).get? ∧
        (applyAll others).size = (applyAll edits).size) ∧
    (∀ (ι : Type) (create : ι → α) (update : α → ι → α) (entries : List (List κ × ι)),
      ofListWith create update entries =
        applyAll (entries.map fun entry => .merge create update entry.1 entry.2)) ∧
    ∀ entries : List (List κ × α),
      ofList entries = applyAll (entries.map fun entry => .insert entry.1 entry.2) := by
  refine ⟨reflects_applyAll edits, fun others same => ⟨?_, ?_⟩, fun ι create update entries => ?_,
    fun entries => ?_⟩
  · funext key
    by_cases empty : key = []
    · rw [empty, get?_nil, get?_nil]
    · rw [get?_applyAll others empty, get?_applyAll edits empty, same key empty]
  · have keys : keys others = keys edits := by
      ext key
      rw [mem_keys_iff_under, mem_keys_iff_under]
      exact and_congr_right fun nonempty => by rw [same key nonempty]
    rw [size_applyAll, size_applyAll, keys]
  · rw [applyAll, List.foldl_map]
    rfl
  · rw [applyAll, List.foldl_map]
    rfl

/-- One key continues the other, and their edits come in another order. -/
theorem refines_map_sixty :
    ∃ edits others : List (Edit Char (List Nat)),
      edits = [.merge (fun item => [item]) (fun items item => items ++ [item]) ['s', 'i', 'x'] 1,
        .insert ['s', 'i', 'x', 't', 'y'] [2], .insert [] [3],
        .merge (fun item => [item]) (fun items item => items ++ [item]) ['s', 'i', 'x'] 4] ∧
      others = [.insert ['s', 'i', 'x', 't', 'y'] [2],
        .merge (fun item => [item]) (fun items item => items ++ [item]) ['s', 'i', 'x'] 1,
        .merge (fun item => [item]) (fun items item => items ++ [item]) ['s', 'i', 'x'] 4] ∧
      (∀ key, key ≠ [] → under key others = under key edits) ∧
      (applyAll edits).get? ['s', 'i', 'x'] = some [1, 4] ∧
      (applyAll others).get? = (applyAll edits).get? ∧ (applyAll edits).size = 2 := by
  refine ⟨_, _, rfl, rfl, ?_⟩
  generalize edits : [Edit.merge (fun item => [item]) (fun items item => items ++ [item])
      ['s', 'i', 'x'] 1, .insert ['s', 'i', 'x', 't', 'y'] [2], .insert [] [3],
    .merge (fun item => [item]) (fun items item => items ++ [item]) ['s', 'i', 'x'] 4] = first
  generalize others : [Edit.insert ['s', 'i', 'x', 't', 'y'] [2],
    .merge (fun item => [item]) (fun items item => items ++ [item]) ['s', 'i', 'x'] 1,
    .merge (fun item => [item]) (fun items item => items ++ [item]) ['s', 'i', 'x'] 4] = second
  have apart : ∀ key, key ≠ [] → under key second = under key first := by
    intro key nonempty
    subst edits others
    by_cases six : ['s', 'i', 'x'] = key
    · subst six
      rfl
    · simp [under, List.filter_cons, Edit.key, six, Ne.symm nonempty]
  obtain ⟨reflects, refines, -⟩ := refines_map first
  have six := reflects.stored ['s', 'i', 'x'] (by decide)
  have counted := reflects.size
  refine ⟨apart, six.trans ?_, (refines second apart).1, counted.trans ?_⟩
  · rw [← edits]
    rfl
  · rw [← edits]
    rfl

end Edit

end Phrasebook.Trie
