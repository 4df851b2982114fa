/-! Dictionaries with names as keys, in the order of the names. -/

set_option autoImplicit false

namespace Phrasebook

/-- Entries with different names, in increasing order. -/
structure Dictionary (α : Type) where
  entries : List (String × α)
  sorted : entries.Pairwise fun first second => first.1 < second.1

namespace Dictionary

variable {α : Type}

/-- Give `name` the value that `change` makes of its present value. -/
def alterEntries (name : String) (change : Option α → α) :
    List (String × α) → List (String × α)
  | [] => [(name, change none)]
  | entry :: rest =>
    if name < entry.1 then (name, change none) :: entry :: rest
    else if name = entry.1 then (name, change (some entry.2)) :: rest
    else entry :: alterEntries name change rest

theorem mem_alterEntries {name : String} {change : Option α → α} {entries : List (String × α)}
    {entry : String × α} (member : entry ∈ alterEntries name change entries) :
    entry.1 = name ∨ entry ∈ entries := by
  induction entries with
  | nil => simp_all [alterEntries]
  | cons head rest ih =>
    unfold alterEntries at member
    split at member
    · rcases List.mem_cons.1 member with rfl | member
      · exact .inl rfl
      · exact .inr member
    · split at member
      · rcases List.mem_cons.1 member with rfl | member
        · exact .inl rfl
        · exact .inr (List.mem_cons_of_mem _ member)
      · rcases List.mem_cons.1 member with rfl | member
        · exact .inr (List.mem_cons_self ..)
        · exact (ih member).imp_right (List.mem_cons_of_mem _)

theorem sorted_alterEntries (name : String) (change : Option α → α)
    {entries : List (String × α)}
    (sorted : entries.Pairwise fun first second => first.1 < second.1) :
    (alterEntries name change entries).Pairwise fun first second => first.1 < second.1 := by
  induction entries with
  | nil => simp [alterEntries]
  | cons head rest ih =>
    obtain ⟨above, tail⟩ := List.pairwise_cons.1 sorted
    unfold alterEntries
    split
    · next less =>
      refine List.pairwise_cons.2 ⟨fun entry member => ?_, sorted⟩
      rcases List.mem_cons.1 member with rfl | member
      · exact less
      · exact String.lt_trans less (above entry member)
    · next notLess =>
      split
      · next same =>
        exact List.pairwise_cons.2 ⟨fun entry member => same ▸ above entry member, tail⟩
      · next different =>
        refine List.pairwise_cons.2 ⟨fun entry member => ?_, ih tail⟩
        rcases mem_alterEntries member with equal | member
        · have := String.le_antisymm (a := head.1) (b := name)
          have below : head.1 ≤ name := notLess
          rw [equal]
          apply Classical.byContradiction
          intro notAbove
          exact different (this below notAbove).symm
        · exact above entry member

def empty : Dictionary α := ⟨[], .nil⟩

def alter (dictionary : Dictionary α) (name : String) (change : Option α → α) : Dictionary α :=
  ⟨alterEntries name change dictionary.entries, sorted_alterEntries name change dictionary.sorted⟩

def insert (dictionary : Dictionary α) (name : String) (value : α) : Dictionary α :=
  dictionary.alter name fun _ => value

def erase (dictionary : Dictionary α) (name : String) : Dictionary α :=
  ⟨dictionary.entries.filter fun entry => entry.1 != name, dictionary.sorted.filter _⟩

def get? (dictionary : Dictionary α) (name : String) : Option α :=
  (dictionary.entries.find? fun entry => entry.1 == name).map (·.2)

def names (dictionary : Dictionary α) : List String := dictionary.entries.map (·.1)

def values (dictionary : Dictionary α) : List α := dictionary.entries.map (·.2)

theorem find?_alterEntries (name query : String) (change : Option α → α)
    {entries : List (String × α)}
    (sorted : entries.Pairwise fun first second => first.1 < second.1) :
    ((alterEntries name change entries).find? fun entry => entry.1 == query).map (·.2) =
      if query = name then
        some (change ((entries.find? fun entry => entry.1 == name).map (·.2)))
      else (entries.find? fun entry => entry.1 == query).map (·.2) := by
  induction entries with
  | nil =>
    by_cases same : query = name
    · simp [alterEntries, same]
    · simp [alterEntries, same, Ne.symm same]
  | cons head rest ih =>
    obtain ⟨above, tail⟩ := List.pairwise_cons.1 sorted
    unfold alterEntries
    split
    · next less =>
      have absent : ((head :: rest).find? fun entry => entry.1 == name) = none := by
        rw [List.find?_eq_none]
        intro entry member
        have greater : name < entry.1 := by
          rcases List.mem_cons.1 member with rfl | member
          · exact less
          · exact String.lt_trans less (above entry member)
        simp only [beq_iff_eq]
        intro equal
        exact absurd (equal ▸ greater) (String.lt_irrefl _)
      by_cases same : query = name
      · simp [same, absent]
      · rw [List.find?_cons_of_neg (by simpa using Ne.symm same), if_neg same]
    · next notLess =>
      split
      · next equal =>
        subst equal
        by_cases same : query = head.1
        · simp [same]
        · have other : ¬ head.1 = query := fun h => same h.symm
          simp [same, other]
      · next different =>
        by_cases same : head.1 = query
        · have other : ¬ query = name := fun h => different (h ▸ same.symm)
          simp [same, other]
        · have other : ¬ head.1 = name := fun h => different h.symm
          rw [List.find?_cons_of_neg (by simpa using same), ih tail,
            List.find?_cons_of_neg (by simpa using other),
            List.find?_cons_of_neg (by simpa using same)]

theorem get?_alter (dictionary : Dictionary α) (name query : String) (change : Option α → α) :
    (dictionary.alter name change).get? query =
      if query = name then some (change (dictionary.get? name)) else dictionary.get? query :=
  find?_alterEntries name query change dictionary.sorted

@[simp] theorem get?_insert (dictionary : Dictionary α) (name query : String) (value : α) :
    (dictionary.insert name value).get? query =
      if query = name then some value else dictionary.get? query :=
  dictionary.get?_alter name query fun _ => value

@[simp] theorem get?_empty (name : String) : (empty : Dictionary α).get? name = none := rfl

theorem get?_erase (dictionary : Dictionary α) (name query : String) :
    (dictionary.erase name).get? query =
      if query = name then none else dictionary.get? query := by
  unfold erase get?
  simp only [List.find?_filter]
  by_cases same : query = name
  · rw [if_pos same, Option.map_eq_none_iff, List.find?_eq_none]
    intro entry _
    simp [same]
  · rw [if_neg same]
    congr 2
    funext entry
    by_cases equal : entry.1 = query <;> simp [equal, same]

end Dictionary

end Phrasebook
