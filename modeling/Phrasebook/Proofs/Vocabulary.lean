import Phrasebook.Trie

/-! What a trie finds at the front of an input.

The entries that start an input are those whose keys are prefixes of it, and they
come shortest first. So the longest accepted one is known by its key.
-/

set_option autoImplicit false

namespace Phrasebook.Trie

variable {κ α : Type} [DecidableEq κ]

theorem starts_edge_cons (symbol first : κ) (stored : Option α) (below siblings : Trie κ α)
    (rest : List κ) :
    (edge symbol stored below siblings).starts (first :: rest) =
      if first = symbol then
        (stored.map fun found => (1, found)).toList ++
          (below.starts rest).map fun found => (found.1 + 1, found.2)
      else siblings.starts (first :: rest) := rfl

theorem get?_edge_cons (symbol first : κ) (stored : Option α) (below siblings : Trie κ α)
    (rest : List κ) :
    (edge symbol stored below siblings).get? (first :: rest) =
      if first = symbol then if rest = [] then stored else below.get? rest
      else siblings.get? (first :: rest) := rfl

/-- Every entry has at least one symbol. -/
theorem pos_of_mem_starts {trie : Trie κ α} {input : List κ} {found : Nat × α}
    (member : found ∈ trie.starts input) : 0 < found.1 := by
  induction trie generalizing input with
  | empty => simp [starts] at member
  | edge symbol stored below siblings _ siblingsIH =>
    cases input with
    | nil => simp [starts] at member
    | cons first rest =>
      rw [starts_edge_cons] at member
      split at member
      · rcases List.mem_append.1 member with here | longer
        · obtain ⟨value, -, rfl⟩ := Option.map_eq_some_iff.1 (Option.mem_toList.1 here)
          exact Nat.one_pos
        · obtain ⟨shorter, -, rfl⟩ := List.mem_map.1 longer
          exact Nat.succ_pos _
      · exact siblingsIH member

/-- The entries that start an input are those of its prefixes. -/
theorem mem_starts_iff {trie : Trie κ α} {input : List κ} {length : Nat} {value : α} :
    (length, value) ∈ trie.starts input ↔
      length ≤ input.length ∧ trie.get? (input.take length) = some value := by
  induction trie generalizing input length with
  | empty => simp [starts]
  | edge symbol stored below siblings belowIH siblingsIH =>
    cases input with
    | nil => simp [starts]
    | cons first rest =>
      cases length with
      | zero =>
        simp only [List.take_zero, get?_nil, reduceCtorEq, and_false, iff_false]
        exact fun member => absurd (pos_of_mem_starts member) (Nat.lt_irrefl 0)
      | succ length =>
        rw [starts_edge_cons, List.take_succ_cons, get?_edge_cons, List.length_cons,
          Nat.add_le_add_iff_right]
        by_cases same : first = symbol
        · rw [if_pos same, if_pos same]
          simp only [List.mem_append, Option.mem_toList, Option.map_eq_some_iff, Prod.mk.injEq,
            List.mem_map, Prod.exists]
          constructor
          · rintro (⟨found, eq, one, rfl⟩ | ⟨shorter, found, member, one, rfl⟩)
            · cases one
              simp [eq]
            · cases one
              obtain ⟨bound, inside⟩ := belowIH.1 member
              -- The forest below has no empty key, so the key goes on there.
              have nonempty : rest.take length ≠ [] := by
                intro nothing
                simp [nothing] at inside
              exact ⟨bound, by rw [if_neg nonempty, inside]⟩
          · rintro ⟨bound, inside⟩
            split at inside
            · next nothing =>
              have lengths := congrArg List.length nothing
              rw [List.length_take_of_le bound, List.length_nil] at lengths
              exact .inl ⟨value, inside, by omega, rfl⟩
            · exact .inr ⟨length, value, belowIH.2 ⟨bound, inside⟩, rfl, rfl⟩
        · rw [if_neg same, if_neg same, siblingsIH, List.take_succ_cons, List.length_cons,
            Nat.add_le_add_iff_right]

/-- They come shortest first. -/
theorem pairwise_starts (trie : Trie κ α) (input : List κ) :
    (trie.starts input).Pairwise fun first second => first.1 < second.1 := by
  induction trie generalizing input with
  | empty => simp [starts]
  | edge symbol stored below siblings belowIH siblingsIH =>
    cases input with
    | nil => simp [starts]
    | cons first rest =>
      rw [starts_edge_cons]
      split
      · rw [List.pairwise_append]
        refine ⟨?_, ?_, ?_⟩
        · cases stored <;> simp
        · exact (belowIH rest).map _ fun _ _ shorter => Nat.add_lt_add_right shorter 1
        · intro one here two there
          obtain ⟨found, -, rfl⟩ := Option.map_eq_some_iff.1 (Option.mem_toList.1 here)
          obtain ⟨shorter, member, rfl⟩ := List.mem_map.1 there
          exact Nat.add_lt_add_right (pos_of_mem_starts member) 1
      · exact siblingsIH (first :: rest)

/-- The longest accepted entry is there and accepted, and no longer accepted one is there. -/
theorem longestWhere?_eq_some_iff {trie : Trie κ α} {accepts : Nat → Bool} {input : List κ}
    {length : Nat} {value : α} :
    trie.longestWhere? accepts input = some (length, value) ↔
      length ≤ input.length ∧ trie.get? (input.take length) = some value ∧
        accepts length = true ∧
        ∀ longer, length < longer → longer ≤ input.length → accepts longer = true →
          trie.get? (input.take longer) = none := by
  have sound {length : Nat} {value : α}
      (found : trie.longestWhere? accepts input = some (length, value)) :
      length ≤ input.length ∧ trie.get? (input.take length) = some value ∧
        accepts length = true ∧
        ∀ longer, length < longer → longer ≤ input.length → accepts longer = true →
          trie.get? (input.take longer) = none := by
    obtain ⟨accepted, before, after, split, refused⟩ := List.find?_eq_some_iff_append.1 found
    have member : (length, value) ∈ trie.starts input := by
      rw [← List.mem_reverse, split]
      simp
    obtain ⟨bound, stored⟩ := mem_starts_iff.1 member
    refine ⟨bound, stored, accepted, fun longer exceeds fits accepts => ?_⟩
    rw [Option.eq_none_iff_forall_ne_some]
    intro other there
    have listed : (longer, other) ∈ (trie.starts input).reverse :=
      List.mem_reverse.2 (mem_starts_iff.2 ⟨fits, there⟩)
    have sorted := List.pairwise_reverse.2 (trie.pairwise_starts input)
    rw [split] at listed sorted
    -- What comes before it is refused, and what comes after it is shorter.
    rcases List.mem_append.1 listed with early | late
    · simpa [accepts] using refused _ early
    · rcases List.mem_cons.1 late with same | late
      · cases same
        exact Nat.lt_irrefl _ exceeds
      · have shorter := List.rel_of_pairwise_cons (List.pairwise_append.1 sorted).2.1 late
        exact Nat.lt_asymm exceeds shorter
  refine ⟨sound, fun ⟨bound, stored, accepted, longest⟩ => ?_⟩
  have member : (length, value) ∈ (trie.starts input).reverse :=
    List.mem_reverse.2 (mem_starts_iff.2 ⟨bound, stored⟩)
  cases found : trie.longestWhere? accepts input with
  | none => exact absurd accepted (List.find?_eq_none.1 found _ member)
  | some other =>
    obtain ⟨fits, there, also, most⟩ := sound found
    rcases Nat.lt_trichotomy other.1 length with shorter | same | exceeds
    · simp [most length shorter bound accepted] at stored
    · rw [same, stored] at there
      cases there
      rw [← same]
    · simp [longest other.1 exceeds fits also] at there

theorem longestWhere?_eq_none_iff {trie : Trie κ α} {accepts : Nat → Bool} {input : List κ} :
    trie.longestWhere? accepts input = none ↔
      ∀ length, length ≤ input.length → accepts length = true →
        trie.get? (input.take length) = none := by
  rw [longestWhere?, List.find?_eq_none]
  constructor
  · intro refused length fits accepted
    rw [Option.eq_none_iff_forall_ne_some]
    intro value there
    exact refused (length, value) (List.mem_reverse.2 (mem_starts_iff.2 ⟨fits, there⟩)) accepted
  · rintro missing ⟨length, value⟩ listed accepted
    obtain ⟨fits, there⟩ := mem_starts_iff.1 (List.mem_reverse.1 listed)
    simp [missing length fits accepted] at there

/-- The longest accepted entry: its key is there and no longer one is accepted. -/
theorem longestWhere?_eq_some {trie : Trie κ α} {accepts : Nat → Bool} {input : List κ}
    {length : Nat} {value : α} (bound : length ≤ input.length)
    (found : trie.get? (input.take length) = some value) (accepted : accepts length = true)
    (longest : ∀ longer, length < longer → longer ≤ input.length →
      trie.get? (input.take longer) = none) :
    trie.longestWhere? accepts input = some (length, value) :=
  longestWhere?_eq_some_iff.2
    ⟨bound, found, accepted, fun longer exceeds fits _ => longest longer exceeds fits⟩

theorem longestWhere?_eq_none {trie : Trie κ α} {accepts : Nat → Bool} {input : List κ}
    (missing : ∀ length, length ≤ input.length → trie.get? (input.take length) = none) :
    trie.longestWhere? accepts input = none :=
  longestWhere?_eq_none_iff.2 fun length fits _ => missing length fits

theorem get?_insert (key query : List κ) (value : α) (trie : Trie κ α) :
    (trie.insert key value).get? query =
      if query = key ∧ key ≠ [] then some value else trie.get? query := by
  rw [insert, merge, get?_alter]
  cases trie.get? key <;> rfl

/-- What a trie holds comes from its entries. -/
theorem mem_of_get?_ofList {entries : List (List κ × α)} {key : List κ} {value : α}
    (found : (ofList entries).get? key = some value) : (key, value) ∈ entries := by
  -- The fold may start from a trie that has entries of its own.
  have general : ∀ (others : List (List κ × α)) (trie : Trie κ α),
      (others.foldl (fun trie entry => trie.insert entry.1 entry.2) trie).get? key = some value →
        (key, value) ∈ others ∨ trie.get? key = some value := by
    intro others
    induction others with
    | nil => exact fun _ stored => .inr stored
    | cons entry others ih =>
      intro trie stored
      rcases ih _ stored with later | here
      · exact .inl (List.mem_cons_of_mem _ later)
      · rw [get?_insert] at here
        split at here
        · next same =>
          cases here
          rw [same.1]
          exact .inl (List.mem_cons_self ..)
        · exact .inr here
  rcases general entries empty found with listed | stored
  · exact listed
  · simp at stored

/-- The forest after a key. -/
def descend (key : List κ) : Trie κ α → Trie κ α
  | empty => empty
  | edge symbol value forest siblings =>
    match key with
    | [] => edge symbol value forest siblings
    | first :: rest =>
      if first = symbol then forest.descend rest else siblings.descend (first :: rest)

/-- Whether some key starts an input or goes on after it. -/
def meets (input : List κ) : Trie κ α → Bool
  | empty => false
  | edge symbol value forest siblings =>
    match input with
    | [] => true
    | first :: rest =>
      if first = symbol then value.isSome || forest.meets rest
      else siblings.meets (first :: rest)

theorem get?_append (key : List κ) {more : List κ} (nonempty : more ≠ []) (trie : Trie κ α) :
    trie.get? (key ++ more) = (trie.descend key).get? more := by
  induction trie generalizing key with
  | empty => rfl
  | edge symbol value forest siblings forestIH siblingsIH =>
    cases key with
    | nil => rfl
    | cons first rest =>
      rw [List.cons_append, get?_edge_cons, descend]
      split
      · rw [if_neg (by simp [nonempty]), forestIH]
      · exact siblingsIH (first :: rest)

theorem get?_eq_none_of_meets {trie : Trie κ α} {input key : List κ}
    (apart : trie.meets input = false) (near : key <+: input ∨ input <+: key) :
    trie.get? key = none := by
  induction trie generalizing input key with
  | empty => rfl
  | edge symbol value forest siblings forestIH siblingsIH =>
    cases input with
    | nil => simp [meets] at apart
    | cons first rest =>
      cases key with
      | nil => exact get?_nil _
      | cons head tail =>
        have same : head = first ∧ (tail <+: rest ∨ rest <+: tail) := by
          rcases near with short | long
          · exact (List.cons_prefix_cons.1 short).imp_right .inl
          · exact ⟨(List.cons_prefix_cons.1 long).1.symm, .inr (List.cons_prefix_cons.1 long).2⟩
        obtain ⟨rfl, beyond⟩ := same
        rw [meets] at apart
        rw [get?_edge_cons]
        split
        · next here =>
          rw [if_pos here, Bool.or_eq_false_iff, Option.isSome_eq_false_iff,
            Option.isNone_iff_eq_none] at apart
          split
          · exact apart.1
          · exact forestIH apart.2 beyond
        · next other =>
          rw [if_neg other] at apart
          exact siblingsIH apart near

/-- A stored key is the longest one if no key goes on after it with what comes there. -/
theorem longestWhere?_append {trie : Trie κ α} {accepts : Nat → Bool} {key rest : List κ}
    {value : α} (found : trie.get? key = some value) (accepted : accepts key.length = true)
    (apart : rest = [] ∨ ∃ next, next <+: rest ∧ (trie.descend key).meets next = false) :
    trie.longestWhere? accepts (key ++ rest) = some (key.length, value) := by
  refine longestWhere?_eq_some (by simp) (by rwa [List.take_left]) accepted ?_
  intro longer exceeds fits
  obtain ⟨more, rfl⟩ := Nat.exists_eq_add_of_lt exceeds
  rcases apart with rfl | ⟨next, starts, nothing⟩
  · rw [List.append_nil] at fits
    omega
  · rw [List.length_append] at fits
    have nonempty : rest.take (more + 1) ≠ [] := by
      rw [← List.length_pos_iff, List.length_take]
      omega
    rw [Nat.add_assoc, List.take_length_add_append, get?_append key nonempty]
    exact get?_eq_none_of_meets nothing
      (List.prefix_or_prefix_of_prefix (List.take_prefix _ rest) starts)

theorem longest?_eq_longestWhere? (input : List κ) (trie : Trie κ α) :
    trie.longest? input = trie.longestWhere? (fun _ => true) input := by
  rw [longest?, longestWhere?, List.getLast?_eq_head?_reverse]
  cases (trie.starts input).reverse <;> rfl

end Phrasebook.Trie
