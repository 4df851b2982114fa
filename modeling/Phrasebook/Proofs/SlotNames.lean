import Phrasebook.Proofs.Expansion

/-! The slots of a pattern.

Expanding a group leaves some of the slots in it and all the slots outside of it,
in their order.
-/

set_option autoImplicit false

namespace Phrasebook

namespace Part

theorem slotNamesOfAll_append (first second : List Part) :
    slotNamesOfAll (first ++ second) = slotNamesOfAll first ++ slotNamesOfAll second := by
  induction first with
  | nil => rfl
  | cons part rest ih => simp [slotNamesOfAll, ih]

theorem slotNamesOfAlternatives_append (first second : List (List Part)) :
    slotNamesOfAlternatives (first ++ second) =
      slotNamesOfAlternatives first ++ slotNamesOfAlternatives second := by
  induction first with
  | nil => rfl
  | cons alternative rest ih => simp [slotNamesOfAlternatives, ih]

theorem slotNames_sublist_of_mem {alternatives : List (List Part)} {alternative : List Part}
    (member : alternative ∈ alternatives) :
    (slotNamesOfAll alternative).Sublist (slotNamesOfAlternatives alternatives) := by
  obtain ⟨before, after, rfl⟩ := List.append_of_mem member
  rw [slotNamesOfAlternatives_append, slotNamesOfAlternatives]
  exact (List.sublist_append_left ..).trans (List.sublist_append_right ..)

theorem Expands.slotNames_sublist {parts others : List Part} (step : Expands parts others) :
    (slotNamesOfAll others).Sublist (slotNamesOfAll parts) := by
  induction step with
  | choose member =>
    rw [slotNamesOfAll_append, slotNamesOfAll, slotNames]
    exact (slotNames_sublist_of_mem member).append (List.Sublist.refl _)
  | drop => exact List.sublist_append_right ..
  | after _ _ ih => exact (List.Sublist.refl _).append ih

theorem IsExpansion.slotNames_sublist {parts expansion : List Part}
    (expanded : IsExpansion parts expansion) :
    (slotNamesOfAll expansion).Sublist (slotNamesOfAll parts) := by
  obtain ⟨steps, -⟩ := expanded
  induction steps with
  | refl => exact List.Sublist.refl _
  | tail _ step ih => exact step.slotNames_sublist.trans ih

/-- Expanding replaces nothing but groups. -/
theorem Expands.mem_of_plain {parts others : List Part} (step : Expands parts others) {part : Part}
    (plain : part.isPlain = true) (member : part ∈ parts) : part ∈ others := by
  induction step with
  | choose _ =>
    rcases List.mem_cons.1 member with rfl | later
    · simp [isPlain] at plain
    · exact List.mem_append_right _ later
  | drop =>
    rcases List.mem_cons.1 member with rfl | later
    · simp [isPlain] at plain
    · exact later
  | after _ _ ih =>
    rcases List.mem_cons.1 member with rfl | later
    · exact List.mem_cons_self ..
    · exact List.mem_cons_of_mem _ (ih later)

theorem IsExpansion.mem_of_plain {parts expansion : List Part}
    (expanded : IsExpansion parts expansion) {part : Part} (plain : part.isPlain = true)
    (member : part ∈ parts) : part ∈ expansion := by
  obtain ⟨steps, -⟩ := expanded
  induction steps with
  | refl => exact member
  | tail _ step ih => exact step.mem_of_plain plain ih

end Part

open Part

theorem Pattern.slotNames_eq_eraseDups (pattern : Pattern) :
    pattern.slotNames = (slotNamesOfAll pattern.parts).eraseDups := by
  have general : ∀ names seen : List (List Char),
      names.foldl (fun names name => if names.contains name then names else names ++ [name]) seen =
        seen ++ (names.filter fun name => !seen.contains name).eraseDups := by
    intro names
    induction names with
    | nil => simp
    | cons name rest ih =>
      intro seen
      rw [List.foldl_cons, ih]
      cases known : seen.contains name with
      | true => simp only [List.filter_cons, known, if_true, Bool.not_true, Bool.false_eq_true,
          if_false]
      | false =>
        simp only [List.filter_cons, known, Bool.false_eq_true, if_false, Bool.not_false, if_true,
          List.eraseDups_cons, List.filter_filter, List.append_assoc, List.singleton_append]
        congr 3
        refine List.filter_congr fun other _ => ?_
        rw [Bool.eq_iff_iff]
        simp [and_comm]
  have all := general (slotNamesOfAll pattern.parts) []
  rwa [List.nil_append, List.filter_eq_self.2 (by simp)] at all

end Phrasebook
