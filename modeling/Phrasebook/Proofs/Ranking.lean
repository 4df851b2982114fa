import Mathlib.Data.List.Find
import Mathlib.Data.List.Pairwise
import Phrasebook.Proofs.Reachable

/-! The order of results, and the best match.

Comparing results is a weak order, and ranking is a stable sort by it. So the best match is
the first of the results that no other one beats, and where some result has no entities the
best match has none.
-/

set_option autoImplicit false

namespace Phrasebook

open Std

namespace Ranking

variable {α : Type} (cmp : α → α → Ordering)

/-- Whether an element may stand before another. -/
def precedes (first second : α) : Bool := cmp first second != .gt

theorem precedes_eq_isLE (first second : α) :
    precedes cmp first second = (cmp first second).isLE := by
  unfold precedes
  cases cmp first second <;> rfl

variable [TransCmp cmp]

theorem precedes_trans (first second third : α) (left : precedes cmp first second = true)
    (right : precedes cmp second third = true) : precedes cmp first third = true := by
  rw [precedes_eq_isLE] at left right ⊢
  exact TransCmp.isLE_trans left right

theorem precedes_total (first second : α) :
    (precedes cmp first second || precedes cmp second first) = true := by
  have swapped : cmp second first = (cmp first second).swap := OrientedCmp.eq_swap
  rw [precedes, precedes, swapped]
  cases cmp first second <;> rfl

/-- Of two steps in order, the first one that is no tie decides. -/
theorem then_eq {first second third : α} (left : cmp first second ≠ .gt)
    (right : cmp second third ≠ .gt) :
    cmp first third = (cmp first second).then (cmp second third) := by
  cases order : cmp first second with
  | lt =>
    refine TransCmp.lt_of_lt_of_isLE order ?_
    rw [← precedes_eq_isLE]
    simpa [precedes] using right
  | eq => exact TransCmp.congr_left order
  | gt => exact absurd order left

theorem pairwise_mergeSort (list : List α) :
    (list.mergeSort (precedes cmp)).Pairwise fun first second => cmp first second ≠ .gt :=
  (List.pairwise_mergeSort (precedes_trans cmp) (precedes_total cmp) list).imp fun before => by
    simpa [precedes] using before

/-- Sorting keeps the order of the elements that are tied with any one. -/
theorem filter_mergeSort (list : List α) (tied : α) :
    (list.mergeSort (precedes cmp)).filter (fun other => cmp other tied == .eq) =
      list.filter fun other => cmp other tied == .eq := by
  have equal : (list.filter fun other => cmp other tied == .eq).Pairwise
      fun first second => precedes cmp first second = true := by
    refine List.pairwise_of_forall_mem_list fun first left second right => ?_
    have same : cmp first tied = .eq := by simpa using (List.mem_filter.1 left).2
    have other : cmp second tied = .eq := by simpa using (List.mem_filter.1 right).2
    rw [precedes, TransCmp.congr_left same, OrientedCmp.eq_comm.1 other]
    rfl
  have kept := (List.sublist_mergeSort (precedes_trans cmp) (precedes_total cmp) equal
    List.filter_sublist).filter fun other => cmp other tied == .eq
  simp only [List.filter_filter, Bool.and_self] at kept
  exact (kept.eq_of_length ((List.mergeSort_perm list _).filter _).length_eq.symm).symm

/-- The first element after sorting is the first one that no other comes before. -/
theorem head?_mergeSort (list : List α) :
    (list.mergeSort (precedes cmp)).head? =
      list.find? fun element => list.all fun other => cmp other element != .lt := by
  have perm := List.mergeSort_perm list (precedes cmp)
  cases sorted : list.mergeSort (precedes cmp) with
  | nil =>
    rw [sorted, List.nil_perm] at perm
    rw [perm]
    rfl
  | cons best rest =>
    have order := pairwise_mergeSort cmp list
    rw [sorted] at order perm
    have least : ∀ other ∈ list, cmp best other ≠ .gt := by
      intro other member
      rcases List.mem_cons.1 (perm.mem_iff.2 member) with rfl | later
      · simp [ReflCmp.compare_self]
      · exact List.rel_of_pairwise_cons order later
    -- No other element comes before one exactly if it is tied with the best.
    have optimal : ∀ element ∈ list,
        (list.all fun other => cmp other element != .lt) = (cmp element best == .eq) := by
      intro element member
      rw [Bool.eq_iff_iff, List.all_eq_true, beq_iff_eq]
      simp only [bne_iff_ne]
      constructor
      · intro unbeaten
        have other := unbeaten best (perm.mem_iff.1 List.mem_cons_self)
        have swapped : cmp element best = (cmp best element).swap := OrientedCmp.eq_swap
        rw [swapped]
        cases compared : cmp best element with
        | lt => exact absurd compared other
        | eq => rfl
        | gt => exact absurd compared (least element member)
      · intro tied other present beaten
        have swapped : cmp element other = (cmp other element).swap := OrientedCmp.eq_swap
        rw [beaten, TransCmp.congr_left tied] at swapped
        exact least other present swapped
    have first := congrArg List.head? (filter_mergeSort cmp list best)
    rw [sorted, List.filter_cons_of_pos (by simp [ReflCmp.compare_self]), List.head?_cons,
      List.head?_filter] at first
    rw [List.head?_cons, first]
    exact (List.find?_congr optimal).symm

end Ranking

namespace Intent

theorem priority_addPatterns (intent : Intent) (patterns : List Pattern) :
    (intent.addPatterns patterns).priority = intent.priority := by
  induction patterns generalizing intent with
  | nil => rfl
  | cons pattern rest ih =>
    refine (ih _).trans ?_
    rw [addPattern]
    split <;> rfl

end Intent

namespace MatchResult

theorem transCmp_descending (key : MatchResult → Nat) :
    TransCmp fun first second : MatchResult => Ord.compare (key second) (key first) :=
  @TransCmp.opposite _ (compareOn key) _

instance : TransCmp compare :=
  have := transCmp_descending fun result => result.entities.count .integer
  have := transCmp_descending fun result => result.entities.count .list
  have := transCmp_descending bytesMatched
  inferInstanceAs (TransCmp (compareLex (compareOn priority)
    (compareLex (compareOn fun result => result.entities.length)
      (compareLex (fun first second =>
          Ord.compare (second.entities.count .integer) (first.entities.count .integer))
        (compareLex (fun first second =>
            Ord.compare (second.entities.count .list) (first.entities.count .list))
          fun first second => Ord.compare second.bytesMatched first.bytesMatched)))))

/-- The same results in order, and equally good ones as they were. -/
structure IsRanking (results ranked : List MatchResult) : Prop where
  perm : ranked.Perm results
  sorted : ranked.Pairwise fun first second => first.compare second ≠ .gt
  stable : ∀ tied : MatchResult, ranked.filter (fun other => other.compare tied == .eq) =
    results.filter fun other => other.compare tied == .eq

theorem isRanking_rank (results : List MatchResult) : IsRanking results (rank results) where
  perm := List.mergeSort_perm ..
  sorted := Ranking.pairwise_mergeSort compare results
  stable := Ranking.filter_mergeSort compare results

/-- Priorities being the same, a result is not preferred to one with fewer entities. -/
theorem length_entities_le {first second : MatchResult}
    (same : first.priority = second.priority) (before : first.compare second ≠ .gt) :
    first.entities.length ≤ second.entities.length := by
  rw [← Nat.not_lt]
  intro more
  refine before ?_
  rw [compare, same, Nat.compare_eq_eq.2 rfl, Nat.compare_eq_gt.2 more]
  rfl

end MatchResult

namespace Model

variable {model : Model} {input : String}

theorem bestMatch?_eq_find? (model : Model) (input : String) :
    model.bestMatch? input = (model.findMatches input).find? fun result =>
      (model.findMatches input).all fun other => other.compare result != .lt :=
  Ranking.head?_mergeSort MatchResult.compare _

theorem bestMatch?_eq_none_iff :
    model.bestMatch? input = none ↔ model.findMatches input = [] := by
  have perm := (MatchResult.isRanking_rank (model.findMatches input)).perm
  rw [bestMatch?, List.head?_eq_none_iff]
  constructor
  · intro empty
    rwa [empty, List.nil_perm] at perm
  · intro empty
    rw [empty, List.perm_nil] at perm
    rw [empty, perm]

/-- All intents have the same priority, since no registration sets one. -/
theorem Reachable.priority_eq_zero (reachable : Reachable model) :
    ∀ intent ∈ model.intents.values, intent.priority = 0 := by
  induction reachable with
  | new tag numbers => simp [Model.new, Dictionary.values, Dictionary.empty]
  | withOptions options _ ih => exact ih
  | addIntent _ added ih =>
    obtain ⟨-, patterns, _, rfl⟩ := exists_of_addIntent added
    intro intent member
    rcases Dictionary.mem_values_alter member with kept | ⟨present, known, rfl⟩
    · exact ih intent kept
    · rw [Intent.priority_addPatterns]
      cases present with
      | none => rfl
      | some before => exact ih before (known before rfl)
  | addEntity _ added ih =>
    rw [(eq_of_addEntity added).2]
    exact ih
  | removeIntent id _ ih =>
    exact fun intent member => ih intent (Dictionary.mem_values_erase member)

theorem Reachable.priority_of_mem_findMatches (reachable : Reachable model) {result : MatchResult}
    (member : result ∈ model.findMatches input) : result.priority = 0 := by
  obtain ⟨intent, listed, pattern, -, found, -, rfl⟩ := exists_of_mem_findMatches member
  exact reachable.priority_eq_zero intent listed

/-- A result without entities is never passed over for one that has some. -/
theorem Reachable.exists_exact_bestMatch (reachable : Reachable model) {exact : MatchResult}
    (member : exact ∈ model.findMatches input) (bare : exact.entities = []) :
    ∃ best, model.bestMatch? input = some best ∧ best.entities = [] := by
  cases found : model.bestMatch? input with
  | none => simp [bestMatch?_eq_none_iff.1 found] at member
  | some best =>
    refine ⟨best, rfl, ?_⟩
    rw [bestMatch?_eq_find?] at found
    have unbeaten := List.find?_some found
    rw [List.all_eq_true] at unbeaten
    have unbeaten := unbeaten exact member
    have swapped : best.compare exact = (exact.compare best).swap := OrientedCmp.eq_swap
    have before : best.compare exact ≠ .gt := by
      rw [swapped]
      intro beaten
      rw [Ordering.swap_eq_gt] at beaten
      simp [beaten] at unbeaten
    have priority : best.priority = exact.priority := by
      rw [reachable.priority_of_mem_findMatches (List.mem_of_find?_eq_some found),
        reachable.priority_of_mem_findMatches member]
    have fewer := MatchResult.length_entities_le priority before
    rw [bare, List.length_nil, Nat.le_zero, List.length_eq_zero_iff] at fewer
    exact fewer

/-- Ranking is a stable sort by a weak order, and the best match is the first of the results
that no other one beats. -/
theorem bestMatch?_eq_first_unbeaten :
    (∀ results, MatchResult.IsRanking results (MatchResult.rank results)) ∧
    (∀ first second : MatchResult, first.compare second = (second.compare first).swap) ∧
    (∀ first second third : MatchResult, first.compare second ≠ .gt →
      second.compare third ≠ .gt →
        first.compare third = (first.compare second).then (second.compare third)) ∧
    ∀ (model : Model) (input : String),
      (model.bestMatch? input = none ↔ model.findMatches input = []) ∧
      (model.bestMatch? input = (model.findMatches input).find? fun result =>
        (model.findMatches input).all fun other => other.compare result != .lt) ∧
      (Reachable model → (∃ exact ∈ model.findMatches input, exact.entities = []) →
        ∃ best, model.bestMatch? input = some best ∧ best.entities = []) := by
  refine ⟨MatchResult.isRanking_rank, fun _ _ => OrientedCmp.eq_swap,
    fun _ _ _ => Ranking.then_eq MatchResult.compare, fun model input =>
      ⟨bestMatch?_eq_none_iff, model.bestMatch?_eq_find? input, ?_⟩⟩
  rintro reachable ⟨exact, member, bare⟩
  exact reachable.exists_exact_bestMatch member bare

/-- An integer is preferred to a list and a list to free text; and of two results the later one
is the best match, since it captures nothing. -/
theorem bestMatch?_eq_first_unbeaten_lamp :
    (MatchResult.mk "" "" [("n", ⟨"2", .integer⟩)] 0 1).compare ⟨"", "", [("n", ⟨"2", .any⟩)], 0, 9⟩ =
      .lt ∧
    ∃ model, (new "en-US" .empty).addIntent "open" ["open {thing}", "open lamp"] = .ok model ∧
      (model.findMatches "Open lamp!").map (fun result => result.entities.length) = [1, 0] ∧
      ∃ best, model.bestMatch? "Open lamp!" = some best ∧ best.entities = [] := by
  have integer : (MatchResult.mk "" "" [("n", ⟨"2", .integer⟩)] 0 1).compare
      ⟨"", "", [("n", ⟨"2", .list⟩)], 0, 1⟩ = .lt := by
    decide
  have list : (MatchResult.mk "" "" [("n", ⟨"2", .list⟩)] 0 1).compare
      ⟨"", "", [("n", ⟨"2", .any⟩)], 0, 9⟩ = .lt := by
    decide
  have found : ((new "en-US" .empty).addIntent "open" ["open {thing}", "open lamp"]).map
      (fun model => (model.findMatches "Open lamp!").map fun result => result.entities.length) =
        .ok [1, 0] := by
    decide +kernel
  obtain ⟨model, added, lengths⟩ := exists_of_map_eq_ok found
  obtain ⟨exact, member, bare⟩ := List.mem_map.1 (lengths ▸ (by simp : 0 ∈ [1, 0]))
  refine ⟨?_, model, added, lengths, ?_⟩
  · rw [bestMatch?_eq_first_unbeaten.2.2.1 _ _ _ (by rw [integer]; decide)
      (by rw [list]; decide), integer]
    rfl
  · exact (bestMatch?_eq_first_unbeaten.2.2.2 model "Open lamp!").2.2 (.addIntent (.new ..) added)
      ⟨exact, member, List.length_eq_zero_iff.1 bare⟩

end Model

end Phrasebook
