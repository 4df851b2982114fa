import Mathlib.Data.List.Chain
import Phrasebook.Proofs.TemplateMarks

/-! The canonical form of a template.

Signs that templates drop are not printed, but a space that is due is printed before them, and
they keep a bracket from seeing the slot after it. What is printed for a template is therefore
not always what is printed for it without these signs. Printing once more makes up for that: the
result is the canonical form, which is printed as it is.
-/

set_option autoImplicit false

namespace Phrasebook.Template

open Text Part

variable {o : Orthography} {language : Language} {started pending : Bool} {mark : Mark}
  {rest : List Mark}

theorem Mark.isBlank_or_isDropped_or_isKept (o : Orthography) (mark : Mark) :
    mark.isBlank o = true ∨ (mark.isBlank o = false ∧ mark.isDropped o = true) ∨
      mark.isKept o = true := by
  cases blank : mark.isBlank o <;> cases dropped : mark.isDropped o <;>
    simp [isKept, blank, dropped]

theorem Mark.isKept_iff :
    mark.isKept o = true ↔ mark.isBlank o = false ∧ mark.isDropped o = false := by
  simp [isKept]

theorem Mark.isBlank_space (o : Orthography) : (char ' ').isBlank o = true := o.isSpace_space

theorem Mark.not_isDropped_of_isBlank (blank : mark.isBlank (.ofLanguage language) = true) :
    mark.isDropped (.ofLanguage language) = false := by
  cases mark with
  | slot name => rfl
  | char c =>
    rw [← Bool.not_eq_true]
    intro dropped
    have solid := Orthography.not_isSpace_of_isPatternPunctuation language dropped
    rw [isBlank, solid] at blank
    simp at blank

/-! What lowering keeps of a mark. -/

namespace Mark

theorem lowered_ne_nil (mark : Mark) : mark.lowered ≠ [] := by
  cases mark with
  | slot name => simp [lowered]
  | char c => simp [lowered, lowerChar_ne_nil]

theorem isSlot_of_mem_lowered {lower : Mark} (member : lower ∈ mark.lowered) :
    lower.isSlot = mark.isSlot := by
  cases mark with
  | slot name => rw [List.mem_singleton.1 member]
  | char c =>
    obtain ⟨d, -, rfl⟩ := List.mem_map.1 member
    rfl

/-- What is lowered is kept, and lowering it again changes nothing. -/
theorem isKept_of_mem_lowered {lower : Mark} (kept : mark.isKept (.ofLanguage language) = true)
    (member : lower ∈ mark.lowered) :
    lower.isKept (.ofLanguage language) = true ∧ lower.lowered = [lower] := by
  cases mark with
  | slot name =>
    rw [List.mem_singleton.1 member]
    exact ⟨rfl, rfl⟩
  | char c =>
    obtain ⟨d, listed, rfl⟩ := List.mem_map.1 member
    obtain ⟨solid, undropped⟩ := isKept_iff.1 kept
    have blank := not_of_mem_lowerChar (fun _ => Orthography.isCaseless_of_isSpace language) solid
      listed
    have sign := not_of_mem_lowerChar
      (fun _ => Orthography.isCaseless_of_isPatternPunctuation language) undropped listed
    refine ⟨isKept_iff.2 ⟨blank, sign⟩, ?_⟩
    rw [lowered, lowerChar_of_mem_lowerChar listed]
    rfl

theorem lowered_closer : (char ']').lowered = [char ']'] := by decide +kernel

theorem ne_closer_of_mem_lowered {lower : Mark} (other : mark ≠ char ']')
    (member : lower ∈ mark.lowered) : lower ≠ char ']' := by
  rintro rfl
  cases mark with
  | slot name => simp [lowered] at member
  | char c =>
    obtain ⟨d, listed, same⟩ := List.mem_map.1 member
    cases same
    exact other (congrArg char (eq_of_mem_lowerChar listed (by decide)).symm)

end Mark

/-! Printing again. -/

/-- The marks without the signs that templates drop. -/
def undropped (o : Orthography) (marks : List Mark) : List Mark :=
  marks.filter fun mark => !mark.isDropped o

theorem undropped_cons_of_isDropped (dropped : mark.isDropped o = true) (rest : List Mark) :
    undropped o (mark :: rest) = undropped o rest :=
  List.filter_cons_of_neg (by simp [dropped])

theorem undropped_cons (kept : mark.isDropped o = false) (rest : List Mark) :
    undropped o (mark :: rest) = mark :: undropped o rest :=
  List.filter_cons_of_pos (by simp [kept])

theorem undropped_undropped (o : Orthography) (marks : List Mark) :
    undropped o (undropped o marks) = undropped o marks := by
  simp [undropped]

theorem slotComes_of_isBlank (blank : mark.isBlank o = true) (rest : List Mark) :
    slotComes o (mark :: rest) = slotComes o rest := by
  rw [slotComes, List.find?_cons_of_neg (by simp [blank])]
  rfl

theorem slotComes_of_solid (solid : mark.isBlank o = false) (rest : List Mark) :
    slotComes o (mark :: rest) = mark.isSlot := by
  rw [slotComes, List.find?_cons_of_pos (by simp [solid])]
  rfl

theorem slotComes_spaceBefore (o : Orthography) (started pending : Bool) (rest : List Mark) :
    slotComes o (spaceBefore o started pending ++ rest) = slotComes o rest := by
  unfold spaceBefore
  split
  · exact slotComes_of_isBlank (Mark.isBlank_space o) rest
  · rfl

theorem slotComes_lowered (kept : mark.isKept (.ofLanguage language) = true) (rest : List Mark) :
    slotComes (.ofLanguage language) (mark.lowered ++ rest) = mark.isSlot := by
  obtain ⟨first, others, eq⟩ := List.exists_cons_of_ne_nil mark.lowered_ne_nil
  have member : first ∈ mark.lowered := eq ▸ List.mem_cons_self ..
  have solid := (Mark.isKept_iff.1 (Mark.isKept_of_mem_lowered kept member).1).1
  rw [eq, List.cons_append, slotComes_of_solid solid, Mark.isSlot_of_mem_lowered member]

/-- A slot comes in what is printed if it comes once the signs are gone. -/
theorem slotComes_print (started pending : Bool) (marks : List Mark) :
    slotComes (.ofLanguage language) (print (.ofLanguage language) started pending marks) =
      slotComes (.ofLanguage language) (undropped (.ofLanguage language) marks) := by
  induction marks generalizing started pending with
  | nil => rfl
  | cons mark rest ih =>
    rcases mark.isBlank_or_isDropped_or_isKept (.ofLanguage language) with
      blank | ⟨solid, dropped⟩ | kept
    · rw [print_of_isBlank blank, ih, undropped_cons (Mark.not_isDropped_of_isBlank blank),
        slotComes_of_isBlank blank]
    · rw [print_of_isDropped solid dropped, slotComes_spaceBefore, ih,
        undropped_cons_of_isDropped dropped]
    · obtain ⟨solid, undropped⟩ := Mark.isKept_iff.1 kept
      rw [print_of_isKept kept, slotComes_spaceBefore, List.append_assoc, slotComes_lowered kept,
        undropped_cons undropped, slotComes_of_solid solid]

/-- A slot that comes still comes once the signs are gone. -/
theorem slotComes_undropped (comes : slotComes (.ofLanguage language) rest = true) :
    slotComes (.ofLanguage language) (undropped (.ofLanguage language) rest) = true := by
  induction rest with
  | nil => exact comes
  | cons mark rest ih =>
    by_cases blank : mark.isBlank (.ofLanguage language) = true
    · rw [slotComes_of_isBlank blank] at comes
      rw [undropped_cons (Mark.not_isDropped_of_isBlank blank), slotComes_of_isBlank blank,
        ih comes]
    · rw [Bool.not_eq_true] at blank
      rw [slotComes_of_solid blank] at comes
      cases mark with
      | char c => simp [Mark.isSlot] at comes
      | slot name => rw [undropped_cons rfl, slotComes_of_solid rfl, comes]

theorem spaceBefore_idle (idle : (started && o.hasWordSpacing) = false) :
    spaceBefore o started pending = [] := by
  cases pending <;> simp_all [spaceBefore]

/-- Where no space can be due, whitespace makes no difference. -/
theorem print_idle (idle : (started && o.hasWordSpacing) = false) (marks : List Mark) :
    print o started true marks = print o started false marks := by
  cases marks with
  | nil => rfl
  | cons mark rest => rw [print, print, spaceBefore_idle idle, spaceBefore_idle idle]

/-- What is due before a space is due after it. -/
theorem print_spaceBefore (o : Orthography) (started pending before : Bool) (rest : List Mark) :
    print o started before (spaceBefore o started pending ++ rest) =
      print o started (before || pending) rest := by
  cases idle : started && o.hasWordSpacing with
  | false =>
    rw [spaceBefore_idle idle, List.nil_append]
    cases before <;> cases pending <;> simp [print_idle idle]
  | true =>
    obtain ⟨begun, spacing⟩ := Bool.and_eq_true_iff.1 idle
    cases pending with
    | false => rw [spaceBefore_settled, List.nil_append, Bool.or_false]
    | true =>
      have due : spaceBefore o started true = [.char ' '] := by simp [spaceBefore, begun, spacing]
      rw [due, List.singleton_append, print_of_isBlank (Mark.isBlank_space o), Bool.or_true]

/-- Kept marks that are lowered already are printed as they are. -/
theorem print_fixed_append {front : List Mark} (nonempty : front ≠ [])
    (kept : ∀ mark ∈ front, mark.isKept o = true ∧ mark.lowered = [mark])
    (unclosed : ∀ mark ∈ front, mark ≠ .char ']') (rest : List Mark) :
    print o started pending (front ++ rest) =
      spaceBefore o started pending ++ (front ++ print o true false rest) := by
  induction front generalizing started pending with
  | nil => exact absurd rfl nonempty
  | cons mark front ih =>
    obtain ⟨⟨first, same⟩, others⟩ := List.forall_mem_cons.1 kept
    obtain ⟨other, apart⟩ := List.forall_mem_cons.1 unclosed
    have onward : print o true false (front ++ rest) = front ++ print o true false rest := by
      by_cases last : front = []
      · rw [last]
        rfl
      · rw [ih last others apart, spaceBefore_settled, List.nil_append]
    rw [List.cons_append, print_of_isKept first, same, boundaryAfter,
      if_neg fun both => other both.1, onward]
    rfl

theorem print_lowered_append (kept : mark.isKept (.ofLanguage language) = true)
    (other : mark ≠ .char ']') (rest : List Mark) :
    print (.ofLanguage language) started pending (mark.lowered ++ rest) =
      spaceBefore (.ofLanguage language) started pending ++
        (mark.lowered ++ print (.ofLanguage language) true false rest) :=
  print_fixed_append mark.lowered_ne_nil (fun _ => Mark.isKept_of_mem_lowered kept)
    (fun _ => Mark.ne_closer_of_mem_lowered other) rest

theorem isKept_boundaryMark (language : Language) :
    (Mark.char boundaryMark).isKept (.ofLanguage language) = true ∧
      (Mark.char boundaryMark).lowered = [.char boundaryMark] := by
  refine ⟨?_, by decide +kernel⟩
  cases language <;> decide +kernel

theorem boundaryAfter_of_ne_closer (other : mark ≠ .char ']') (rest : List Mark) :
    boundaryAfter o mark rest = [] :=
  if_neg fun both => other both.1

theorem boundaryAfter_of_slotComes (comes : slotComes o rest = true) :
    boundaryAfter o (.char ']') rest = [.char boundaryMark] :=
  if_pos ⟨rfl, comes⟩

theorem boundaryAfter_of_not_slotComes (absent : slotComes o rest = false) :
    boundaryAfter o (.char ']') rest = [] :=
  if_neg fun both => by simp [absent] at both

/-- A bracket and its mark are printed as they are, and the bracket gets its mark if the signs
that were left out stood before a slot. -/
theorem print_closer_boundary (marks : List Mark)
    (onward : print (.ofLanguage language) true false
        (print (.ofLanguage language) true false marks) =
      print (.ofLanguage language) true false (undropped (.ofLanguage language) marks)) :
    boundaryAfter (.ofLanguage language) (.char ']')
        (boundaryAfter (.ofLanguage language) (.char ']') marks ++
          print (.ofLanguage language) true false marks) ++
      print (.ofLanguage language) true false
        (boundaryAfter (.ofLanguage language) (.char ']') marks ++
          print (.ofLanguage language) true false marks) =
      boundaryAfter (.ofLanguage language) (.char ']') (undropped (.ofLanguage language) marks) ++
        print (.ofLanguage language) true false (undropped (.ofLanguage language) marks) := by
  cases comes : slotComes (.ofLanguage language) marks with
  | true =>
    obtain ⟨kept, same⟩ := isKept_boundaryMark language
    -- No slot comes right after the bracket any more, since the mark is there.
    have apart : slotComes (.ofLanguage language) (.char boundaryMark ::
        print (.ofLanguage language) true false marks) = false :=
      slotComes_of_solid (Mark.isKept_iff.1 kept).1 _
    rw [boundaryAfter_of_slotComes comes, boundaryAfter_of_slotComes (slotComes_undropped comes),
      List.singleton_append, boundaryAfter_of_not_slotComes apart, print_of_isKept kept, same,
      boundaryAfter_of_ne_closer (by decide), spaceBefore_settled, onward]
    rfl
  | false =>
    rw [boundaryAfter_of_not_slotComes comes, List.nil_append, onward, boundaryAfter,
      slotComes_print, boundaryAfter]

/-- Printing what is printed is printing without the signs that templates drop. -/
theorem print_print (started before pending : Bool) (marks : List Mark) :
    print (.ofLanguage language) started before
        (print (.ofLanguage language) started pending marks) =
      print (.ofLanguage language) started (before || pending)
        (undropped (.ofLanguage language) marks) := by
  induction marks generalizing started before pending with
  | nil => cases before <;> cases pending <;> rfl
  | cons mark rest ih =>
    rcases mark.isBlank_or_isDropped_or_isKept (.ofLanguage language) with
      blank | ⟨solid, dropped⟩ | kept
    · rw [print_of_isBlank blank, ih, undropped_cons (Mark.not_isDropped_of_isBlank blank),
        print_of_isBlank blank, Bool.or_true]
    · rw [print_of_isDropped solid dropped, print_spaceBefore, ih, Bool.or_false,
        undropped_cons_of_isDropped dropped]
    · have onward := ih true false false
      rw [Bool.or_false] at onward
      rw [print_of_isKept kept, print_spaceBefore, undropped_cons (Mark.isKept_iff.1 kept).2,
        print_of_isKept kept, List.append_assoc]
      -- Only a bracket looks at what comes after it.
      by_cases closes : mark = .char ']'
      · subst closes
        rw [Mark.lowered_closer, List.singleton_append, print_of_isKept kept, Mark.lowered_closer,
          List.append_assoc, List.append_assoc, print_closer_boundary rest onward]
      · rw [print_lowered_append kept closes, boundaryAfter_of_ne_closer closes,
          boundaryAfter_of_ne_closer closes, List.nil_append, onward, List.append_nil]

/-- What is printed once the signs that templates drop are gone. -/
def canonical (o : Orthography) (marks : List Mark) : List Mark := printed o (undropped o marks)

theorem printed_printed (language : Language) (marks : List Mark) :
    printed (.ofLanguage language) (printed (.ofLanguage language) marks) =
      canonical (.ofLanguage language) marks :=
  print_print false false false marks

/-- The canonical form is printed as it is. -/
theorem printed_canonical (language : Language) (marks : List Mark) :
    printed (.ofLanguage language) (canonical (.ofLanguage language) marks) =
      canonical (.ofLanguage language) marks := by
  rw [canonical, printed_printed, canonical, undropped_undropped]

/-! What a printed template looks like. -/

theorem mem_print {marks : List Mark} (member : mark ∈ print o started pending marks) :
    (mark = .char ' ' ∧ o.hasWordSpacing = true) ∨ mark = .char boundaryMark ∨
      ∃ source ∈ marks, source.isKept o = true ∧ mark ∈ source.lowered := by
  induction marks generalizing started pending with
  | nil => simp [print] at member
  | cons first rest ih =>
    have later {begun due : Bool} (inside : mark ∈ print o begun due rest) :
        (mark = .char ' ' ∧ o.hasWordSpacing = true) ∨ mark = .char boundaryMark ∨
          ∃ source ∈ first :: rest, source.isKept o = true ∧ mark ∈ source.lowered := by
      refine (ih inside).imp_right (Or.imp_right fun read => ?_)
      obtain ⟨source, listed, kept, lower⟩ := read
      exact ⟨source, List.mem_cons_of_mem _ listed, kept, lower⟩
    have spaced (due : mark ∈ spaceBefore o started pending) :
        mark = .char ' ' ∧ o.hasWordSpacing = true := by
      unfold spaceBefore at due
      split at due
      · next spacing => exact ⟨List.mem_singleton.1 due, (Bool.and_eq_true_iff.1 spacing).2⟩
      · simp at due
    rcases first.isBlank_or_isDropped_or_isKept o with blank | ⟨solid, dropped⟩ | kept
    · rw [print_of_isBlank blank] at member
      exact later member
    · rw [print_of_isDropped solid dropped] at member
      rcases List.mem_append.1 member with due | member
      · exact .inl (spaced due)
      · exact later member
    · rw [print_of_isKept kept] at member
      rcases List.mem_append.1 member with due | member
      · exact .inl (spaced due)
      rcases List.mem_append.1 member with member | member
      · rcases List.mem_append.1 member with lower | bounded
        · exact .inr (.inr ⟨first, List.mem_cons_self .., kept, lower⟩)
        · unfold boundaryAfter at bounded
          split at bounded
          · exact .inr (.inl (List.mem_singleton.1 bounded))
          · simp at bounded
      · exact later member

theorem isReadable_of_mem_printed {marks : List Mark} (readable : ∀ mark ∈ marks, mark.IsReadable)
    (member : mark ∈ printed (.ofLanguage language) marks) : mark.IsReadable := by
  rcases mem_print member with ⟨rfl, -⟩ | rfl | ⟨source, listed, -, lower⟩
  · exact show ' ' ≠ '{' by decide
  · exact show boundaryMark ≠ '{' by decide
  · have known := readable source listed
    cases source with
    | slot name => rwa [List.mem_singleton.1 lower]
    | char c =>
      obtain ⟨d, lowered, rfl⟩ := List.mem_map.1 lower
      rintro rfl
      exact known (eq_of_mem_lowerChar lowered (by decide)).symm

/-- No sign that templates drop, no whitespace but spaces where words have spaces between them,
and none at the front. -/
structure IsStripped (o : Orthography) (marks : List Mark) : Prop where
  sign : ∀ mark ∈ marks, mark.isDropped o = false
  space : ∀ mark ∈ marks, mark.isBlank o = true → mark = .char ' ' ∧ o.hasWordSpacing = true
  head : ∀ mark, marks.head? = some mark → mark.isBlank o = false

/-- Only single spaces, and none at the end. -/
structure IsSpaced (o : Orthography) (marks : List Mark) : Prop where
  single : marks.IsChain fun first second => first.isBlank o = true → second.isBlank o = false
  last : ∀ mark, marks.getLast? = some mark → mark.isBlank o = false

structure IsCanonical (o : Orthography) (marks : List Mark) : Prop
    extends IsStripped o marks, IsSpaced o marks

/-- Nothing that is printed first is whitespace. -/
theorem head?_print {marks : List Mark} {first : Mark}
    (head : (print (.ofLanguage language) false pending marks).head? = some first) :
    first.isBlank (.ofLanguage language) = false := by
  induction marks generalizing pending with
  | nil => simp [print] at head
  | cons mark rest ih =>
    rcases mark.isBlank_or_isDropped_or_isKept (.ofLanguage language) with
      blank | ⟨solid, dropped⟩ | kept
    · rw [print_of_isBlank blank] at head
      exact ih head
    · rw [print_of_isDropped solid dropped, spaceBefore_idle rfl] at head
      exact ih head
    · obtain ⟨lower, others, eq⟩ := List.exists_cons_of_ne_nil mark.lowered_ne_nil
      rw [print_of_isKept kept, spaceBefore_idle rfl, eq] at head
      cases head
      have member : first ∈ mark.lowered := eq ▸ List.mem_cons_self ..
      exact (Mark.isKept_iff.1 (Mark.isKept_of_mem_lowered kept member).1).1

theorem isStripped_printed (language : Language) (marks : List Mark) :
    IsStripped (.ofLanguage language) (printed (.ofLanguage language) marks) := by
  have kind (mark : Mark) (member : mark ∈ printed (.ofLanguage language) marks) :
      (mark = .char ' ' ∧ (Orthography.ofLanguage language).hasWordSpacing = true) ∨
        mark.isKept (.ofLanguage language) = true := by
    rcases mem_print member with space | rfl | ⟨source, -, kept, lower⟩
    · exact .inl space
    · exact .inr (isKept_boundaryMark language).1
    · exact .inr (Mark.isKept_of_mem_lowered kept lower).1
  constructor
  · intro mark member
    rcases kind mark member with ⟨rfl, -⟩ | kept
    · exact Mark.not_isDropped_of_isBlank (Mark.isBlank_space _)
    · exact (Mark.isKept_iff.1 kept).2
  · intro mark member blank
    refine (kind mark member).resolve_right fun kept => ?_
    simp [(Mark.isKept_iff.1 kept).1] at blank
  · exact fun _ head => head?_print head

theorem IsSpaced.solid_append {front : List Mark} (solid : ∀ mark ∈ front, mark.isBlank o = false)
    (spaced : IsSpaced o rest) : IsSpaced o (front ++ rest) := by
  induction front with
  | nil => exact spaced
  | cons mark front ih =>
    obtain ⟨first, others⟩ := List.forall_mem_cons.1 solid
    obtain ⟨single, last⟩ := ih others
    refine ⟨List.isChain_cons.2 ⟨fun _ _ blank => by simp [first] at blank, single⟩, ?_⟩
    intro ending ends
    rw [List.cons_append, List.getLast?_cons] at ends
    cases stop : (front ++ rest).getLast? with
    | none =>
      rw [stop] at ends
      exact Option.some.inj ends ▸ first
    | some found =>
      rw [stop] at ends
      exact Option.some.inj ends ▸ last found stop

theorem IsSpaced.spaceBefore_append (spaced : IsSpaced o (mark :: rest))
    (solid : mark.isBlank o = false) :
    IsSpaced o (spaceBefore o started pending ++ mark :: rest) := by
  unfold spaceBefore
  split
  · refine ⟨List.isChain_cons.2 ⟨?_, spaced.single⟩, fun ending ends => spaced.last ending ?_⟩
    · intro next head _
      cases head
      exact solid
    · simpa using ends
  · exact spaced

/-- Without the signs that templates drop, a space that is printed stands before a kept mark. -/
theorem isSpaced_print_undropped (language : Language) (started pending : Bool)
    (marks : List Mark) :
    IsSpaced (.ofLanguage language)
      (print (.ofLanguage language) started pending
        (undropped (.ofLanguage language) marks)) := by
  induction marks generalizing started pending with
  | nil => exact ⟨List.isChain_nil, by simp [undropped, print]⟩
  | cons mark rest ih =>
    rcases mark.isBlank_or_isDropped_or_isKept (.ofLanguage language) with
      blank | ⟨-, dropped⟩ | kept
    · rw [undropped_cons (Mark.not_isDropped_of_isBlank blank), print_of_isBlank blank]
      exact ih started true
    · rw [undropped_cons_of_isDropped dropped]
      exact ih started pending
    · have lowered : ∀ lower ∈ mark.lowered, lower.isBlank (.ofLanguage language) = false :=
        fun lower member => (Mark.isKept_iff.1 (Mark.isKept_of_mem_lowered kept member).1).1
      have bounded : ∀ other ∈
          boundaryAfter (.ofLanguage language) mark (undropped (.ofLanguage language) rest),
          other.isBlank (.ofLanguage language) = false := by
        intro other member
        unfold boundaryAfter at member
        split at member
        · rw [List.mem_singleton.1 member]
          exact (Mark.isKept_iff.1 (isKept_boundaryMark language).1).1
        · simp at member
      -- A space is only written with the kept mark that it stands before.
      have spaced := ((ih true false).solid_append bounded).solid_append lowered
      rw [undropped_cons (Mark.isKept_iff.1 kept).2, print_of_isKept kept, List.append_assoc]
      obtain ⟨first, others, eq⟩ := List.exists_cons_of_ne_nil mark.lowered_ne_nil
      rw [eq, List.cons_append] at spaced ⊢
      exact spaced.spaceBefore_append (lowered first (eq ▸ List.mem_cons_self ..))

theorem isCanonical_canonical (language : Language) (marks : List Mark) :
    IsCanonical (.ofLanguage language) (canonical (.ofLanguage language) marks) :=
  ⟨isStripped_printed language _, isSpaced_print_undropped language false false marks⟩

end Phrasebook.Template
