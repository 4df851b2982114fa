import Mathlib.Logic.Relation
import Phrasebook.Proofs.CanonicalMarks

/-! Templates that are typed in different ways.

A template is tidy if the signs that templates drop make no difference to what is printed for
it: then it is printed in its canonical form. The canonical form does not change with whitespace
for whitespace, case, or signs that are dropped.
-/

set_option autoImplicit false

namespace Phrasebook.Template

open Text Part

variable {o : Orthography} {language : Language} {started pending : Bool} {mark : Mark}
  {rest : List Mark}

/-! Tidy templates are printed in their canonical form, and no others. -/

/-- The signs that templates drop make no difference: where a space is due before one, something
that is kept comes after the signs, and none keeps a bracket from seeing a slot. -/
def isTidy (o : Orthography) (started pending : Bool) : List Mark → Bool
  | [] => true
  | mark :: rest =>
    if mark.isBlank o then isTidy o started true rest
    else if mark.isDropped o then
      !(started && pending && o.hasWordSpacing &&
          (undropped o rest).head?.all (Mark.isBlank o)) &&
        isTidy o started false rest
    else
      (mark != .char ']' || slotComes o rest || !slotComes o (undropped o rest)) &&
        isTidy o true false rest

def IsTidy (o : Orthography) (marks : List Mark) : Prop := isTidy o false false marks = true

instance (o : Orthography) (marks : List Mark) : Decidable (IsTidy o marks) :=
  inferInstanceAs (Decidable (_ = true))

/-- How many spaces there are for each mark of a boundary. -/
def excess (marks : List Mark) : Int :=
  marks.count (.char ' ') - marks.count (.char boundaryMark)

theorem excess_append (first second : List Mark) :
    excess (first ++ second) = excess first + excess second := by
  simp only [excess, List.count_append]
  omega

/-- Two printed forms are the same, or the first has a space too many or lacks a boundary. -/
def Agrees (tidy : Bool) (first second : List Mark) : Prop :=
  if tidy then first = second else excess second < excess first

namespace Agrees

variable {tidy : Bool} {first second : List Mark}

theorem excess_le (agrees : Agrees tidy first second) : excess second ≤ excess first := by
  cases tidy with
  | true => exact Int.le_of_eq (congrArg excess (Eq.symm agrees))
  | false => exact Int.le_of_lt agrees

theorem append_left (agrees : Agrees tidy first second) (front : List Mark) :
    Agrees tidy (front ++ first) (front ++ second) := by
  cases tidy with
  | true => exact congrArg (front ++ ·) agrees
  | false =>
    have less : excess second < excess first := agrees
    have more : excess (front ++ second) < excess (front ++ first) := by
      rw [excess_append, excess_append]
      omega
    exact more

end Agrees

/-- Without a mark that is kept, what is due makes no difference. -/
theorem print_of_head?_isBlank {marks : List Mark}
    (blank : marks.head?.all (Mark.isBlank o) = true) :
    print o started pending marks = print o started false marks := by
  cases marks with
  | nil => rfl
  | cons mark rest => rw [print_of_isBlank blank, print_of_isBlank blank]

/-- What is due before a sign that is dropped is printed too early unless a kept mark follows. -/
theorem Agrees.of_dropped {tidy : Bool} {kept : List Mark}
    (onward : Agrees tidy (print o started false rest) (print o started false kept)) :
    Agrees (!(started && pending && o.hasWordSpacing && kept.head?.all (Mark.isBlank o)) && tidy)
      (spaceBefore o started pending ++ print o started false rest)
      (print o started pending kept) := by
  by_cases due : (started && pending && o.hasWordSpacing) = true
  · have space : spaceBefore o started pending = [.char ' '] := if_pos due
    rw [due, Bool.true_and]
    cases gap : kept.head?.all (Mark.isBlank o) with
    | true =>
      -- The space has been written, and what comes next would not have called for it.
      have less : excess (print o started pending kept) <
          excess (spaceBefore o started pending ++ print o started false rest) := by
        have bounded := onward.excess_le
        have one : excess [.char ' '] = 1 := by decide
        rw [print_of_head?_isBlank gap, space, excess_append, one]
        omega
      exact less
    | false =>
      obtain ⟨mark, others, rfl⟩ : ∃ mark others, kept = mark :: others :=
        List.exists_cons_of_ne_nil (by rintro rfl; simp at gap)
      rw [print_settle (by simpa using gap)]
      exact onward.append_left _
  · rw [Bool.not_eq_true] at due
    have none_ : spaceBefore o started pending = [] := if_neg (by simp [due])
    have same : print o started pending kept = print o started false kept := by
      cases pending with
      | false => rfl
      | true => exact print_idle (by simpa using due) kept
    rw [none_, same, due]
    exact onward

/-- A bracket lacks its mark where a sign that is dropped stands between it and a slot. -/
theorem Agrees.of_kept {tidy : Bool}
    (onward : Agrees tidy (print (.ofLanguage language) true false rest)
      (print (.ofLanguage language) true false (undropped (.ofLanguage language) rest))) :
    Agrees ((mark != .char ']' || slotComes (.ofLanguage language) rest ||
        !slotComes (.ofLanguage language) (undropped (.ofLanguage language) rest)) && tidy)
      (boundaryAfter (.ofLanguage language) mark rest ++
        print (.ofLanguage language) true false rest)
      (boundaryAfter (.ofLanguage language) mark (undropped (.ofLanguage language) rest) ++
        print (.ofLanguage language) true false (undropped (.ofLanguage language) rest)) := by
  by_cases closes : mark = .char ']'
  · subst closes
    cases comes : slotComes (.ofLanguage language) rest with
    | true =>
      rw [boundaryAfter_of_slotComes comes, boundaryAfter_of_slotComes (slotComes_undropped comes)]
      simpa using onward.append_left [.char boundaryMark]
    | false =>
      rw [boundaryAfter_of_not_slotComes comes]
      cases later : slotComes (.ofLanguage language) (undropped (.ofLanguage language) rest) with
      | true =>
        have less : excess ([.char boundaryMark] ++ print (.ofLanguage language) true false
              (undropped (.ofLanguage language) rest)) <
            excess ([] ++ print (.ofLanguage language) true false rest) := by
          have bounded := onward.excess_le
          have one : excess [.char boundaryMark] = -1 := by decide
          rw [List.nil_append, excess_append, one]
          omega
        rw [boundaryAfter_of_slotComes later]
        exact less
      | false =>
        rw [boundaryAfter_of_not_slotComes later]
        simpa using onward
  · rw [boundaryAfter_of_ne_closer closes, boundaryAfter_of_ne_closer closes]
    rw [bne_iff_ne.2 closes]
    simpa using onward

/-- A template that is not tidy prints a space too many or lacks the mark of a boundary. -/
theorem agrees_print (started pending : Bool) (marks : List Mark) :
    Agrees (isTidy (.ofLanguage language) started pending marks)
      (print (.ofLanguage language) started pending marks)
      (print (.ofLanguage language) started pending (undropped (.ofLanguage language) marks)) := by
  induction marks generalizing started pending with
  | nil => exact rfl
  | cons mark rest ih =>
    rcases mark.isBlank_or_isDropped_or_isKept (.ofLanguage language) with
      blank | ⟨solid, dropped⟩ | kept
    · rw [undropped_cons (Mark.not_isDropped_of_isBlank blank), print_of_isBlank blank,
        print_of_isBlank blank, isTidy, if_pos blank]
      exact ih started true
    · rw [undropped_cons_of_isDropped dropped, print_of_isDropped solid dropped, isTidy,
        if_neg (by simp [solid]), if_pos dropped]
      exact Agrees.of_dropped (ih started false)
    · obtain ⟨solid, undropped⟩ := Mark.isKept_iff.1 kept
      rw [undropped_cons undropped, print_of_isKept kept, print_of_isKept kept, isTidy,
        if_neg (by simp [solid]), if_neg (by simp [undropped]), List.append_assoc,
        List.append_assoc]
      exact ((Agrees.of_kept (ih true false)).append_left _).append_left _

theorem printed_eq_canonical_iff (language : Language) (marks : List Mark) :
    printed (.ofLanguage language) marks = canonical (.ofLanguage language) marks ↔
      IsTidy (.ofLanguage language) marks := by
  have agrees : Agrees (isTidy (.ofLanguage language) false false marks)
      (printed (.ofLanguage language) marks) (canonical (.ofLanguage language) marks) :=
    agrees_print false false marks
  rw [IsTidy]
  cases tidy : isTidy (.ofLanguage language) false false marks with
  | true =>
    rw [tidy] at agrees
    exact iff_of_true agrees rfl
  | false =>
    rw [tidy] at agrees
    have less : excess (canonical (.ofLanguage language) marks) <
        excess (printed (.ofLanguage language) marks) := agrees
    refine iff_of_false (fun same => ?_) (by simp)
    rw [same] at less
    omega

/-! What the canonical form does not depend on. -/

/-- One change of a template that leaves its words as they are. -/
inductive Restyles (o : Orthography) : List Mark → List Mark → Prop where
  /-- A sign that templates drop is left out. -/
  | sign (front rest : List Mark) {mark : Mark} : mark.isDropped o = true →
      Restyles o (front ++ mark :: rest) (front ++ rest)
  /-- Other whitespace stands in the place of whitespace. -/
  | space (front rest : List Mark) {blanks others : List Mark} : blanks ≠ [] → others ≠ [] →
      (∀ mark ∈ blanks, mark.isBlank o = true) → (∀ mark ∈ others, mark.isBlank o = true) →
      Restyles o (front ++ (blanks ++ rest)) (front ++ (others ++ rest))
  /-- A character is lowered. -/
  | case (front rest : List Mark) (c : Char) :
      Restyles o (front ++ .char c :: rest) (front ++ ((Mark.char c).lowered ++ rest))
  | leading (rest : List Mark) {mark : Mark} : mark.isBlank o = true →
      Restyles o (mark :: rest) rest
  | trailing (front : List Mark) {mark : Mark} : mark.isBlank o = true →
      Restyles o (front ++ [mark]) front
  /-- In a language without word spacing all whitespace can be left out. -/
  | unspaced (front rest : List Mark) {mark : Mark} : o.hasWordSpacing = false →
      mark.isBlank o = true → Restyles o (front ++ mark :: rest) (front ++ rest)

/-- Templates that differ in whitespace, case and signs that templates drop. -/
def IsAlike (o : Orthography) : List Mark → List Mark → Prop := Relation.EqvGen (Restyles o)

/-- Two endings of a template that print alike after anything. -/
structure PrintsAlike (o : Orthography) (first second : List Mark) : Prop where
  print : ∀ started pending, print o started pending first = print o started pending second
  slotComes : slotComes o first = slotComes o second

namespace PrintsAlike

variable {first second : List Mark}

theorem refl (marks : List Mark) : PrintsAlike o marks marks := ⟨fun _ _ => rfl, rfl⟩

theorem cons (alike : PrintsAlike o first second) (mark : Mark) :
    PrintsAlike o (mark :: first) (mark :: second) := by
  constructor
  · intro started pending
    simp only [Template.print, boundaryAfter, alike.print, alike.slotComes]
  · by_cases blank : mark.isBlank o = true
    · rw [slotComes_of_isBlank blank, slotComes_of_isBlank blank, alike.slotComes]
    · rw [Bool.not_eq_true] at blank
      rw [slotComes_of_solid blank, slotComes_of_solid blank]

theorem append_left (alike : PrintsAlike o first second) (front : List Mark) :
    PrintsAlike o (front ++ first) (front ++ second) := by
  induction front with
  | nil => exact alike
  | cons mark front ih => exact ih.cons mark

theorem of_blanks {blanks others : List Mark} (nonempty : blanks ≠ []) (another : others ≠ [])
    (blank : ∀ mark ∈ blanks, mark.isBlank o = true)
    (other : ∀ mark ∈ others, mark.isBlank o = true) (rest : List Mark) :
    PrintsAlike o (blanks ++ rest) (others ++ rest) := by
  have printed {run : List Mark} (some_ : run ≠ []) (blank : ∀ mark ∈ run, mark.isBlank o = true)
      (started pending : Bool) :
      Template.print o started pending (run ++ rest) = Template.print o started true rest ∧
        Template.slotComes o (run ++ rest) = Template.slotComes o rest := by
    induction run generalizing pending with
    | nil => exact absurd rfl some_
    | cons mark run ih =>
      obtain ⟨first, others⟩ := List.forall_mem_cons.1 blank
      rw [List.cons_append, print_of_isBlank first, slotComes_of_isBlank first]
      by_cases last : run = []
      · rw [last]
        exact ⟨rfl, rfl⟩
      · exact ih last others true
  constructor
  · intro started pending
    rw [(printed nonempty blank started pending).1, (printed another other started pending).1]
  · rw [(printed nonempty blank false false).2, (printed another other false false).2]

/-- Whitespace at the end is never printed. -/
theorem of_forall_isBlank {blanks : List Mark} (blank : ∀ mark ∈ blanks, mark.isBlank o = true) :
    PrintsAlike o blanks [] := by
  induction blanks with
  | nil => exact refl []
  | cons mark blanks ih =>
    obtain ⟨first, others⟩ := List.forall_mem_cons.1 blank
    have further := ih others
    constructor
    · intro started pending
      rw [print_of_isBlank first, further.print]
      rfl
    · rw [slotComes_of_isBlank first, further.slotComes]

theorem of_lowered (language : Language) (c : Char) (rest : List Mark)
    (kept : (Mark.char c).isKept (.ofLanguage language) = true) :
    PrintsAlike (.ofLanguage language) (.char c :: rest) ((Mark.char c).lowered ++ rest) := by
  by_cases closes : Mark.char c = .char ']'
  · rw [closes, Mark.lowered_closer]
    exact refl _
  · constructor
    · intro started pending
      rw [print_of_isKept kept, print_lowered_append kept closes, boundaryAfter_of_ne_closer closes,
        List.append_nil]
    · rw [slotComes_of_solid (Mark.isKept_iff.1 kept).1, slotComes_lowered kept]

end PrintsAlike

theorem undropped_append (o : Orthography) (first second : List Mark) :
    undropped o (first ++ second) = undropped o first ++ undropped o second :=
  List.filter_append ..

theorem undropped_of_forall {marks : List Mark}
    (kept : ∀ mark ∈ marks, mark.isDropped o = false) : undropped o marks = marks :=
  List.filter_eq_self.2 fun mark member => by simp [kept mark member]

/-- A character that is no letter is its own lowercase form. -/
theorem lowered_of_not_isKept {c : Char}
    (other : (Mark.char c).isKept (.ofLanguage language) = false) :
    (Mark.char c).lowered = [.char c] := by
  have caseless : isCaseless c = true := by
    rcases (Mark.char c).isBlank_or_isDropped_or_isKept (.ofLanguage language) with
      blank | ⟨-, dropped⟩ | kept
    · exact Orthography.isCaseless_of_isSpace language blank
    · exact Orthography.isCaseless_of_isPatternPunctuation language dropped
    · simp [other] at kept
  rw [Mark.lowered, lowerChar_of_isCaseless caseless]
  rfl

theorem canonical_of_restyles {first second : List Mark}
    (restyled : Restyles (.ofLanguage language) first second) :
    canonical (.ofLanguage language) first = canonical (.ofLanguage language) second := by
  have after {one other : List Mark}
      (alike : PrintsAlike (.ofLanguage language) (undropped (.ofLanguage language) one)
        (undropped (.ofLanguage language) other)) (front : List Mark) :
      canonical (.ofLanguage language) (front ++ one) =
        canonical (.ofLanguage language) (front ++ other) := by
    rw [canonical, undropped_append, canonical, undropped_append]
    exact (alike.append_left _).print false false
  cases restyled with
  | sign front rest dropped =>
    -- The canonical form never sees the sign.
    refine after ?_ front
    rw [undropped_cons_of_isDropped dropped]
    exact .refl _
  | @space front rest blanks others nonempty another blank other =>
    refine after ?_ front
    rw [undropped_append, undropped_append,
      undropped_of_forall fun mark member => Mark.not_isDropped_of_isBlank (blank mark member),
      undropped_of_forall fun mark member => Mark.not_isDropped_of_isBlank (other mark member)]
    exact .of_blanks nonempty another blank other _
  | case front rest c =>
    refine after ?_ front
    cases kept : (Mark.char c).isKept (.ofLanguage language) with
    | false =>
      rw [lowered_of_not_isKept kept]
      exact .refl _
    | true =>
      rw [undropped_cons (Mark.isKept_iff.1 kept).2, undropped_append, undropped_of_forall
        fun lower member => (Mark.isKept_iff.1 (Mark.isKept_of_mem_lowered kept member).1).2]
      exact .of_lowered language c _ kept
  | leading _ blank =>
    rw [canonical, undropped_cons (Mark.not_isDropped_of_isBlank blank), printed,
      print_of_isBlank blank, print_idle rfl]
    rfl
  | @trailing _ mark blank =>
    have last : PrintsAlike (.ofLanguage language) (undropped (.ofLanguage language) [mark])
        (undropped (.ofLanguage language) []) := by
      rw [undropped_cons (Mark.not_isDropped_of_isBlank blank)]
      exact .of_forall_isBlank (List.forall_mem_singleton.2 blank)
    simpa using after last second
  | @unspaced front rest mark spacing blank =>
    refine after ?_ front
    rw [undropped_cons (Mark.not_isDropped_of_isBlank blank)]
    refine ⟨fun started pending => ?_, slotComes_of_isBlank blank _⟩
    rw [print_of_isBlank blank]
    cases pending with
    | true => rfl
    | false => exact print_idle (by simp [spacing]) _

/-- The canonical form depends on nothing else than the words. -/
theorem canonical_of_isAlike {first second : List Mark}
    (alike : IsAlike (.ofLanguage language) first second) :
    canonical (.ofLanguage language) first = canonical (.ofLanguage language) second := by
  induction alike with
  | rel _ _ restyled => exact canonical_of_restyles restyled
  | refl _ => rfl
  | symm _ _ _ ih => exact ih.symm
  | trans _ _ _ _ _ ih further => exact ih.trans further

end Phrasebook.Template
