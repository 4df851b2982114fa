import Phrasebook.Proofs.RegistrationOrder
import Phrasebook.Proofs.RestyledTemplates
import Phrasebook.Proofs.WrittenTemplates

/-! The canonical form of a phrase.

Compiling the written form of a pattern gives the canonical form of the phrase. A tidy phrase is
compiled to it at once, and phrases that differ in whitespace, case and signs that templates drop
have one canonical form, which an intent stores once.
-/

set_option autoImplicit false

namespace Phrasebook.Template

open Text Part

variable {language : Language} {phrase : String} {pattern : Pattern}

/-- The marks of the written form are what is printed for those of the phrase. -/
theorem marks_normalized (compiled : compile (.ofLanguage language) phrase = .ok pattern) :
    marks pattern.normalized = printed (.ofLanguage language) (marks (trim phrase.toList)) := by
  rw [normalized_eq compiled]
  refine marks_writeAll fun mark => isReadable_of_mem_printed fun source listed => ?_
  exact isReadable_of_mem_marksFrom (by simp) listed

theorem trim_concat {c : Char} (blank : isBlank c = true) (text : List Char) :
    trim (text ++ [c]) = trim text := by
  rw [trim, trim, List.dropWhile_append]
  split
  · next nothing =>
    rw [List.isEmpty_iff.1 nothing, List.dropWhile_cons_of_pos blank]
    rfl
  · rw [List.reverse_append, List.reverse_singleton, List.singleton_append,
      List.dropWhile_cons_of_pos blank]

theorem exists_write_cons {mark : Mark} (solid : mark.isBlank (.ofLanguage language) = false) :
    ∃ c rest, mark.write = c :: rest ∧ isBlank c = false := by
  cases mark with
  | char c => exact ⟨c, [], rfl, by rwa [Mark.isBlank, Orthography.isSpace_eq_isBlank] at solid⟩
  | slot name => exact ⟨'{', name ++ ['}'], rfl, by decide⟩

theorem exists_write_concat {mark : Mark} (solid : mark.isBlank (.ofLanguage language) = false) :
    ∃ front c, mark.write = front ++ [c] ∧ isBlank c = false := by
  cases mark with
  | char c => exact ⟨[], c, rfl, by rwa [Mark.isBlank, Orthography.isSpace_eq_isBlank] at solid⟩
  | slot name => exact ⟨'{' :: name, '}', rfl, by decide⟩

/-- Blanks at the end of what is written for marks are never printed. -/
theorem printed_trim_writeAll {written : List Mark} (readable : ∀ mark ∈ written, mark.IsReadable)
    (head : ∀ mark, written.head? = some mark → mark.isBlank (.ofLanguage language) = false) :
    printed (.ofLanguage language) (marks (trim (Mark.writeAll written))) =
      printed (.ofLanguage language) written := by
  induction written using List.reverseRecOn with
  | nil => rfl
  | append_singleton front mark ih =>
    cases blank : mark.isBlank (.ofLanguage language) with
    | true =>
      have further := ih (List.forall_mem_append.1 readable).1 fun first eq =>
        head first (by rw [List.head?_append, eq]; rfl)
      have unprinted := ((PrintsAlike.of_forall_isBlank
        (List.forall_mem_singleton.2 blank)).append_left front).print false false
      rw [List.append_nil] at unprinted
      cases mark with
      | slot name => cases blank
      | char c =>
        have same : trim (Mark.writeAll (front ++ [.char c])) = trim (Mark.writeAll front) := by
          rw [Mark.writeAll_append]
          exact trim_concat (by rwa [Mark.isBlank, Orthography.isSpace_eq_isBlank] at blank) _
        rw [same, further]
        exact unprinted.symm
    | false =>
      obtain ⟨first, others, whole⟩ : ∃ first others, front ++ [mark] = first :: others :=
        List.exists_cons_of_ne_nil (by simp)
      obtain ⟨c, after, starts, solid⟩ := exists_write_cons (head first (by rw [whole]; rfl))
      obtain ⟨before, d, ends, last⟩ := exists_write_concat blank
      have trimmed : trim (Mark.writeAll (front ++ [mark])) = Mark.writeAll (front ++ [mark]) := by
        refine trim_eq_self (fun e front_ => ?_) fun e back => ?_
        · rw [whole, Mark.writeAll_cons, starts] at front_
          cases front_
          exact solid
        · rw [Mark.writeAll_append, Mark.writeAll_cons, Mark.writeAll_nil, List.append_nil, ends,
            ← List.append_assoc, List.getLast?_concat] at back
          cases back
          exact last
      rw [trimmed, marks_writeAll readable]

/-- Compiling the written form gives the canonical form of the phrase. -/
theorem normalized_again {again : Pattern}
    (compiled : compile (.ofLanguage language) phrase = .ok pattern)
    (recompiled : compile (.ofLanguage language) (String.ofList pattern.normalized) = .ok again) :
    again.normalized =
      Mark.writeAll (canonical (.ofLanguage language) (marks (trim phrase.toList))) := by
  have readable : ∀ mark ∈ printed (.ofLanguage language) (marks (trim phrase.toList)),
      mark.IsReadable := fun mark member =>
    isReadable_of_mem_printed (fun source listed => isReadable_of_mem_marksFrom (by simp) listed)
      member
  rw [normalized_eq recompiled, String.toList_ofList, normalized_eq compiled,
    printed_trim_writeAll readable (isStripped_printed language _).head, printed_printed]

theorem isReadable_of_mem_canonical {mark : Mark} {text : List Char}
    (member : mark ∈ canonical (.ofLanguage language) (marks text)) : mark.IsReadable :=
  isReadable_of_mem_printed (fun source listed =>
    isReadable_of_mem_marksFrom (by simp) (List.mem_of_mem_filter listed)) member

/-- A pattern has its canonical form exactly if its phrase is tidy. -/
theorem normalized_eq_canonical_iff
    (compiled : compile (.ofLanguage language) phrase = .ok pattern) :
    pattern.normalized =
        Mark.writeAll (canonical (.ofLanguage language) (marks (trim phrase.toList))) ↔
      IsTidy (.ofLanguage language) (marks (trim phrase.toList)) := by
  rw [← printed_eq_canonical_iff]
  constructor
  · intro same
    rw [← marks_normalized compiled, same,
      marks_writeAll fun mark member => isReadable_of_mem_canonical member]
  · intro same
    rw [normalized_eq compiled, same]

/-- A phrase with the same form as one that is registered already is not registered again. -/
theorem exists_addIntent_again {other : String} {otherPattern : Pattern} {model : Model}
    {id : String} (written : model.orthography = .ofLanguage language)
    (compiled : compile (.ofLanguage language) phrase = .ok pattern)
    (compiledOther : compile (.ofLanguage language) other = .ok otherPattern)
    (same : otherPattern.normalized = pattern.normalized)
    (named : isBlankText id.toList = false) :
    ∃ next, model.addIntent id [phrase] = .ok next ∧ next.addIntent id [other] = .ok next := by
  have all {single : String} {form : Pattern}
      (compiles : compile (.ofLanguage language) single = .ok form) :
      Model.compileAll (.ofLanguage language) [single] = .ok [form] := by
    rw [Model.compileAll, List.mapM_cons, compiles]
    rfl
  have stored := model.holds_withPatterns id [pattern]
  refine ⟨model.withPatterns id [pattern], ?_, ?_⟩
  · exact Model.addIntent_eq_ok_iff.2 ⟨named, [pattern], written ▸ all compiled, rfl⟩
  · refine Model.addIntent_eq_ok_iff.2 ⟨named, [otherPattern], written ▸ all compiledOther, ?_⟩
    -- The form is there, and what is there is not added again.
    obtain ⟨intent, present, covers⟩ := stored
    refine (Model.withPatterns_of_holds ⟨intent, present, ?_⟩).symm
    exact List.forall_mem_singleton.2 (same ▸ covers pattern (List.mem_cons_self ..))

/-- Every phrase that compiles has a canonical form, which compiling its written form again
gives. A phrase has it at once exactly if it is tidy, and tidy phrases that differ in whitespace,
case and signs that templates drop have the same. -/
theorem exists_canonical_of_compile (language : Language) {phrase : String} {pattern : Pattern}
    (compiled : compile (.ofLanguage language) phrase = .ok pattern) :
    IsStripped (.ofLanguage language) (marks pattern.normalized) ∧
    (language = .japanese ∨ language = .chinese →
      ∀ mark ∈ marks pattern.normalized, mark.isBlank (.ofLanguage language) = false) ∧
    (∃ again,
      compile (.ofLanguage language) (String.ofList pattern.normalized) = .ok again ∧
      IsCanonical (.ofLanguage language) (marks again.normalized) ∧
      (again.normalized = pattern.normalized ↔
        IsTidy (.ofLanguage language) (marks (trim phrase.toList)))) ∧
    (IsTidy (.ofLanguage language) (marks (trim phrase.toList)) →
      IsCanonical (.ofLanguage language) (marks pattern.normalized) ∧
      ∀ other otherPattern, compile (.ofLanguage language) other = .ok otherPattern →
        IsTidy (.ofLanguage language) (marks (trim other.toList)) →
        IsAlike (.ofLanguage language) (marks (trim phrase.toList)) (marks (trim other.toList)) →
        otherPattern.normalized = pattern.normalized ∧
        ∀ (model : Model) (id : String), model.orthography = .ofLanguage language →
          isBlankText id.toList = false →
          ∃ next, model.addIntent id [phrase] = .ok next ∧
            next.addIntent id [other] = .ok next) := by
  have stripped : IsStripped (.ofLanguage language) (marks pattern.normalized) := by
    rw [marks_normalized compiled]
    exact isStripped_printed language _
  have canonicalMarks {form : Pattern} {text : List Char}
      (same : form.normalized = Mark.writeAll (canonical (.ofLanguage language) (marks text))) :
      IsCanonical (.ofLanguage language) (marks form.normalized) := by
    rw [same, marks_writeAll fun mark member => isReadable_of_mem_canonical member]
    exact isCanonical_canonical language _
  refine ⟨stripped, ?_, ?_, ?_⟩
  · intro unspaced mark member
    rw [← Bool.not_eq_true]
    intro blank
    have spacing := (stripped.space mark member blank).2
    rcases unspaced with rfl | rfl <;> exact absurd spacing (by decide)
  · obtain ⟨again, recompiled⟩ := exists_compile_normalized compiled
    have same := normalized_again compiled recompiled
    refine ⟨again, recompiled, canonicalMarks same, ?_⟩
    rw [same, eq_comm, normalized_eq_canonical_iff compiled]
  · intro tidy
    have own := (normalized_eq_canonical_iff compiled).2 tidy
    refine ⟨canonicalMarks own, ?_⟩
    intro other otherPattern compiledOther tidyOther alike
    have same : otherPattern.normalized = pattern.normalized := by
      rw [own, (normalized_eq_canonical_iff compiledOther).2 tidyOther, canonical_of_isAlike alike]
    exact ⟨same, fun model id written named =>
      exists_addIntent_again written compiled compiledOther same named⟩

/-- The capital is lowered, the two spaces become one, and the sign at the end is left out. -/
theorem isAlike_turn_on :
    IsAlike (.ofLanguage .english) (marks (trim "turn on [the] {device}".toList))
      (marks (trim "Turn on  [the] {device}!".toList)) := by
  have sign := Restyles.sign (o := .ofLanguage .english)
    ("Turn on  [the] ".toList.map .char ++ [.slot "device".toList]) []
    (by decide +kernel : Mark.isDropped _ (.char '!') = true)
  have capital := Restyles.case (o := .ofLanguage .english) []
    ("urn on  [the] ".toList.map .char ++ [.slot "device".toList]) 'T'
  have space := Restyles.space (o := .ofLanguage .english) ("turn on".toList.map .char)
    ("[the] ".toList.map .char ++ [.slot "device".toList])
    (List.cons_ne_nil (.char ' ') [.char ' ']) (List.cons_ne_nil (.char ' ') [])
    (by decide +kernel) (by decide +kernel)
  have typed : ("Turn on  [the] ".toList.map .char ++ [.slot "device".toList]) ++ [.char '!'] =
      marks (trim "Turn on  [the] {device}!".toList) := by
    decide +kernel
  have unsigned : ("Turn on  [the] ".toList.map .char ++ [.slot "device".toList]) ++ [] =
      [] ++ Mark.char 'T' :: ("urn on  [the] ".toList.map .char ++ [.slot "device".toList]) := by
    decide +kernel
  have lowered : [] ++ ((Mark.char 'T').lowered ++
        ("urn on  [the] ".toList.map .char ++ [.slot "device".toList])) =
      "turn on".toList.map .char ++ ([.char ' ', .char ' '] ++
        ("[the] ".toList.map .char ++ [.slot "device".toList])) := by
    decide +kernel
  have single : "turn on".toList.map .char ++ ([.char ' '] ++
        ("[the] ".toList.map .char ++ [.slot "device".toList])) =
      marks (trim "turn on [the] {device}".toList) := by
    decide +kernel
  rw [typed, unsigned] at sign
  rw [lowered] at capital
  rw [single] at space
  exact .symm _ _
    (.trans _ _ _ (.rel _ _ sign) (.trans _ _ _ (.rel _ _ capital) (.rel _ _ space)))

theorem exists_canonical_turn_on :
    ∃ pattern otherPattern again next,
      compile (.ofLanguage .english) "turn on [the] {device}" = .ok pattern ∧
      compile (.ofLanguage .english) "Turn on  [the] {device}!" = .ok otherPattern ∧
      IsTidy (.ofLanguage .english) (marks (trim "turn on [the] {device}".toList)) ∧
      IsTidy (.ofLanguage .english) (marks (trim "Turn on  [the] {device}!".toList)) ∧
      IsAlike (.ofLanguage .english) (marks (trim "turn on [the] {device}".toList))
        (marks (trim "Turn on  [the] {device}!".toList)) ∧
      compile (.ofLanguage .english) (String.ofList pattern.normalized) = .ok again ∧
      again.normalized = pattern.normalized ∧
      IsCanonical (.ofLanguage .english) (marks pattern.normalized) ∧
      otherPattern.normalized = pattern.normalized ∧
      (Model.new "en-US" .standard).addIntent "turnOn" ["turn on [the] {device}"] = .ok next ∧
      next.addIntent "turnOn" ["Turn on  [the] {device}!"] = .ok next := by
  have compiles : (compile (.ofLanguage .english) "turn on [the] {device}").map
      Pattern.normalized = .ok "turn on [the]\u001E {device}".toList := by
    decide +kernel
  have compilesOther : (compile (.ofLanguage .english) "Turn on  [the] {device}!").map
      Pattern.normalized = .ok "turn on [the]\u001E {device}".toList := by
    decide +kernel
  obtain ⟨pattern, compiled, -⟩ := exists_of_map_eq_ok compiles
  obtain ⟨otherPattern, compiledOther, -⟩ := exists_of_map_eq_ok compilesOther
  have tidy : IsTidy (.ofLanguage .english) (marks (trim "turn on [the] {device}".toList)) := by
    decide +kernel
  have tidyOther :
      IsTidy (.ofLanguage .english) (marks (trim "Turn on  [the] {device}!".toList)) := by
    decide +kernel
  obtain ⟨-, -, ⟨again, recompiled, -, same⟩, registered⟩ :=
    exists_canonical_of_compile .english compiled
  obtain ⟨settled, others⟩ := registered tidy
  obtain ⟨equal, stored⟩ := others _ _ compiledOther tidyOther isAlike_turn_on
  obtain ⟨next, added, kept⟩ := stored (Model.new "en-US" .standard) "turnOn" rfl (by decide)
  exact ⟨pattern, otherPattern, again, next, compiled, compiledOther, tidy, tidyOther,
    isAlike_turn_on, recompiled, same.2 tidy, settled, equal, added, kept⟩

/-- The space that is due before the comma is written, and so is the one before the letter. -/
theorem exists_spaces_around_comma :
    ∃ pattern again,
      compile (.ofLanguage .english) "a , b" = .ok pattern ∧
      pattern.normalized = "a  b".toList ∧
      compile (.ofLanguage .english) (String.ofList pattern.normalized) = .ok again ∧
      again.normalized = "a b".toList ∧ again.normalized ≠ pattern.normalized := by
  have compiles : (compile (.ofLanguage .english) "a , b").map Pattern.normalized =
      .ok "a  b".toList := by
    decide +kernel
  have recompiles : (compile (.ofLanguage .english) (String.ofList "a  b".toList)).map
      Pattern.normalized = .ok "a b".toList := by
    decide +kernel
  obtain ⟨pattern, compiled, doubled⟩ := exists_of_map_eq_ok compiles
  obtain ⟨again, recompiled, single⟩ := exists_of_map_eq_ok recompiles
  have apart : "a b".toList ≠ "a  b".toList := by decide +kernel
  exact ⟨pattern, again, compiled, doubled, doubled ▸ recompiled, single,
    fun same => apart (single.symm.trans (same.trans doubled))⟩

end Phrasebook.Template
