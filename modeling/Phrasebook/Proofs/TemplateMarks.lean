import Phrasebook.Proofs.TemplateGrammar

/-! What compiling writes.

A template is a row of marks: the characters outside its slots, and the slots. Compiling goes
through them from left to right and writes marks again, a space where whitespace came before,
nothing for a sign that templates drop, and the lowered form of any other. The written form of a
pattern are these marks, and it is split into them again.
-/

set_option autoImplicit false

namespace Phrasebook

open Text Part

namespace Text

variable {text : List Char}

theorem not_isBlank_of_head?_trim {c : Char} (head : (trim text).head? = some c) :
    isBlank c = false := by
  have stopped := List.head?_dropWhile_not isBlank text
  rw [← append_dropped isBlank (text.dropWhile isBlank), List.head?_append,
    show ((text.dropWhile isBlank).reverse.dropWhile isBlank).reverse.head? = some c from head]
    at stopped
  exact stopped

theorem not_isBlank_of_getLast?_trim {c : Char} (last : (trim text).getLast? = some c) :
    isBlank c = false := by
  have stopped := List.head?_dropWhile_not isBlank (text.dropWhile isBlank).reverse
  rw [trim, List.getLast?_reverse] at last
  rw [last] at stopped
  exact stopped

/-- A text without blanks at its ends is trimmed. -/
theorem trim_eq_self (head : ∀ c, text.head? = some c → isBlank c = false)
    (last : ∀ c, text.getLast? = some c → isBlank c = false) : trim text = text := by
  have front : text.dropWhile isBlank = text := by
    cases text with
    | nil => rfl
    | cons c rest => rw [List.dropWhile_cons_of_neg (by simp [head c rfl])]
  have back : text.reverse.dropWhile isBlank = text.reverse := by
    cases reversed : text.reverse with
    | nil => rfl
    | cons c rest =>
      have ends : text.getLast? = some c := by rw [← List.head?_reverse, reversed, List.head?_cons]
      rw [List.dropWhile_cons_of_neg (by simp [last c ends])]
  rw [trim, front, back, List.reverse_reverse]

theorem trim_trim (text : List Char) : trim (trim text) = trim text :=
  trim_eq_self (fun _ => not_isBlank_of_head?_trim) fun _ => not_isBlank_of_getLast?_trim

end Text

namespace Template

/-- A character of a template outside its slots, or a slot. -/
inductive Mark where
  | char (c : Char)
  | slot (name : List Char)
  deriving Repr, DecidableEq

/-- The marks of a text that goes on after the start of a slot, if one is open. Its name is
collected last character first. -/
def marksFrom : Option (List Char) → List Char → List Mark
  | none, [] => []
  | some name, [] => [.slot (trim name.reverse)]
  | none, c :: rest =>
    if c = '{' then marksFrom (some []) rest else .char c :: marksFrom none rest
  | some name, c :: rest =>
    if c = '}' then .slot (trim name.reverse) :: marksFrom none rest
    else marksFrom (some (c :: name)) rest

def marks (text : List Char) : List Mark := marksFrom none text

namespace Mark

def write : Mark → List Char
  | char c => [c]
  | slot name => '{' :: name ++ ['}']

def writeAll (marks : List Mark) : List Char := marks.flatMap write

@[simp] theorem writeAll_nil : writeAll [] = [] := rfl

@[simp] theorem writeAll_cons (mark : Mark) (rest : List Mark) :
    writeAll (mark :: rest) = mark.write ++ writeAll rest :=
  rfl

@[simp] theorem writeAll_append (first second : List Mark) :
    writeAll (first ++ second) = writeAll first ++ writeAll second :=
  List.flatMap_append

def isSlot : Mark → Bool
  | slot _ => true
  | char _ => false

def isBlank (o : Orthography) : Mark → Bool
  | char c => o.isSpace c
  | slot _ => false

/-- Signs that templates drop. -/
def isDropped (o : Orthography) : Mark → Bool
  | char c => o.isPatternPunctuation c
  | slot _ => false

def isKept (o : Orthography) (mark : Mark) : Bool := !mark.isBlank o && !mark.isDropped o

def lowered : Mark → List Mark
  | char c => (lowerChar c).map char
  | slot name => [slot name]

end Mark

/-- Whether the next mark that is no whitespace is a slot. -/
def slotComes (o : Orthography) (rest : List Mark) : Bool :=
  (rest.find? fun mark => !mark.isBlank o).any Mark.isSlot

/-- The mark of a boundary after a bracket that a slot follows. -/
def boundaryAfter (o : Orthography) (mark : Mark) (rest : List Mark) : List Mark :=
  if mark = .char ']' ∧ slotComes o rest = true then [.char boundaryMark] else []

/-- The space that is due before a mark. -/
def spaceBefore (o : Orthography) (started pending : Bool) : List Mark :=
  if started && pending && o.hasWordSpacing then [.char ' '] else []

/-- What is written for marks: `started` once anything has been written, `pending` after
whitespace. -/
def print (o : Orthography) (started pending : Bool) : List Mark → List Mark
  | [] => []
  | mark :: rest =>
    if mark.isBlank o then print o started true rest
    else
      spaceBefore o started pending ++
        if mark.isDropped o then print o started false rest
        else mark.lowered ++ boundaryAfter o mark rest ++ print o true false rest

/-- What is written for a template. -/
def printed (o : Orthography) (marks : List Mark) : List Mark := print o false false marks

variable {o : Orthography} {language : Language} {started pending : Bool} {mark : Mark}
  {rest : List Mark}

theorem exists_marksFrom_some (name text : List Char) :
    ∃ slot rest, marksFrom (some name) text = .slot slot :: rest := by
  induction text generalizing name with
  | nil => exact ⟨_, _, rfl⟩
  | cons c text ih =>
    rw [marksFrom]
    split
    · exact ⟨_, _, rfl⟩
    · exact ih _

/-- A mark that is read again from what is written of it. -/
def Mark.IsReadable : Mark → Prop
  | .char c => c ≠ '{'
  | .slot name => '}' ∉ name ∧ trim name = name

theorem isReadable_of_mem_marksFrom {open_ : Option (List Char)} {text : List Char}
    (unclosed : ∀ name, open_ = some name → '}' ∉ name) (member : mark ∈ marksFrom open_ text) :
    mark.IsReadable := by
  have named (name : List Char) (absent : '}' ∉ name) :
      (Mark.slot (trim name.reverse)).IsReadable :=
    ⟨fun inside => absent (List.mem_reverse.1 (mem_of_mem_trim inside)), trim_trim _⟩
  induction text generalizing open_ with
  | nil =>
    cases open_ with
    | none => simp [marksFrom] at member
    | some name => exact List.mem_singleton.1 member ▸ named name (unclosed name rfl)
  | cons c text ih =>
    cases open_ with
    | none =>
      rw [marksFrom] at member
      split at member
      · exact ih (by simp) member
      · next other =>
        rcases List.mem_cons.1 member with rfl | member
        · exact other
        · exact ih (by simp) member
    | some name =>
      rw [marksFrom] at member
      split at member
      · rcases List.mem_cons.1 member with rfl | member
        · exact named name (unclosed name rfl)
        · exact ih (by simp) member
      · next other =>
        refine ih (fun longer eq => ?_) member
        cases eq
        simpa [Ne.symm other] using unclosed name rfl

theorem marksFrom_some_append {inner : List Char} (open_ : '}' ∉ inner) (name rest : List Char) :
    marksFrom (some name) (inner ++ '}' :: rest) =
      .slot (trim (name.reverse ++ inner)) :: marksFrom none rest := by
  induction inner generalizing name with
  | nil => simp [marksFrom]
  | cons c inner ih =>
    obtain ⟨other, open_⟩ := not_or.1 (mt List.mem_cons.2 open_)
    rw [List.cons_append, marksFrom, if_neg (Ne.symm other), ih open_]
    simp

/-- The marks of what is written for marks are these marks. -/
theorem marks_writeAll {written : List Mark} (readable : ∀ mark ∈ written, mark.IsReadable) :
    marks (Mark.writeAll written) = written := by
  induction written with
  | nil => rfl
  | cons mark rest ih =>
    obtain ⟨first, others⟩ := List.forall_mem_cons.1 readable
    have further := ih others
    cases mark with
    | char c =>
      rw [Mark.writeAll_cons, marks, Mark.write, List.singleton_append, marksFrom, if_neg first]
      exact congrArg _ further
    | slot name =>
      rw [Mark.writeAll_cons, marks, Mark.write, List.cons_append, List.cons_append,
        List.append_assoc, marksFrom, if_pos rfl, List.singleton_append,
        marksFrom_some_append first.1]
      rw [List.reverse_nil, List.nil_append, first.2]
      exact congrArg _ further

theorem slotComes_marksFrom (language : Language) (text : List Char) :
    slotComes (.ofLanguage language) (marksFrom none text) = slotFollows text := by
  induction text with
  | nil => rfl
  | cons c text ih =>
    rw [marksFrom, slotFollows]
    split
    · next opens =>
      obtain ⟨slot, rest, starts⟩ := exists_marksFrom_some [] text
      have solid : isBlank c = false := by
        rw [opens]
        decide
      rw [starts, List.find?_cons_of_pos (by simp [solid]), opens]
      rfl
    · next other =>
      by_cases blank : isBlank c = true
      · rw [slotFollows] at ih
        rw [List.find?_cons_of_neg (by simp [blank]), ← ih, slotComes, slotComes,
          List.find?_cons_of_neg (by simp [Mark.isBlank, Orthography.isSpace_eq_isBlank, blank])]
      · rw [List.find?_cons_of_pos (by simp [blank]), slotComes, List.find?_cons_of_pos
          (by simp [Mark.isBlank, Orthography.isSpace_eq_isBlank, blank])]
        simp [Mark.isSlot, other]

/-! What each step of reading adds to the written form. -/

/-- What has been written before the open alternative of a group. -/
def OpenGroup.written (group : OpenGroup) : List Char :=
  Part.writeAll group.before.reverse ++ opener group.optional ::
    group.finished.reverse.flatMap fun alternative => Part.writeAll alternative ++ ['|']

namespace Progress

/-- What has been written, in the groups that are open. -/
def written (progress : Progress) : List Char :=
  progress.groups.reverse.flatMap OpenGroup.written ++ Part.writeAll progress.current.reverse

variable {progress next : Progress}

theorem written_content (progress : Progress) (parts : List Part) :
    (progress.content parts).written = progress.written ++ Part.writeAll parts := by
  simp [written, content, Part.writeAll_append]

theorem written_add (progress : Progress) (part : Part) :
    (progress.add part).written = progress.written ++ part.write := by
  simp [written, add, Part.writeAll_append, Part.writeAll]

theorem written_settleSpace (o : Orthography) (progress : Progress) :
    (progress.settleSpace o).written =
      progress.written ++ Mark.writeAll (spaceBefore o progress.started progress.pendingSpace) := by
  have same : Part.writeAll (dueSpace o progress.started progress.pendingSpace) =
      Mark.writeAll (spaceBefore o progress.started progress.pendingSpace) := by
    unfold dueSpace spaceBefore
    split <;> rfl
  rw [settleSpace_eq, written, List.reverse_append, reverse_dueSpace, Part.writeAll_append, same,
    ← List.append_assoc]
  rfl

theorem written_openGroup (progress : Progress) (optional : Bool) (position : Nat) :
    (progress.openGroup optional position).written = progress.written ++ [opener optional] := by
  simp [written, openGroup, OpenGroup.written, Part.writeAll]

theorem writeAlternatives_concat (finished : List (List Part)) (last : List Part) :
    Part.writeAlternatives (finished ++ [last]) =
      (finished.flatMap fun alternative => Part.writeAll alternative ++ ['|']) ++
        Part.writeAll last := by
  induction finished with
  | nil => simp [Part.writeAlternatives]
  | cons alternative finished ih =>
    obtain ⟨second, others, eq⟩ : ∃ second others, finished ++ [last] = second :: others :=
      List.exists_cons_of_ne_nil (by simp)
    rw [List.cons_append, eq, Part.writeAlternatives, ← eq]
    simp only [ih]
    simp

theorem written_closeGroup? {optional : Bool}
    (closing : progress.closeGroup? optional = some next) :
    next.written = progress.written ++ [closer optional] := by
  obtain ⟨top, outer, eq, rfl, rfl⟩ := exists_of_closeGroup? closing
  simp [written, eq, OpenGroup.written, Part.writeAll_append, Part.writeAll, Part.write,
    writeAlternatives_concat]

theorem written_nextAlternative? (starting : progress.nextAlternative? = some next) :
    next.written = progress.written ++ ['|'] := by
  obtain ⟨top, outer, eq, rfl⟩ := exists_of_nextAlternative? starting
  simp [written, eq, OpenGroup.written, Part.writeAll]

end Progress

/-! Reading writes what is printed. -/

theorem print_of_isBlank (blank : mark.isBlank o = true) (rest : List Mark) :
    print o started pending (mark :: rest) = print o started true rest := by
  rw [print, if_pos blank]

theorem print_of_isDropped (solid : mark.isBlank o = false) (sign : mark.isDropped o = true)
    (rest : List Mark) :
    print o started pending (mark :: rest) =
      spaceBefore o started pending ++ print o started false rest := by
  rw [print, if_neg (by simp [solid]), if_pos sign]

theorem print_of_isKept (kept : mark.isKept o = true) (rest : List Mark) :
    print o started pending (mark :: rest) =
      spaceBefore o started pending ++
        (mark.lowered ++ boundaryAfter o mark rest ++ print o true false rest) := by
  simp only [Mark.isKept, Bool.and_eq_true, Bool.not_eq_true'] at kept
  rw [print, if_neg (by simp [kept.1]), if_neg (by simp [kept.2])]

theorem print_slot (name : List Char) (rest : List Mark) :
    print o started pending (.slot name :: rest) =
      spaceBefore o started pending ++ .slot name :: print o true false rest := by
  rw [print_of_isKept rfl]
  rfl

/-- A sign that structures a template is written as it is. -/
theorem print_sign {c : Char} (sign : c ∈ signs) (rest : List Mark) :
    print (.ofLanguage language) started pending (.char c :: rest) =
      spaceBefore (.ofLanguage language) started pending ++
        .char c :: (boundaryAfter (.ofLanguage language) (.char c) rest ++
          print (.ofLanguage language) true false rest) := by
  have caseless : signs.all (fun c => lowerChar c == [c]) = true := by decide
  have same : lowerChar c = [c] := eq_of_beq (List.all_eq_true.1 caseless c sign)
  have solid := not_isSpace_of_mem_signs language sign
  have undropped : ¬(Orthography.ofLanguage language).isPatternPunctuation c = true :=
    fun dropped => not_mem_signs_of_isPatternPunctuation dropped sign
  have kept : (Mark.char c).isKept (.ofLanguage language) = true := by
    simp [Mark.isKept, Mark.isBlank, Mark.isDropped, solid, undropped]
  rw [print_of_isKept kept, Mark.lowered, same]
  rfl

theorem boundaryAfter_of_ne {c : Char} (other : c ≠ ']') (rest : List Mark) :
    boundaryAfter o (.char c) rest = [] :=
  if_neg fun both => other (Mark.char.inj both.1)

theorem boundaryAfter_closer (language : Language) (optional : Bool) (text : List Char) :
    Mark.writeAll (boundaryAfter (.ofLanguage language) (.char (closer optional))
        (marksFrom none text)) =
      if optional && slotFollows text then [boundaryMark] else [] := by
  rw [boundaryAfter, slotComes_marksFrom]
  cases optional <;> cases slotFollows text <;> rfl

theorem writeAll_lowered (c : Char) :
    Mark.writeAll (Mark.char c).lowered = Part.writeAll ((lowerChar c).map ofChar) := by
  rw [Mark.lowered]
  induction lowerChar c with
  | nil => rfl
  | cons d rest ih =>
    rw [List.map_cons, List.map_cons, Part.writeAll, write_ofChar, ← ih]
    rfl


@[simp] theorem spaceBefore_settled (o : Orthography) (started : Bool) :
    spaceBefore o started false = [] := by
  simp [spaceBefore]

/-- The space that is due is written before anything but whitespace. -/
theorem print_settle (solid : mark.isBlank o = false) (rest : List Mark) :
    print o started pending (mark :: rest) =
      spaceBefore o started pending ++ print o started false (mark :: rest) := by
  simp only [print, solid, Bool.false_eq_true, if_false, spaceBefore_settled, List.nil_append]

open Progress

/-- What is left of a template when some of it has been read. -/
def leftOf (o : Orthography) (progress : Progress) (text : List Char) : List Char :=
  Mark.writeAll (print o progress.started progress.pendingSpace
    (marksFrom (progress.slot.map Prod.snd) text))

/-- Reading can settle the space that is due before anything but whitespace. -/
theorem written_settle {progress : Progress} (outside : progress.slot = none) {c : Char}
    (solid : ¬(Orthography.ofLanguage language).isSpace c = true) (rest : List Char) :
    progress.written ++ leftOf (.ofLanguage language) progress (c :: rest) =
      (progress.settleSpace (.ofLanguage language)).written ++
        leftOf (.ofLanguage language) (progress.settleSpace (.ofLanguage language))
          (c :: rest) := by
  obtain ⟨mark, after, starts, stands⟩ : ∃ mark after,
      marksFrom none (c :: rest) = mark :: after ∧
        mark.isBlank (.ofLanguage language) = false := by
    rw [marksFrom]
    split
    · -- The sign opens a slot, which is a mark whatever its name turns out to be.
      obtain ⟨name, after, starts⟩ := exists_marksFrom_some [] rest
      exact ⟨_, _, starts, rfl⟩
    · exact ⟨_, _, rfl, by simpa [Mark.isBlank] using solid⟩
  rw [written_settleSpace, List.append_assoc, leftOf, leftOf, slot_settleSpace, outside,
    Option.map_none, starts, print_settle stands, Mark.writeAll_append, settleSpace_eq]

/-- No space is due inside a slot, and what has opened a group has been written. -/
structure Progress.IsSettled (progress : Progress) : Prop where
  slot : progress.slot ≠ none → progress.pendingSpace = false
  groups : progress.groups ≠ [] → progress.started = true

theorem Progress.IsSettled.of_readStep {progress next : Progress} {position : Nat} {c : Char}
    {rest : List Char} (settled : progress.IsSettled)
    (step : ReadStep o progress position c rest (.ok next)) : next.IsSettled := by
  have still : (progress.settleSpace o).pendingSpace = false := by
    rw [settleSpace_eq]
  have begun : (progress.settleSpace o).groups ≠ [] → (progress.settleSpace o).started = true := by
    rw [settleSpace_eq]
    exact settled.groups
  have closed (outside : progress.slot = none) (opened : (progress.settleSpace o).slot ≠ none) :
      (progress.settleSpace o).pendingSpace = false := by
    simp [outside] at opened
  cases step with
  | collect inside _ => exact ⟨fun _ => settled.slot (by simp [inside]), settled.groups⟩
  | closeSlot _ _ _ => exact ⟨fun opened => absurd rfl opened, fun _ => rfl⟩
  | blank outside _ => exact ⟨fun opened => absurd outside opened, settled.groups⟩
  | openSlot _ _ => exact ⟨fun _ => still, begun⟩
  | openGroup _ outside _ => exact ⟨closed outside, fun _ => rfl⟩
  | @closeGroup optional shut outside _ closing =>
    obtain ⟨top, outer, eq, -, rfl⟩ := exists_of_closeGroup? closing
    have started := begun (eq ▸ List.cons_ne_nil top outer)
    split
    · exact ⟨closed outside, fun _ => rfl⟩
    · exact ⟨closed outside, fun _ => started⟩
  | bar outside _ starting =>
    obtain ⟨top, outer, eq, rfl⟩ := exists_of_nextAlternative? starting
    exact ⟨closed outside, fun _ => begun (eq ▸ List.cons_ne_nil top outer)⟩
  | drop outside _ _ _ => exact ⟨closed outside, begun⟩
  | letter outside _ _ _ => exact ⟨closed outside, fun _ => rfl⟩

/-- A step writes what comes next of what is left. -/
theorem written_of_readStep {progress next : Progress} {position : Nat} {c : Char}
    {rest : List Char} (settled : progress.IsSettled)
    (step : ReadStep (.ofLanguage language) progress position c rest (.ok next)) :
    next.written ++ leftOf (.ofLanguage language) next rest =
      progress.written ++ leftOf (.ofLanguage language) progress (c :: rest) := by
  have still : (progress.settleSpace (.ofLanguage language)).pendingSpace = false := by
    rw [settleSpace_eq]
  have begun : (progress.settleSpace (.ofLanguage language)).groups ≠ [] →
      (progress.settleSpace (.ofLanguage language)).started = true := by
    rw [settleSpace_eq]
    exact settled.groups
  cases step with
  | collect inside plain =>
    have other : c ≠ '}' := fun close => plain (close ▸ by decide)
    simp only [leftOf, inside, Option.map_some, marksFrom, if_neg other]
    rfl
  | closeSlot inside close named =>
    subst close
    rw [written_content]
    simp [leftOf, inside, marksFrom, print_slot, settled.slot, content, Mark.write,
      Part.writeAll, Part.write, written]
  | blank outside space =>
    have other : c ≠ '{' := fun opens =>
      not_isSpace_of_mem_signs language (by decide) (opens ▸ space)
    have blank : (Mark.char c).isBlank (.ofLanguage language) = true := space
    simp only [leftOf, outside, Option.map_none, marksFrom, if_neg other, print_of_isBlank blank]
    rfl
  | openSlot outside opens =>
    subst opens
    rw [written_settle outside (not_isSpace_of_mem_signs language (by decide))]
    obtain ⟨name, after, starts⟩ := exists_marksFrom_some [] rest
    simp [leftOf, outside, marksFrom, starts, print_slot, written]
  | openGroup optional outside opens =>
    subst opens
    have sign : opener optional ∈ signs := by cases optional <;> decide
    have other : opener optional ≠ '{' := by cases optional <;> decide
    have plain : opener optional ≠ ']' := by cases optional <;> decide
    rw [written_settle outside (not_isSpace_of_mem_signs language sign), written_openGroup]
    simp [leftOf, openGroup, outside, still, marksFrom, other, print_sign sign,
      boundaryAfter_of_ne plain, Mark.write]
  | @closeGroup optional shut outside closes closing =>
    -- The mark of a boundary is written by the same rule on either side.
    subst closes
    have sign : closer optional ∈ signs := by cases optional <;> decide
    have other : closer optional ≠ '{' := by cases optional <;> decide
    have text := written_closeGroup? closing
    obtain ⟨top, outer, eq, -, rfl⟩ := exists_of_closeGroup? closing
    have started := begun (eq ▸ List.cons_ne_nil top outer)
    rw [written_settle outside (not_isSpace_of_mem_signs language sign)]
    have marked := boundaryAfter_closer language optional rest
    split
    · next anchored =>
      rw [if_pos anchored] at marked
      rw [written_add, text]
      simp [leftOf, add, outside, still, marksFrom, other, print_sign sign, marked, Mark.write,
        Part.write]
    · next free =>
      rw [if_neg free] at marked
      rw [text]
      simp [leftOf, outside, still, started, marksFrom, other, print_sign sign, marked, Mark.write]
  | bar outside divides starting =>
    subst divides
    have text := written_nextAlternative? starting
    obtain ⟨top, outer, eq, rfl⟩ := exists_of_nextAlternative? starting
    have started := begun (eq ▸ List.cons_ne_nil top outer)
    rw [written_settle outside (not_isSpace_of_mem_signs language (by decide)), text]
    simp [leftOf, outside, still, started, marksFrom, print_sign (show '|' ∈ signs by decide),
      boundaryAfter_of_ne (show '|' ≠ ']' by decide), Mark.write]
  | drop outside plain solid sign =>
    have other : c ≠ '{' := fun opens => plain (opens ▸ by decide)
    have dropped : (Mark.char c).isDropped (.ofLanguage language) = true := sign
    have apart : (Mark.char c).isBlank (.ofLanguage language) = false := solid
    rw [written_settle outside (by simp [solid])]
    simp [leftOf, outside, still, marksFrom, other, print_of_isDropped apart dropped]
  | letter outside plain solid kept =>
    have other : c ≠ '{' := fun opens => plain (opens ▸ by decide)
    have unclosed : c ≠ ']' := fun closes => plain (closes ▸ by decide)
    have counted : (Mark.char c).isKept (.ofLanguage language) = true := by
      simp [Mark.isKept, Mark.isBlank, Mark.isDropped, solid, kept]
    rw [written_settle outside (by simp [solid]), written_content, ← writeAll_lowered]
    simp [leftOf, content, outside, still, marksFrom, other, print_of_isKept counted,
      boundaryAfter_of_ne unclosed]

theorem written_of_read {progress final : Progress} {position : Nat} {text : List Char}
    (settled : progress.IsSettled)
    (reading : read (.ofLanguage language) progress position text = .ok final)
    (closed : final.slot = none) :
    final.written = progress.written ++ leftOf (.ofLanguage language) progress text := by
  induction text generalizing progress position with
  | nil =>
    cases reading
    simp [leftOf, closed, marksFrom, print]
  | cons c rest ih =>
    rw [read_cons] at reading
    have step := readStep_readChar (.ofLanguage language) progress position c rest
    cases outcome : readChar (.ofLanguage language) progress position c rest with
    | error fault => simp [outcome, Except.bind] at reading
    | ok next =>
      rw [outcome] at reading step
      rw [ih (settled.of_readStep step) reading, written_of_readStep settled step]

/-- The written form of a pattern is what is printed for the marks of its phrase. -/
theorem normalized_eq {phrase : String} {pattern : Pattern}
    (compiled : compile (.ofLanguage language) phrase = .ok pattern) :
    pattern.normalized =
      Mark.writeAll (printed (.ofLanguage language) (marks (trim phrase.toList))) := by
  obtain ⟨final, reading, closed, shut, -, rfl⟩ := compile_eq_ok_iff.1 compiled
  have whole := written_of_read ⟨by simp, by simp⟩ reading closed
  rw [Progress.written, shut] at whole
  exact whole

end Template

end Phrasebook
