import Phrasebook.Proofs.TemplateGrammar

/-! Reading a pattern from its written form.

A written pattern can be read without its parts: the character at the front says
what comes next, a slot ends at the next closing brace, and a group is divided by
counting brackets alone. For the patterns that templates compile to this finds
the parts again.
-/

set_option autoImplicit false

namespace Phrasebook

open Text Part

namespace Written

/-- Why a group cannot be divided. -/
inductive SplitFault where
  /-- The text ends inside the group. -/
  | unclosed
  /-- More brackets are closed than opened. -/
  | belowZero
  deriving Repr, DecidableEq

def isOpener (c : Char) : Bool := c == '[' || c == '('

def isCloser (c : Char) : Bool := c == ']' || c == ')'

/-- Put text in front of the first of some alternatives. -/
def prepend (text : List Char) (found : List (List Char) × List Char) :
    List (List Char) × List Char :=
  (found.1.modifyHead (text ++ ·), found.2)

/-- Divide a text at the bars of depth one up to the bracket that closes it. -/
def splitFrom (depth : Nat) :
    List Char → Except SplitFault (List (List Char) × List Char)
  | [] => .error .unclosed
  | c :: rest =>
    if isOpener c then (splitFrom (depth + 1) rest).map (prepend [c])
    else if isCloser c then
      match depth with
      | 0 => .error .belowZero
      | 1 => .ok ([[]], rest)
      | outer + 2 => (splitFrom (outer + 1) rest).map (prepend [c])
    else if c = '|' ∧ depth = 1 then
      (splitFrom depth rest).map fun found => ([] :: found.1, found.2)
    else (splitFrom depth rest).map (prepend [c])

/-- The alternatives of the group whose bracket is at the front of a text, and the
text after the group. -/
def splitGroup : List Char → Except SplitFault (List (List Char) × List Char)
  | [] => .error .unclosed
  | _ :: rest => splitFrom 1 rest

/-- What stands at the front of a written pattern. -/
inductive Front where
  | nothing
  | part (part : Part) (rest : List Char)
  | group (optional : Bool) (alternatives : List (List Char)) (rest : List Char)
  /-- A slot or a group that does not end. -/
  | broken

def front : List Char → Front
  | [] => .nothing
  | c :: rest =>
    if c = boundaryMark then .part .boundary rest
    else if c = ' ' then .part .space rest
    else if c = '{' then
      match rest.dropWhile (· != '}') with
      | [] => .broken
      | _ :: after => .part (.slot (rest.takeWhile (· != '}'))) after
    else if isOpener c then
      match splitGroup (c :: rest) with
      | .error _ => .broken
      | .ok (alternatives, after) => .group (c == '[') alternatives after
    else .part (.letter c) rest

theorem prepend_nil (found : List (List Char) × List Char) : prepend [] found = found := by
  obtain ⟨alternatives, rest⟩ := found
  cases alternatives <;> rfl

theorem prepend_prepend (first second : List Char) (found : List (List Char) × List Char) :
    prepend first (prepend second found) = prepend (first ++ second) found := by
  obtain ⟨alternatives, rest⟩ := found
  cases alternatives <;> simp [prepend]

theorem map_prepend_prepend (first second : List Char)
    (result : Except SplitFault (List (List Char) × List Char)) :
    (result.map (prepend second)).map (prepend first) =
      result.map (prepend (first ++ second)) := by
  cases result with
  | error fault => rfl
  | ok found => exact congrArg Except.ok (prepend_prepend first second found)

theorem isOpener_opener (optional : Bool) : isOpener (opener optional) = true := by
  cases optional <;> rfl

theorem isOpener_closer (optional : Bool) : isOpener (closer optional) = false := by
  cases optional <;> rfl

theorem isCloser_closer (optional : Bool) : isCloser (closer optional) = true := by
  cases optional <;> rfl

/-- The text is passed over inside a group, at any depth. -/
def Passes (text : List Char) : Prop :=
  ∀ depth rest, splitFrom (depth + 1) (text ++ rest) =
    (splitFrom (depth + 1) rest).map (prepend text)

theorem passes_nil : Passes [] := by
  intro depth rest
  rw [List.nil_append]
  cases splitFrom (depth + 1) rest with
  | error fault => rfl
  | ok found => exact congrArg Except.ok (prepend_nil found).symm

theorem passes_append {first second : List Char} (start : Passes first) (goOn : Passes second) :
    Passes (first ++ second) := by
  intro depth rest
  rw [List.append_assoc, start, goOn, map_prepend_prepend]

theorem splitFrom_bar (depth : Nat) (rest : List Char) :
    splitFrom depth ('|' :: rest) =
      if depth = 1 then (splitFrom depth rest).map fun found => ([] :: found.1, found.2)
      else (splitFrom depth rest).map (prepend ['|']) := by
  rw [splitFrom.eq_def]
  by_cases outermost : depth = 1 <;> simp [isOpener, isCloser, outermost]

theorem splitFrom_opener (depth : Nat) (optional : Bool) (rest : List Char) :
    splitFrom depth (opener optional :: rest) =
      (splitFrom (depth + 1) rest).map (prepend [opener optional]) := by
  rw [splitFrom.eq_def]
  simp [isOpener_opener]

theorem splitFrom_closer (depth : Nat) (optional : Bool) (rest : List Char) :
    splitFrom (depth + 1) (closer optional :: rest) =
      if depth = 0 then .ok ([[]], rest)
      else (splitFrom depth rest).map (prepend [closer optional]) := by
  rw [splitFrom.eq_def]
  cases depth <;> simp [isOpener_closer, isCloser_closer]

theorem passes_char {c : Char} (plain : isOpener c = false) (inner : isCloser c = false)
    (solid : c ≠ '|') : Passes [c] := by
  intro depth rest
  rw [List.singleton_append, splitFrom.eq_def]
  simp [plain, inner, solid]

/-- Inside a group bars are passed over as well. -/
theorem splitFrom_writeAlternatives {alternatives : List (List Part)}
    (each : ∀ alternative ∈ alternatives, Passes (writeAll alternative)) (depth : Nat)
    (rest : List Char) :
    splitFrom (depth + 2) (writeAlternatives alternatives ++ rest) =
      (splitFrom (depth + 2) rest).map (prepend (writeAlternatives alternatives)) := by
  induction alternatives with
  | nil => exact passes_nil (depth + 1) rest
  | cons alternative others ih =>
    have first := each alternative (List.mem_cons_self ..)
    have further := ih fun other member => each other (List.mem_cons_of_mem _ member)
    cases others with
    | nil =>
      rw [writeAlternatives]
      exact first (depth + 1) rest
    | cons second others =>
      rw [writeAlternatives]
      simp only [List.append_assoc, List.cons_append]
      rw [first (depth + 1), splitFrom_bar, if_neg (by omega), further, map_prepend_prepend,
        map_prepend_prepend]
      simp

theorem splitFrom_one_writeAlternatives {alternatives : List (List Part)}
    (nonempty : alternatives ≠ [])
    (each : ∀ alternative ∈ alternatives, Passes (writeAll alternative)) (optional : Bool)
    (rest : List Char) :
    splitFrom 1 (writeAlternatives alternatives ++ closer optional :: rest) =
      .ok (alternatives.map writeAll, rest) := by
  induction alternatives with
  | nil => exact absurd rfl nonempty
  | cons alternative others ih =>
    have first := each alternative (List.mem_cons_self ..)
    cases others with
    | nil =>
      rw [writeAlternatives, first 0, splitFrom_closer, if_pos rfl]
      simp [Except.map, prepend]
    | cons second others =>
      have further := ih (by simp) fun other member => each other (List.mem_cons_of_mem _ member)
      rw [writeAlternatives]
      simp only [List.append_assoc, List.cons_append]
      rw [first 0, splitFrom_bar, if_pos rfl, further]
      simp [Except.map, prepend]

end Written

/-- The parts that can be told from what is written. -/
inductive Part.IsLegible : Part → Prop where
  | letter {c : Char} : c ∉ Template.signs → c ≠ ' ' → c ≠ boundaryMark → IsLegible (letter c)
  | space : IsLegible space
  | boundary : IsLegible boundary
  | slot {name : List Char} : (∀ c ∈ name, c ∉ Template.signs) → IsLegible (slot name)
  | group {optional : Bool} {alternatives : List (List Part)} : alternatives ≠ [] →
      (∀ alternative ∈ alternatives, ∀ part ∈ alternative, IsLegible part) →
      IsLegible (group optional alternatives)

namespace Written

theorem passes_of_not_mem_signs {c : Char} (plain : c ∉ Template.signs) : Passes [c] := by
  simp only [Template.signs, List.mem_cons, not_or] at plain
  apply passes_char
  · simp [isOpener, plain]
  · simp [isCloser, plain]
  · exact plain.2.2.2.2.2.2.1

theorem passes_of_forall_not_mem_signs {text : List Char}
    (plain : ∀ c ∈ text, c ∉ Template.signs) : Passes text := by
  induction text with
  | nil => exact passes_nil
  | cons c rest ih =>
    have first := passes_of_not_mem_signs (plain c (List.mem_cons_self ..))
    exact passes_append first (ih fun d member => plain d (List.mem_cons_of_mem _ member))

theorem passes_writeAll_of_forall {parts : List Part} (each : ∀ part ∈ parts, Passes part.write) :
    Passes (writeAll parts) := by
  induction parts with
  | nil => exact passes_nil
  | cons part rest ih =>
    rw [writeAll]
    exact passes_append (each part (List.mem_cons_self ..))
      (ih fun other member => each other (List.mem_cons_of_mem _ member))

/-- A legible part is passed over inside a group. -/
theorem passes_write {part : Part} (legible : part.IsLegible) : Passes part.write := by
  induction legible with
  | letter plain _ _ =>
    rw [write]
    exact passes_of_not_mem_signs plain
  | space | boundary =>
    rw [write]
    exact passes_of_not_mem_signs (by decide)
  | @slot name plain =>
    rw [write]
    have inner := passes_append (passes_of_forall_not_mem_signs plain)
      (passes_char (c := '}') rfl rfl (by decide))
    have outer : Passes ['{'] := passes_char rfl rfl (by decide)
    simpa using passes_append outer inner
  | @group optional alternatives nonempty _ ih =>
    have each : ∀ alternative ∈ alternatives, Passes (writeAll alternative) :=
      fun alternative member => passes_writeAll_of_forall (ih alternative member)
    intro depth rest
    rw [write]
    simp only [List.append_assoc, List.cons_append, List.nil_append]
    -- One level deeper the bars are kept, and the closer comes back to this level.
    rw [splitFrom_opener, splitFrom_writeAlternatives each, splitFrom_closer, if_neg (by omega),
      map_prepend_prepend, map_prepend_prepend]
    simp

theorem passes_writeAll {parts : List Part} (legible : ∀ part ∈ parts, part.IsLegible) :
    Passes (writeAll parts) :=
  passes_writeAll_of_forall fun part member => passes_write (legible part member)

/-- Dividing a written group gives its alternatives. -/
theorem splitGroup_write {alternatives : List (List Part)} (nonempty : alternatives ≠ [])
    (legible : ∀ alternative ∈ alternatives, ∀ part ∈ alternative, part.IsLegible)
    (optional : Bool) (rest : List Char) :
    splitGroup ((group optional alternatives).write ++ rest) =
      .ok (alternatives.map writeAll, rest) := by
  have each : ∀ alternative ∈ alternatives, Passes (writeAll alternative) :=
    fun alternative member => passes_writeAll (legible alternative member)
  rw [write, ← splitFrom_one_writeAlternatives nonempty each optional rest]
  simp [splitGroup]

/-- What stands at the front of a pattern is its first part. -/
def Front.ofParts : List Part → Front
  | [] => .nothing
  | .group optional alternatives :: rest =>
    .group optional (alternatives.map writeAll) (writeAll rest)
  | first :: rest => .part first (writeAll rest)

theorem front_writeAll {parts : List Part} (legible : ∀ part ∈ parts, part.IsLegible) :
    front (writeAll parts) = .ofParts parts := by
  cases parts with
  | nil => rfl
  | cons part rest =>
    rw [writeAll]
    cases legible part (List.mem_cons_self ..) with
    | @letter c plain solid unmarked =>
      have notSlot : c ≠ '{' := by
        rintro rfl
        exact absurd (by decide) plain
      have notOpener : isOpener c = false := by
        simp only [Template.signs, List.mem_cons, not_or] at plain
        simp [isOpener, plain]
      rw [write, List.singleton_append, front, if_neg unmarked, if_neg solid, if_neg notSlot,
        notOpener]
      rfl
    | space => rfl
    | boundary => rfl
    | @slot name plain =>
      have inner : ∀ c ∈ name, (c != '}') = true := by
        intro c member
        rw [bne_iff_ne]
        rintro rfl
        exact absurd (by decide) (plain _ member)
      rw [write]
      simp only [List.cons_append, List.append_assoc, List.nil_append]
      rw [front, if_neg (by decide), if_neg (by decide), if_pos rfl,
        List.dropWhile_append_of_pos inner, List.takeWhile_append_of_pos inner]
      simp [Front.ofParts]
    | @group optional alternatives nonempty inner =>
      have split := splitGroup_write nonempty inner optional (writeAll rest)
      rw [write] at split ⊢
      simp only [List.cons_append] at split ⊢
      cases optional with
      | false | true =>
        rw [front, if_neg (by decide), if_neg (by decide), if_neg (by decide),
          if_pos (isOpener_opener _), split]
        rfl

end Written

namespace Template

structure OpenGroup.IsLegible (group : OpenGroup) : Prop where
  before : ∀ part ∈ group.before, part.IsLegible
  finished : ∀ alternative ∈ group.finished, ∀ part ∈ alternative, part.IsLegible

/-- What has been read can be told from what is written of it. -/
structure Progress.IsLegible (progress : Progress) : Prop where
  current : ∀ part ∈ progress.current, part.IsLegible
  groups : ∀ group ∈ progress.groups, group.IsLegible
  name : ∀ start name, progress.slot = some (start, name) → ∀ c ∈ name, c ∉ signs

/-- Lowering makes no sign of a template. -/
theorem not_mem_signs_of_mem_lowerChar {c d : Char} (plain : c ∉ signs)
    (member : d ∈ lowerChar c) : d ∉ signs := by
  have caseless : ∀ e : Char, signs.contains e = true → isCaseless e = true := by
    intro e sign
    have checked : signs.all isCaseless = true := by decide
    exact List.all_eq_true.1 checked e (List.contains_iff_mem.1 sign)
  have other : signs.contains c = false := by simpa using plain
  simpa using not_of_mem_lowerChar caseless other member

theorem isLegible_ofChar {o : Orthography} {c d : Char} (plain : c ∉ signs)
    (solid : o.isSpace c = false) (member : d ∈ lowerChar c) : (ofChar d).IsLegible := by
  unfold ofChar
  split
  · exact .boundary
  · next unmarked =>
    apply Part.IsLegible.letter (not_mem_signs_of_mem_lowerChar plain member) _ unmarked
    exact beq_eq_false_iff_ne.1 (Orthography.not_space_of_mem_lowerChar solid member)

namespace Progress.IsLegible

variable {o : Orthography} {progress : Progress}

theorem settleSpace (legible : progress.IsLegible) : (progress.settleSpace o).IsLegible := by
  rw [settleSpace_eq]
  refine ⟨fun part member => ?_, legible.groups, legible.name⟩
  rcases List.mem_append.1 member with due | read
  · unfold dueSpace at due
    split at due
    · rw [List.mem_singleton.1 due]
      exact .space
    · simp at due
  · exact legible.current part read

theorem content (legible : progress.IsLegible) {parts : List Part}
    (new : ∀ part ∈ parts, part.IsLegible) : (progress.content parts).IsLegible := by
  refine ⟨fun part member => ?_, legible.groups, legible.name⟩
  rcases List.mem_append.1 member with written | read
  · exact new part (List.mem_reverse.1 written)
  · exact legible.current part read

/-- The parts of the open sequence and the finished alternatives make up a group. -/
theorem alternatives (legible : progress.IsLegible) {top : OpenGroup} (isOpen : top.IsLegible) :
    ∀ alternative ∈ progress.current.reverse :: top.finished, ∀ part ∈ alternative,
      part.IsLegible := by
  intro alternative member
  rcases List.mem_cons.1 member with rfl | member
  · exact fun part read => legible.current part (List.mem_reverse.1 read)
  · exact isOpen.finished alternative member

theorem closeGroup? {closed : Progress} {optional : Bool} (legible : progress.IsLegible)
    (closing : progress.closeGroup? optional = some closed) : closed.IsLegible := by
  obtain ⟨top, outer, eq, -, rfl⟩ := exists_of_closeGroup? closing
  have isOpen := legible.groups top (eq ▸ List.mem_cons_self ..)
  refine ⟨fun part member => ?_, fun group member => ?_, legible.name⟩
  · rcases List.mem_cons.1 member with rfl | member
    · apply Part.IsLegible.group (by simp)
      intro alternative member
      exact legible.alternatives isOpen alternative (List.mem_reverse.1 member)
    · exact isOpen.before part member
  · exact legible.groups group (eq ▸ List.mem_cons_of_mem _ member)

theorem nextAlternative? {next : Progress} (legible : progress.IsLegible)
    (starting : progress.nextAlternative? = some next) : next.IsLegible := by
  obtain ⟨top, outer, eq, rfl⟩ := exists_of_nextAlternative? starting
  have isOpen := legible.groups top (eq ▸ List.mem_cons_self ..)
  refine ⟨by simp, fun group member => ?_, legible.name⟩
  rcases List.mem_cons.1 member with rfl | member
  · exact ⟨isOpen.before, legible.alternatives isOpen⟩
  · exact legible.groups group (eq ▸ List.mem_cons_of_mem _ member)

/-- Reading a character leaves what can be told from its written form. -/
theorem step {position : Nat} {c : Char} {rest : List Char} {next : Progress}
    (legible : progress.IsLegible) (step : ReadStep o progress position c rest (.ok next)) :
    next.IsLegible := by
  have settled := legible.settleSpace (o := o)
  cases step with
  | @collect start name inside plain =>
    refine ⟨legible.current, legible.groups, fun _ _ eq d member => ?_⟩
    cases eq
    rcases List.mem_cons.1 member with rfl | member
    · exact plain
    · exact legible.name start name inside d member
  | @closeSlot start name inside _ _ =>
    have left : { progress with slot := none }.IsLegible :=
      ⟨legible.current, legible.groups, by simp⟩
    apply left.content
    intro part member
    rw [List.mem_singleton.1 member]
    -- Trimming keeps only characters that were collected.
    exact .slot fun d inName =>
      legible.name start name inside d (List.mem_reverse.1 (mem_of_mem_trim inName))
  | blank _ _ => exact ⟨legible.current, legible.groups, legible.name⟩
  | openSlot _ _ =>
    refine ⟨settled.current, settled.groups, fun _ _ eq => ?_⟩
    cases eq
    simp
  | openGroup optional _ _ =>
    refine ⟨by simp [openGroup], fun group member => ?_, settled.name⟩
    rcases List.mem_cons.1 member with rfl | member
    · exact ⟨settled.current, by simp⟩
    · exact settled.groups group member
  | closeGroup _ _ closing =>
    have shut := settled.closeGroup? closing
    split
    · refine ⟨fun part member => ?_, shut.groups, shut.name⟩
      rcases List.mem_cons.1 member with rfl | member
      · exact .boundary
      · exact shut.current part member
    · exact shut
  | bar _ _ starting => exact settled.nextAlternative? starting
  | drop _ _ _ _ => exact settled
  | letter _ plain solid _ =>
    apply settled.content
    intro part member
    obtain ⟨d, lowered, rfl⟩ := List.mem_map.1 member
    exact isLegible_ofChar plain solid lowered

end Progress.IsLegible

/-- Compiled patterns can be told from what is written of them. -/
theorem isLegible_of_compile {o : Orthography} {phrase : String} {pattern : Pattern}
    (compiled : compile o phrase = .ok pattern) : ∀ part ∈ pattern.parts, part.IsLegible := by
  obtain ⟨final, reading, -, -, -, rfl⟩ := compile_eq_ok_iff.1 compiled
  have start : Progress.IsLegible {} := ⟨by simp, by simp, by simp⟩
  have preserved : ∀ (progress : Progress) (position : Nat) (c : Char) (rest : List Char)
      (next : Progress), progress.IsLegible →
      readChar o progress position c rest = .ok next → next.IsLegible := by
    intro progress position c rest next legible read
    exact legible.step (read ▸ readStep_readChar o progress position c rest)
  have legible := read_preserves preserved start reading
  exact fun part member => legible.current part (List.mem_reverse.1 member)

end Template

end Phrasebook
