import Phrasebook.Proofs.WordRuns

/-! How many words a slot takes.

A slot's value ends with a word. Without limit it takes as many words as let the rest of the
pattern match; with limited greed it takes as few, and without any value a list that is not
strict is passed over.
-/

set_option autoImplicit false

namespace Phrasebook

open Text

section Ranges

variable {α β : Type} {attempt : Nat → Option β} {index limit : Nat} {found : β}

theorem findSome?_filterMap {γ : Type} (form : α → Option β) (attempt : β → Option γ)
    (items : List α) :
    (items.filterMap form).findSome? attempt = items.findSome? fun item => (form item).bind attempt := by
  rw [← List.head?_filterMap, List.filterMap_filterMap, List.head?_filterMap]

/-- Going up, the first number that does decides. -/
theorem findSome?_range (less : index < limit) (eq : attempt index = some found)
    (before : ∀ earlier < index, attempt earlier = none) :
    (List.range limit).findSome? attempt = some found := by
  induction limit with
  | zero => cases less
  | succ limit ih =>
    rw [List.range_succ, List.findSome?_append]
    rcases Nat.lt_succ_iff_lt_or_eq.1 less with within | rfl
    · rw [ih within]
      rfl
    · have none : (List.range index).findSome? attempt = none :=
        List.findSome?_eq_none_iff.2 fun earlier member => before earlier (List.mem_range.1 member)
      rw [none, Option.none_or, List.findSome?_singleton, eq]

/-- Going down, the last number that does decides. -/
theorem findSome?_reverse_range (less : index < limit) (eq : attempt index = some found)
    (after : ∀ later, index < later → later < limit → attempt later = none) :
    (List.range limit).reverse.findSome? attempt = some found := by
  induction limit with
  | zero => cases less
  | succ limit ih =>
    rw [List.range_succ, List.reverse_append, List.reverse_singleton, List.singleton_append,
      List.findSome?_cons]
    rcases Nat.lt_succ_iff_lt_or_eq.1 less with within | rfl
    · rw [after limit within (Nat.lt_succ_self _)]
      exact ih within fun later above below => after later above (Nat.lt_succ_of_lt below)
    · rw [eq]

end Ranges

namespace Cursor

variable {o : Orthography} {cursor start : Cursor} {count : Nat} {run : List Char}

/-- The text from a place on up to the end of a word, as words are grabbed one after the other. -/
def IsRun (o : Orthography) (start : Cursor) (count : Nat) (run : List Char) : Prop :=
  run <+: start.rest ∧
    o.wordEnd? start.text count start.offset = some (start.offset + byteLength run)

theorem isRun_iff : start.IsRun o count run ↔ o.run? count start.rest = some run := by
  rw [IsRun, Orthography.wordEnd?_eq]
  constructor
  · rintro ⟨front, ends⟩
    obtain ⟨other, whole, same⟩ := Option.map_eq_some_iff.1 ends
    have other : splitAt? start.rest (byteLength run) = some (other, start.rest.drop other.length) :=
      splitAt?_eq_some_iff.2
        ⟨(List.prefix_iff_eq_append.1 (Orthography.prefix_of_run? whole)).symm, by omega⟩
    have own : splitAt? start.rest (byteLength run) = some (run, start.rest.drop run.length) :=
      splitAt?_eq_some_iff.2 ⟨(List.prefix_iff_eq_append.1 front).symm, rfl⟩
    rw [own] at other
    cases other
    exact whole
  · intro whole
    exact ⟨Orthography.prefix_of_run? whole, by rw [whole]; rfl⟩

theorem skip_skip (cursor : Cursor) {first second : Char → Bool}
    (within : ∀ c, first c = true → second c = true) :
    (cursor.skip first).skip second = cursor.skip second := by
  obtain ⟨before, rest⟩ := cursor
  unfold skip
  induction rest generalizing before with
  | nil => rfl
  | cons c rest ih =>
    by_cases passed : first c = true
    · have := ih (c :: before)
      simp [passed, within c passed] at this ⊢
      exact this
    · simp [passed]

end Cursor

theorem Entity.isRequired_of_basic {entity : Entity} (basic : entity.mode = .basic)
    (list : entity.type = .list) : entity.isRequired = false := by
  obtain ⟨name, extractor⟩ := entity
  cases extractor with
  | list mode phrases greed =>
    cases basic
    rfl
  | any | integer => cases list

namespace Matcher

variable {m : Matcher} {name : List Char} {rest : List Part} {cursor start next : Cursor}
  {taken span : List Char} {found : Match} {count : Nat}

theorem skip_settle (m : Matcher) (cursor : Cursor) :
    (m.settle cursor).skip m.orthography.isSeparator = cursor.skip m.orthography.isSeparator := by
  have signs : ∀ c, m.orthography.isInputPunctuation c = true →
      m.orthography.isSeparator c = true := fun _ => Orthography.isSeparator_of_isInputPunctuation
  unfold settle
  split
  · rw [Cursor.skip_skip _ fun _ => id, Cursor.skip_skip cursor signs]
  · rfl

/-- A slot has a value for a span of the text, and the rest of the pattern matches from a place
on. -/
def Takes (m : Matcher) (name : List Char) (rest : List Part) (span : List Char) (next : Cursor)
    (found : Match) : Prop :=
  ∃ value later, (m.entityOf name).value? span = some value ∧ m.matchParts rest next = some later ∧
    found = (later.addCapture (String.ofList name)
      ⟨String.ofList (if m.respaces then FrenchSpacing.restore value else value),
        (m.entityOf name).type⟩).addBytes (m.orthography.significantLength span)

theorem tryCapture_eq_some_iff (solid : m.orthography.trimEnd taken ≠ []) :
    m.tryCapture (m.entityOf name) name start taken (fun next => m.matchParts rest next) = some found ↔
      m.Takes name rest (m.orthography.trimEnd taken) (start.forward taken.length) found := by
  unfold tryCapture capture? Takes
  rw [if_neg solid]
  cases (m.entityOf name).value? (m.orthography.trimEnd taken) with
  | none => simp
  | some value =>
    simp only [Option.map_some, Option.map_eq_some_iff]
    constructor
    · rintro ⟨later, matched, rfl⟩
      exact ⟨value, later, rfl, matched, rfl⟩
    · rintro ⟨_, later, same, matched, rfl⟩
      cases same
      exact ⟨later, matched, rfl⟩

/-- A slot takes some words, and the rest goes on where they end without separators. -/
def TakesTo (m : Matcher) (name : List Char) (rest : List Part) (start : Cursor) (count : Nat)
    (found : Match) : Prop :=
  ∃ run, start.IsRun m.orthography count run ∧
    m.Takes name rest (m.orthography.trimEnd run)
      (start.forward (m.orthography.trimEnd run).length) found

/-- A slot takes some words, and the rest goes on where the last of them was grabbed. -/
def TakesThrough (m : Matcher) (name : List Char) (rest : List Part) (start : Cursor) (count : Nat)
    (found : Match) : Prop :=
  ∃ run, start.IsRun m.orthography count run ∧
    m.Takes name rest (m.orthography.trimEnd run) (start.forward run.length) found

/-- A slot takes as many words as let the rest of the pattern match, if any number does. -/
structure TakesMost (m : Matcher) (name : List Char) (rest : List Part) (cursor : Cursor) : Prop where
  succeeds : (∃ found, m.matchParts (.slot name :: rest) cursor = some found) ↔
    ∃ count, 1 ≤ count ∧ ∃ found,
      m.TakesTo name rest (cursor.skip m.orthography.isSeparator) count found
  most : ∀ count found, 1 ≤ count →
    m.TakesTo name rest (cursor.skip m.orthography.isSeparator) count found →
    (∀ more, count < more → ∀ other,
      ¬m.TakesTo name rest (cursor.skip m.orthography.isSeparator) more other) →
    m.matchParts (.slot name :: rest) cursor = some found

/-- A slot takes as few words as let the rest of the pattern match, and not more than its entity
allows. -/
structure TakesFewest (m : Matcher) (name : List Char) (rest : List Part) (cursor : Cursor) :
    Prop where
  fewest : ∀ count found, 1 ≤ count → count ≤ (m.entityOf name).greed →
    m.TakesThrough name rest (cursor.skip m.orthography.isSeparator) count found →
    (∀ fewer, 1 ≤ fewer → fewer < count → ∀ other,
      ¬m.TakesThrough name rest (cursor.skip m.orthography.isSeparator) fewer other) →
    m.matchParts (.slot name :: rest) cursor = some found
  /-- Where no number of words does, a slot that is required fails. -/
  required : (m.entityOf name).isRequired = true →
    (∀ count, 1 ≤ count → count ≤ (m.entityOf name).greed → ∀ found,
      ¬m.TakesThrough name rest (cursor.skip m.orthography.isSeparator) count found) →
    m.matchParts (.slot name :: rest) cursor = none
  /-- A list that is not strict is passed over, and nothing is captured. -/
  passed : (m.entityOf name).type = .list → (m.entityOf name).mode = .basic →
    (∀ count, 1 ≤ count → count ≤ (m.entityOf name).greed → ∀ found,
      ¬m.TakesThrough name rest (cursor.skip m.orthography.isSeparator) count found) →
    m.matchParts (.slot name :: rest) cursor = m.matchParts rest cursor

theorem matchParts_slot (m : Matcher) (name : List Char) (rest : List Part) (cursor : Cursor) :
    m.matchParts (.slot name :: rest) cursor =
      ((m.candidates (m.entityOf name) (cursor.skip m.orthography.isSeparator).rest).findSome?
        fun taken => m.tryCapture (m.entityOf name) name (cursor.skip m.orthography.isSeparator) taken
          fun next => m.matchParts rest next).or
      (if 0 < (m.entityOf name).greed && !(m.entityOf name).isRequired then m.matchParts rest cursor
        else none) := by
  rw [matchParts, matchSlot, skip_settle, matchParts_settle]
  split
  · next found eq => rw [eq]; rfl
  · next eq => rw [eq]; rfl

section

variable (spaces : ∀ c ∈ start.rest, m.orthography.isSpace c = true →
  m.orthography.isSeparator c = true)
include spaces

theorem takesThrough_iff :
    ((m.orthography.run? (count + 1) start.rest).bind fun taken =>
        m.tryCapture (m.entityOf name) name start taken fun next => m.matchParts rest next)
        = some found ↔
      m.TakesThrough name rest start (count + 1) found := by
  simp only [TakesThrough, Cursor.isRun_iff, Option.bind_eq_some_iff]
  refine exists_congr fun run => and_congr_right fun whole => ?_
  exact tryCapture_eq_some_iff (Orthography.trimEnd_run_ne_nil spaces whole)

theorem takesTo_iff :
    (((m.orthography.run? (count + 1) start.rest).map m.orthography.trimEnd).bind fun taken =>
        m.tryCapture (m.entityOf name) name start taken fun next => m.matchParts rest next)
        = some found ↔
      m.TakesTo name rest start (count + 1) found := by
  simp only [TakesTo, Cursor.isRun_iff, Option.bind_map, Option.bind_eq_some_iff,
    Function.comp_apply]
  refine exists_congr fun run => and_congr_right fun whole => ?_
  have solid := Orthography.trimEnd_run_ne_nil spaces whole
  rw [tryCapture_eq_some_iff (by rwa [Orthography.trimEnd_trimEnd]), Orthography.trimEnd_trimEnd]

end

theorem takesMost (spaces : ∀ c ∈ (cursor.skip m.orthography.isSeparator).rest,
      m.orthography.isSpace c = true → m.orthography.isSeparator c = true)
    (unlimited : (m.entityOf name).greed = 0) : m.TakesMost name rest cursor := by
  obtain ⟨limit, last, runs⟩ := Orthography.exists_shrunk_eq spaces
  generalize attempts : (fun before =>
    ((m.orthography.run? (before + 1) (cursor.skip m.orthography.isSeparator).rest).map
      m.orthography.trimEnd).bind fun taken =>
        m.tryCapture (m.entityOf name) name (cursor.skip m.orthography.isSeparator) taken
          fun next => m.matchParts rest next) = attempt
  -- Shrinking visits the runs of words from the longest one down.
  have tried : m.matchParts (.slot name :: rest) cursor =
      (List.range limit).reverse.findSome? attempt := by
    rw [matchParts_slot, candidates, unlimited, if_neg (Nat.lt_irrefl 0), runs,
      ← List.filterMap_reverse, findSome?_filterMap, attempts]
    simp
  have takes : ∀ before found, attempt before = some found ↔
      m.TakesTo name rest (cursor.skip m.orthography.isSeparator) (before + 1) found := by
    intro before found
    rw [← attempts]
    exact takesTo_iff spaces
  have within : ∀ before found, attempt before = some found → before < limit := by
    intro before found eq
    obtain ⟨run, isRun, -⟩ := (takes before found).1 eq
    refine Nat.lt_of_not_le fun beyond => ?_
    obtain ⟨shorter, whole⟩ :=
      Orthography.exists_shorter_run (Cursor.isRun_iff.1 isRun) (Nat.succ_le_succ beyond)
    cases last.symm.trans whole
  constructor
  · rw [tried]
    constructor
    · rintro ⟨found, first⟩
      obtain ⟨before, -, eq⟩ := List.exists_of_findSome?_eq_some first
      exact ⟨before + 1, Nat.le_add_left .., found, (takes before found).1 eq⟩
    · rintro ⟨count, positive, found, taken⟩
      obtain ⟨before, rfl⟩ := Nat.exists_eq_add_of_le' positive
      have eq := (takes before found).2 taken
      rw [← Option.ne_none_iff_exists', Ne, List.findSome?_eq_none_iff]
      intro none
      have listed : before ∈ (List.range limit).reverse := by simp [within before found eq]
      cases eq.symm.trans (none before listed)
  · intro count found positive taken longest
    obtain ⟨before, rfl⟩ := Nat.exists_eq_add_of_le' positive
    have eq := (takes before found).2 taken
    rw [tried]
    refine findSome?_reverse_range (within before found eq) eq fun later above _ => ?_
    rw [Option.eq_none_iff_forall_ne_some]
    exact fun other also =>
      longest (later + 1) (Nat.succ_lt_succ above) other ((takes later other).1 also)

theorem takesFewest (spaces : ∀ c ∈ (cursor.skip m.orthography.isSeparator).rest,
      m.orthography.isSpace c = true → m.orthography.isSeparator c = true)
    (limited : 0 < (m.entityOf name).greed) : m.TakesFewest name rest cursor := by
  generalize attempts : (fun before =>
    (m.orthography.run? (before + 1) (cursor.skip m.orthography.isSeparator).rest).bind
      fun taken =>
        m.tryCapture (m.entityOf name) name (cursor.skip m.orthography.isSeparator) taken
          fun next => m.matchParts rest next) = attempt
  -- Growing visits them from one word up, as far as the greed allows.
  have tried : m.matchParts (.slot name :: rest) cursor =
      ((List.range (m.entityOf name).greed).findSome? attempt).or
        (if !(m.entityOf name).isRequired then m.matchParts rest cursor else none) := by
    rw [matchParts_slot, candidates, if_pos limited, Orthography.grown_eq, findSome?_filterMap,
      attempts]
    simp [limited]
  have takes : ∀ before found, attempt before = some found ↔
      m.TakesThrough name rest (cursor.skip m.orthography.isSeparator) (before + 1) found := by
    intro before found
    rw [← attempts]
    exact takesThrough_iff spaces
  have fails : (∀ count, 1 ≤ count → count ≤ (m.entityOf name).greed → ∀ found,
      ¬m.TakesThrough name rest (cursor.skip m.orthography.isSeparator) count found) →
      m.matchParts (.slot name :: rest) cursor =
        if !(m.entityOf name).isRequired then m.matchParts rest cursor else none := by
    intro never
    rw [tried, List.findSome?_eq_none_iff.2, Option.none_or]
    intro before listed
    rw [Option.eq_none_iff_forall_ne_some]
    exact fun found eq =>
      never (before + 1) (Nat.le_add_left ..) (List.mem_range.1 listed) found
        ((takes before found).1 eq)
  refine ⟨fun count found positive few taken shortest => ?_, fun required never => ?_,
    fun list basic never => ?_⟩
  · obtain ⟨before, rfl⟩ := Nat.exists_eq_add_of_le' positive
    rw [tried, findSome?_range few ((takes before found).2 taken), Option.some_or]
    intro earlier below
    rw [Option.eq_none_iff_forall_ne_some]
    exact fun other also => shortest (earlier + 1) (Nat.le_add_left ..) (Nat.succ_lt_succ below)
      other ((takes earlier other).1 also)
  · rw [fails never, required]
    rfl
  · rw [fails never, Entity.isRequired_of_basic basic list]
    rfl

/-- At any place of a normalized input a slot without limit takes the longest run of whole words
that works, and one with limited greed the shortest. -/
theorem matchParts_slot_runs {language : Language} {options : MatchOptions} {source : List Char}
    {m : Matcher} (spoken : m.orthography = .ofLanguage language) {cursor : Cursor}
    (normal : cursor.text = m.orthography.normalizeInput options source) (name : List Char)
    (rest : List Part) :
    ((m.entityOf name).greed = 0 → m.TakesMost name rest cursor) ∧
      (0 < (m.entityOf name).greed → m.TakesFewest name rest cursor) := by
  have spaces : ∀ c ∈ (cursor.skip m.orthography.isSeparator).rest,
      m.orthography.isSpace c = true → m.orthography.isSeparator c = true := by
    intro c member
    have inside : c ∈ cursor.text := by
      rw [← Cursor.text_skip cursor m.orthography.isSeparator]
      exact List.mem_append_right _ member
    rw [normal] at inside
    exact (m.orthography.isNormal_normalizeInput options source).forall_isSeparator spoken c inside
  exact ⟨takesMost spaces, takesFewest spaces⟩

/-- Two words can be taken by either slot; one of them takes both, and the other only one. -/
theorem matchParts_slot_runs_colors :
    ∃ m cursor rest, m = Matcher.mk (.ofLanguage .english)
        (fun name => if name = "room" then some ⟨"room", .list .basic ["living room"] 2⟩ else none)
        false ∧
      m.orthography = .ofLanguage .english ∧
      cursor.text = m.orthography.normalizeInput {} "Red,  green blue!".toList ∧
      rest = [.space, .slot "rest".toList] ∧
      (m.entityOf "place".toList).greed = 0 ∧ m.TakesMost "place".toList rest cursor ∧
      m.matchParts (.slot "place".toList :: rest) cursor =
        some ⟨[("place", ⟨"red, green", .any⟩), ("rest", ⟨"blue", .any⟩)], 12⟩ ∧
      0 < (m.entityOf "room".toList).greed ∧ m.TakesFewest "room".toList rest cursor ∧
      m.matchParts (.slot "room".toList :: rest) cursor =
        some ⟨[("room", ⟨"red", .list⟩), ("rest", ⟨"green blue", .any⟩)], 12⟩ := by
  generalize same : Matcher.mk (.ofLanguage .english)
    (fun name => if name = "room" then some ⟨"room", .list .basic ["living room"] 2⟩ else none)
    false = m
  have spoken : m.orthography = .ofLanguage .english := by rw [← same]
  have normal : (Cursor.atStart "red, green blue".toList).text =
      m.orthography.normalizeInput {} "Red,  green blue!".toList := by
    rw [← same]
    decide +kernel
  have unlimited : (m.entityOf "place".toList).greed = 0 := by
    rw [← same]
    decide +kernel
  have limited : 0 < (m.entityOf "room".toList).greed := by
    rw [← same]
    decide +kernel
  refine ⟨m, .atStart "red, green blue".toList, _, rfl, spoken, normal, rfl, unlimited,
    (matchParts_slot_runs spoken normal _ _).1 unlimited, ?_, limited,
    (matchParts_slot_runs spoken normal _ _).2 limited, ?_⟩
  · rw [← same]
    decide +kernel
  · rw [← same]
    decide +kernel

end Matcher

end Phrasebook
