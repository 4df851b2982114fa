import Mathlib.Data.List.Sort
import Phrasebook.Proofs.Registration

/-! In how many requests, and in which order, a model is filled.

The patterns of an intent are those of all its phrases, each form once and at its first
place, however the phrases are divided among requests. What has been registered once is
not registered again, and requests under different names do not meet.
-/

set_option autoImplicit false

namespace Phrasebook

open Text Numeral

namespace Dictionary

variable {α : Type}

/-- A dictionary is known by its answers. -/
theorem eq_of_get?_eq {first second : Dictionary α}
    (same : ∀ name, first.get? name = second.get? name) : first = second := by
  have members : ∀ entry, entry ∈ first.entries ↔ entry ∈ second.entries := by
    rintro ⟨name, value⟩
    rw [mem_entries_iff, mem_entries_iff, same]
  have irreflexive : Std.Irrefl fun first second : String × α => first.1 < second.1 :=
    ⟨fun entry => String.lt_irrefl entry.1⟩
  have antisymmetric : Std.Antisymm fun first second : String × α => first.1 < second.1 :=
    ⟨fun _ _ less greater => absurd (String.lt_trans less greater) (String.lt_irrefl _)⟩
  have entries := first.sorted.eq_of_mem_iff second.sorted members
  cases first
  cases second
  cases entries
  rfl

theorem alter_comm (dictionary : Dictionary α) {name other : String} (apart : name ≠ other)
    (change changeOther : Option α → α) :
    (dictionary.alter name change).alter other changeOther =
      (dictionary.alter other changeOther).alter name change := by
  apply eq_of_get?_eq
  intro query
  simp only [get?_alter, if_neg apart, if_neg (Ne.symm apart)]
  by_cases here : query = name
  · rw [if_pos here, if_pos here, if_neg fun there => apart (here.symm.trans there)]
  · rw [if_neg here, if_neg here]

/-- A change that leaves the value as it is leaves the dictionary as it is. -/
theorem alter_eq_self {dictionary : Dictionary α} {name : String} {change : Option α → α} {value : α}
    (present : dictionary.get? name = some value) (kept : change (some value) = value) :
    dictionary.alter name change = dictionary := by
  apply eq_of_get?_eq
  intro query
  rw [get?_alter]
  split
  · next same => rw [same, present, kept]
  · rfl

end Dictionary

namespace Intent

variable {intent : Intent} {patterns : List Pattern}

/-- The intent has the written form of each of the patterns. -/
def Covers (intent : Intent) (patterns : List Pattern) : Prop :=
  ∀ pattern ∈ patterns, pattern.normalized ∈ intent.patterns.map Pattern.normalized

theorem mem_forms_addPattern (intent : Intent) (pattern : Pattern) {form : List Char} :
    form ∈ (intent.addPattern pattern).patterns.map Pattern.normalized ↔
      form ∈ intent.patterns.map Pattern.normalized ∨ form = pattern.normalized := by
  unfold addPattern
  split
  · next known =>
    obtain ⟨present, member, same⟩ := List.any_eq_true.1 known
    rw [iff_self_or]
    rintro rfl
    exact List.mem_map.2 ⟨present, member, beq_iff_eq.1 same⟩
  · rw [List.map_append, List.mem_append, List.map_singleton, List.mem_singleton]

theorem mem_forms_addPatterns (intent : Intent) (patterns : List Pattern) {form : List Char} :
    form ∈ (intent.addPatterns patterns).patterns.map Pattern.normalized ↔
      form ∈ intent.patterns.map Pattern.normalized ∨ form ∈ patterns.map Pattern.normalized := by
  induction patterns generalizing intent with
  | nil => simp [addPatterns]
  | cons pattern rest ih =>
    rw [show intent.addPatterns (pattern :: rest) = (intent.addPattern pattern).addPatterns rest
      from rfl, ih, mem_forms_addPattern, List.map_cons, List.mem_cons, or_assoc]

theorem covers_addPatterns (intent : Intent) (patterns : List Pattern) :
    (intent.addPatterns patterns).Covers patterns :=
  fun _ member => (mem_forms_addPatterns ..).2 (.inr (List.mem_map_of_mem member))

theorem Covers.addPatterns (covers : intent.Covers patterns) (others : List Pattern) :
    (intent.addPatterns others).Covers patterns :=
  fun pattern member => (mem_forms_addPatterns ..).2 (.inl (covers pattern member))

/-- Patterns that are there are not added again. -/
theorem addPatterns_of_covers (covers : intent.Covers patterns) :
    intent.addPatterns patterns = intent := by
  induction patterns with
  | nil => rfl
  | cons pattern rest ih =>
    obtain ⟨first, others⟩ := List.forall_mem_cons.1 covers
    have known : intent.addPattern pattern = intent := by
      obtain ⟨present, member, same⟩ := List.mem_map.1 first
      rw [addPattern, if_pos]
      exact List.any_eq_true.2 ⟨present, member, beq_iff_eq.2 same⟩
    rw [show intent.addPatterns (pattern :: rest) = (intent.addPattern pattern).addPatterns rest
      from rfl, known, ih others]

end Intent

namespace Model

variable {model next : Model} {id : String} {phrases : List String} {patterns : List Pattern}

theorem compileAll_append_eq_ok_iff {o : Orthography} {first second : List String} :
    compileAll o (first ++ second) = .ok patterns ↔
      ∃ before after, compileAll o first = .ok before ∧ compileAll o second = .ok after ∧
        patterns = before ++ after := by
  unfold compileAll
  rw [List.mapM_append]
  cases first.mapM (Template.compile o) with
  | error error => simp [bind, Except.bind]
  | ok before =>
    cases second.mapM (Template.compile o) with
    | error error => simp [bind, Except.bind]
    | ok after => simp [bind, Except.bind, pure, Except.pure, eq_comm]

/-- The model after patterns of an intent have been stored. -/
def withPatterns (model : Model) (id : String) (patterns : List Pattern) : Model :=
  { model with
    intents := model.intents.alter id fun present =>
      (present.getD ⟨id, 0, []⟩).addPatterns patterns }

theorem addIntent_eq_ok_iff :
    model.addIntent id phrases = .ok next ↔
      isBlankText id.toList = false ∧ ∃ patterns,
        compileAll model.orthography phrases = .ok patterns ∧ next = model.withPatterns id patterns := by
  constructor
  · exact exists_of_addIntent
  · rintro ⟨named, patterns, compiled, rfl⟩
    rw [addIntent, if_neg (by simp [named]), compiled]
    rfl

theorem withPatterns_withPatterns (model : Model) (id : String) (first second : List Pattern) :
    (model.withPatterns id first).withPatterns id second =
      model.withPatterns id (first ++ second) := by
  unfold withPatterns
  rw [Dictionary.alter_alter]
  simp only [Option.getD_some, Intent.addPatterns, List.foldl_append]

theorem withPatterns_comm (model : Model) {other : String} (apart : id ≠ other)
    (first second : List Pattern) :
    (model.withPatterns id first).withPatterns other second =
      (model.withPatterns other second).withPatterns id first := by
  unfold withPatterns
  rw [Dictionary.alter_comm _ apart]

/-- The intent of an id is there and has the written form of each of the patterns. -/
def Holds (model : Model) (id : String) (patterns : List Pattern) : Prop :=
  ∃ intent, model.intents.get? id = some intent ∧ intent.Covers patterns

theorem holds_withPatterns (model : Model) (id : String) (patterns : List Pattern) :
    (model.withPatterns id patterns).Holds id patterns := by
  refine ⟨(model.intents.get? id |>.getD ⟨id, 0, []⟩).addPatterns patterns, ?_,
    Intent.covers_addPatterns _ patterns⟩
  rw [withPatterns, Dictionary.get?_alter, if_pos rfl]

theorem Holds.withPatterns (holds : model.Holds id patterns) (other : String)
    (others : List Pattern) : (model.withPatterns other others).Holds id patterns := by
  obtain ⟨intent, present, covers⟩ := holds
  by_cases same : id = other
  · subst same
    refine ⟨intent.addPatterns others, ?_, covers.addPatterns others⟩
    rw [Model.withPatterns, Dictionary.get?_alter, if_pos rfl, present]
    rfl
  · refine ⟨intent, ?_, covers⟩
    rw [Model.withPatterns, Dictionary.get?_alter, if_neg same, present]

theorem withPatterns_of_holds (holds : model.Holds id patterns) :
    model.withPatterns id patterns = model := by
  obtain ⟨intent, present, covers⟩ := holds
  have kept : (((some intent).getD ⟨id, 0, []⟩).addPatterns patterns) = intent :=
    Intent.addPatterns_of_covers covers
  rw [withPatterns, Dictionary.alter_eq_self present kept]

end Model

namespace Request

open Model

variable {model next last : Model} {id : String} {phrases : List String} {patterns : List Pattern}

/-- Requests succeed one after the other and lead from a model to another. -/
def Leads (requests : List Request) (model next : Model) : Prop :=
  ∃ answers, requests.mapM perform model = .ok answers next

theorem leads_nil_iff : Leads [] model next ↔ model = next := by
  simp [Leads, pure, EStateM.pure]

theorem leads_cons_iff {request : Request} {rest : List Request} :
    Leads (request :: rest) model last ↔
      ∃ answer next, perform request model = .ok answer next ∧ Leads rest next last := by
  unfold Leads
  rw [List.mapM_cons]
  simp only [bind, EStateM.bind, pure, EStateM.pure]
  cases perform request model with
  | error error after => simp
  | ok answer next =>
    cases others : rest.mapM perform next with
    | error error after => simp [others]
    | ok answers last => simp [others]

theorem leads_addIntent_cons_iff {rest : List Request} :
    Leads (.addIntent id phrases :: rest) model last ↔
      isBlankText id.toList = false ∧ ∃ patterns,
        compileAll model.orthography phrases = .ok patterns ∧
        Leads rest (model.withPatterns id patterns) last := by
  rw [leads_cons_iff, perform_addIntent]
  cases added : model.addIntent id phrases with
  | error error =>
    constructor
    · rintro ⟨_, _, failed, _⟩
      cases failed
    · rintro ⟨named, patterns, compiled, _⟩
      have succeeded := addIntent_eq_ok_iff.2 ⟨named, patterns, compiled, rfl⟩
      rw [added] at succeeded
      cases succeeded
  | ok next =>
    obtain ⟨named, patterns, compiled, rfl⟩ := addIntent_eq_ok_iff.1 added
    constructor
    · rintro ⟨_, _, done, others⟩
      cases done
      exact ⟨named, patterns, compiled, others⟩
    · rintro ⟨_, other, same, others⟩
      cases compiled.symm.trans same
      exact ⟨_, _, rfl, others⟩

theorem leads_addEntity_cons_iff {entity : Entity} {rest : List Request} :
    Leads (.addEntity entity :: rest) model last ↔
      isBlankText entity.name.toList = false ∧
        Leads rest { model with
          entities := model.entities.insert entity.name
            (entity.bind model.orthography model.numbers) } last := by
  rw [leads_cons_iff, perform_addEntity, Model.addEntity]
  cases isBlankText entity.name.toList <;> simp

/-- What a request leaves behind, whether it succeeds or not. -/
theorem apply_addIntent (model : Model) (id : String) (phrases : List String) :
    apply model (.addIntent id phrases) = model ∨
      ∃ patterns, apply model (.addIntent id phrases) = model.withPatterns id patterns := by
  unfold apply
  rw [perform_addIntent]
  cases added : model.addIntent id phrases with
  | error error => exact .inl rfl
  | ok next =>
    obtain ⟨-, patterns, -, rfl⟩ := addIntent_eq_ok_iff.1 added
    exact .inr ⟨patterns, rfl⟩

theorem apply_addEntity (model : Model) (entity : Entity) :
    apply model (.addEntity entity) = model ∨
      apply model (.addEntity entity) = { model with
        entities := model.entities.insert entity.name
          (entity.bind model.orthography model.numbers) } := by
  unfold apply
  rw [perform_addEntity, Model.addEntity]
  cases isBlankText entity.name.toList with
  | true => exact .inl rfl
  | false => exact .inr rfl

theorem apply_removeIntent (model : Model) (id : String) :
    apply model (.removeIntent id) = { model with intents := model.intents.erase id } := rfl

theorem orthography_apply (model : Model) (request : Request) :
    (apply model request).orthography = model.orthography := by
  cases request with
  | addIntent id phrases =>
    rcases apply_addIntent model id phrases with same | ⟨patterns, stored⟩
    · rw [same]
    · rw [stored]
      rfl
  | addEntity entity =>
    rcases apply_addEntity model entity with same | stored
    · rw [same]
    · rw [stored]
  | removeIntent id => rfl

/-- Only its removal takes anything from an intent. -/
theorem holds_apply (holds : model.Holds id patterns) {request : Request}
    (kept : request ≠ .removeIntent id) : (apply model request).Holds id patterns := by
  cases request with
  | addIntent other phrases =>
    rcases apply_addIntent model other phrases with same | ⟨others, stored⟩
    · rwa [same]
    · rw [stored]
      exact holds.withPatterns other others
  | addEntity entity =>
    rcases apply_addEntity model entity with same | stored
    · rwa [same]
    · rw [stored]
      exact holds
  | removeIntent other =>
    obtain ⟨intent, present, covers⟩ := holds
    refine ⟨intent, ?_, covers⟩
    rw [apply_removeIntent, Dictionary.get?_erase, if_neg, present]
    rintro rfl
    exact kept rfl

/-- What a model can become before an intent is removed from it. -/
inductive Later (id : String) (model : Model) : Model → Prop where
  | here : Later id model model
  | request {later : Model} {request : Request} : Later id model later →
      request ≠ .removeIntent id → Later id model (apply later request)
  | withOptions {later : Model} (options : MatchOptions) : Later id model later →
      Later id model (later.withOptions options)

theorem Later.holds {later : Model} (reached : Later id model later)
    (holds : model.Holds id patterns) :
    later.Holds id patterns ∧ later.orthography = model.orthography := by
  induction reached with
  | here => exact ⟨holds, rfl⟩
  | request _ kept ih => exact ⟨holds_apply ih.1 kept, (orthography_apply ..).trans ih.2⟩
  | withOptions options _ ih => exact ih

/-- Registrations of an intent add up to one of all their phrases. Once done, a registration
changes nothing when it is made again, until the intent is removed. It can change places
with one of another intent and with one of an entity. -/
theorem leads_addIntent_laws (model : Model) (id : String) (phrases : List String) :
    (∀ others last,
      Leads [.addIntent id phrases, .addIntent id others] model last ↔
        Leads [.addIntent id (phrases ++ others)] model last) ∧
    (∀ next later, Leads [.addIntent id phrases] model next → Later id next later →
      Leads [.addIntent id phrases] later later) ∧
    (∀ other others last, other ≠ id →
      (Leads [.addIntent id phrases, .addIntent other others] model last ↔
        Leads [.addIntent other others, .addIntent id phrases] model last)) ∧
    ∀ entity last,
      Leads [.addIntent id phrases, .addEntity entity] model last ↔
        Leads [.addEntity entity, .addIntent id phrases] model last := by
  simp only [leads_addIntent_cons_iff, leads_addEntity_cons_iff, leads_nil_iff]
  refine ⟨fun others last => ?_, fun next later => ?_, fun other others last apart => ?_,
    fun entity last => ?_⟩
  · constructor
    · rintro ⟨named, first, compiled, -, second, compiledOthers, rfl⟩
      refine ⟨named, first ++ second, ?_, (withPatterns_withPatterns ..).symm⟩
      exact compileAll_append_eq_ok_iff.2 ⟨first, second, compiled, compiledOthers, rfl⟩
    · rintro ⟨named, patterns, compiled, rfl⟩
      obtain ⟨first, second, compiledFirst, compiledOthers, rfl⟩ :=
        compileAll_append_eq_ok_iff.1 compiled
      exact ⟨named, first, compiledFirst, named, second, compiledOthers,
        withPatterns_withPatterns ..⟩
  · rintro ⟨named, patterns, compiled, rfl⟩ reached
    obtain ⟨holds, spelled⟩ := reached.holds (holds_withPatterns model id patterns)
    rw [spelled]
    exact ⟨named, patterns, compiled, withPatterns_of_holds holds⟩
  · constructor
    · rintro ⟨named, first, compiled, namedOther, second, compiledOthers, rfl⟩
      exact ⟨namedOther, second, compiledOthers, named, first, compiled,
        withPatterns_comm _ apart _ _⟩
    · rintro ⟨namedOther, second, compiledOthers, named, first, compiled, rfl⟩
      exact ⟨named, first, compiled, namedOther, second, compiledOthers,
        withPatterns_comm _ (Ne.symm apart) _ _⟩
  · constructor
    · rintro ⟨named, patterns, compiled, namedEntity, rfl⟩
      exact ⟨namedEntity, named, patterns, compiled, rfl⟩
    · rintro ⟨namedEntity, named, patterns, compiled, rfl⟩
      exact ⟨named, patterns, compiled, namedEntity, rfl⟩

/-- Other phrases, a removal of another intent and new options come between. -/
theorem leads_addIntent_go_again :
    ∃ next later,
      Leads [.addIntent "go" ["go", "Go!", "run {pace}"]] (.new "en" .standard) next ∧
      later = (apply (apply next (.addIntent "go" ["walk", "RUN {pace}"])) (.removeIntent "stop")
        ).withOptions ⟨false, false⟩ ∧
      Later "go" next later ∧
      Leads [.addIntent "go" ["go", "Go!", "run {pace}"]] later later ∧
      "stop" ≠ "go" ∧
      ∀ last,
        Leads [.addIntent "go" ["go", "Go!", "run {pace}"], .addIntent "stop" ["go"]]
            (.new "en" .standard) last ↔
          Leads [.addIntent "stop" ["go"], .addIntent "go" ["go", "Go!", "run {pace}"]]
            (.new "en" .standard) last := by
  have compiles : (compileAll (Model.new "en" .standard).orthography
      ["go", "Go!", "run {pace}"]).map (fun patterns => patterns.length) = .ok 3 := by
    decide +kernel
  obtain ⟨patterns, compiled, -⟩ := exists_of_map_eq_ok compiles
  have added : Leads [.addIntent "go" ["go", "Go!", "run {pace}"]] (.new "en" .standard)
      ((Model.new "en" .standard).withPatterns "go" patterns) :=
    leads_addIntent_cons_iff.2 ⟨by decide, patterns, compiled, leads_nil_iff.2 rfl⟩
  have reached : Later "go" ((Model.new "en" .standard).withPatterns "go" patterns)
      ((apply (apply ((Model.new "en" .standard).withPatterns "go" patterns)
        (.addIntent "go" ["walk", "RUN {pace}"])) (.removeIntent "stop")).withOptions
          ⟨false, false⟩) :=
    ((Later.here.request (by simp)).request (by simp)).withOptions _
  obtain ⟨-, again, swaps, -⟩ :=
    leads_addIntent_laws (.new "en" .standard) "go" ["go", "Go!", "run {pace}"]
  exact ⟨_, _, added, rfl, reached, again _ _ added reached, by decide,
    fun last => swaps "stop" ["go"] last (by decide)⟩

end Request

end Phrasebook
