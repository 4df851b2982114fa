import Phrasebook.Proofs.Segmentation

/-! Reading numbers with values that are held up to a limit.

A bounded grammar goes along with an unlimited one until a value reaches the limit.
Values only grow, and a word is never taken out of a number after it brought the value
there, so that some number of the unlimited reading is worth the limit at least. What
the bounded grammar does write is what the unlimited one writes.
-/

set_option autoImplicit false

namespace Phrasebook.Numeral

/-- What a bounded and an unlimited machine say to the same token. -/
inductive Agrees {σ τ : Type} (Same : σ → τ → Prop) (Heavy : τ → Prop) :
    Verdict σ → Verdict τ → Prop
  | joined {state : σ} {other : τ} (same : Same state other) :
    Agrees Same Heavy (.joined state) (.joined other)
  | refused : Agrees Same Heavy .refused .refused
  | overflow {other : τ} (heavy : Heavy other) : Agrees Same Heavy .overflow (.joined other)

theorem Agrees.bind {σ τ υ φ : Type} {Same : σ → τ → Prop} {Heavy : τ → Prop}
    {Next : υ → φ → Prop} {Full : φ → Prop} {said : Verdict σ} {told : Verdict τ}
    {first : σ → Verdict υ} {second : τ → Verdict φ} (agrees : Agrees Same Heavy said told)
    (held : said ≠ .overflow)
    (further : ∀ {state other}, Same state other → Agrees Next Full (first state) (second other)) :
    Agrees Next Full (said.bind first) (told.bind second) := by
  cases agrees with
  | joined same => exact further same
  | refused => exact .refused
  | overflow => exact absurd rfl held

theorem Agrees.imp {σ τ : Type} {Same : σ → τ → Prop} {Heavy Other : τ → Prop}
    {said : Verdict σ} {told : Verdict τ} (agrees : Agrees Same Heavy said told)
    (implied : ∀ state, Heavy state → Other state) : Agrees Same Other said told := by
  cases agrees with
  | joined same => exact .joined same
  | refused => exact .refused
  | overflow heavy => exact .overflow (implied _ heavy)

/-- A word holds what is below its limit. -/
theorem Agrees.ofHeld {σ : Type} {Same : σ → σ → Prop} {Heavy : σ → Prop} {value : Nat}
    {next : Nat → σ} (same : value < UInt64.size → Same (next value) (next value))
    (heavy : UInt64.size ≤ value → Heavy (next value)) :
    Agrees Same Heavy (.ofHeld (Capacity.word64.hold? value) next)
      (.ofHeld (Capacity.unlimited.hold? value) next) := by
  rw [Capacity.hold?_word64, Capacity.hold?_unlimited]
  split
  · next small => exact .joined (same small)
  · next large => exact .overflow (heavy (Nat.le_of_not_lt large))

/-- What is held is what there was to hold. -/
theorem Verdict.eq_of_ofHeld {σ : Type} {capacity : Capacity} {value : Nat} {next : Nat → σ}
    {after : σ} (joined : Verdict.ofHeld (capacity.hold? value) next = .joined after) :
    next value = after := by
  cases holds : capacity.hold? value with
  | none => simp [holds, ofHeld] at joined
  | some held =>
    rw [holds, Capacity.eq_of_hold? holds] at joined
    cases joined
    rfl

/-- The unlimited grammar `h` takes the admitted tokens as the grammar `g` does, whose values
are held below the limit. -/
structure Widens (limit : Nat) (g h : Grammar) (Admitted : Token → Prop) where
  positive : 0 < limit
  /-- States after the same tokens. -/
  Same : g.State → h.State → Prop
  /-- The value of a state is at least its weight. -/
  weight : h.State → Nat
  initial : Same g.initial h.initial
  weightless : weight h.initial = 0
  multiplier : h.isMultiplier = g.isMultiplier
  /-- Where the bounded grammar overflows, the weight was at the limit before, or a multiplier
  brings it there. -/
  push : ∀ {state other token}, Same state other → Admitted token → ∀ next,
    Agrees Same
      (fun after => limit ≤ weight other ∨ g.isMultiplier token = true ∧ limit ≤ weight after)
      (g.push state token next) (h.push other token next)
  unlimited : ∀ state token next, h.push state token next ≠ .overflow
  grows : ∀ {state token next after}, h.push state token next = .joined after →
    weight state ≤ weight after
  linking : ∀ {state token next after}, token.isConnector = true →
    h.push state token next = .joined after → weight after = weight state
  total : ∀ state, ∃ total, h.value? state = some total ∧ weight state ≤ total
  held : ∀ {state other total}, Same state other → h.value? other = some total →
    g.value? state = if total < limit then some total else none

namespace Widens

open Grammar

variable {limit : Nat} {g h : Grammar} {Admitted : Token → Prop}

/-- A number of the unlimited reading that is worth the limit at least. -/
def Reaches (limit : Nat) (h : Grammar) (group : List Token) : Prop :=
  ∃ total, h.groupValue? group = some total ∧ limit ≤ total

/-- A group that weighs the limit before its last word, or right after a multiplier. -/
def Loaded (wide : Widens limit g h Admitted) (ahead : Option Token) (group : List Token) : Prop :=
  ∃ front back middle, group = front ++ back ∧
    h.replayBefore (back.head?.or ahead) h.initial front = .joined middle ∧
    limit ≤ wide.weight middle ∧
    (back = [] → ∀ last ∈ front.getLast?, h.isMultiplier last = true)

section Weight

variable {group : List Token} {start state : h.State} {ahead : Option Token}

theorem weight_le_of_replayBefore (wide : Widens limit g h Admitted)
    (reads : h.replayBefore ahead start group = .joined state) :
    wide.weight start ≤ wide.weight state := by
  induction group generalizing start with
  | nil =>
    cases reads
    exact Nat.le_refl _
  | cons token rest ih =>
    obtain ⟨next, step, reads⟩ := Verdict.exists_of_bind_eq_joined reads
    exact Nat.le_trans (wide.grows step) (ih reads)

theorem weight_eq_of_replayBefore (wide : Widens limit g h Admitted)
    (linking : ∀ token ∈ group, token.isConnector = true)
    (reads : h.replayBefore ahead start group = .joined state) :
    wide.weight state = wide.weight start := by
  induction group generalizing start with
  | nil =>
    cases reads
    rfl
  | cons token rest ih =>
    obtain ⟨next, step, reads⟩ := Verdict.exists_of_bind_eq_joined reads
    rw [ih (fun other member => linking other (List.mem_cons_of_mem _ member)) reads,
      wide.linking (linking token (List.mem_cons_self ..)) step]

theorem exists_reaches_close (wide : Widens limit g h Admitted) (steady : h.IsSteady)
    (reads : h.replayBefore ahead h.initial group = .joined state)
    (heavy : limit ≤ wide.weight state) : ∃ kept ∈ close group, Reaches limit h kept := by
  obtain ⟨final, kept, linked⟩ := steady.exists_replay_kept reads
  have same := wide.weight_eq_of_replayBefore (fun _ => List.mem_rtakeWhile_imp) linked
  refine ⟨_, mem_close.2 ⟨rfl, fun nothing => ?_⟩, ?_⟩
  · -- Nothing weighs nothing.
    rw [nothing] at kept
    cases kept
    have := wide.weightless
    have := wide.positive
    omega
  · obtain ⟨total, value, least⟩ := wide.total final
    exact ⟨total, by rw [groupValue?, kept]; exact value, by omega⟩

theorem loaded_of_heavy (wide : Widens limit g h Admitted)
    (reads : h.replayBefore ahead h.initial group = .joined state)
    (heavy : limit ≤ wide.weight state)
    (scales : ∀ last ∈ group.getLast?, h.isMultiplier last = true) : wide.Loaded ahead group :=
  ⟨group, [], state, (List.append_nil _).symm, reads, heavy, fun _ => scales⟩

theorem loaded_concat (wide : Widens limit g h Admitted) {token : Token}
    (reads : h.replayBefore (some token) h.initial group = .joined state)
    (heavy : limit ≤ wide.weight state) : wide.Loaded ahead (group ++ [token]) :=
  ⟨group, [token], state, rfl, reads, heavy, fun none => absurd none (List.cons_ne_nil _ _)⟩

/-- What a prefix weighs, the whole group weighs. -/
theorem exists_le_weight (wide : Widens limit g h Admitted) {front back : List Token}
    {middle : h.State} (begins : h.replayBefore (back.head?.or ahead) h.initial front = .joined middle)
    (heavy : limit ≤ wide.weight middle)
    (reads : h.replayBefore ahead h.initial (front ++ back) = .joined state) :
    limit ≤ wide.weight state := by
  rw [replayBefore_append, begins] at reads
  exact Nat.le_trans heavy (wide.weight_le_of_replayBefore reads)

/-- The load of a group is closed with it, or stays in it. -/
theorem Loaded.of_moves {wide : Widens limit g h Admitted} (steady : h.IsSteady) {token : Token}
    {next : Option Token} {closed : List (List Token)} {opened : List Token} {after : h.State}
    (loaded : wide.Loaded (some token) group)
    (reads : h.replayBefore (some token) h.initial group = .joined state)
    (moves : h.Moves group state token next closed opened after) :
    (∃ kept ∈ closed, Reaches limit h kept) ∨ wide.Loaded next opened := by
  obtain ⟨front, back, middle, rfl, begins, heavy, stays⟩ := loaded
  have weighs := wide.exists_le_weight begins heavy reads
  cases moves with
  | join =>
    refine .inr ⟨front, back ++ [token], middle, by simp, ?_, heavy, by simp⟩
    rw [List.head?_append, Option.or_assoc]
    exact begins
  | start | drop => exact .inl (wide.exists_reaches_close steady reads weighs)
  | carry _ ends _ plain =>
    rcases List.eq_nil_or_concat back with rfl | ⟨rest, last, rfl⟩
    · -- A multiplier is not taken along.
      have scales := stays rfl
      rw [List.append_nil] at ends
      simp [ends, plain] at scales
    · rw [List.concat_eq_append, ← List.append_assoc] at ends
      obtain ⟨rfl, lasts⟩ := List.append_inj' ends rfl
      obtain rfl := List.singleton_inj.1 lasts
      rw [List.concat_eq_append, ← List.append_assoc, replayBefore_append] at reads
      obtain ⟨before, left, -⟩ := Verdict.exists_of_bind_eq_joined reads
      have begun : h.replayBefore (rest.head?.or (some last)) h.initial front = .joined middle := by
        simpa [Option.or_assoc] using begins
      exact .inl (wide.exists_reaches_close steady left (wide.exists_le_weight begun heavy left))

theorem replayBefore_ne_overflow (wide : Widens limit g h Admitted) (ahead : Option Token)
    (start : h.State) (group : List Token) : h.replayBefore ahead start group ≠ .overflow := by
  induction group generalizing start with
  | nil => simp [replayBefore]
  | cons token rest ih =>
    rw [replayBefore]
    cases step : h.push start token (rest.head?.or ahead) with
    | joined next => exact ih next
    | refused => simp [Verdict.bind]
    | overflow => exact absurd step (wide.unlimited _ _ _)

theorem exists_moves_unlimited (wide : Widens limit g h Admitted) (group : List Token)
    (state : h.State) (token : Token) (next : Option Token) :
    ∃ closed opened after, h.Moves group state token next closed opened after := by
  rcases moves_or_stuck h group state token next with moves | stuck
  · exact moves
  · cases stuck with
    | join beyond | start _ _ beyond => exact absurd beyond (wide.unlimited _ _ _)
    | carry _ beyond =>
      rcases carry_eq h group token next with alone | ⟨_, _, -, -, -, same⟩
      · simp [alone] at beyond
      · exact absurd (same.symm.trans beyond) (wide.replayBefore_ne_overflow _ _ _)

theorem exists_segmentFrom (wide : Widens limit g h Admitted) (group : List Token)
    (state : h.State) (tokens : List Token) :
    ∃ groups, h.segmentFrom group state tokens = some groups := by
  induction tokens generalizing group state with
  | nil => exact ⟨_, rfl⟩
  | cons token rest ih =>
    obtain ⟨closed, opened, after, moves⟩ :=
      wide.exists_moves_unlimited group state token rest.head?
    obtain ⟨others, cut⟩ := ih opened after
    exact ⟨closed ++ others, by rw [segmentFrom_of_moves moves, cut]; rfl⟩

/-- Once a group is loaded, one of the numbers that are cut off is worth the limit. -/
theorem Loaded.exists_segmentFrom {wide : Widens limit g h Admitted} (steady : h.IsSteady)
    {tokens : List Token} (loaded : wide.Loaded tokens.head? group)
    (reads : h.replayBefore tokens.head? h.initial group = .joined state) :
    ∃ groups, h.segmentFrom group state tokens = some groups ∧
      ∃ group ∈ groups, Reaches limit h group := by
  induction tokens generalizing group state with
  | nil =>
    obtain ⟨front, back, middle, rfl, begins, heavy, -⟩ := loaded
    exact ⟨_, rfl, wide.exists_reaches_close steady reads (wide.exists_le_weight begins heavy reads)⟩
  | cons token rest ih =>
    obtain ⟨closed, opened, after, moves⟩ :=
      wide.exists_moves_unlimited group state token rest.head?
    have further := replayBefore_of_moves reads moves
    rw [segmentFrom_of_moves moves]
    rcases loaded.of_moves steady reads moves with ⟨kept, member, reaches⟩ | loaded
    · obtain ⟨others, cut⟩ := wide.exists_segmentFrom opened after rest
      exact ⟨closed ++ others, by simp [cut], kept, List.mem_append_left _ member, reaches⟩
    · obtain ⟨others, cut, kept, member, reaches⟩ := ih loaded further
      exact ⟨closed ++ others, by simp [cut], kept, List.mem_append_right _ member, reaches⟩

end Weight

section Agreement

variable {group : List Token} {state : g.State} {other : h.State} {token : Token}
  {next ahead : Option Token}

theorem push_agrees (wide : Widens limit g h Admitted) (same : wide.Same state other)
    (fits : Admitted token) (next : Option Token) :
    Agrees wide.Same (limit ≤ wide.weight ·) (g.push state token next) (h.push other token next) := by
  have pushed := wide.push same fits next
  generalize g.push state token next = verdict at pushed ⊢
  generalize told : h.push other token next = answer at pushed ⊢
  cases pushed with
  | joined alike => exact .joined alike
  | refused => exact .refused
  | overflow heavy =>
    exact .overflow (heavy.elim (fun before => Nat.le_trans before (wide.grows told)) And.right)

/-- Only a multiplier overflows at the start of a number. -/
theorem scales_of_initial (wide : Widens limit g h Admitted) (fits : Admitted token)
    (beyond : g.push g.initial token next = .overflow) : g.isMultiplier token = true := by
  have pushed := wide.push wide.initial fits next
  rw [beyond] at pushed
  generalize h.push h.initial token next = answer at pushed
  cases pushed with
  | overflow heavy =>
    have := wide.weightless
    have := wide.positive
    exact heavy.elim (fun before => by omega) And.left

theorem carry_agrees (wide : Widens limit g h Admitted) (within : ∀ token ∈ group, Admitted token)
    (fits : Admitted token) (next : Option Token) :
    Agrees wide.Same (limit ≤ wide.weight ·) (g.carry group token next)
      (h.carry group token next) := by
  unfold carry
  rw [wide.multiplier]
  split
  · exact .refused
  · next last ends =>
    split
    · exact .refused
    · next carried =>
      simp only [Bool.or_eq_true, not_or, Bool.not_eq_true] at carried
      have allowed := within last (List.mem_of_getLast? ends)
      refine (wide.push_agrees wide.initial allowed _).bind (fun beyond => ?_) fun same =>
        wide.push_agrees same fits next
      simp [wide.scales_of_initial allowed beyond] at carried

/-- Where the unlimited grammar takes a token, the bounded one does the same, or the group that is
open then is loaded. -/
theorem exists_moves (wide : Widens limit g h Admitted) (within : ∀ token ∈ group, Admitted token)
    (fits : Admitted token) (same : wide.Same state other)
    (reads : h.replayBefore (some token) h.initial group = .joined other) :
    ∃ closed opened further, h.Moves group other token next closed opened further ∧
      ((∃ after, g.Moves group state token next closed opened after ∧ wide.Same after further) ∨
        g.Stuck group state token next ∧ wide.Loaded next opened) := by
  -- The cases are those of a move: the open group, the word before along with the token, a new
  -- group.
  have pushed := wide.push same fits next
  generalize said : g.push state token next = verdict at pushed
  generalize told : h.push other token next = answer at pushed
  cases pushed with
  | joined alike => exact ⟨_, _, _, .join told, .inl ⟨_, .join said, alike⟩⟩
  | overflow heavy =>
    refine ⟨_, _, _, .join told, .inr ⟨.join said, ?_⟩⟩
    rcases heavy with before | ⟨scales, after⟩
    · exact wide.loaded_concat reads before
    · exact wide.loaded_of_heavy ((replayBefore_concat reads next).trans told) after
        (by simpa [wide.multiplier] using scales)
  | refused =>
    have carried := wide.carry_agrees within fits next
    generalize both : g.carry group token next = verdict at carried
    generalize taken : h.carry group token next = answer at carried
    cases carried with
    | joined alike =>
      obtain ⟨front, last, rfl, scales, plain, moves⟩ := moves_of_carry told taken
      obtain ⟨_, _, ends, -, -, before⟩ := moves_of_carry said both
      obtain ⟨rfl, lasts⟩ := List.append_inj' ends rfl
      obtain rfl := List.singleton_inj.1 lasts
      exact ⟨_, _, _, moves, .inl ⟨_, before, alike⟩⟩
    | overflow heavy =>
      obtain ⟨front, last, rfl, scales, plain, moves⟩ := moves_of_carry told taken
      exact ⟨_, _, _, moves, .inr ⟨.carry said both,
        wide.loaded_of_heavy (replayBefore_of_moves reads moves) heavy (by simpa using scales)⟩⟩
    | refused =>
      have started := wide.push_agrees wide.initial fits next
      generalize fresh : g.push g.initial token next = verdict at started
      generalize opened : h.push h.initial token next = answer at started
      cases started with
      | joined alike =>
        exact ⟨_, _, _, .start told taken opened, .inl ⟨_, .start said both fresh, alike⟩⟩
      | refused =>
        exact ⟨_, _, _, .drop told taken opened, .inl ⟨_, .drop said both fresh, wide.initial⟩⟩
      | overflow heavy =>
        have moves : h.Moves group other token next _ _ _ := .start told taken opened
        have scales := wide.scales_of_initial fits fresh
        exact ⟨_, _, _, moves, .inr ⟨.start said both fresh,
          wide.loaded_of_heavy (replayBefore_of_moves reads moves) heavy
            (by simpa [wide.multiplier] using scales)⟩⟩

/-- Both grammars cut the same groups, or the unlimited one has a group worth the limit where the
bounded one overflows. -/
theorem segmentFrom_agrees (wide : Widens limit g h Admitted) (steady : h.IsSteady)
    {tokens : List Token} (within : ∀ token ∈ group, Admitted token)
    (fits : ∀ token ∈ tokens, Admitted token) (same : wide.Same state other)
    (reads : h.replayBefore tokens.head? h.initial group = .joined other) :
    ∃ groups, h.segmentFrom group other tokens = some groups ∧
      (g.segmentFrom group state tokens = some groups ∨
        g.segmentFrom group state tokens = none ∧ ∃ group ∈ groups, Reaches limit h group) := by
  -- The states agree until the bounded grammar overflows, and from there the load is followed.
  induction tokens generalizing group state other with
  | nil => exact ⟨_, rfl, .inl rfl⟩
  | cons token rest ih =>
    obtain ⟨closed, opened, further, moves, agreed⟩ :=
      wide.exists_moves within (fits token (List.mem_cons_self ..)) same reads
    have joined := replayBefore_of_moves reads moves
    rw [segmentFrom_of_moves moves]
    rcases agreed with ⟨after, alike, same⟩ | ⟨stuck, loaded⟩
    · have stays : ∀ other ∈ opened, Admitted other := by
        intro other member
        rcases List.mem_append.1 (moves.subset member) with old | new
        · exact within other old
        · exact fits other (List.mem_singleton.1 new ▸ List.mem_cons_self ..)
      obtain ⟨others, cut, answer⟩ :=
        ih stays (fun other member => fits other (List.mem_cons_of_mem _ member)) same joined
      rw [segmentFrom_of_moves alike, cut]
      refine ⟨closed ++ others, rfl, ?_⟩
      rcases answer with whole | ⟨lost, kept, member, reaches⟩
      · exact .inl (by rw [whole]; rfl)
      · exact .inr ⟨by rw [lost]; rfl, kept, List.mem_append_right _ member, reaches⟩
    · obtain ⟨others, cut, kept, member, reaches⟩ := loaded.exists_segmentFrom steady joined
      rw [segmentFrom_of_stuck stuck, cut]
      exact ⟨_, rfl, .inr ⟨rfl, kept, List.mem_append_right _ member, reaches⟩⟩

theorem replay_agrees (wide : Widens limit g h Admitted) (within : ∀ token ∈ group, Admitted token)
    (same : wide.Same state other) {after : g.State} (reads : g.replay state group = .joined after) :
    ∃ further, h.replay other group = .joined further ∧ wide.Same after further := by
  induction group generalizing state other with
  | nil =>
    cases reads
    exact ⟨other, rfl, same⟩
  | cons token rest ih =>
    obtain ⟨middle, step, reads⟩ := Verdict.exists_of_bind_eq_joined reads
    have pushed := wide.push same (within token (List.mem_cons_self ..)) rest.head?
    rw [step] at pushed
    generalize told : h.push other token rest.head? = answer at pushed
    cases pushed with
    | joined alike =>
      obtain ⟨further, joined, same⟩ :=
        ih (fun other member => within other (List.mem_cons_of_mem _ member)) alike reads
      exact ⟨further, by rw [replay, told]; exact joined, same⟩

/-- A number is written alike, unless it is worth the limit. -/
theorem render_agrees (wide : Widens limit g h Admitted) (within : ∀ token ∈ group, Admitted token)
    {final : g.State} (reads : g.replay g.initial group = .joined final) :
    (∃ written, g.render? group = some written ∧ h.render? group = some written) ∨
      g.render? group = none ∧ Reaches limit h group := by
  obtain ⟨further, joined, same⟩ := wide.replay_agrees within wide.initial reads
  obtain ⟨total, value, -⟩ := wide.total further
  have held := wide.held same value
  have counted : h.groupValue? group = some total := by
    rw [groupValue?, joined]
    exact value
  have bounded : g.groupValue? group = if total < limit then some total else none := by
    rw [groupValue?, reads]
    exact held
  unfold render?
  split
  · exact .inl ⟨_, rfl, rfl⟩
  · by_cases small : total < limit
    · exact .inl ⟨_, by rw [bounded, if_pos small]; rfl, by rw [counted]; rfl⟩
    · exact .inr ⟨by rw [bounded, if_neg small]; rfl, total, counted, Nat.le_of_not_lt small⟩

/-- All groups are written alike, or one of them is worth the limit. -/
theorem mapM_render_agrees {groups : List (List Token)}
    (each : ∀ group ∈ groups,
      (∃ written, g.render? group = some written ∧ h.render? group = some written) ∨
        g.render? group = none ∧ Reaches limit h group) :
    (∃ texts, groups.mapM g.render? = some texts ∧ groups.mapM h.render? = some texts) ∨
      groups.mapM g.render? = none ∧ ∃ group ∈ groups, Reaches limit h group := by
  induction groups with
  | nil => exact .inl ⟨[], rfl, rfl⟩
  | cons group groups ih =>
    obtain ⟨first, others⟩ := List.forall_mem_cons.1 each
    rw [List.mapM_cons, List.mapM_cons]
    rcases first with ⟨written, held, alike⟩ | ⟨lost, reaches⟩
    · rw [held, alike]
      rcases ih others with ⟨texts, held, alike⟩ | ⟨lost, kept, member, reaches⟩
      · exact .inl ⟨written :: texts, by rw [held]; rfl, by rw [alike]; rfl⟩
      · exact .inr ⟨by rw [lost]; rfl, kept, List.mem_cons_of_mem _ member, reaches⟩
    · exact .inr ⟨by rw [lost]; rfl, group, List.mem_cons_self .., reaches⟩

end Agreement

/-- What is written with a limit is written without it. If nothing is written, though the tokens
do not start with a linking word, some number is worth the limit at least. -/
theorem resolve_agrees (wide : Widens limit g h Admitted) (first : g.IsSteady) (second : h.IsSteady)
    {tokens : List Token} (fits : ∀ token ∈ tokens, Admitted token) (order : ReadingOrder) :
    (∀ written, g.resolve order tokens = some written → h.resolve order tokens = some written) ∧
      (g.resolve order tokens = none → tokens.head?.all Token.isConnector = false →
        ∃ groups, h.segment tokens = some groups ∧ ∃ group ∈ groups, Reaches limit h group) := by
  cases tokens with
  | nil => exact ⟨fun written answer => absurd answer (by simp [resolve]), fun _ plain => by simp at plain⟩
  | cons token rest =>
    cases plain : token.isConnector with
    | true => exact ⟨fun written answer => absurd answer (by simp [resolve, plain]),
        fun _ silent => by simp [plain] at silent⟩
    | false =>
      obtain ⟨groups, cut, agreed⟩ := wide.segmentFrom_agrees second (fun _ => by simp) fits
        wide.initial (rfl : h.replayBefore (token :: rest).head? h.initial [] = _)
      rcases agreed with same | ⟨lost, reached⟩
      · have cuts := first.cuts_segment same
        have nonempty := cuts.ne_nil plain
        have each : ∀ group ∈ groups,
            (∃ written, g.render? group = some written ∧ h.render? group = some written) ∨
              g.render? group = none ∧ Reaches limit h group := by
          intro group member
          obtain ⟨-, final, reads⟩ := cuts.joined group member
          refine wide.render_agrees (fun other listed => fits other ?_) reads
          exact cuts.ordered.subset (List.mem_flatten_of_mem member listed)
        rw [resolve_eq same nonempty rfl plain, resolve_eq cut nonempty rfl plain]
        rcases mapM_render_agrees each with ⟨texts, held, alike⟩ | ⟨lost, reached⟩
        · rw [held, alike]
          exact ⟨fun _ answer => answer, fun none _ => absurd none (by simp)⟩
        · rw [lost]
          exact ⟨fun _ answer => absurd answer (by simp), fun _ _ => ⟨groups, cut, reached⟩⟩
      · have silent : g.resolve order (token :: rest) = none := by
          have stuck : g.segment (token :: rest) = none := lost
          rw [resolve, if_neg (by simp [plain]), stuck]
        exact ⟨fun written answer => absurd (silent.symm.trans answer) (by simp),
          fun _ _ => ⟨groups, cut, reached⟩⟩

end Widens

end Phrasebook.Numeral
