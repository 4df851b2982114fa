import Mathlib.Data.List.DropRight
import Mathlib.Data.List.Forall2
import Phrasebook.Numeral.Registry
import Phrasebook.Proofs.PositionalReading

/-! Cutting a token sequence into numbers.

Whatever the tokens are, the groups that they are cut into are the tokens in their
order, without some linking words, and every group is one number on its own. What is
written are these numbers side by side.
-/

set_option autoImplicit false

namespace Phrasebook.Numeral

theorem Verdict.ofHeld_ne_refused {σ : Type} (held : Option Nat) (next : Nat → σ) :
    ofHeld held next ≠ .refused := by
  cases held <;> simp [ofHeld]

/-- Where all succeed, their results stand in the same order. -/
theorem mapM_eq_some_iff {α β : Type} {f : α → Option β} {inputs : List α} {results : List β} :
    inputs.mapM f = some results ↔
      List.Forall₂ (fun input result => f input = some result) inputs results := by
  induction inputs generalizing results with
  | nil => simp [eq_comm]
  | cons input inputs ih =>
    rw [List.mapM_cons]
    cases first : f input with
    | none => simp [List.forall₂_cons_left_iff, first]
    | some result =>
      cases others : inputs.mapM f with
      | none => simp [List.forall₂_cons_left_iff, ← ih, others]
      | some rest => simp [List.forall₂_cons_left_iff, ← ih, first, others, eq_comm]

theorem mapM_eq_none_iff {α β : Type} {f : α → Option β} {inputs : List α} :
    inputs.mapM f = none ↔ ∃ input ∈ inputs, f input = none := by
  induction inputs with
  | nil => simp
  | cons input inputs ih =>
    rw [List.mapM_cons]
    cases first : f input with
    | none => simp [first]
    | some result =>
      cases others : inputs.mapM f <;> simp [first, ← ih, others]

theorem exists_mapM {α β : Type} {f : α → Option β} {inputs : List α}
    (each : ∀ input ∈ inputs, ∃ result, f input = some result) :
    ∃ results, inputs.mapM f = some results := by
  simp only [mapM_eq_some_iff]
  induction inputs with
  | nil => exact ⟨[], .nil⟩
  | cons input inputs ih =>
    obtain ⟨⟨result, found⟩, others⟩ := List.forall_mem_cons.1 each
    obtain ⟨rest, related⟩ := ih others
    exact ⟨result :: rest, .cons found related⟩

namespace Grammar

/-- Only linking words look at what comes next, and a new number refuses nothing else. -/
structure IsSteady (g : Grammar) : Prop where
  blind : ∀ {token : Token}, token.isConnector = false → ∀ state next other,
    g.push state token next = g.push state token other
  opens : ∀ {token : Token}, token.isConnector = false → ∀ next,
    g.push g.initial token next ≠ .refused

/-- Groups that are a token sequence without some of its linking words, each of them one
number. -/
structure Cuts (g : Grammar) (tokens : List Token) (groups : List (List Token)) : Prop where
  ordered : groups.flatten.Sublist tokens
  complete : (groups.flatten.filter fun token => !token.isConnector) =
    tokens.filter fun token => !token.isConnector
  joined : ∀ group ∈ groups, group ≠ [] ∧ ∃ final, g.replay g.initial group = .joined final

variable {g : Grammar} {group : List Token} {state : g.State} {ahead : Option Token}

theorem close_eq_rdropWhile (group : List Token) :
    close group = if (group.rdropWhile Token.isConnector).isEmpty then []
      else [group.rdropWhile Token.isConnector] := rfl

theorem mem_close {kept : List Token} :
    kept ∈ close group ↔ kept = group.rdropWhile Token.isConnector ∧ kept ≠ [] := by
  rw [close_eq_rdropWhile]
  split
  · next empty => simp [List.isEmpty_iff.1 empty]
  · next filled =>
    rw [List.mem_singleton, iff_self_and]
    rintro rfl
    simpa using filled

theorem flatten_close (group : List Token) :
    (close group).flatten = group.rdropWhile Token.isConnector := by
  rw [close_eq_rdropWhile]
  split
  · next empty => exact (List.isEmpty_iff.1 empty).symm
  · exact List.flatten_singleton

/-- What is kept of an open group is one number, and linking words follow it. -/
theorem IsSteady.exists_replay_kept (steady : g.IsSteady)
    (reads : g.replayBefore ahead g.initial group = .joined state) :
    ∃ final, g.replay g.initial (group.rdropWhile Token.isConnector) = .joined final ∧
      g.replayBefore ahead final (group.rtakeWhile Token.isConnector) = .joined state := by
  rw [← List.rdropWhile_append_rtakeWhile (p := Token.isConnector) (l := group),
    replayBefore_append] at reads
  obtain ⟨final, kept, linked⟩ := Verdict.exists_of_bind_eq_joined reads
  refine ⟨final, ?_, linked⟩
  rw [← kept]
  refine (replayBefore_eq_replay (fun last ends state next other => ?_) _ _).symm
  -- The last token that is kept is no linking word, so it does not look ahead.
  have nonempty : group.rdropWhile Token.isConnector ≠ [] := by
    rintro nothing
    simp [nothing] at ends
  have plain := List.rdropWhile_last_not Token.isConnector group nonempty
  rw [List.getLast?_eq_some_getLast nonempty] at ends
  cases ends
  exact steady.blind (by simpa using plain) state next other

theorem filter_rtakeWhile (group : List Token) :
    (group.rtakeWhile Token.isConnector).filter (fun token => !token.isConnector) = [] := by
  rw [List.filter_eq_nil_iff]
  intro token member
  simp [List.mem_rtakeWhile_imp member]

theorem IsSteady.cuts_close (steady : g.IsSteady)
    (reads : g.replayBefore ahead g.initial group = .joined state) :
    g.Cuts group (close group) := by
  have whole := List.rdropWhile_append_rtakeWhile (p := Token.isConnector) (l := group)
  refine ⟨?_, ?_, ?_⟩
  · rw [flatten_close]
    exact (List.rdropWhile_prefix _ _).sublist
  · rw [flatten_close, ← List.append_nil (List.filter _ _), ← filter_rtakeWhile group,
      ← List.filter_append, whole]
  · intro kept member
    obtain ⟨rfl, nonempty⟩ := mem_close.1 member
    obtain ⟨final, joined, -⟩ := steady.exists_replay_kept reads
    exact ⟨nonempty, final, joined⟩

theorem Cuts.append {first second : List Token} {groups others : List (List Token)}
    (front : g.Cuts first groups) (back : g.Cuts second others) :
    g.Cuts (first ++ second) (groups ++ others) := by
  refine ⟨?_, ?_, ?_⟩
  · rw [List.flatten_append]
    exact front.ordered.append back.ordered
  · rw [List.flatten_append, List.filter_append, List.filter_append, front.complete, back.complete]
  · intro group member
    exact (List.mem_append.1 member).elim (front.joined group) (back.joined group)

/-- A linking word may be left out. -/
theorem Cuts.cons_connector {token : Token} {tokens : List Token} {groups : List (List Token)}
    (linking : token.isConnector = true) (cuts : g.Cuts tokens groups) :
    g.Cuts (token :: tokens) groups := by
  refine ⟨cuts.ordered.trans (List.sublist_cons_self _ _), ?_, cuts.joined⟩
  rw [cuts.complete, List.filter_cons_of_neg (by simp [linking])]

/-- A refused multiplier takes the number word before it along. -/
theorem carry_eq (g : Grammar) (group : List Token) (token : Token) (next : Option Token) :
    g.carry group token next = .refused ∨
      ∃ front last, group = front ++ [last] ∧ g.isMultiplier token = true ∧
        g.isMultiplier last = false ∧
        g.carry group token next = g.replayBefore next g.initial [last, token] := by
  unfold carry
  split
  · exact .inl rfl
  · next last ends =>
    obtain ⟨front, rfl⟩ := List.getLast?_eq_some_iff.1 ends
    split
    · exact .inl rfl
    · next carried =>
      simp only [Bool.or_eq_true, Bool.not_eq_true', not_or, Bool.not_eq_true,
        Bool.not_eq_false] at carried
      obtain ⟨⟨⟨-, scales⟩, -⟩, plain⟩ := carried
      refine .inr ⟨front, last, rfl, scales, plain, ?_⟩
      simp only [replayBefore, Verdict.bind_joined]
      rfl

theorem replayBefore_concat {start : g.State} {token : Token}
    (reads : g.replayBefore (some token) start group = .joined state) (next : Option Token) :
    g.replayBefore next start (group ++ [token]) = g.push state token next := by
  rw [replayBefore_append, List.head?_cons, Option.some_or, reads]
  exact Verdict.bind_joined _

/-- What a token does: the numbers that it closes, and the group that is open after it. -/
inductive Moves (g : Grammar) (group : List Token) (state : g.State) (token : Token)
    (next : Option Token) : List (List Token) → List Token → g.State → Prop
  | join {after : g.State} (joins : g.push state token next = .joined after) :
    Moves g group state token next [] (group ++ [token]) after
  | carry {front : List Token} {last : Token} {after : g.State}
    (refused : g.push state token next = .refused) (ends : group = front ++ [last])
    (scales : g.isMultiplier token = true) (plain : g.isMultiplier last = false)
    (carried : g.carry group token next = .joined after)
    (reads : g.replayBefore next g.initial [last, token] = .joined after) :
    Moves g group state token next (close front) [last, token] after
  | start {after : g.State} (refused : g.push state token next = .refused)
    (alone : g.carry group token next = .refused)
    (starts : g.push g.initial token next = .joined after) :
    Moves g group state token next (close group) [token] after
  | drop (refused : g.push state token next = .refused)
    (alone : g.carry group token next = .refused)
    (unread : g.push g.initial token next = .refused) :
    Moves g group state token next (close group) [] g.initial

/-- A value beyond the capacity stops the cutting. -/
inductive Stuck (g : Grammar) (group : List Token) (state : g.State) (token : Token)
    (next : Option Token) : Prop
  | join (beyond : g.push state token next = .overflow)
  | carry (refused : g.push state token next = .refused)
    (beyond : g.carry group token next = .overflow)
  | start (refused : g.push state token next = .refused)
    (alone : g.carry group token next = .refused)
    (beyond : g.push g.initial token next = .overflow)

theorem moves_of_carry {token : Token} {next : Option Token} {after : g.State}
    (refused : g.push state token next = .refused)
    (carried : g.carry group token next = .joined after) :
    ∃ front last, group = front ++ [last] ∧ g.isMultiplier token = true ∧
      g.isMultiplier last = false ∧
      g.Moves group state token next (close front) [last, token] after := by
  rcases carry_eq g group token next with alone | ⟨front, last, ends, scales, plain, same⟩
  · simp [alone] at carried
  · exact ⟨front, last, ends, scales, plain,
      .carry refused ends scales plain carried (same.symm.trans carried)⟩

theorem moves_or_stuck (g : Grammar) (group : List Token) (state : g.State) (token : Token)
    (next : Option Token) :
    (∃ closed opened after, g.Moves group state token next closed opened after) ∨
      g.Stuck group state token next := by
  cases step : g.push state token next with
  | overflow => exact .inr (.join step)
  | joined after => exact .inl ⟨_, _, after, .join step⟩
  | refused =>
    cases both : g.carry group token next with
    | overflow => exact .inr (.carry step both)
    | joined after =>
      obtain ⟨_, _, -, -, -, moves⟩ := moves_of_carry step both
      exact .inl ⟨_, _, after, moves⟩
    | refused =>
      cases fresh : g.push g.initial token next with
      | overflow => exact .inr (.start step both fresh)
      | joined after => exact .inl ⟨_, _, after, .start step both fresh⟩
      | refused => exact .inl ⟨_, _, _, .drop step both fresh⟩

theorem segmentFrom_of_moves {token : Token} {rest opened : List Token}
    {closed : List (List Token)} {after : g.State}
    (moves : g.Moves group state token rest.head? closed opened after) :
    g.segmentFrom group state (token :: rest) =
      (g.segmentFrom opened after rest).map (closed ++ ·) := by
  rw [segmentFrom]
  cases moves with
  | join joins => simp [joins]
  | carry refused ends _ _ carried _ =>
    subst ends
    simp [refused, carried]
  | start refused alone starts => simp [refused, alone, starts]
  | drop refused alone unread => simp [refused, alone, unread]

theorem segmentFrom_of_stuck {token : Token} {rest : List Token}
    (stuck : g.Stuck group state token rest.head?) :
    g.segmentFrom group state (token :: rest) = none := by
  rw [segmentFrom]
  cases stuck with
  | join beyond => simp [beyond]
  | carry refused beyond => simp [refused, beyond]
  | start refused alone beyond => simp [refused, alone, beyond]

/-- The group that is open after a token was put together by its tokens. -/
theorem replayBefore_of_moves {token : Token} {next : Option Token} {closed : List (List Token)}
    {opened : List Token} {after : g.State}
    (reads : g.replayBefore (some token) g.initial group = .joined state)
    (moves : g.Moves group state token next closed opened after) :
    g.replayBefore next g.initial opened = .joined after := by
  cases moves with
  | join joins => exact (replayBefore_concat reads next).trans joins
  | carry _ _ _ _ _ taken => exact taken
  | start _ _ starts => exact (Verdict.bind_joined _).trans starts
  | drop => rfl

/-- The group that is open after a token has no other tokens. -/
theorem Moves.subset {token : Token} {next : Option Token} {closed : List (List Token)}
    {opened : List Token} {after : g.State}
    (moves : g.Moves group state token next closed opened after) : opened ⊆ group ++ [token] := by
  cases moves with
  | join => exact List.Subset.refl _
  | carry _ ends =>
    subst ends
    simp
  | start => exact List.subset_append_right _ _
  | drop => exact List.nil_subset _

/-- The groups of a token sequence: each token joins the open group, or closes it and starts
another one. -/
theorem IsSteady.cuts_segmentFrom (steady : g.IsSteady) {tokens : List Token}
    {groups : List (List Token)}
    (reads : g.replayBefore tokens.head? g.initial group = .joined state)
    (cut : g.segmentFrom group state tokens = some groups) :
    g.Cuts (group ++ tokens) groups := by
  -- The open group alone leads to the state before each token.
  induction tokens generalizing group state groups with
  | nil =>
    cases cut
    rw [List.append_nil]
    exact steady.cuts_close reads
  | cons token rest ih =>
    rcases moves_or_stuck g group state token rest.head? with ⟨closed, opened, after, moves⟩ | stuck
    · rw [segmentFrom_of_moves moves, Option.map_eq_some_iff] at cut
      obtain ⟨others, cut, rfl⟩ := cut
      have further := ih (replayBefore_of_moves reads moves) cut
      cases moves with
      | join => rwa [List.append_assoc] at further
      | carry _ ends =>
        subst ends
        rw [replayBefore_append] at reads
        obtain ⟨before, left, -⟩ := Verdict.exists_of_bind_eq_joined reads
        have whole := (steady.cuts_close left).append further
        simpa using whole
      | start => exact (steady.cuts_close reads).append further
      | drop _ _ unread =>
        -- Only a linking word is refused by a new number, and it is dropped.
        have linking : token.isConnector = true := by
          rw [← Bool.not_eq_false]
          exact fun plain => steady.opens plain _ unread
        exact (steady.cuts_close reads).append (further.cons_connector linking)
    · rw [segmentFrom_of_stuck stuck] at cut
      cases cut

theorem IsSteady.cuts_segment (steady : g.IsSteady) {tokens : List Token}
    {groups : List (List Token)} (cut : g.segment tokens = some groups) : g.Cuts tokens groups :=
  steady.cuts_segmentFrom rfl cut

/-- Tokens that start with a number word or a digit string have a group. -/
theorem Cuts.ne_nil {first : Token} {rest : List Token} {groups : List (List Token)}
    (cuts : g.Cuts (first :: rest) groups) (plain : first.isConnector = false) : groups ≠ [] := by
  rintro rfl
  have none := cuts.complete
  simp [plain] at none

/-- Some sum or product of a reading goes beyond the capacity: when the tokens are cut, when a
group is put together again, or when its value is taken. -/
def Overflows (g : Grammar) (tokens : List Token) : Prop :=
  g.segment tokens = none ∨
    ∃ groups, g.segment tokens = some groups ∧ ∃ group ∈ groups,
      g.replay g.initial group = .overflow ∨
        ∃ final, g.replay g.initial group = .joined final ∧ g.value? final = none

theorem not_overflows {tokens : List Token} {groups : List (List Token)}
    (cut : g.segment tokens = some groups)
    (each : ∀ group ∈ groups, (g.groupValue? group).isSome = true) : ¬g.Overflows tokens := by
  rintro (lost | ⟨others, again, group, member, beyond⟩)
  · simp [cut] at lost
  · rw [cut] at again
    cases again
    have held := each group member
    rcases beyond with beyond | ⟨final, joined, none⟩
    · simp [groupValue?, beyond] at held
    · simp [groupValue?, joined, none] at held

theorem isDigit_of_mem_toDigits {value : Nat} {c : Char} (member : c ∈ Nat.toDigits 10 value) :
    Token.isDigit c = true := by
  have digit := Nat.isDigit_of_mem_toDigits (by decide) (by decide) member
  simp only [Char.isDigit, Bool.and_eq_true, decide_eq_true_eq] at digit
  simp only [Token.isDigit, Bool.and_eq_true, decide_eq_true_eq]
  exact digit

/-- What is written for a group are digits. -/
theorem digits_of_render? {written : List Char} (rendered : g.render? group = some written) :
    written ≠ [] ∧ ∀ c ∈ written, Token.isDigit c = true := by
  unfold render? at rendered
  split at rendered
  · next value mask =>
    cases rendered
    refine ⟨by simp [Nat.toDigits_ne_nil], fun c member => ?_⟩
    rcases List.mem_append.1 member with zero | digit
    · rw [List.eq_of_mem_replicate zero]
      decide
    · exact isDigit_of_mem_toDigits digit
  · obtain ⟨value, -, rfl⟩ := Option.map_eq_some_iff.1 rendered
    exact ⟨Nat.toDigits_ne_nil, fun c => isDigit_of_mem_toDigits⟩

/-- A group is written, unless its value is beyond the capacity. -/
theorem exists_render? {final : g.State} (joined : g.replay g.initial group = .joined final)
    (held : g.value? final ≠ none) : ∃ written, g.render? group = some written := by
  unfold render?
  split
  · exact ⟨_, rfl⟩
  · obtain ⟨value, total⟩ := Option.ne_none_iff_exists'.1 held
    exact ⟨_, by rw [groupValue?, joined]; simp only [total]; rfl⟩

theorem digits_of_mapM_render? {groups : List (List Token)} {texts : List (List Char)}
    (rendered : groups.mapM g.render? = some texts) :
    (groups ≠ [] → texts.flatten ≠ []) ∧ ∀ c ∈ texts.flatten, Token.isDigit c = true := by
  rw [mapM_eq_some_iff] at rendered
  induction rendered with
  | nil => simp
  | cons rendered _ ih =>
    obtain ⟨nonempty, digits⟩ := digits_of_render? rendered
    refine ⟨fun _ => by simp [nonempty], fun c member => ?_⟩
    rw [List.flatten_cons, List.mem_append] at member
    exact member.elim (digits c) (ih.2 c)

/-- What is written are the numbers side by side. -/
theorem resolve_eq {tokens : List Token} {groups : List (List Token)} {first : Token}
    (cut : g.segment tokens = some groups) (nonempty : groups ≠ [])
    (starts : tokens.head? = some first) (plain : first.isConnector = false) (order : ReadingOrder) :
    g.resolve order tokens = (groups.mapM g.render?).map List.flatten := by
  obtain ⟨group, others, rfl⟩ := List.exists_cons_of_ne_nil nonempty
  rw [resolve, starts, if_neg (by simp [plain]), cut]
  exact congrArg (Option.map · _) (funext order.layOut_eq_flatten)

end Grammar

theorem Western.isSteady (capacity : Capacity) (rule : ConnectorRule) :
    (grammar capacity rule).IsSteady := by
  refine ⟨fun plain state next other => push_eq_of_number state plain next other, ?_⟩
  intro token plain next
  show push capacity rule initial token next ≠ .refused
  rw [push, if_neg (by simp [plain])]
  split
  · unfold multiply
    split
    · rw [if_neg (by simp [initial])]
      exact Verdict.ofHeld_ne_refused _ _
    · rw [if_neg (by simp [initial])]
      exact Verdict.ofHeld_ne_refused _ _
  · rw [add, if_neg (by simp [initial])]
    exact Verdict.ofHeld_ne_refused _ _

theorem Positional.isSteady (capacity : Capacity) (abbreviates : Bool) :
    (grammar capacity abbreviates).IsSteady := by
  refine ⟨fun _ _ _ _ => rfl, ?_⟩
  intro token plain next
  show push capacity initial token ≠ .refused
  rw [push, if_neg (by simp [plain])]
  split
  · unfold multiply
    split
    · rw [if_neg (by simp [initial])]
      exact Verdict.ofHeld_ne_refused _ _
    · rw [if_neg (by simp [initial])]
      exact Verdict.ofHeld_ne_refused _ _
  · rw [add, if_neg (by simp [initial])]
    simp [initial]

namespace Scheme

theorem isSteady (scheme : Scheme) (capacity : Capacity) : (scheme.grammar capacity).IsSteady := by
  cases scheme with
  | english | spanish | french => exact Western.isSteady capacity _
  | japanese | chinese => exact Positional.isSteady capacity _

variable {scheme : Scheme} {capacity : Capacity}

/-- Unless a value goes beyond the capacity, tokens are cut into groups that are numbers, and
their digits are put side by side. Only nothing, or a linking word at the front, reads as nothing. -/
theorem exists_segment_resolve {tokens : List Token}
    (holds : ¬(scheme.grammar capacity).Overflows tokens) :
    ∃ groups texts, (scheme.grammar capacity).segment tokens = some groups ∧
      (scheme.grammar capacity).Cuts tokens groups ∧
      groups.mapM (scheme.grammar capacity).render? = some texts ∧
      ∀ order,
        ((scheme.grammar capacity).resolve order tokens = none ↔
          tokens.head?.all Token.isConnector = true) ∧
        ∀ written, (scheme.grammar capacity).resolve order tokens = some written →
          written = texts.flatten ∧ written ≠ [] ∧ ∀ c ∈ written, Token.isDigit c = true := by
  obtain ⟨groups, cut⟩ : ∃ groups, (scheme.grammar capacity).segment tokens = some groups :=
    Option.ne_none_iff_exists'.1 fun lost => holds (.inl lost)
  have cuts := (scheme.isSteady capacity).cuts_segment cut
  have each : ∀ group ∈ groups, ∃ written, (scheme.grammar capacity).render? group = some written := by
    intro group member
    obtain ⟨-, final, joined⟩ := cuts.joined group member
    exact Grammar.exists_render? joined fun lost =>
      holds (.inr ⟨groups, cut, group, member, .inr ⟨final, joined, lost⟩⟩)
  obtain ⟨texts, rendered⟩ := exists_mapM each
  refine ⟨groups, texts, cut, cuts, rendered, fun order => ?_⟩
  by_cases silent : tokens.head?.all Token.isConnector = true
  · have nothing : (scheme.grammar capacity).resolve order tokens = none := if_pos silent
    refine ⟨iff_of_true nothing silent, fun written answer => ?_⟩
    rw [nothing] at answer
    cases answer
  · obtain ⟨first, rest, rfl, plain⟩ : ∃ first rest, tokens = first :: rest ∧
        first.isConnector = false := by
      cases tokens with
      | nil => simp at silent
      | cons first rest => exact ⟨first, rest, rfl, by simpa using silent⟩
    have nonempty := cuts.ne_nil plain
    have answers := Grammar.resolve_eq cut nonempty rfl plain order
    rw [rendered, Option.map_some] at answers
    obtain ⟨filled, digits⟩ := Grammar.digits_of_mapM_render? rendered
    refine ⟨iff_of_false (by simp [answers]) silent, fun written answer => ?_⟩
    rw [answers] at answer
    cases answer
    exact ⟨rfl, filled nonempty, digits⟩

/-- "two hundred three hundred and 007 and": a refused hundred takes its unit along, and linking
words at the end of a number are left out. -/
theorem resolve_two_hundred_three_hundred :
    ¬(english.grammar .word64).Overflows [.number 2, .number 100, .number 3, .number 100,
        .connector, ⟨7, 7, .explicit⟩, .connector] ∧
      (english.grammar .word64).resolve .rightToLeft [.number 2, .number 100, .number 3,
        .number 100, .connector, ⟨7, 7, .explicit⟩, .connector] = some "200300007".toList := by
  have cut : (english.grammar .word64).segment [.number 2, .number 100, .number 3, .number 100,
      .connector, ⟨7, 7, .explicit⟩, .connector] =
      some [[.number 2, .number 100], [.number 3, .number 100], [⟨7, 7, .explicit⟩]] := by
    decide +kernel
  have holds := Grammar.not_overflows cut (by decide +kernel)
  obtain ⟨groups, texts, found, -, rendered, answers⟩ := exists_segment_resolve holds
  obtain ⟨silent, spoken⟩ := answers .rightToLeft
  refine ⟨holds, ?_⟩
  obtain ⟨written, answer⟩ := Option.ne_none_iff_exists'.1 (mt silent.1 (by decide))
  cases cut.symm.trans found
  have digits : [[Token.number 2, .number 100], [.number 3, .number 100],
      [⟨7, 7, .explicit⟩]].mapM (english.grammar .word64).render? =
      some ["200".toList, "300".toList, "007".toList] := by
    decide +kernel
  cases digits.symm.trans rendered
  rw [answer, (spoken written answer).1]
  rfl

end Scheme

end Phrasebook.Numeral
