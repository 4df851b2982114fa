import Phrasebook.Numeral.Reader

/-! Tokens that make up one number.

If every token joins the number that is being built, nothing is cut: the tokens
are one group, and what is written is the value of the final state.
-/

set_option autoImplicit false

namespace Phrasebook.Numeral

theorem Verdict.bind_assoc {σ τ υ : Type} (verdict : Verdict σ) (first : σ → Verdict τ)
    (second : τ → Verdict υ) :
    (verdict.bind first).bind second = verdict.bind fun state => (first state).bind second := by
  cases verdict <;> rfl

theorem Verdict.exists_of_bind_eq_joined {σ τ : Type} {verdict : Verdict σ} {next : σ → Verdict τ}
    {final : τ} (joined : verdict.bind next = .joined final) :
    ∃ state, verdict = .joined state ∧ next state = .joined final := by
  cases verdict with
  | joined state => exact ⟨state, rfl, joined⟩
  | refused | overflow => simp [bind] at joined

theorem Verdict.bind_joined {σ : Type} (verdict : Verdict σ) : verdict.bind .joined = verdict := by
  cases verdict <;> rfl

namespace Grammar

variable {g : Grammar}

/-- Read tokens that `ahead` comes after. -/
def replayBefore (g : Grammar) (ahead : Option Token) (state : g.State) :
    List Token → Verdict g.State
  | [] => .joined state
  | token :: rest =>
    (g.push state token (rest.head?.or ahead)).bind fun next => g.replayBefore ahead next rest

theorem replay_eq_replayBefore (state : g.State) (tokens : List Token) :
    g.replay state tokens = g.replayBefore none state tokens := by
  induction tokens generalizing state with
  | nil => rfl
  | cons token rest ih =>
    rw [replay, replayBefore, Option.or_none]
    exact congrArg _ (funext ih)

/-- What is read first is read before what comes next. -/
theorem replayBefore_append (ahead : Option Token) (state : g.State) (first second : List Token) :
    g.replayBefore ahead state (first ++ second) =
      (g.replayBefore (second.head?.or ahead) state first).bind fun next =>
        g.replayBefore ahead next second := by
  induction first generalizing state with
  | nil => rfl
  | cons token rest ih =>
    rw [List.cons_append, replayBefore, replayBefore, Verdict.bind_assoc, List.head?_append,
      Option.or_assoc]
    exact congrArg _ (funext ih)

/-- A token that nothing comes after is read last. -/
theorem replay_concat (state : g.State) (front : List Token) (last : Token) :
    g.replay state (front ++ [last]) =
      (g.replayBefore (some last) state front).bind fun next => g.push next last none := by
  rw [replay_eq_replayBefore, replayBefore_append]
  exact congrArg _ (funext fun next => Verdict.bind_joined (g.push next last none))

/-- Only the last token could see what comes after the tokens. -/
theorem replayBefore_eq_replay {tokens : List Token}
    (steady : ∀ token ∈ tokens.getLast?, ∀ state next other,
      g.push state token next = g.push state token other)
    (ahead : Option Token) (state : g.State) :
    g.replayBefore ahead state tokens = g.replay state tokens := by
  induction tokens generalizing state with
  | nil => rfl
  | cons token rest ih =>
    cases rest with
    | nil =>
      have last := steady token (by simp) state (none.or ahead) none
      simp only [replayBefore, replay, List.head?_nil, last]
    | cons next others =>
      rw [replayBefore, replay]
      exact congrArg _ (funext (ih fun last member => steady last (by simpa using member)))

/-- Tokens that do not look ahead at their end are read one after the other. -/
theorem replay_append {first second : List Token}
    (steady : ∀ token ∈ first.getLast?, ∀ state next other,
      g.push state token next = g.push state token other)
    (state : g.State) :
    g.replay state (first ++ second) = (g.replay state first).bind fun next =>
      g.replay next second := by
  rw [replay_eq_replayBefore, replayBefore_append, replayBefore_eq_replay steady]
  exact congrArg _ (funext fun next => (replay_eq_replayBefore next second).symm)

/-- Tokens that join come to the open group, before the others are cut. -/
theorem segmentFrom_append {state after : g.State} {first rest : List Token}
    (joined : g.replayBefore rest.head? state first = .joined after) (group : List Token) :
    g.segmentFrom group state (first ++ rest) = g.segmentFrom (group ++ first) after rest := by
  induction first generalizing state group with
  | nil =>
    cases joined
    rw [List.nil_append, List.append_nil]
  | cons token first ih =>
    obtain ⟨next, step, joined⟩ := Verdict.exists_of_bind_eq_joined joined
    rw [List.cons_append, segmentFrom, List.head?_append, step]
    simp only
    rw [ih joined, List.append_assoc]
    rfl

/-- Where every token joins, no new group is started. -/
theorem segmentFrom_of_replay {state final : g.State} {tokens : List Token}
    (joined : g.replay state tokens = .joined final) (group : List Token) :
    g.segmentFrom group state tokens = some (close (group ++ tokens)) := by
  have joined : g.replayBefore (List.head? []) state tokens = .joined final := by
    rw [← joined, replay_eq_replayBefore, List.head?_nil]
  have whole := segmentFrom_append joined group
  rwa [List.append_nil, segmentFrom] at whole

/-- Nothing is dropped from a group that does not end in a linking word. -/
theorem close_eq {group : List Token} {last : Token} (ends : group.getLast? = some last)
    (plain : last.isConnector = false) : close group = [group] := by
  obtain ⟨front, rfl⟩ := List.getLast?_eq_some_iff.1 ends
  simp [close, plain]

theorem render?_eq {group : List Token} (spoken : ∀ token ∈ group, token.kind ≠ .explicit) :
    g.render? group = (g.groupValue? group).map (Nat.toDigits 10) := by
  unfold render?
  split
  · simp at spoken
  · rfl

/-- Words that all join one number are read as its value. -/
theorem resolve_of_replay {tokens : List Token} {final : g.State} {value : Nat} {first last : Token}
    (joined : g.replay g.initial tokens = .joined final) (total : g.value? final = some value)
    (spoken : ∀ token ∈ tokens, token.kind ≠ .explicit) (starts : tokens.head? = some first)
    (begins : first.isConnector = false) (ends : tokens.getLast? = some last)
    (closes : last.isConnector = false) (order : ReadingOrder) :
    g.resolve order tokens = some (Nat.toDigits 10 value) := by
  have whole : g.segment tokens = some [tokens] := by
    rw [segment, segmentFrom_of_replay joined, List.nil_append, close_eq ends closes]
  rw [resolve, starts, whole]
  simp [begins, render?_eq spoken, groupValue?, joined, total, ReadingOrder.layOut_eq_flatten]

end Grammar

namespace Scheme

/-- A word for ten comes again within two tokens. -/
theorem repeatsTen_iff {tokens : List Token} :
    repeatsTen tokens = true ↔
      ∃ first second, first < second ∧ second ≤ first + 2 ∧
        tokens[first]?.any isTen = true ∧ tokens[second]?.any isTen = true := by
  induction tokens with
  | nil => simp [repeatsTen]
  | cons token rest ih =>
    have near : (rest.take 2).any isTen = true ↔
        ∃ second, second < 2 ∧ rest[second]?.any isTen = true := by
      simp only [List.any_eq_true, List.mem_iff_getElem?, List.getElem?_take, Option.any_eq_true]
      constructor
      · rintro ⟨ten, ⟨place, listed⟩, is⟩
        split at listed
        · next bound => exact ⟨place, bound, ten, listed, is⟩
        · simp at listed
      · rintro ⟨place, bound, ten, listed, is⟩
        exact ⟨ten, ⟨place, by rw [if_pos bound, listed]⟩, is⟩
    rw [repeatsTen, Bool.or_eq_true, Bool.and_eq_true, near, ih]
    constructor
    · rintro (⟨ten, second, close, again⟩ | ⟨first, second, less, close, ten, again⟩)
      · exact ⟨0, second + 1, by omega, by omega, by simpa using ten, by simpa using again⟩
      · exact ⟨first + 1, second + 1, by omega, by omega, by simpa using ten, by simpa using again⟩
    · rintro ⟨first, second, less, close, ten, again⟩
      obtain ⟨second, rfl⟩ : ∃ before, second = before + 1 := ⟨second - 1, by omega⟩
      cases first with
      | zero => exact .inl ⟨by simpa using ten, second, by omega, by simpa using again⟩
      | succ first =>
        exact .inr ⟨first, second, by omega, by omega, by simpa using ten, by simpa using again⟩

/-- Where only one word stands for ten, it comes again within two words. -/
theorem repeatsTen_map_iff {α : Type} {token : α → Token} {ten : α} {words : List α}
    (only : ∀ word ∈ words, isTen (token word) = true ↔ word = ten) :
    repeatsTen (words.map token) = true ↔
      ∃ first second, first < second ∧ second ≤ first + 2 ∧
        words[first]? = some ten ∧ words[second]? = some ten := by
  have tens : ∀ place : Nat,
      (words.map token)[place]?.any isTen = true ↔ words[place]? = some ten := by
    intro place
    rw [List.getElem?_map]
    cases found : words[place]? with
    | none => simp
    | some word => simpa using only word (List.mem_of_getElem? found)
  simp only [repeatsTen_iff, tens]

end Scheme

end Phrasebook.Numeral
