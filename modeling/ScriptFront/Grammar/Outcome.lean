import ScriptFront.Fault.Syntactic
import ScriptFront.Grammar.Cursor

/-!
What reading a phrase comes to: a value and the place behind it, or a refusal and the place of the
token that is refused. The number of tokens left is part of the type, so that a phrase that is read
again and again comes to an end.
-/

namespace ScriptFront

/-- The result of reading a phrase that leaves fewer than `bound` tokens. -/
inductive Outcome (bound : Nat) (α : Type) where
  | done (value : α) (next : Cursor) (shorter : next.size < bound)
  | stuck (refusal : Refusal) (stop : Cursor)

namespace Outcome

variable {bound wider : Nat} {α β γ : Type}

/-- The result under a larger bound. -/
def widen (outcome : Outcome bound α) (le : bound ≤ wider) : Outcome wider α :=
  match outcome with
  | done value next shorter => done value next (Nat.lt_of_lt_of_le shorter le)
  | stuck refusal stop => stuck refusal stop

/-- The result where a phrase that takes a token stands for one that may take none. -/
def relax (outcome : Outcome bound α) : Outcome (bound + 1) α :=
  outcome.widen (Nat.le_succ bound)

def map (change : α → β) : Outcome bound α → Outcome bound β
  | done value next shorter => done (change value) next shorter
  | stuck refusal stop => stuck refusal stop

/-- Reads on behind a phrase that was read. -/
def andThen (outcome : Outcome bound α)
    (further : α → (next : Cursor) → next.size < bound → Outcome (next.size + 1) β) :
    Outcome bound β :=
  match outcome with
  | done value next shorter => (further value next shorter).widen shorter
  | stuck refusal stop => stuck refusal stop

/-- The value and the place behind it, or the refusal and its place. -/
def result : Outcome bound α → Except (Refusal × Cursor) (α × Cursor)
  | done value next _ => .ok (value, next)
  | stuck refusal stop => .error (refusal, stop)

@[simp]
theorem result_done (value : α) (next : Cursor) (shorter : next.size < bound) :
    (done value next shorter).result = .ok (value, next) := rfl

@[simp]
theorem result_stuck (refusal : Refusal) (stop : Cursor) :
    (stuck refusal stop : Outcome bound α).result = .error (refusal, stop) := rfl

@[simp]
theorem result_widen (outcome : Outcome bound α) (le : bound ≤ wider) :
    (outcome.widen le).result = outcome.result := by
  cases outcome <;> rfl

@[simp]
theorem result_relax (outcome : Outcome bound α) : outcome.relax.result = outcome.result :=
  result_widen _ _

@[simp]
theorem result_map (change : α → β) (outcome : Outcome bound α) :
    (outcome.map change).result =
      outcome.result.map fun (value, next) => (change value, next) := by
  cases outcome <;> rfl

theorem map_widen (change : α → β) (outcome : Outcome bound α) (le : bound ≤ wider) :
    (outcome.widen le).map change = (outcome.map change).widen le := by
  cases outcome <;> rfl

theorem map_map (first : α → β) (second : β → γ) (outcome : Outcome bound α) :
    (outcome.map first).map second = outcome.map (second ∘ first) := by
  cases outcome <;> rfl

theorem map_andThen
    (change : β → γ) (outcome : Outcome bound α)
    (further : α → (next : Cursor) → next.size < bound → Outcome (next.size + 1) β) :
    (outcome.andThen further).map change =
      outcome.andThen fun value next shorter => (further value next shorter).map change := by
  cases outcome with
  | done value next shorter => exact map_widen change (further value next shorter) shorter
  | stuck => rfl

theorem result_andThen_widen
    (outcome : Outcome bound α) (le : bound ≤ wider)
    (further : α → (next : Cursor) → next.size < wider → Outcome (next.size + 1) β) :
    ((outcome.widen le).andThen further).result =
      (outcome.andThen fun value next shorter =>
        further value next (Nat.lt_of_lt_of_le shorter le)).result := by
  cases outcome with
  | done => rw [widen, andThen, andThen, result_widen, result_widen]
  | stuck => rfl

theorem result_andThen_andThen
    (outcome : Outcome bound α)
    (first : α → (next : Cursor) → next.size < bound → Outcome (next.size + 1) β)
    (second : β → (next : Cursor) → next.size < bound → Outcome (next.size + 1) γ) :
    ((outcome.andThen first).andThen second).result =
      (outcome.andThen fun value next shorter =>
        (first value next shorter).andThen fun other last le =>
          second other last (Nat.lt_of_lt_of_le le shorter)).result := by
  cases outcome with
  | done value next shorter =>
      rw [andThen, result_andThen_widen, andThen, result_widen]
  | stuck => rfl

theorem andThen_map
    (change : α → β) (outcome : Outcome bound α)
    (further : β → (next : Cursor) → next.size < bound → Outcome (next.size + 1) γ) :
    (outcome.map change).andThen further =
      outcome.andThen fun value next shorter => further (change value) next shorter := by
  cases outcome <;> rfl

theorem size_lt_of_result {outcome : Outcome bound α} {value : α} {next : Cursor}
    (read : outcome.result = .ok (value, next)) : next.size < bound := by
  cases outcome with
  | done _ _ shorter =>
      obtain ⟨rfl, rfl⟩ := Prod.mk.inj (Except.ok.inj read)
      exact shorter
  | stuck => cases read

theorem result_map_eq_ok
    {outcome : Outcome bound α} {change : α → β} {value : β} {next : Cursor} :
    (outcome.map change).result = .ok (value, next) ↔
      ∃ inner, outcome.result = .ok (inner, next) ∧ change inner = value := by
  cases outcome with
  | done inner place shorter =>
      constructor
      · intro read
        obtain ⟨rfl, rfl⟩ := Prod.mk.inj (Except.ok.inj read)
        exact ⟨inner, rfl, rfl⟩
      · rintro ⟨_, read, rfl⟩
        obtain ⟨rfl, rfl⟩ := Prod.mk.inj (Except.ok.inj read)
        rfl
  | stuck => simp [map]

theorem result_andThen_of_ok
    {outcome : Outcome bound α} {value : α} {next : Cursor}
    {further : α → (next : Cursor) → next.size < bound → Outcome (next.size + 1) β}
    (read : outcome.result = .ok (value, next)) :
    (outcome.andThen further).result =
      (further value next (size_lt_of_result read)).result := by
  cases outcome with
  | done _ _ shorter =>
      obtain ⟨rfl, rfl⟩ := Prod.mk.inj (Except.ok.inj read)
      simp [andThen]
  | stuck => cases read

theorem result_andThen_of_error
    {outcome : Outcome bound α} {stuck : Refusal × Cursor}
    {further : α → (next : Cursor) → next.size < bound → Outcome (next.size + 1) β}
    (read : outcome.result = .error stuck) : (outcome.andThen further).result = .error stuck := by
  cases outcome with
  | done => cases read
  | stuck =>
      obtain rfl := Except.error.inj read
      rfl

theorem result_andThen_eq_ok
    {outcome : Outcome bound α} {value : β} {last : Cursor}
    {further : α → (next : Cursor) → next.size < bound → Outcome (next.size + 1) β} :
    (outcome.andThen further).result = .ok (value, last) ↔
      ∃ first next, ∃ shorter : next.size < bound,
        outcome.result = .ok (first, next) ∧
          (further first next shorter).result = .ok (value, last) := by
  constructor
  · intro read
    cases outcome with
    | done first next shorter =>
        exact ⟨first, next, shorter, rfl, by simpa [andThen] using read⟩
    | stuck => cases read
  · rintro ⟨first, next, shorter, isFirst, read⟩
    rwa [result_andThen_of_ok isFirst]

end Outcome

namespace Cursor

variable {bound : Nat} {α : Type}

/-- Reads nothing. -/
def yield (cursor : Cursor) (value : α) : Outcome (cursor.size + 1) α :=
  .done value cursor (Nat.lt_succ_self cursor.size)

/-- Refuses the next token. -/
def refuse (cursor : Cursor) (wanted : List Expectation) : Outcome bound α :=
  .stuck (.unexpected wanted) cursor

/-- Takes the next token, which must be of a kind. -/
def expect (cursor : Cursor) (kind : Kind) (wanted : List Expectation) (value : α) :
    Outcome cursor.size α :=
  match cursor.accept? kind with
  | none => cursor.refuse wanted
  | some taken => .done value taken.next taken.shorter

@[simp]
theorem result_yield (cursor : Cursor) (value : α) :
    (cursor.yield value).result = .ok (value, cursor) := rfl

@[simp]
theorem result_refuse (cursor : Cursor) (wanted : List Expectation) :
    (cursor.refuse wanted : Outcome bound α).result = .error (.unexpected wanted, cursor) := rfl

end Cursor

end ScriptFront
