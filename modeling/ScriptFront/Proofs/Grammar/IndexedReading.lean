import ScriptFront.Proofs.Grammar.IndexedPlaces

/-!
# Reading in step with a parser with an index

What a phrase comes to is what the parser comes to, and the place where the phrase ends is the place
at which the parser stands then.  The rules below say so for the ways in which the functions of the
parser are put together.  A loop of the parser carries what it has read; the phrase it reads carries
nothing, so what it gives is put behind that.
-/

namespace ScriptFront

namespace Input

/-- Whether an argument list without parentheses is open. -/
def isCommand : Nat → Bool
  | 0 => false
  | _ + 1 => true

/-- The parser comes to what is expected, and to the place where that ends.  The number of open
argument lists is as it was. -/
inductive Follows (input : Input) (depth : Nat) {α : Type} :
    Except (Refusal × Cursor) (α × Cursor) → Except Halt α × Parser → Prop where
  | done {value : α} {next : Cursor} {after : Parser} (stands : input.Stands depth next after) :
      Follows input depth (.ok (value, next)) (.ok value, after)
  | refused {refusal : Refusal} {stop : Cursor} {after : Parser}
      (stands : input.Stands depth stop after) (some : refusal.wanted ≠ []) :
      Follows input depth (.error (refusal, stop))
        (.error (.refused (refusal.fault stop.peek)), after)

namespace Follows

open Machine

variable {α β : Type} {input : Input} {depth bound : Nat} {cursor next : Cursor}
  {parser after : Parser} {machine : Machine α} {further : α → Machine β} {value : α}
  {token : Token} {kind : Kind} {wanted : List Expectation}
  {expected : Except (Refusal × Cursor) (β × Cursor)}

/-! ## One after the other -/

/-- Behind a step whose outcome is known. -/
theorem after_ok
    (ran : machine.run parser = (.ok value, after))
    (rest : input.Follows depth expected ((further value).run after)) :
    input.Follows depth expected ((machine >>= further).run parser) := by
  rw [run_bind_of_ok ran]
  exact rest

/-- The first part may say what it has read in another way than the phrase does. -/
theorem andThen_as
    {γ : Type} {change : γ → α} {outcome : Outcome bound γ}
    {later : γ → (next : Cursor) → next.size < bound → Outcome (next.size + 1) β}
    (first : input.Follows depth (outcome.map change).result (machine.run parser))
    (rest : ∀ value next shorter after, input.Stands depth next after →
      input.Follows depth (later value next shorter).result ((further (change value)).run after)) :
    input.Follows depth (outcome.andThen later).result ((machine >>= further).run parser) := by
  rw [run_bind]
  generalize machine.run parser = ran at first
  cases outcome with
  | done value next shorter =>
      cases first with
      | done stands =>
          rw [Outcome.andThen, Outcome.result_widen]
          exact rest value next shorter _ stands
  | stuck =>
      cases first with
      | refused stands some => exact .refused stands some

theorem andThen
    {outcome : Outcome bound α}
    {later : α → (next : Cursor) → next.size < bound → Outcome (next.size + 1) β}
    (first : input.Follows depth outcome.result (machine.run parser))
    (rest : ∀ value next shorter after, input.Stands depth next after →
      input.Follows depth (later value next shorter).result ((further value).run after)) :
    input.Follows depth (outcome.andThen later).result ((machine >>= further).run parser) := by
  have same : outcome.map id = outcome := by cases outcome <;> rfl
  rw [← same] at first
  exact andThen_as first rest

theorem map
    {outcome : Outcome bound α} {change : α → β}
    (first : input.Follows depth outcome.result (machine.run parser)) :
    input.Follows depth (outcome.map change).result
      ((machine >>= fun value => pure (change value)).run parser) := by
  rw [run_bind]
  generalize machine.run parser = ran at first
  cases outcome with
  | done value next shorter =>
      cases first with
      | done stands => exact .done stands
  | stuck =>
      cases first with
      | refused stands some => exact .refused stands some

/-! ## The end of a phrase -/

theorem yield (stands : input.Stands depth cursor parser) (value : α) :
    input.Follows depth (cursor.yield value).result ((pure value : Machine α).run parser) :=
  .done stands

theorem refuse
    (stands : input.Stands depth cursor parser) (some : wanted ≠ []) :
    input.Follows depth (cursor.refuse wanted : Outcome bound α).result
      ((unexpected wanted : Machine α).run parser) := by
  rw [run_unexpected stands]
  exact .refused stands some

/-- Behind a part that is refused nothing is read. -/
theorem refuse_bind
    (stands : input.Stands depth cursor parser) (some : wanted ≠ [])
    (ran : machine.run parser =
      (.error (.refused ((Refusal.unexpected wanted).fault cursor.peek)), parser)) :
    input.Follows depth (cursor.refuse wanted : Outcome bound β).result
      ((machine >>= further).run parser) := by
  rw [run_bind_of_error ran]
  exact .refused stands some

theorem expect
    (stands : input.Stands depth cursor parser) (some : wanted ≠ []) (real : kind ≠ .endOfInput) :
    input.Follows depth (cursor.expect kind wanted ()).result
      ((consume kind wanted).run parser) := by
  unfold Cursor.expect
  cases found : cursor.accept? kind with
  | none =>
      rw [run_consume_of_ne stands (Cursor.peek_kind_ne_of_accept? found real)]
      exact .refused stands some
  | some taken =>
      rcases run_consume stands (Cursor.accepts_of_accept? found) with ⟨after, ran, stands_after⟩
      rw [ran]
      exact .done stands_after

/-- A phrase that ends with a token of a kind. -/
theorem close
    (stands : input.Stands depth cursor parser) (some : wanted ≠ []) (real : kind ≠ .endOfInput) :
    input.Follows depth (cursor.expect kind wanted value).result
      ((consume kind wanted >>= fun _ => pure value).run parser) := by
  have same : cursor.expect kind wanted value =
      (cursor.expect kind wanted ()).map fun _ => value := by
    unfold Cursor.expect
    cases cursor.accept? kind <;> rfl
  rw [same]
  exact map (expect stands some real)

/-! ## The next token -/

theorem peek
    {further : Token → Machine β} (takes : cursor.Takes token next)
    (stands : input.Stands depth cursor parser)
    (rest : input.Follows depth expected ((further token).run parser)) :
    input.Follows depth expected ((Machine.peek >>= further).run parser) :=
  after_ok (run_peek_of_takes stands takes) rest

/-- At the end of the input. -/
theorem peek_end
    {further : Token → Machine β} (absent : cursor.take? = none)
    (stands : input.Stands depth cursor parser)
    (rest : ∀ token, token.kind = .endOfInput → token.spaced = cursor.peek.spaced →
      input.Follows depth expected ((further token).run parser)) :
    input.Follows depth expected ((Machine.peek >>= further).run parser) := by
  rcases run_peek stands with ⟨token, ran, alike⟩
  have isKind := alike.kind.trans cursor.peek_kind_eq
  rw [absent] at isKind
  exact after_ok ran (rest token isKind alike.spaced)

theorem advance
    {further : Token → Machine β} (takes : cursor.Takes token next)
    (stands : input.Stands depth cursor parser)
    (rest : ∀ after, input.Stands depth next after →
      input.Follows depth expected ((further token).run after)) :
    input.Follows depth expected ((Machine.advance >>= further).run parser) := by
  rcases run_advance stands takes with ⟨after, ran, stands_after⟩
  exact after_ok ran (rest after stands_after)

theorem matched
    {further : Bool → Machine β} (accepts : cursor.Accepts kind next)
    (stands : input.Stands depth cursor parser)
    (rest : ∀ after, input.Stands depth next after →
      input.Follows depth expected ((further true).run after)) :
    input.Follows depth expected ((matchToken kind >>= further).run parser) := by
  rcases run_matchToken_of_accepts stands accepts with ⟨after, ran, stands_after⟩
  exact after_ok ran (rest after stands_after)

theorem unmatched
    {further : Bool → Machine β} (absent : cursor.accept? kind = none) (real : kind ≠ .endOfInput)
    (stands : input.Stands depth cursor parser)
    (rest : input.Follows depth expected ((further false).run parser)) :
    input.Follows depth expected ((matchToken kind >>= further).run parser) :=
  after_ok (run_matchToken_of_ne stands (Cursor.peek_kind_ne_of_accept? absent real)) rest

theorem checked
    {further : Bool → Machine β} (accepts : cursor.Accepts kind next)
    (stands : input.Stands depth cursor parser)
    (rest : input.Follows depth expected ((further true).run parser)) :
    input.Follows depth expected ((check kind >>= further).run parser) :=
  after_ok (run_check_of_accepts stands accepts) rest

theorem unchecked
    {further : Bool → Machine β} (absent : cursor.accept? kind = none) (real : kind ≠ .endOfInput)
    (stands : input.Stands depth cursor parser)
    (rest : input.Follows depth expected ((further false).run parser)) :
    input.Follows depth expected ((check kind >>= further).run parser) :=
  after_ok (run_check_of_ne stands (Cursor.peek_kind_ne_of_accept? absent real)) rest

theorem consumed
    {further : Unit → Machine β} (accepts : cursor.Accepts kind next)
    (stands : input.Stands depth cursor parser)
    (rest : ∀ after, input.Stands depth next after →
      input.Follows depth expected ((further ()).run after)) :
    input.Follows depth expected ((consume kind wanted >>= further).run parser) := by
  rcases run_consume stands accepts with ⟨after, ran, stands_after⟩
  exact after_ok ran (rest after stands_after)

theorem identifier
    {name : String} {further : String → Machine β}
    (accepts : cursor.Accepts (.identifier name) next) (stands : input.Stands depth cursor parser)
    (rest : ∀ after, input.Stands depth next after →
      input.Follows depth expected ((further name).run after)) :
    input.Follows depth expected ((consumeIdentifier wanted >>= further).run parser) := by
  rcases run_consumeIdentifier stands accepts with ⟨after, ran, stands_after⟩
  exact after_ok ran (rest after stands_after)

/-! ## Open argument lists -/

theorem nested
    {expected : Except (Refusal × Cursor) (α × Cursor)} (stands : input.Stands depth cursor parser)
    (inner : ∀ inside, input.Stands 0 cursor inside →
      input.Follows 0 expected (machine.run inside)) :
    input.Follows depth expected ((nested machine).run parser) := by
  have follows := inner _ (stands.withDepth 0)
  simp only [run, Machine.nested, stands.depth_eq] at follows ⊢
  generalize machine { parser with commandDepth := 0 } = ran at follows ⊢
  cases follows with
  | done stands_after => exact .done (stands_after.withDepth depth)
  | refused stands_after some => exact .refused (stands_after.withDepth depth) some

theorem inCommand
    {expected : Except (Refusal × Cursor) (α × Cursor)} (stands : input.Stands depth cursor parser)
    (inner : ∀ inside, input.Stands (depth + 1) cursor inside →
      input.Follows (depth + 1) expected (machine.run inside)) :
    input.Follows depth expected ((inCommand machine).run parser) := by
  have follows := inner _ (stands.withDepth (depth + 1))
  simp only [run, Machine.inCommand, stands.depth_eq] at follows ⊢
  generalize machine { parser with commandDepth := depth + 1 } = ran at follows ⊢
  cases follows with
  | done stands_after =>
      rw [stands_after.depth_eq, if_neg (Nat.succ_ne_zero depth)]
      exact .done (stands_after.withDepth depth)
  | refused stands_after some =>
      rw [stands_after.depth_eq, if_neg (Nat.succ_ne_zero depth)]
      exact .refused (stands_after.withDepth depth) some

end Follows

end Input

/-! ## Loops with what has been read -/

namespace StringParts

/-- The string that consists of some nodes and of parts behind them. -/
def nodeBehind (before : List Node) (parts : StringParts) : Node :=
  if before.isEmpty then parts.node else .interpolated (before ++ parts.nodes)

theorem nodeBehind_insertion
    (before : List Node) (text : String) (inner : Node) (others : StringParts) :
    nodeBehind before (.insertion text inner others) =
      nodeBehind (before ++ [.text text, .interpolation inner]) others := by
  cases before with
  | nil => rfl
  | cons => simp [nodeBehind, nodes]

end StringParts

namespace Cursor

theorem size_skipDedent_lt_succ (cursor : Cursor) : cursor.skipDedent.size < cursor.size + 1 :=
  Nat.lt_succ_of_le cursor.size_skipDedent_le

/-- The end of a body with these statements. -/
def bodyEnd (cursor : Cursor) (nodes : List Node) : Outcome (cursor.size + 1) (List Node) :=
  if nodes.isEmpty then cursor.refuse [.statement]
  else .done nodes cursor.skipDedent cursor.size_skipDedent_lt_succ

/-- The parameters behind some that have been read. -/
def moreParameters (cursor : Cursor) (before : List (Parameter Node)) :
    Outcome (cursor.size + 1) (List (Parameter Node)) :=
  match cursor.accept? (.mark .comma) with
  | none => cursor.yield before
  | some comma => ((Phrase.parameterList comma.next).map (before ++ ·)).widen comma.le_succ

end Cursor

end ScriptFront
