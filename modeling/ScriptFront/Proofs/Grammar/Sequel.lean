import ScriptFront.Proofs.Grammar.SimulatedReading

/-!
# What follows a phrase

The tokens of a phrase may end the input, or a token may follow them that no phrase goes on with: a
newline or a closing bracket behind a blank.  The phrase does not see which: wherever it looks
ahead, such a token is taken for an end.
-/

namespace ScriptFront

/-- A token that ends a phrase and the place behind it, where no body is indented. -/
structure Sequel where
  stop : Token
  start : Cursor
  endsPhrase : stop.kind.endsPhrase = true
  apart : stop.kind = .newline ∨ stop.spaced = true
  noIndent : ∀ token ∈ start.ahead, token.kind ≠ .indent
  inLine : start.afterBody = false

namespace Cursor

/-- The cursor before the same tokens, with a sequel in place of their end. -/
def before (cursor : Cursor) (sequel : Sequel) : Cursor :=
  ⟨cursor.ahead ++ sequel.stop :: sequel.start.ahead, sequel.start.ending, cursor.afterBody⟩

/-- The sequel can stand for the end of the tokens ahead, none of which is indented: a colon in
front of it would have the same blank behind it. -/
structure Leads (cursor : Cursor) (sequel : Sequel) : Prop where
  spaced : sequel.stop.spaced = cursor.ending.spaced ∨
    ∀ token, cursor.ahead.getLast? = some token → token.kind ≠ .mark .colon
  noIndent : ∀ token ∈ cursor.ahead, token.kind ≠ .indent

variable {sequel : Sequel} {cursor next last : Cursor} {token : Token} {kind : Kind}

/-! ## Taking tokens -/

theorem Takes.before (takes : cursor.Takes token next) (sequel : Sequel) :
    (cursor.before sequel).Takes token (next.before sequel) := by
  refine ⟨?_, rfl, takes.afterBody⟩
  rw [Cursor.before, takes.ahead]
  rfl

theorem Accepts.before (accepts : cursor.Accepts kind next) (sequel : Sequel) :
    (cursor.before sequel).Accepts kind (next.before sequel) := by
  rcases accepts with ⟨token, takes, isKind⟩
  exact ⟨token, takes.before sequel, isKind⟩

/-- At the end the sequel is next. -/
theorem takes_stop (sequel : Sequel) (isEnd : cursor.ahead = []) :
    (cursor.before sequel).Takes sequel.stop sequel.start := by
  refine ⟨?_, rfl, ?_⟩
  · rw [before, isEnd]
    rfl
  · have noDedent : sequel.stop.kind ≠ .dedent := by
      intro isDedent
      have ends := sequel.endsPhrase
      rw [isDedent] at ends
      cases ends
    rw [sequel.inLine, decide_eq_false noDedent]

theorem accepts_stop (sequel : Sequel) (isEnd : cursor.ahead = []) :
    (cursor.before sequel).Accepts sequel.stop.kind sequel.start :=
  ⟨sequel.stop, takes_stop sequel isEnd, rfl⟩

theorem peek_before (filled : cursor.ahead ≠ []) :
    (cursor.before sequel).peek = cursor.peek := by
  cases isAhead : cursor.ahead with
  | nil => exact absurd isAhead filled
  | cons first rest =>
      have takes := takes_past isAhead
      rw [takes.peek, (takes.before sequel).peek]

namespace Leads

theorem of_passed
    {passed : List Token} (leads : cursor.Leads sequel)
    (isPassed : cursor.ahead = passed ++ next.ahead) (sameEnding : next.ending = cursor.ending) :
    next.Leads sequel := by
  refine ⟨?_, ?_⟩
  · refine leads.spaced.imp (fun same => sameEnding ▸ same) ?_
    intro noColon token isLast
    refine noColon token ?_
    rw [isPassed, List.getLast?_append, isLast]
    rfl
  · intro token member
    refine leads.noIndent token ?_
    rw [isPassed]
    exact List.mem_append_right passed member

theorem of_takes (leads : cursor.Leads sequel) (takes : cursor.Takes token next) :
    next.Leads sequel := by
  have isPassed : cursor.ahead = [token] ++ next.ahead := takes.ahead
  exact leads.of_passed isPassed takes.ending

/-- Behind a colon the sequel is spaced as the end is. -/
theorem spaced_behind_colon
    (leads : cursor.Leads sequel) (isColon : cursor.Accepts (.mark .colon) next) :
    (next.before sequel).peek.spaced = next.peek.spaced := by
  by_cases isEnd : next.ahead = []
  · rcases leads.spaced with same | noColon
    · rw [(takes_stop sequel isEnd).peek, peek_of_end isEnd, same, ← isColon.ending]
      rfl
    · rcases isColon.ahead with ⟨colon, isAhead, isKind⟩
      refine absurd isKind (noColon colon ?_)
      rw [isAhead, isEnd]
      rfl
  · rw [peek_before isEnd]

end Leads

/-! ## Looking ahead -/

/-- The sequel behind parentheses continues nothing, as no end does. -/
theorem continuesBehindParens_before
    {rest : List Token} (closes : behindParens? 0 cursor.ahead = some rest) (sequel : Sequel) :
    (cursor.before sequel).continuesBehindParens = cursor.continuesBehindParens := by
  have closesFurther := behindParens?_append closes (sequel.stop :: sequel.start.ahead)
  unfold continuesBehindParens
  rw [closes, before, closesFurther]
  cases rest with
  | nil =>
      change continuesArgument sequel.stop = false
      have ends := sequel.endsPhrase
      unfold continuesArgument
      split
      · rename_i isComma
        rw [isComma] at ends
        cases ends
      · rename_i isOperator
        rw [isOperator] at ends
        cases ends
      · rfl
  | cons token others => rfl

namespace Leads

theorem bodyStart? (leads : cursor.Leads sequel) :
    (cursor.before sequel).bodyStart? = none := by
  refine bodyStart?_of_noIndent ?_
  intro token member
  rcases List.mem_append.1 member with inPhrase | further
  · exact leads.noIndent token inPhrase
  · rcases List.mem_cons.1 further with rfl | behind
    · intro isIndent
      have ends := sequel.endsPhrase
      rw [isIndent] at ends
      cases ends
    · exact sequel.noIndent token behind

theorem not_startsBody (leads : cursor.Leads sequel) : ¬cursor.StartsBody next := by
  intro starts
  rcases bodyStart?_of_startsBody starts with ⟨start, found, -⟩
  cases (bodyStart?_of_noIndent leads.noIndent).symm.trans found

end Leads

/-! ## The sequel in place of the end -/

/-- The second place is the first one, with the sequel in place of the end. -/
structure PlacedBefore (sequel : Sequel) (depth : Nat) (cursor other : Cursor) : Prop where
  outside : depth = 0
  other_eq : other = cursor.before sequel
  leads : cursor.Leads sequel

theorem stopsPhrase_stop (sequel : Sequel) : sequel.stop.stopsPhrase = true := by
  rw [Token.stopsPhrase, sequel.endsPhrase]
  rcases sequel.apart with isNewline | spaced
  · rw [isNewline]
    rfl
  · rw [spaced, Bool.and_self, Bool.or_true]

theorem stopsPhrase_before (layout : cursor.peek.kind.isLayout = true) :
    (cursor.before sequel).peek.stopsPhrase = true := by
  by_cases isEnd : cursor.ahead = []
  · rw [(takes_stop sequel isEnd).peek]
    exact stopsPhrase_stop sequel
  · rw [peek_before isEnd, Token.stopsPhrase, layout]
    rfl

theorem peek_kind_ne_before
    (layout : cursor.peek.kind.isLayout = true) (goesOn : kind.goesOn = true) :
    (cursor.before sequel).peek.kind ≠ kind := by
  rintro rfl
  cases (Token.not_stopsPhrase goesOn).symm.trans (stopsPhrase_before layout)

theorem simulation_before (sequel : Sequel) : Simulation (PlacedBefore sequel) False False where
  takes := by
    rintro depth cursor _ next token ⟨atTop, rfl, leads⟩ takes -
    exact ⟨_, takes.before sequel, atTop, rfl, leads.of_takes takes⟩
  afterBody := by
    rintro depth cursor _ ⟨-, rfl, -⟩ -
    rfl
  stops := by
    rintro depth cursor _ ⟨-, rfl, -⟩ layout -
    exact stopsPhrase_before layout
  noComma := by
    rintro depth cursor _ ⟨-, rfl, -⟩ layout -
    exact peek_kind_ne_before layout rfl
  block := by
    rintro depth cursor _ ⟨-, rfl, -⟩ layout - isArrow
    exact absurd isArrow (peek_kind_ne_before layout rfl)
  colon := by
    rintro depth cursor _ next last ⟨-, rfl, leads⟩ isColon isColonBefore
    obtain rfl := isColonBefore.unique (isColon.before sequel)
    exact leads.spaced_behind_colon isColon
  parens := by
    rintro depth cursor _ rest ⟨-, rfl, -⟩ closes
    exact continuesBehindParens_before closes sequel
  noBody := by
    rintro depth cursor _ ⟨-, rfl, leads⟩ - - -
    exact leads.bodyStart?
  body := by
    rintro depth cursor _ start ⟨-, rfl, leads⟩ starts
    exact absurd starts leads.not_startsBody
  skipNewlines := fun related => absurd related.outside (Nat.succ_ne_zero _)
  endsStatements := fun related => absurd related.outside (Nat.succ_ne_zero _)
  endsStatement := fun related => absurd related.outside (Nat.succ_ne_zero _)
  skipDedent := fun related => absurd related.outside (Nat.succ_ne_zero _)

end Cursor

namespace Phrase

open Cursor

/-- A part of a statement is read in the same way before a sequel. -/
theorem Reads.before
    {form : Form} {cursor next : Cursor} {value : form.Value} {sequel : Sequel}
    (reads : Reads form cursor value next) (stands : form.Stands 0 cursor)
    (leads : cursor.Leads sequel) :
    Reads form (cursor.before sequel) value (next.before sequel) := by
  have related : PlacedBefore sequel 0 cursor (cursor.before sequel) := ⟨rfl, rfl, leads⟩
  rcases reads.simulated (simulation_before sequel) related stands closed_of_nothing with
    ⟨last, readsBefore, -, rfl, -⟩
  exact readsBefore

end Phrase

end ScriptFront
