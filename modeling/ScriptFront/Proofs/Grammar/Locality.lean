import ScriptFront.Proofs.Grammar.Completeness
import ScriptFront.Proofs.Grammar.FurtherLines

/-!
# Statements are read one by one

Further lines behind a text do not change how its statements are read, and the statements of the
text do not change how the further lines are read.
-/

namespace ScriptFront

open Cursor

namespace Phrase

/-- A part of a statement is read in the same way if further lines follow. -/
theorem Reads.followedBy
    {form : Form} {cursor next : Cursor} {value : form.Value} {lines : FurtherLines}
    (reads : Reads form cursor value next) (stands : form.Stands 0 cursor)
    (precedes : cursor.Precedes lines) :
    Reads form (cursor.followedBy lines) value (next.followedBy lines) :=
  reads.before stands precedes.leads

/-! ## Statements -/

/-- A statement that reads up to the end takes the newline in its place. -/
theorem Reads.statement_followedBy
    {cursor next : Cursor} {node : Node} {lines : FurtherLines}
    (reads : Reads .statement cursor node next) (precedes : cursor.Precedes lines) :
    ∃ last, Reads .statement (cursor.followedBy lines) node last ∧
      last.skipNewlines = (next.followedBy lines).skipNewlines := by
  cases reads with
  | @statement _ middle place _ first _ isFirst whole ends =>
      have behind := precedes.of_reads isFirst
      have isFirstFurther := isFirst.followedBy trivial precedes
      have wholeFurther := whole.followedBy trivial behind
      rcases ends with accepts | ⟨differs, ends, rfl⟩
      · have endsFurther : (place.followedBy lines).EndsStatement (next.followedBy lines) :=
          Or.inl (accepts.followedBy lines)
        exact ⟨_, .statement isFirstFurther wholeFurther endsFurther, rfl⟩
      -- Only at the end of the tokens does it matter that a newline is next.
      by_cases isEnd : next.ahead = []
      · have accepts := accepts_newline lines isEnd
        have endsFurther : (next.followedBy lines).EndsStatement lines.start := Or.inl accepts
        exact ⟨_, .statement isFirstFurther wholeFurther endsFurther,
          accepts.skipNewlines_eq.symm⟩
      · have samePeek : (next.followedBy lines).peek = next.peek := peek_followedBy isEnd
        have sameEnds : ((next.followedBy lines).isAt .dedent || (next.followedBy lines).atEnd ||
            (next.followedBy lines).afterBody) = true := by
          have notEnd : next.atEnd = false := List.isEmpty_eq_false_iff.2 isEnd
          rw [notEnd, Bool.or_false] at ends
          rw [isAt, samePeek, Bool.or_right_comm]
          exact Bool.or_eq_true_iff.2 (Or.inl ends)
        have endsFurther : (next.followedBy lines).EndsStatement (next.followedBy lines) :=
          Or.inr ⟨samePeek ▸ differs, sameEnds, rfl⟩
        exact ⟨_, .statement isFirstFurther wholeFurther endsFurther, rfl⟩

theorem result_statements (inBody : Bool) (cursor : Cursor) :
    (statements inBody cursor).result =
      if cursor.skipNewlines.endsStatements inBody then .ok ([], cursor.skipNewlines)
      else ((statement cursor.skipNewlines).andThen fun first next _ =>
        (statements inBody next).map (first :: ·)).result := by
  rw [statements]
  split
  · rfl
  · rw [Outcome.result_widen]

/-- Newlines in front of statements say nothing. -/
theorem result_statements_congr
    {inBody : Bool} {first second : Cursor} (same : first.skipNewlines = second.skipNewlines) :
    (statements inBody first).result = (statements inBody second).result := by
  rw [result_statements, result_statements, same]

/-- Behind the statements of a text come those of the further lines, read as if they stood alone. -/
theorem result_statements_followedBy
    {cursor last : Cursor} {nodes : List Node} {lines : FurtherLines}
    (reads : Reads (.statements false) cursor nodes last) (precedes : cursor.Precedes lines) :
    (statements false (cursor.followedBy lines)).result =
      (statements false lines.start).result.map fun (others, stop) => (nodes ++ others, stop) := by
  cases reads with
  | noStatements ends =>
      have isEnd : cursor.skipNewlines.ahead = [] := by
        simpa [endsStatements, atEnd] using ends
      rw [result_statements_congr (skipNewlines_followedBy_of_end lines isEnd)]
      cases (statements false lines.start).result <;> rfl
  | @moreStatements _ _ next _ first others more isFirst areOthers =>
      have filled : cursor.skipNewlines.ahead ≠ [] := by
        simpa [endsStatements, atEnd] using more
      have moreFurther : (cursor.skipNewlines.followedBy lines).endsStatements false = false := by
        simp [endsStatements, atEnd, Cursor.followedBy]
      have shorter : next.size < cursor.size :=
        Nat.lt_of_lt_of_le isFirst.statement_size_lt cursor.size_skipNewlines_le
      have behindNewlines := precedes.of_skipNewlines
      have behind := behindNewlines.of_reads isFirst
      rcases isFirst.statement_followedBy behindNewlines with ⟨place, readsFirst, samePlace⟩
      have readFirst : (statement (cursor.skipNewlines.followedBy lines)).result =
          .ok (first, place) := run_of_reads readsFirst
      have areFurther := result_statements_followedBy areOthers behind
      rw [← result_statements_congr samePlace] at areFurther
      rw [result_statements, skipNewlines_followedBy lines filled, moreFurther, if_neg (by simp),
        Outcome.result_andThen_of_ok readFirst, Outcome.result_map, areFurther]
      cases (statements false lines.start).result <;> rfl
termination_by cursor.size

end Phrase

end ScriptFront
