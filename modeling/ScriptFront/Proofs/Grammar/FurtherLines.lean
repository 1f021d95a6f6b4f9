import ScriptFront.Proofs.Grammar.Sequel

/-!
# Further lines

The tokens of a line may end the input, or a newline and further lines may follow them.  The newline
is a sequel that stands for an end, and newlines in front of it are passed over together with it.
-/

namespace ScriptFront

/-- A newline and the place behind it, where lines start none of which is indented. -/
structure FurtherLines where
  newline : Token
  start : Cursor
  isNewline : newline.kind = .newline
  noIndent : ∀ token ∈ start.ahead, token.kind ≠ .indent
  inLine : start.afterBody = false

namespace Cursor

/-- The cursor before the same tokens, with further lines in place of their end. -/
def followedBy (cursor : Cursor) (lines : FurtherLines) : Cursor :=
  ⟨cursor.ahead ++ lines.newline :: lines.start.ahead, lines.start.ending, cursor.afterBody⟩

/-- The newline can stand for the end of the tokens ahead, none of which is indented. -/
structure Precedes (cursor : Cursor) (lines : FurtherLines) : Prop where
  spaced : lines.newline.spaced = cursor.ending.spaced
  noIndent : ∀ token ∈ cursor.ahead, token.kind ≠ .indent

end Cursor

/-- The newline takes the place of the end. -/
def FurtherLines.sequel (lines : FurtherLines) : Sequel where
  stop := lines.newline
  start := lines.start
  endsPhrase := by
    rw [lines.isNewline]
    rfl
  apart := Or.inl lines.isNewline
  noIndent := lines.noIndent
  inLine := lines.inLine

namespace Cursor

variable {lines : FurtherLines} {cursor next : Cursor} {kind : Kind}

theorem Precedes.leads (precedes : cursor.Precedes lines) : cursor.Leads lines.sequel :=
  ⟨Or.inl precedes.spaced, precedes.noIndent⟩

/-! ## Newlines -/

theorem Accepts.followedBy (accepts : cursor.Accepts kind next) (lines : FurtherLines) :
    (cursor.followedBy lines).Accepts kind (next.followedBy lines) :=
  accepts.before lines.sequel

theorem peek_followedBy (filled : cursor.ahead ≠ []) :
    (cursor.followedBy lines).peek = cursor.peek := by
  have same : (cursor.before lines.sequel).peek = cursor.peek := peek_before filled
  exact same

/-- At the end the newline is next. -/
theorem accepts_newline (lines : FurtherLines) (isEnd : cursor.ahead = []) :
    (cursor.followedBy lines).Accepts .newline lines.start :=
  ⟨lines.newline, takes_stop lines.sequel isEnd, lines.isNewline⟩

/-- Newlines up to the end are passed over together with the newline behind them. -/
theorem skipNewlines_followedBy_of_end
    (lines : FurtherLines) (isEnd : cursor.skipNewlines.ahead = []) :
    (cursor.followedBy lines).skipNewlines = lines.start.skipNewlines := by
  induction cursor using skipNewlines.induct with
  | case1 cursor absent =>
      rw [skipNewlines_of_none absent] at isEnd
      exact (accepts_newline lines isEnd).skipNewlines_eq
  | case2 cursor newline present _ inductionHypothesis =>
      have accepts := accepts_of_accept? present
      rw [skipNewlines_of_some present] at isEnd
      rw [(accepts.followedBy lines).skipNewlines_eq]
      exact inductionHypothesis isEnd

theorem skipNewlines_followedBy
    (lines : FurtherLines) (filled : cursor.skipNewlines.ahead ≠ []) :
    (cursor.followedBy lines).skipNewlines = cursor.skipNewlines.followedBy lines := by
  induction cursor using skipNewlines.induct with
  | case1 cursor absent =>
      have isCursor := skipNewlines_of_none absent
      rw [isCursor] at filled
      have differs := peek_kind_ne_of_accept? absent (by simp)
      have absentFurther : (cursor.followedBy lines).accept? .newline = none := by
        refine accept?_eq_none ?_
        rw [peek_followedBy filled]
        exact differs
      rw [isCursor, skipNewlines_of_none absentFurther]
  | case2 cursor newline present _ inductionHypothesis =>
      have accepts := accepts_of_accept? present
      rw [skipNewlines_of_some present] at filled ⊢
      rw [(accepts.followedBy lines).skipNewlines_eq]
      exact inductionHypothesis filled

namespace Precedes

theorem of_passed
    {passed : List Token} (precedes : cursor.Precedes lines)
    (isPassed : cursor.ahead = passed ++ next.ahead) (sameEnding : next.ending = cursor.ending) :
    next.Precedes lines :=
  ⟨sameEnding ▸ precedes.spaced, (precedes.leads.of_passed isPassed sameEnding).noIndent⟩

theorem of_skipNewlines (precedes : cursor.Precedes lines) :
    cursor.skipNewlines.Precedes lines := by
  rcases ahead_skipNewlines cursor with ⟨newlines, isPassed, sameEnding, -⟩
  exact precedes.of_passed isPassed sameEnding

theorem of_reads
    {form : Phrase.Form} {value : form.Value}
    (precedes : cursor.Precedes lines) (reads : Phrase.Reads form cursor value next) :
    next.Precedes lines := by
  rcases reads.passed with ⟨passed, isPassed, sameEnding⟩
  exact precedes.of_passed isPassed sameEnding

end Precedes

end Cursor

end ScriptFront
