import ScriptFront.Proofs.Grammar.Equivariance
import ScriptFront.Proofs.Grammar.Rereading
import ScriptFront.Proofs.Grammar.Sequel

/-!
# Expressions between delimiters

The tokens of an expression that ends with its line may stand between parentheses or brackets, as
the argument of a call, or in a string.  The expression is then read up to what closes the
delimiter.
-/

namespace ScriptFront

/-- A key with its value is read first. -/
def Cursor.StartsPair (cursor : Cursor) : Prop :=
  ∃ pair next, (Phrase.entry false cursor).result = .ok (.pair pair, next)

namespace Cursor

variable {cursor : Cursor} {kind : Kind}

theorem peek_kind_ne_of_forall
    (absent : ∀ token ∈ cursor.ahead, token.kind ≠ kind) (real : kind ≠ .endOfInput) :
    cursor.peek.kind ≠ kind := by
  cases isAhead : cursor.ahead with
  | nil =>
      rw [peek_of_end isAhead]
      exact real.symm
  | cons first rest =>
      rw [(takes_past isAhead).peek]
      exact absent first (isAhead ▸ List.mem_cons_self)

theorem skipNewlines_of_inLine (inLine : ∀ token ∈ cursor.ahead, token.kind ≠ .newline) :
    cursor.skipNewlines = cursor :=
  skipNewlines_of_none (accept?_eq_none (peek_kind_ne_of_forall inLine (by simp)))

end Cursor

namespace Phrase

open Cursor

/-- The tokens ahead are an expression as a whole. -/
structure IsWhole (cursor : Cursor) (node : Node) (last : Cursor) : Prop where
  reads : Reads (.entry false) cursor (.single node) last
  isEnd : last.ahead = []
  noIndent : ∀ token ∈ cursor.ahead, token.kind ≠ .indent
  inLine : cursor.afterBody = false

variable {cursor last : Cursor} {node : Node}

/-- A program that is one expression in one line. -/
theorem isWhole_of_statements
    (reads : Reads (.statements false) cursor [node] last)
    (inLine : ∀ token ∈ cursor.ahead, token.kind ≠ .newline)
    (noIndent : ∀ token ∈ cursor.ahead, token.kind ≠ .indent)
    (bare : cursor.afterBody = false) (noPair : ¬cursor.StartsPair) :
    ∃ next, IsWhole cursor node next := by
  cases reads with
  | moreStatements _ isFirst areOthers =>
      rw [skipNewlines_of_inLine inLine] at isFirst
      cases isFirst with
      | @statement _ middle _ _ entry _ isEntry isNode ends =>
          rcases isEntry.passed with ⟨passed, isPassed, -⟩
          have inLineBehind : ∀ token ∈ middle.ahead, token.kind ≠ .newline := by
            intro token member
            exact inLine token (isPassed ▸ List.mem_append_right passed member)
          cases isNode with
          | bareHash => exact absurd ⟨_, _, run_of_reads isEntry⟩ noPair
          | single =>
              refine ⟨middle, isEntry, ?_, noIndent, bare⟩
              rcases ends with accepts | ⟨-, -, rfl⟩
              · exact absurd accepts.peek_kind (peek_kind_ne_of_forall inLineBehind (by simp))
              · cases areOthers with
                | noStatements ends =>
                    rw [skipNewlines_of_inLine inLineBehind] at ends
                    simpa [endsStatements, atEnd] using ends

theorem IsWhole.expression (whole : IsWhole cursor node last) :
    Reads .expression cursor node last := by
  cases whole.reads with
  | expression _ isNode => exact isNode

/-- What stands behind the expression takes the place of the end. -/
theorem IsWhole.leads (whole : IsWhole cursor node last) (sequel : Sequel) :
    cursor.Leads sequel := by
  have passes : cursor.Passes last := whole.reads.passes
  rcases passes.last_ne_colon with ⟨passed, isPassed, noColon⟩
  rw [whole.isEnd, List.append_nil] at isPassed
  exact ⟨Or.inr (isPassed ▸ noColon), whole.noIndent⟩

theorem IsWhole.closes (whole : IsWhole cursor node last) (sequel : Sequel) :
    (last.before sequel).Accepts sequel.stop.kind sequel.start :=
  accepts_stop sequel whole.isEnd

/-- An expression does not start with a closing bracket, whatever stands behind it. -/
theorem IsWhole.closes?_peek (whole : IsWhole cursor node last) (sequel : Sequel) :
    (cursor.before sequel).peek.kind.closes? = none := by
  have passes : cursor.Passes last := whole.reads.passes
  rcases passes.leaves_bodies with ⟨passed, bodies, isPassed, -, leaves, -⟩
  rw [whole.isEnd, List.append_nil] at isPassed
  cases passed with
  | nil =>
      have shorter : last.size < cursor.size := whole.expression.binary_size_lt
      rw [size, size, isPassed] at shorter
      cases shorter
  | cons first others =>
      have filled : cursor.ahead ≠ [] := isPassed ▸ List.cons_ne_nil first others
      rw [peek_before filled, (takes_past isPassed).peek]
      cases closes : first.kind.closes? with
      | none => rfl
      | some bracket =>
          rw [List.map_cons, Bracket.unclosed_cons, Bracket.behind_nil_of_closes closes] at leaves
          cases leaves

theorem IsWhole.group
    (whole : IsWhole cursor node last) (sequel : Sequel)
    (isStop : sequel.stop.kind = .mark .rightParen) :
    Reads .group (cursor.before sequel) (.group node) sequel.start := by
  have reads := whole.expression.before trivial (whole.leads sequel)
  exact .group reads (isStop ▸ whole.closes sequel)

theorem IsWhole.enclosed
    {closer : Mark} (whole : IsWhole cursor node last) (sequel : Sequel)
    (isStop : sequel.stop.kind = .mark closer) (isCloser : (Kind.mark closer).closes? ≠ none) :
    Reads (.enclosed closer) (cursor.before sequel) [node] sequel.start := by
  have closes : (last.before sequel).Accepts (.mark closer) sequel.start :=
    isStop ▸ whole.closes sequel
  have reads := whole.reads.before trivial (whole.leads sequel)
  refine .enclosed ?_ (.lastEntry reads ?_) closes
  · intro isKind
    rw [← isKind] at isCloser
    exact isCloser (whole.closes?_peek sequel)
  · rw [closes.peek_kind]
    intro isComma
    rw [isComma] at isCloser
    exact isCloser rfl

/-- What takes in all tokens is a program. -/
theorem reads_program_of_statement
    {first : Entry} {middle : Cursor} (reads : Reads (.entry false) cursor first middle)
    (whole : Reads (.bareHash first) middle node last) (isEnd : last.ahead = [])
    (noNewline : cursor.peek.kind ≠ .newline) :
    Reads (.statements false) cursor [node] last := by
  have skips : cursor.skipNewlines = cursor := skipNewlines_of_none (accept?_eq_none noNewline)
  have endsInput : last.peek.kind = .endOfInput := by
    rw [peek_of_end isEnd]
    rfl
  have atEnd : last.atEnd = true := by
    rw [Cursor.atEnd, isEnd]
    rfl
  have isStatement : Reads .statement cursor node last := by
    refine .statement reads whole (Or.inr ⟨by simp [endsInput], ?_, rfl⟩)
    rw [atEnd, Bool.or_true, Bool.true_or]
  have stays : last.skipNewlines = last :=
    skipNewlines_of_none (accept?_eq_none (by simp [endsInput]))
  have none : Reads (.statements false) last [] last := by
    have ends : last.skipNewlines.endsStatements false = true := by
      rw [stays, endsStatements, atEnd]
      rfl
    have reads := Reads.noStatements ends
    rwa [stays] at reads
  have filled : cursor.ahead ≠ [] := by
    have shorter := isStatement.statement_size_lt
    intro isNil
    rw [size, size, isNil] at shorter
    cases shorter
  refine .moreStatements ?_ (skips.symm ▸ isStatement) none
  rw [skips, endsStatements, atEnd_of_filled filled]
  rfl

/-- An expression that takes in all tokens is a program. -/
theorem reads_program_of_entry
    (reads : Reads (.entry false) cursor (.single node) last) (isEnd : last.ahead = [])
    (noNewline : cursor.peek.kind ≠ .newline) :
    Reads (.statements false) cursor [node] last :=
  reads_program_of_statement reads .single isEnd noNewline

theorem reads_program_of_primary
    {first : Token} {rest : List Token} {ending : Ending} {kind : Kind}
    (reads : Reads (.primary false) ⟨first :: rest, ending, false⟩ node last)
    (isEnd : last.ahead = []) (isKind : first.kind = kind)
    (noSign : ∀ operator, kind ≠ .operator operator) (noNewline : kind ≠ .newline)
    (unnamed : (Cursor.mk (first :: rest) ending false).symbolKey? = none) :
    Reads (.statements false) ⟨first :: rest, ending, false⟩ [node] last := by
  have endsInput : last.peek.kind = .endOfInput := by
    rw [peek_of_end isEnd]
    rfl
  have closes : last.peek.kind.closes = true := by
    rw [endsInput]
    rfl
  have isExpression : Reads .expression ⟨first :: rest, ending, false⟩ node last := by
    refine .binary (reads.operand_of_kind isKind noSign) (.stop ?_)
    intro operator binding next continues
    exact absurd continues (not_continues_of_closes closes)
  have isEntry : Reads (.entry false) ⟨first :: rest, ending, false⟩ (.single node) last :=
    .expression unnamed isExpression (separator?_eq_none (by simp [endsInput]))
  apply reads_program_of_entry isEntry isEnd
  intro isNewline
  exact noNewline (isKind.symm.trans isNewline)

/-! ## Programs -/

/-- The sequel that closes a bracket at the end of the input. -/
def closing
    (stop : Token) (ends : stop.kind.endsPhrase = true) (spaced : stop.spaced = true)
    (ending : Ending) : Sequel :=
  ⟨stop, ⟨[], ending, false⟩, ends, Or.inr spaced, List.forall_mem_nil _, rfl⟩

/-- A piece of a string behind an expression inserted into it. -/
def closingInsertion
    (stop piece : Token) (text : String) (isStop : stop.kind = .interpolationEnd)
    (spaced : stop.spaced = true) (isPiece : piece.kind = .fragment text) (ending : Ending) :
    Sequel where
  stop := stop
  start := ⟨[piece], ending, false⟩
  endsPhrase := by rw [isStop]; rfl
  apart := Or.inr spaced
  noIndent := by simp [isPiece]
  inLine := rfl

variable {stop : Token} {ending : Ending}

theorem IsWhole.before_eq (whole : IsWhole cursor node last) (sequel : Sequel) :
    cursor.before sequel =
      ⟨cursor.ahead ++ sequel.stop :: sequel.start.ahead, sequel.start.ending, false⟩ := by
  rw [Cursor.before, whole.inLine]

/-- Only words are keys. -/
theorem symbolKey?_cons_of_kind
    {first : Token} {rest : List Token} {kind : Kind} (isKind : first.kind = kind)
    (noName : ∀ name, kind ≠ .identifier name) (noWord : ∀ word, kind ≠ .keyword word) :
    (Cursor.mk (first :: rest) ending false).symbolKey? = none := by
  refine symbolKey?_eq_none_of_peek ?_ ?_
  · intro name isName
    exact noName name (isKind.symm.trans isName)
  · intro word isWord
    exact noWord word (isKind.symm.trans isWord)

theorem IsWhole.program_group
    {opener : Token} (whole : IsWhole cursor node last) (isOpener : opener.kind = .mark .leftParen)
    (isStop : stop.kind = .mark .rightParen) (spaced : stop.spaced = true) :
    Reads (.statements false) ⟨opener :: (cursor.ahead ++ [stop]), ending, false⟩ [.group node]
      ⟨[], ending, false⟩ := by
  have inner := whole.group (closing stop (by rw [isStop]; rfl) spaced ending) isStop
  rw [whole.before_eq] at inner
  have reads : Reads (.primary false) ⟨opener :: (cursor.ahead ++ [stop]), ending, false⟩
      (.group node) ⟨[], ending, false⟩ := .paren (accepts_cons isOpener (by simp)) inner
  exact reads_program_of_primary reads rfl isOpener (by simp) (by simp)
    (symbolKey?_cons_of_kind isOpener (by simp) (by simp))

theorem IsWhole.program_array
    {opener : Token} (whole : IsWhole cursor node last)
    (isOpener : opener.kind = .mark .leftBracket)
    (isStop : stop.kind = .mark .rightBracket) (spaced : stop.spaced = true) :
    Reads (.statements false) ⟨opener :: (cursor.ahead ++ [stop]), ending, false⟩ [.array [node]]
      ⟨[], ending, false⟩ := by
  have inner := whole.enclosed (closing stop (by rw [isStop]; rfl) spaced ending) isStop
    (by simp [Kind.closes?])
  rw [whole.before_eq] at inner
  have reads : Reads (.primary false) ⟨opener :: (cursor.ahead ++ [stop]), ending, false⟩
      (.array [node]) ⟨[], ending, false⟩ := .array (accepts_cons isOpener (by simp)) inner
  exact reads_program_of_primary reads rfl isOpener (by simp) (by simp)
    (symbolKey?_cons_of_kind isOpener (by simp) (by simp))

theorem IsWhole.program_call
    {name : String} {word opener : Token} (whole : IsWhole cursor node last)
    (isWord : word.kind = .identifier name) (isOpener : opener.kind = .mark .leftParen)
    (hugs : opener.spaced = false)
    (isStop : stop.kind = .mark .rightParen) (spaced : stop.spaced = true) :
    Reads (.statements false) ⟨word :: opener :: (cursor.ahead ++ [stop]), ending, false⟩
      [.call name [node] none] ⟨[], ending, false⟩ := by
  have inner := whole.enclosed (closing stop (by rw [isStop]; rfl) spaced ending) isStop
    (by simp [Kind.closes?])
  rw [whole.before_eq] at inner
  have peeks : (Cursor.mk (opener :: (cursor.ahead ++ [stop])) ending false).peek = opener := rfl
  have arguments : Reads .arguments ⟨opener :: (cursor.ahead ++ [stop]), ending, false⟩ [node]
      ⟨[], ending, false⟩ := by
    refine .parenthesized (accepts_cons isOpener (by simp)) ?_ inner
    rw [peeks, hugs, Bool.false_and]
  have reads : Reads (.primary false) ⟨word :: opener :: (cursor.ahead ++ [stop]), ending, false⟩
      (.call name [node] none) ⟨[], ending, false⟩ := by
    refine .name (accepts_cons isWord (by simp)) (.call ?_ arguments (.withoutBlock (Or.inr ?_)))
    · rw [peeks, isOpener]
      simp
    · exact Kind.noConfusion
  exact reads_program_of_primary reads rfl isWord (by simp) (by simp)
    (symbolKey?_eq_none_of_second isOpener (by simp))

theorem IsWhole.program_inserted
    {first second : String} {piece opener behind : Token} (whole : IsWhole cursor node last)
    (isPiece : piece.kind = .fragment first) (isOpener : opener.kind = .interpolationStart)
    (isStop : stop.kind = .interpolationEnd) (spaced : stop.spaced = true)
    (isBehind : behind.kind = .fragment second) (hugs : behind.spaced = false) :
    Reads (.statements false)
      ⟨piece :: opener :: (cursor.ahead ++ [stop, behind]), ending, false⟩
      [.interpolated [.text first, .interpolation node, .text second]] ⟨[], ending, false⟩ := by
  let sequel := closingInsertion stop behind second isStop spaced isBehind ending
  have inner := whole.expression.before trivial (whole.leads sequel)
  have closes := whole.closes sequel
  rw [whole.before_eq] at inner
  have rest : Reads (.stringParts "") ⟨[behind], ending, false⟩ (.last ("" ++ second))
      ⟨[], ending, false⟩ := by
    refine .adjacent (takes_cons (by simp [isBehind])) isBehind hugs (.lastPart ?_)
    exact ⟨Kind.noConfusion, fun _ => Kind.noConfusion⟩
  rw [String.empty_append] at rest
  have parts : Reads (.stringParts first) ⟨opener :: (cursor.ahead ++ [stop, behind]), ending, false⟩
      (.insertion first node (.last second)) ⟨[], ending, false⟩ :=
    .insertion (accepts_cons isOpener (by simp)) inner (isStop ▸ closes) rest
  have reads : Reads (.primary false)
      ⟨piece :: opener :: (cursor.ahead ++ [stop, behind]), ending, false⟩
      (.interpolated [.text first, .interpolation node, .text second]) ⟨[], ending, false⟩ :=
    .string (accepts_cons isPiece (by simp)) parts
  exact reads_program_of_primary reads rfl isPiece (by simp) (by simp)
    (symbolKey?_cons_of_kind isPiece (by simp) (by simp))

end Phrase

end ScriptFront
