import ScriptFront.Proofs.Grammar.Rereading

/-!
# Programs are read from their renderings

A statement ends with its line or with its indented body.  Behind a body nothing continues the
statement, whatever token comes next; behind a line that has no body no indent may follow.
-/

namespace ScriptFront

open Phrase

/-! ## The end of a line -/

/-- Tokens that can stand behind a statement without a body. -/
def Kind.endsLine : Kind → Bool
  | .newline | .dedent | .endOfInput => true
  | _ => false

theorem Kind.closes_of_endsLine {kind : Kind} (ends : kind.endsLine = true) :
    kind.closes = true := by
  cases kind with
  | newline | dedent | endOfInput => rfl
  | _ => cases ends

namespace Cursor

variable {lines tokens rest : List Token} {token : Token} {ending : Ending} {flag : Bool}
  {cursor : Cursor}

/-- A line ends here, and no body belongs to it. -/
def EndsLine (cursor : Cursor) : Prop :=
  cursor.peek.kind.endsLine = true ∧ cursor.bodyStart? = none

theorem skipNewlines_append
    (areNewlines : ∀ line ∈ lines, line.kind = .newline)
    (stops : (Cursor.mk rest ending false).peek.kind ≠ .newline) (flag : Bool) :
    ∃ last, (Cursor.mk (lines ++ rest) ending flag).skipNewlines = ⟨rest, ending, last⟩ := by
  induction lines generalizing flag with
  | nil =>
      have absent : (Cursor.mk rest ending flag).accept? .newline = none :=
        accept?_eq_none stops
      exact ⟨flag, skipNewlines_of_none absent⟩
  | cons line others inductionHypothesis =>
      have isNewline : line.kind = .newline := areNewlines line (List.mem_cons_self ..)
      have accepts : (Cursor.mk (line :: (others ++ rest)) ending flag).Accepts .newline
          ⟨others ++ rest, ending, false⟩ := accepts_cons isNewline (by simp)
      rw [List.cons_append, accepts.skipNewlines_eq]
      exact inductionHypothesis
        (fun line member => areNewlines line (List.mem_cons_of_mem _ member)) false

/-- No body starts behind newlines that are followed by something else than an indent. -/
theorem bodyStart?_append
    (areNewlines : ∀ line ∈ lines, line.kind = .newline)
    (stops : (Cursor.mk rest ending false).peek.kind ≠ .newline)
    (noIndent : (Cursor.mk rest ending false).peek.kind ≠ .indent) (flag : Bool) :
    (Cursor.mk (lines ++ rest) ending flag).bodyStart? = none := by
  refine bodyStart?_eq_none ?_
  rintro next ⟨line, isLine, isIndent⟩
  cases lines with
  | nil => exact stops isLine.peek_kind
  | cons first others =>
      have isNewline : first.kind = .newline := areNewlines first (List.mem_cons_self ..)
      have accepts : (Cursor.mk (first :: (others ++ rest)) ending flag).Accepts .newline
          ⟨others ++ rest, ending, false⟩ := accepts_cons isNewline (by simp)
      rcases isLine with ⟨token, takes, -⟩
      rcases accepts with ⟨same, takesSame, -⟩
      rcases takes.unique takesSame with ⟨-, rfl⟩
      have areOthers : ∀ line ∈ others, line.kind = .newline :=
        fun line member => areNewlines line (List.mem_cons_of_mem _ member)
      rcases skipNewlines_append areOthers stops false with ⟨last, skipped⟩
      rw [skipped] at isIndent
      exact noIndent isIndent.peek_kind

theorem not_continues_of_afterBody
    (afterBody : cursor.afterBody = true) {operator : Operator} {binding : Binding}
    {next : Cursor} : ¬cursor.Continues operator binding next := by
  rintro ⟨inLine, -⟩
  cases inLine.symm.trans afterBody

theorem separator?_of_afterBody (afterBody : cursor.afterBody = true) :
    cursor.separator? = none := by
  unfold separator?
  rw [if_pos afterBody]

theorem skipDedent_cons (isDedent : token.kind = .dedent) :
    (Cursor.mk (token :: rest) ending flag).skipDedent = ⟨rest, ending, true⟩ := by
  have accepts : (Cursor.mk (token :: rest) ending flag).Accepts .dedent ⟨rest, ending, true⟩ :=
    ⟨token, ⟨rfl, rfl, (decide_eq_true isDedent).symm⟩, isDedent⟩
  rcases accept?_of_accepts accepts with ⟨taken, found, isNext⟩
  rw [skipDedent, found]
  exact isNext

end Cursor

/-! ## Statements on their lines -/

/-- Statements end in front of these tokens. -/
def StopsAt (inBody : Bool) (rest : List Token) : Prop :=
  rest = [] ∨ inBody = true ∧ ∃ token others, rest = token :: others ∧ token.kind = .dedent

/-- The statement is read from its renderings, with the line or the body that it ends with. -/
structure Node.RereadsLine (statement : Node) : Prop where
  starts : ∀ {tokens : List Token}, Fits statement.slots tokens →
    ∃ token others, tokens = token :: others ∧ token.kind.isLayout = false
  entry : ∀ {tokens : List Token}, Fits statement.slots tokens →
    ∀ {rest : List Token} {ending : Ending},
      (statement.endsWithBody = true ∨ (Cursor.mk rest ending false).EndsLine) →
      ∀ flag, Reads (.entry false) ⟨tokens ++ rest, ending, flag⟩ (.single statement)
        ⟨rest, ending, statement.endsWithBody⟩

section Statements

variable {inBody : Bool} {lines tokens rest : List Token} {ending : Ending} {flag : Bool}

theorem peek_kind_of_stopsAt (stops : StopsAt inBody rest) :
    (Cursor.mk rest ending flag).peek.kind = .dedent ∨
      (Cursor.mk rest ending flag).peek.kind = .endOfInput := by
  rcases stops with rfl | ⟨-, token, others, rfl, isDedent⟩
  · exact Or.inr rfl
  · exact Or.inl isDedent

theorem endsStatements_of_stopsAt (stops : StopsAt inBody rest) :
    (Cursor.mk rest ending flag).endsStatements inBody = true := by
  rcases stops with rfl | ⟨rfl, token, others, rfl, isDedent⟩
  · rfl
  · have isAt : (Cursor.mk (token :: others) ending flag).isAt .dedent = true :=
      decide_eq_true isDedent
    rw [Cursor.endsStatements, isAt]
    exact Bool.or_true _

/-- No newline and no indent stands where statements start. -/
theorem peek_kind_of_statements
    {statements : List Node} (rereads : ∀ statement ∈ statements, statement.RereadsLine)
    (fits : Fits (statementSlots statements) tokens) (stops : StopsAt inBody rest)
    (ending : Ending) (flag : Bool) :
    (Cursor.mk (tokens ++ rest) ending flag).peek.kind ≠ .newline ∧
      (Cursor.mk (tokens ++ rest) ending flag).peek.kind ≠ .indent := by
  cases statements with
  | nil =>
      cases fits
      rcases peek_kind_of_stopsAt stops with isDedent | isEnd
      · rw [List.nil_append, isDedent]
        exact ⟨by simp, by simp⟩
      · rw [List.nil_append, isEnd]
        exact ⟨by simp, by simp⟩
  | cons first others =>
      rcases fits.append with ⟨left, right, rfl, fitsFirst, -⟩
      rcases (rereads first (List.mem_cons_self ..)).starts fitsFirst with
        ⟨token, more, rfl, starts⟩
      change token.kind ≠ _ ∧ token.kind ≠ _
      constructor
      · intro isNewline
        rw [isNewline] at starts
        cases starts
      · intro isIndent
        rw [isIndent] at starts
        cases starts

/-- What stands behind a statement that has no body. -/
theorem endsLine_of_statements
    {statements : List Node} (rereads : ∀ statement ∈ statements, statement.RereadsLine)
    (areNewlines : ∀ line ∈ lines, line.kind = .newline)
    (parted : lines = [] → statements = [])
    (fits : Fits (statementSlots statements) tokens) (stops : StopsAt inBody rest) :
    (Cursor.mk (lines ++ (tokens ++ rest)) ending false).EndsLine := by
  have kinds := peek_kind_of_statements rereads fits stops ending false
  refine ⟨?_, Cursor.bodyStart?_append areNewlines kinds.1 kinds.2 false⟩
  cases lines with
  | cons line others =>
      have isNewline : line.kind = .newline := areNewlines line (List.mem_cons_self ..)
      change line.kind.endsLine = true
      rw [isNewline]
      rfl
  | nil =>
      obtain rfl := parted rfl
      cases fits
      rcases peek_kind_of_stopsAt stops with isDedent | isEnd
      · rw [List.nil_append, List.nil_append, isDedent]
        rfl
      · rw [List.nil_append, List.nil_append, isEnd]
        rfl

/-- A statement takes the first of the newlines behind it. -/
theorem reads_statement_of_entry
    {cursor : Cursor} {statement : Node} {parting : List Token}
    (isEntry : Reads (.entry false) cursor (.single statement)
      ⟨parting ++ (tokens ++ rest), ending, statement.endsWithBody⟩)
    {statements : List Node} (rereads : ∀ other ∈ statements, other.RereadsLine)
    (areNewlines : ∀ line ∈ parting, line.kind = .newline)
    (parted : parting = [] → statements = [] ∨ statement.endsWithBody = true)
    (fits : Fits (statementSlots statements) tokens) (stops : StopsAt inBody rest) :
    ∃ further last, (∀ line ∈ further, line.kind = .newline) ∧
      Reads .statement cursor statement ⟨further ++ (tokens ++ rest), ending, last⟩ := by
  cases parting with
  | cons line others =>
      have isNewline : line.kind = .newline := areNewlines line (List.mem_cons_self ..)
      refine ⟨others, false, fun line member => areNewlines line (List.mem_cons_of_mem _ member),
        ?_⟩
      exact .statement isEntry .single (Or.inl (Cursor.accepts_cons isNewline (by simp)))
  | nil =>
      have kinds := peek_kind_of_statements rereads fits stops ending statement.endsWithBody
      refine ⟨[], statement.endsWithBody, by simp, .statement isEntry .single ?_⟩
      refine Or.inr ⟨kinds.1, ?_, rfl⟩
      rcases parted rfl with rfl | withBody
      · cases fits
        rcases stops with rfl | ⟨-, token, others, rfl, isDedent⟩
        · rfl
        · have isAt : (Cursor.mk (token :: others) ending statement.endsWithBody).isAt .dedent
              = true := decide_eq_true isDedent
          simp only [List.nil_append, isAt, Bool.true_or]
      · rw [withBody, Bool.or_true]

/-- Statements are read up to the end of their body or of the input. -/
theorem reads_statements_of_fits
    {statements : List Node} (rereads : ∀ statement ∈ statements, statement.RereadsLine)
    (areNewlines : ∀ line ∈ lines, line.kind = .newline)
    (fits : Fits (statementSlots statements) tokens) (stops : StopsAt inBody rest) (flag : Bool) :
    ∃ last, Reads (.statements inBody) ⟨lines ++ (tokens ++ rest), ending, flag⟩ statements
      ⟨rest, ending, last⟩ := by
  induction statements generalizing lines tokens flag with
  | nil =>
      cases fits
      have kinds := peek_kind_of_statements rereads .nil stops ending false
      rcases Cursor.skipNewlines_append areNewlines kinds.1 flag with ⟨last, skipped⟩
      have ends : (Cursor.mk (lines ++ ([] ++ rest)) ending flag).skipNewlines.endsStatements inBody
          = true := by
        rw [skipped]
        exact endsStatements_of_stopsAt stops
      have nothing := Reads.noStatements ends
      rw [skipped] at nothing
      exact ⟨last, nothing⟩
  | cons first others inductionHypothesis =>
      have firstRereads := rereads first (List.mem_cons_self ..)
      have othersReread : ∀ statement ∈ others, statement.RereadsLine :=
        fun statement member => rereads statement (List.mem_cons_of_mem _ member)
      have kinds := peek_kind_of_statements rereads fits stops ending false
      rcases Cursor.skipNewlines_append areNewlines kinds.1 flag with ⟨last, skipped⟩
      rcases fits.append with ⟨left, behind, rfl, fitsFirst, fitsBehind⟩
      rcases fitsBehind.newlines_cons with
        ⟨parting, right, rfl, arePartingNewlines, enough, fitsOthers⟩
      have parted : parting = [] → others = [] ∨ first.endsWithBody = true := by
        rintro rfl
        by_cases ends : (others.isEmpty || first.endsWithBody) = true
        · simpa using ends
        · simp [ends] at enough
      have more : (Cursor.mk (lines ++ ((left ++ (parting ++ right)) ++ rest)) ending
          flag).skipNewlines.endsStatements inBody = false := by
        rw [skipped]
        rcases firstRereads.starts fitsFirst with ⟨token, behind, rfl, starts⟩
        have noDedent : token.kind ≠ .dedent := by
          intro isDedent
          rw [isDedent] at starts
          cases starts
        simp [Cursor.endsStatements, Cursor.atEnd, Cursor.isAt, Cursor.peek, Cursor.peekAt,
          noDedent]
      have follows : first.endsWithBody = true ∨
          (Cursor.mk (parting ++ (right ++ rest)) ending false).EndsLine := by
        by_cases ends : first.endsWithBody = true
        · exact Or.inl ends
        · refine Or.inr (endsLine_of_statements othersReread arePartingNewlines ?_ fitsOthers stops)
          intro unparted
          exact (parted unparted).resolve_right ends
      have isFirst := firstRereads.entry fitsFirst follows last
      -- The statement takes one of the newlines that part it from the next one, and the next one
      -- skips the others.
      rcases reads_statement_of_entry isFirst othersReread arePartingNewlines parted fitsOthers
        stops with ⟨further, flag', areFurther, isStatement⟩
      rcases inductionHypothesis othersReread areFurther fitsOthers flag' with
        ⟨last', areOthers⟩
      refine ⟨last', .moreStatements more ?_ areOthers⟩
      rw [skipped, List.append_assoc, List.append_assoc]
      exact isStatement

/-- An indented body is read up to its dedent. -/
theorem reads_body_of_fits
    {statements : List Node} (rereads : ∀ statement ∈ statements, statement.RereadsLine)
    (fits : Fits (Slot.indented (statementSlots statements)) tokens)
    (follows : (!statements.isEmpty) = true ∨ (Cursor.mk rest ending false).EndsLine) :
    Reads .body ⟨tokens ++ rest, ending, false⟩ statements ⟨rest, ending, !statements.isEmpty⟩ ∧
      (Cursor.mk (tokens ++ rest) ending false).peek.kind.endsLine = true := by
  cases statements with
  | nil =>
      cases fits
      have endsLine := follows.resolve_left (by simp)
      exact ⟨.noBody endsLine.2, endsLine.1⟩
  | cons first others =>
      have isIndented : Slot.indented (statementSlots (first :: others)) =
          .newlines 1 :: .of .indent :: .newlines 0 :: statementSlots (first :: others) ++
            [.of .dedent] := by
        rw [Slot.indented]
        simp [statementSlots]
      rw [isIndented] at fits
      rcases fits.newlines_cons with ⟨lines, behind, rfl, areNewlines, enough, fitsBehind⟩
      rcases fitsBehind.of_cons with ⟨indent, inside, rfl, isIndent, fitsInside⟩
      rcases fitsInside.newlines_cons with ⟨blank, inside, rfl, areBlank, -, fitsInside⟩
      rcases fitsInside.append with ⟨bodyTokens, last, rfl, fitsBody, fitsLast⟩
      rcases fitsLast.of_singleton with ⟨dedent, rfl, isDedent⟩
      cases lines with
      | nil => exact absurd enough (by simp)
      | cons line others' =>
          have isNewline : line.kind = .newline := areNewlines line (List.mem_cons_self ..)
          have areOthers : ∀ line ∈ others', line.kind = .newline :=
            fun line member => areNewlines line (List.mem_cons_of_mem _ member)
          have noNewline : (Cursor.mk (indent :: (blank ++ (bodyTokens ++ dedent :: rest))) ending
              false).peek.kind ≠ .newline := by
            change indent.kind ≠ .newline
            rw [isIndent]
            simp
          rcases Cursor.skipNewlines_append areOthers noNewline false with ⟨flag, skipped⟩
          have starts : (Cursor.mk (line :: (others' ++
              indent :: (blank ++ (bodyTokens ++ dedent :: rest)))) ending false).StartsBody
                ⟨blank ++ (bodyTokens ++ dedent :: rest), ending, false⟩ := by
            refine ⟨_, Cursor.accepts_cons isNewline (by simp), ?_⟩
            rw [skipped]
            exact Cursor.accepts_cons isIndent (by simp)
          have stops : StopsAt true (dedent :: rest) :=
            Or.inr ⟨rfl, dedent, rest, rfl, isDedent⟩
          rcases reads_statements_of_fits rereads areBlank fitsBody stops false with
            ⟨last, areStatements⟩
          have isBody := Reads.body starts areStatements (by simp)
          rw [Cursor.skipDedent_cons isDedent] at isBody
          simp only [List.cons_append, List.append_assoc, List.nil_append]
          refine ⟨isBody, ?_⟩
          change line.kind.endsLine = true
          rw [isNewline]
          rfl

end Statements

/-! ## Parameters -/

section Parameters

variable {tokens rest : List Token} {ending : Ending} {flag : Bool}

theorem bareName?_eq_none {name : String} (bare : name.toList.getLast? ≠ some '=') :
    bareName? name = none :=
  if_neg bare

/-- A parameter is read up to the comma or the parenthesis behind it. -/
theorem reads_parameter_of_fits
    {parameter : Parameter Node} (writable : parameter.IsWritable)
    (fits : Fits parameter.slots tokens)
    (ends : (Cursor.mk rest ending false).peek.kind = .mark .comma ∨
      (Cursor.mk rest ending false).peek.kind = .mark .rightParen) :
    Reads .parameter ⟨tokens ++ rest, ending, flag⟩ parameter ⟨rest, ending, false⟩ := by
  have closes : (Cursor.mk rest ending false).peek.kind.closes = true := by
    rcases ends with isComma | isParen
    · rw [isComma]
      rfl
    · rw [isParen]
      rfl
  cases parameter with
  | plain name =>
      rcases fits.of_singleton with ⟨word, rfl, isName⟩
      have noColon : (Cursor.mk rest ending false).peek.kind ≠ .mark .colon := by
        rcases ends with isComma | isParen
        · rw [isComma]
          simp
        · rw [isParen]
          simp
      exact .parameter (Cursor.accepts_cons isName (by simp)) (.plain (bareName?_eq_none writable)
        (Cursor.peek_kind_ne_of_closes closes rfl) noColon)
  | splat name =>
      rcases fits.of_cons with ⟨star, others, rfl, isStar, fitsName⟩
      rcases fitsName.of_singleton with ⟨word, rfl, isName⟩
      exact .splat (Cursor.accepts_cons isStar (by simp)) (Cursor.accepts_cons isName (by simp))
  | optional name value =>
      rcases fits.of_cons with ⟨word, others, rfl, isName, fitsOthers⟩
      rcases fitsOthers.of_cons with ⟨sign, valueTokens, rfl, isSign, fitsValue⟩
      exact .parameter (Cursor.accepts_cons isName (by simp))
        (.optional (bareName?_eq_none writable.1) (Cursor.accepts_cons isSign (by simp))
          (writable.2.rereads.expression fitsValue closes false))
  | keyword name value =>
      rcases fits.of_cons with ⟨word, others, rfl, isName, fitsOthers⟩
      rcases fitsOthers.of_cons with ⟨colon, valueTokens, rfl, isColon, fitsValue⟩
      exact .parameter (Cursor.accepts_cons isName (by simp))
        (.keyword (bareName?_eq_none writable.1) (Cursor.accepts_cons isColon (by simp))
          (writable.2.rereads.expression fitsValue closes false))

theorem reads_parameterList_of_fits
    {first : Parameter Node} {others : List (Parameter Node)}
    (writable : ∀ parameter ∈ first :: others, parameter.IsWritable)
    (fits : Fits (Slot.separated (parameterSlots (first :: others))) tokens)
    (ends : (Cursor.mk rest ending false).peek.kind = .mark .rightParen) :
    Reads .parameterList ⟨tokens ++ rest, ending, flag⟩ (first :: others)
      ⟨rest, ending, false⟩ := by
  induction others generalizing first tokens flag with
  | nil =>
      refine .lastParameter (reads_parameter_of_fits (writable first (List.mem_cons_self ..)) fits
        (Or.inr ends)) ?_
      rw [ends]
      simp
  | cons second others inductionHypothesis =>
      rcases fits.separated_cons with ⟨isNil, -⟩ |
        ⟨left, comma, right, rfl, fitsLeft, isComma, fitsRight, -⟩
      · cases isNil
      · rw [List.append_assoc]
        refine .moreParameters (reads_parameter_of_fits (writable first (List.mem_cons_self ..))
          fitsLeft (Or.inl isComma)) (Cursor.accepts_cons isComma (by simp)) ?_
        exact inductionHypothesis
          (fun parameter member => writable parameter (List.mem_cons_of_mem _ member)) fitsRight

theorem peek_kind_of_parameters
    {first : Parameter Node} {others : List (Parameter Node)}
    (fits : Fits (Slot.separated (parameterSlots (first :: others))) tokens) :
    (Cursor.mk (tokens ++ rest) ending flag).peek.kind ≠ .mark .rightParen := by
  have starts : ∃ kind more, Slot.separated (parameterSlots (first :: others)) =
      .of kind :: more ∧ kind ≠ .mark .rightParen := by
    cases others with
    | nil => cases first <;> exact ⟨_, _, rfl, by simp⟩
    | cons => cases first <;> exact ⟨_, _, rfl, by simp⟩
  rcases starts with ⟨kind, more, whole, differs⟩
  rw [whole] at fits
  rcases fits.of_cons with ⟨token, behind, rfl, isKind, -⟩
  change token.kind ≠ _
  rw [isKind]
  exact differs

/-- Parameters are read in their parentheses, or without them if there are none. -/
theorem reads_parameters_of_fits
    {parameters : List (Parameter Node)}
    (writable : ∀ parameter ∈ parameters, parameter.IsWritable)
    (fits : Fits (Slot.parenthesized (parameterSlots parameters)) tokens)
    (endsLine : (Cursor.mk rest ending false).peek.kind.endsLine = true) :
    Reads .parameters ⟨tokens ++ rest, ending, false⟩ parameters ⟨rest, ending, false⟩ := by
  cases parameters with
  | nil =>
      cases fits with
      | parentheses opens closes nothing =>
          cases nothing
          exact .emptyParameters (Cursor.accepts_cons opens (by simp))
            (Cursor.accepts_cons closes (by simp))
      | noParentheses nothing =>
          cases nothing
          exact .noParameters (Cursor.peek_kind_ne_of_closes (Kind.closes_of_endsLine endsLine) rfl)
  | cons first others =>
      rcases fits.of_cons with ⟨opening, behind, rfl, isOpening, fitsBehind⟩
      rcases fitsBehind.append with ⟨listTokens, closingTokens, rfl, fitsList, fitsClosing⟩
      rcases fitsClosing.of_singleton with ⟨closing, rfl, isClosing⟩
      rw [List.cons_append, List.append_assoc]
      exact .parameters (Cursor.accepts_cons isOpening (by simp)) (peek_kind_of_parameters fitsList)
        (reads_parameterList_of_fits writable fitsList isClosing)
        (Cursor.accepts_cons isClosing (by simp))

end Parameters

/-! ## Definitions -/

section Definitions

variable {tokens rest : List Token} {ending : Ending} {flag : Bool}

theorem reads_definition_of_fits
    {parameters : List (Parameter Node)} {body : List Node}
    (writable : ∀ parameter ∈ parameters, parameter.IsWritable)
    (rereads : ∀ statement ∈ body, statement.RereadsLine)
    (fits : Fits (Slot.parenthesized (parameterSlots parameters) ++
      Slot.indented (statementSlots body)) tokens)
    (follows : (!body.isEmpty) = true ∨ (Cursor.mk rest ending false).EndsLine) :
    Reads .definition ⟨tokens ++ rest, ending, false⟩ ⟨parameters, body⟩
      ⟨rest, ending, !body.isEmpty⟩ := by
  rcases fits.append with ⟨left, right, rfl, fitsParameters, fitsBody⟩
  rcases reads_body_of_fits rereads fitsBody follows with ⟨isBody, endsLine⟩
  rw [List.append_assoc]
  exact .definition (reads_parameters_of_fits writable fitsParameters endsLine) isBody

/-- A definition is a statement of its own: nothing continues it. -/
theorem reads_entry_of_definition
    {cursor : Cursor} {node : Node} (unnamed : cursor.symbolKey? = none)
    (isNode : Reads (.unary false) cursor node ⟨rest, ending, node.endsWithBody⟩)
    (follows : node.endsWithBody = true ∨ (Cursor.mk rest ending false).EndsLine) :
    Reads (.entry false) cursor (.single node) ⟨rest, ending, node.endsWithBody⟩ := by
  rcases follows with withBody | endsLine
  · refine .expression unnamed (.binary isNode (.stop ?_)) ?_
    · intro operator binding next continues
      exact absurd continues (Cursor.not_continues_of_afterBody withBody)
    · exact Cursor.separator?_of_afterBody withBody
  · have closes : (Cursor.mk rest ending node.endsWithBody).peek.kind.closes = true :=
      Kind.closes_of_endsLine endsLine.1
    refine .expression unnamed (.binary isNode (.stop ?_)) (Cursor.separator?_eq_none ?_)
    · intro operator binding next continues
      exact absurd continues (Cursor.not_continues_of_closes closes)
    · intro isColon
      have ends : (Cursor.mk rest ending false).peek.kind.endsLine = true := endsLine.1
      rw [show (Cursor.mk rest ending false).peek.kind = .mark .colon from isColon] at ends
      cases ends

end Definitions

namespace Node

theorem IsExpression.endsWithBody_eq_false {node : Node} (isExpression : node.IsExpression) :
    node.endsWithBody = false := by
  cases isExpression with
  | @string parts => cases parts <;> rfl
  | _ => rfl

theorem IsExpression.rereadsLine {node : Node} (isExpression : node.IsExpression) :
    node.RereadsLine := by
  have rereads := isExpression.rereads
  have noBody := isExpression.endsWithBody_eq_false
  constructor
  · intro tokens fits
    rcases rereads.opens.fits fits with ⟨token, others, rfl, opens⟩ |
      ⟨token, paren, others, name, rfl, isName, -⟩
    · refine ⟨token, others, rfl, ?_⟩
      cases isKind : token.kind with
      | newline | indent | dedent | endOfInput =>
          rw [isKind] at opens
          cases opens
      | _ => rfl
    · exact ⟨token, paren :: others, rfl, isName ▸ rfl⟩
  · intro tokens fits rest ending follows flag
    rw [noBody] at follows ⊢
    have endsLine := follows.resolve_left (by simp)
    refine rereads.entry fits (Kind.closes_of_endsLine endsLine.1) ?_ flag
    intro isColon
    have ends := endsLine.1
    rw [isColon] at ends
    cases ends

/-- The first token of a statement tells that it is one. -/
theorem starts_of_slots
    {statement : Node} {kind : Kind} {slots : List Slot}
    (isFirst : statement.slots = .of kind :: slots) (starts : kind.isLayout = false)
    {tokens : List Token} (fits : Fits statement.slots tokens) :
    ∃ token others, tokens = token :: others ∧ token.kind.isLayout = false := by
  rw [isFirst] at fits
  rcases fits.of_cons with ⟨token, others, rfl, isKind, -⟩
  exact ⟨token, others, rfl, isKind ▸ starts⟩

section Definitions

variable {name : String} {parameters : List (Parameter Node)} {body : List Node}

theorem rereadsLine_classDefinition
    (base? : Option String) (rereads : ∀ statement ∈ body, statement.RereadsLine) :
    (classDefinition (.constant name) (base?.map constant) body).RereadsLine := by
  refine ⟨starts_of_slots rfl rfl, ?_⟩
  intro tokens fits rest ending follows flag
  rcases fits.of_cons with ⟨word, others, rfl, isWord, fitsOthers⟩
  rcases fitsOthers.of_cons with ⟨constant, behind, rfl, isName, fitsBehind⟩
  rcases fitsBehind.append with ⟨baseTokens, bodyTokens, rfl, fitsBase, fitsBody⟩
  rcases reads_body_of_fits rereads fitsBody follows with ⟨isBody, endsLine⟩
  refine reads_entry_of_definition ?_ ?_ follows
  · exact Cursor.symbolKey?_eq_none_of_second isName (by simp)
  refine .operand_of_kind isWord (by simp) ?_
  refine .classWord (Cursor.accepts_cons isWord (by simp)) ?_
  cases base? with
  | none =>
      cases fitsBase
      exact .classDefinition (Cursor.accepts_cons isName (by simp))
        (Cursor.peek_kind_ne_of_closes (Kind.closes_of_endsLine endsLine) rfl) isBody
  | some base =>
      rcases fitsBase.of_cons with ⟨less, others, rfl, isLess, fitsConstant⟩
      rcases fitsConstant.of_singleton with ⟨baseToken, rfl, isBase⟩
      exact .derivedClass (Cursor.accepts_cons isName (by simp))
        (Cursor.accepts_cons isLess (by simp)) (Cursor.accepts_cons isBase (by simp)) isBody

theorem rereadsLine_moduleDefinition
    (rereads : ∀ statement ∈ body, statement.RereadsLine) :
    (moduleDefinition (.constant name) body).RereadsLine := by
  refine ⟨starts_of_slots rfl rfl, ?_⟩
  intro tokens fits rest ending follows flag
  rcases fits.of_cons with ⟨word, others, rfl, isWord, fitsOthers⟩
  rcases fitsOthers.of_cons with ⟨constant, bodyTokens, rfl, isName, fitsBody⟩
  have isBody := (reads_body_of_fits rereads fitsBody follows).1
  refine reads_entry_of_definition ?_ ?_ follows
  · exact Cursor.symbolKey?_eq_none_of_second isName (by simp)
  refine .operand_of_kind isWord (by simp) ?_
  refine .moduleWord (Cursor.accepts_cons isWord (by simp)) ?_
  exact .moduleDefinition (Cursor.accepts_cons isName (by simp)) isBody

theorem rereadsLine_method
    (writable : ∀ parameter ∈ parameters, parameter.IsWritable)
    (rereads : ∀ statement ∈ body, statement.RereadsLine) :
    (method name ⟨parameters, body⟩).RereadsLine := by
  refine ⟨starts_of_slots rfl rfl, ?_⟩
  intro tokens fits rest ending follows flag
  rcases fits.of_cons with ⟨word, others, rfl, isName, fitsOthers⟩
  rcases fitsOthers.of_cons with ⟨arrow, behind, rfl, isArrow, fitsBlock⟩
  have isBlock := reads_definition_of_fits writable rereads fitsBlock follows
  refine reads_entry_of_definition ?_ ?_ follows
  · exact Cursor.symbolKey?_eq_none_of_second isArrow (by simp)
  refine .operand_of_kind isName (by simp) ?_
  refine .name (Cursor.accepts_cons isName (by simp)) ?_
  exact .method (Cursor.accepts_cons isArrow (by simp)) isBlock

theorem rereadsLine_block
    (writable : ∀ parameter ∈ parameters, parameter.IsWritable)
    (rereads : ∀ statement ∈ body, statement.RereadsLine) :
    (Node.block ⟨parameters, body⟩).RereadsLine := by
  refine ⟨starts_of_slots rfl rfl, ?_⟩
  intro tokens fits rest ending follows flag
  rcases fits.of_cons with ⟨arrow, behind, rfl, isArrow, fitsBlock⟩
  have isBlock := reads_definition_of_fits writable rereads fitsBlock follows
  refine reads_entry_of_definition ?_ ?_ follows
  · refine Cursor.symbolKey?_eq_none_of_peek ?_ ?_
    all_goals
      intro content isContent
      cases isArrow.symm.trans isContent
  · refine .operand_of_kind isArrow (by simp) ?_
    exact .block (Cursor.accepts_cons isArrow (by simp)) isBlock

theorem rereadsLine_call
    {arguments : List Node} (argumentsReread : ∀ argument ∈ arguments, argument.Rereads)
    (writable : ∀ parameter ∈ parameters, parameter.IsWritable)
    (rereads : ∀ statement ∈ body, statement.RereadsLine) :
    (call name arguments (some ⟨parameters, body⟩)).RereadsLine := by
  refine ⟨starts_of_slots rfl rfl, ?_⟩
  intro tokens fits rest ending follows flag
  rcases fits.of_cons with ⟨word, behind, rfl, isName, fitsBehind⟩
  rcases reads_arguments argumentsReread fitsBehind with
    ⟨paren, front, behind, rfl, isParen, fitsTrailing, readArguments⟩
  rcases fitsTrailing.of_cons with ⟨arrow, blockTokens, rfl, isArrow, fitsBlock⟩
  have isBlock := reads_definition_of_fits writable rereads fitsBlock follows
  refine reads_entry_of_definition ?_ ?_ follows
  · exact Cursor.symbolKey?_eq_none_of_second isParen (by simp)
  refine .operand_of_kind isName (by simp) ?_
  refine .name (Cursor.accepts_cons isName (by simp)) ?_
  refine .call ?_ (readArguments rest ending false)
    (.withBlock (Cursor.accepts_cons isArrow (by simp)) isBlock)
  change paren.kind ≠ _
  rw [isParen]
  simp

end Definitions

/-- Every statement is read from its renderings. -/
theorem IsStatement.rereadsLine {statement : Node} (isStatement : statement.IsStatement) :
    statement.RereadsLine := by
  induction isStatement with
  | expression isExpression => exact isExpression.rereadsLine
  | classDefinition _ bodyRereads => exact rereadsLine_classDefinition _ bodyRereads
  | moduleDefinition _ bodyRereads => exact rereadsLine_moduleDefinition bodyRereads
  | method writable _ bodyRereads => exact rereadsLine_method writable bodyRereads
  | block writable _ bodyRereads => exact rereadsLine_block writable bodyRereads
  | call areArguments writable _ bodyRereads =>
      refine rereadsLine_call ?_ writable bodyRereads
      intro argument member
      exact (areArguments argument member).rereads

end Node

/-- A program that can be written is read back from each of its renderings, whatever blanks and
comments stand between the tokens and whatever follows the end of the input. -/
theorem parseTokens_of_fits
    {statements : List Node} (writable : ∀ statement ∈ statements, statement.IsStatement)
    {tokens : List Token} (fits : Fits (programSlots statements) (Cursor.ofTokens tokens).ahead) :
    parseTokens tokens = .ok statements := by
  have rereads : ∀ statement ∈ statements, statement.RereadsLine :=
    fun statement member => (writable statement member).rereadsLine
  rcases fits.newlines_cons with ⟨lines, others, whole, areNewlines, -, fitsOthers⟩
  have stops : StopsAt false [] := Or.inl rfl
  rcases reads_statements_of_fits rereads areNewlines fitsOthers stops false with ⟨last, reads⟩
  rw [List.append_nil, ← whole] at reads
  exact parseTokens_eq_ok_iff.2 ⟨_, reads⟩

/-- A method with an optional parameter, and a sum in its body. -/
theorem parseTokens_sample_method :
    parseTokens ((programSlots [.method "f" ⟨[.optional "n" (.integer 1)],
        [.binary .plus (.call "g" [.symbol (.text "s")] none) (.integer 2)]⟩]).flatMap
          Slot.sample) =
      .ok [.method "f" ⟨[.optional "n" (.integer 1)],
        [.binary .plus (.call "g" [.symbol (.text "s")] none) (.integer 2)]⟩] := by
  refine parseTokens_of_fits ?_ ?_
  · have noInners : ∀ inner ∈ (StringParts.last "s").inners, inner.IsExpression :=
      List.forall_mem_nil _
    have isSymbol : (Node.symbol (.text "s")).IsExpression := .symbol noInners
    have isCall : (Node.call "g" [.symbol (.text "s")] none).IsExpression :=
      .call (List.forall_mem_singleton.2 isSymbol)
    have isSum : (Node.binary .plus (.call "g" [.symbol (.text "s")] none)
        (.integer 2)).IsExpression :=
      .binary rfl (by simp [Binding.AdmitsLeft, Node.level?])
        (by simp [Binding.AdmitsRight, Node.level?]) isCall (.integer 2)
    have isParameter : (Parameter.optional "n" (Node.integer 1)).IsWritable :=
      ⟨by decide, .integer 1⟩
    exact List.forall_mem_singleton.2 (.method (List.forall_mem_singleton.2 isParameter)
      (List.forall_mem_singleton.2 (.expression isSum)))
  · exact fits_sample _

end ScriptFront
