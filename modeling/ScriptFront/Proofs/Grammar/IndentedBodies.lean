import ScriptFront.Proofs.Grammar.IndentedStatements

/-!
# Headers and their bodies

A class, a module, a method or a block that has no body yet may be given one: the statements of a
program, indented behind it.  What stands in front of that body is read as it is without it.
-/

namespace ScriptFront

/-- What may stand in front of an indented body. -/
inductive Header where
  | classWord (name : Node) (base : Option Node)
  | moduleWord (name : Node)
  | method (name : String) (list : List (Parameter Node))
  | block (list : List (Parameter Node))
  /-- A call with its arguments, and the parameters of its block. -/
  | call (name : String) (arguments : List Node) (list : List (Parameter Node))

/-- The header with its body. -/
def Header.node (header : Header) (body : List Node) : Node :=
  match header with
  | classWord name base => .classDefinition name base body
  | moduleWord name => .moduleDefinition name body
  | method name list => .method name ⟨list, body⟩
  | block list => .block ⟨list, body⟩
  | call name arguments list => .call name arguments (some ⟨list, body⟩)

/-- The tokens are all newlines. -/
def Token.AreNewlines (tokens : List Token) : Prop := ∀ token ∈ tokens, token.kind = .newline

/-- The node may end with an indented body. -/
def Node.takesBody : Node → Bool
  | .classDefinition .. | .moduleDefinition .. | .method .. | .block _ | .call .. => true
  | _ => false

/-- No operator makes the node. -/
def Node.isOperand : Node → Bool
  | .binary .. | .unary .. => false
  | _ => true

theorem Node.isOperand_of_takesBody {node : Node} (bodied : node.takesBody = true) :
    node.isOperand = true := by
  cases node with
  | binary | unary => cases bodied
  | _ => rfl

theorem Header.node_takesBody (header : Header) (body : List Node) :
    (header.node body).takesBody = true := by
  cases header <;> rfl

theorem StringParts.node_takesBody (parts : StringParts) : parts.node.takesBody = false := by
  cases parts <;> rfl

namespace Cursor

variable {cursor other next last more : Cursor}

/-! ## A body behind the end -/

/-- Only newlines are ahead. -/
def OnlyNewlines (cursor : Cursor) : Prop := Token.AreNewlines cursor.ahead

/-- The second place is the first one, with further tokens in place of the end, however many bodies
are open. -/
structure Lengthened (more : Cursor) (depth : Nat) (cursor other : Cursor) : Prop where
  other_eq : other = cursor.onto more
  noColon : cursor.NoLastColon

theorem Lengthened.isLayout_peek
    {depth : Nat} (related : Lengthened more depth cursor other)
    (isNewline : more.peek.kind = .newline) (layout : cursor.peek.kind.isLayout = true) :
    other.peek.kind.isLayout = true := by
  rw [related.other_eq]
  exact isLayout_peek_onto (by rw [isNewline]; rfl) layout

/-- A line is read in the same way if a body follows it, as long as it goes on. -/
theorem simulation_lengthened (isNewline : more.peek.kind = .newline) :
    Simulation (Lengthened more) False True where
  takes := by
    rintro depth cursor _ next token ⟨rfl, noColon⟩ takes -
    exact ⟨_, takes.onto more, rfl, noColon.takes takes⟩
  afterBody := by
    rintro depth cursor _ ⟨rfl, -⟩ -
    rfl
  stops := by
    intro depth cursor other related layout _
    exact Token.stopsPhrase_of_isLayout (related.isLayout_peek isNewline layout)
  noComma := by
    intro depth cursor other related layout _
    exact Kind.ne_of_isLayout (related.isLayout_peek isNewline layout) rfl
  block := by
    intro depth cursor other related layout _ isArrow
    have layoutOther := related.isLayout_peek isNewline layout
    exact absurd isArrow (Kind.ne_of_isLayout layoutOther rfl)
  colon := by
    rintro depth cursor _ next last ⟨rfl, noColon⟩ isColon isColonOnto
    exact spaced_behind_colon_onto noColon isColon isColonOnto
  parens := by
    rintro depth cursor _ rest ⟨rfl, -⟩ found
    exact continuesBehindParens_onto (by rw [isNewline]; rfl) found
  noBody := by
    rintro depth cursor _ ⟨rfl, -⟩ further - absent
    apply bodyStart?_eq_none
    rintro next ⟨_, isLine, isIndent⟩
    have furtherHere := further trivial
    rcases accepts_of_onto isLine furtherHere.filled with ⟨line, isLineHere, rfl⟩
    have filled := furtherHere.skipNewlines.filled
    rw [isLineHere.skipNewlines_eq] at filled
    rw [skipNewlines_onto filled] at isIndent
    rcases accepts_of_onto isIndent filled with ⟨start, isIndentHere, -⟩
    rcases bodyStart?_of_startsBody ⟨line, isLineHere, isIndentHere⟩ with ⟨found, isFound, -⟩
    cases absent.symm.trans isFound
  body := by
    rintro depth cursor _ start ⟨rfl, noColon⟩ starts
    exact ⟨_, starts.onto more, rfl, noColon.startsBody starts⟩
  skipNewlines := by
    rintro depth cursor _ ⟨rfl, noColon⟩ further
    have filled := (further trivial).skipNewlines.filled
    exact ⟨skipNewlines_onto filled more, noColon.skipNewlines⟩
  endsStatements := by
    rintro depth cursor _ ⟨rfl, -⟩ further
    exact endsStatements_onto (further trivial).filled more true
  endsStatement := by
    rintro depth cursor _ next ⟨rfl, noColon⟩ further ends
    refine ⟨_, ends.onto (further trivial).filled more, rfl, ?_⟩
    rcases ends with ⟨newline, takes, -⟩ | ⟨-, -, rfl⟩
    · exact noColon.takes takes
    · exact noColon
  skipDedent := by
    rintro depth cursor _ ⟨rfl, noColon⟩ further ends
    have isDedent : cursor.peek.kind = .dedent := by
      simpa [Cursor.endsStatements, isAt, atEnd_of_filled (further trivial).filled] using ends
    rcases accepts_of_peek_kind isDedent (by simp) with ⟨next, accepts⟩
    rw [accepts.skipDedent_eq, (accepts.onto more).skipDedent_eq]
    rcases accepts with ⟨dedent, takes, -⟩
    exact ⟨rfl, noColon.takes takes⟩

theorem NoLastColon.accepts {kind : Kind} (noColon : cursor.NoLastColon)
    (accepts : cursor.Accepts kind next) : next.NoLastColon := by
  rcases accepts with ⟨token, takes, -⟩
  exact noColon.takes takes

theorem OnlyNewlines.of_passed
    {passed : List Token} (newlines : cursor.OnlyNewlines)
    (isPassed : cursor.ahead = passed ++ next.ahead) : next.OnlyNewlines := by
  intro token member
  exact newlines token (isPassed ▸ List.mem_append_right passed member)

theorem OnlyNewlines.ended_or_newline (newlines : cursor.OnlyNewlines) :
    cursor.ahead = [] ∨ cursor.peek.kind = .newline := by
  by_cases isEnd : cursor.ahead = []
  · exact Or.inl isEnd
  · rcases takes_of_filled isEnd with ⟨token, next, takes⟩
    rw [takes.peek]
    exact Or.inr (newlines token (takes.ahead ▸ List.mem_cons_self))

theorem OnlyNewlines.peek_kind_ne
    {kind : Kind} (newlines : cursor.OnlyNewlines) (inLine : kind.isLayout = false) :
    cursor.peek.kind ≠ kind := by
  rintro rfl
  rcases newlines.ended_or_newline with isEnd | isNewline
  · rw [peek_of_end isEnd] at inLine
    cases inLine
  · rw [isNewline] at inLine
    cases inLine

theorem OnlyNewlines.ahead_skipNewlines (newlines : cursor.OnlyNewlines) :
    cursor.skipNewlines.ahead = [] := by
  rcases Cursor.ahead_skipNewlines cursor with ⟨lines, isAhead, -⟩
  have newlinesLeft : cursor.skipNewlines.OnlyNewlines := newlines.of_passed isAhead
  exact newlinesLeft.ended_or_newline.resolve_right cursor.peek_skipNewlines_ne

theorem OnlyNewlines.peek_onto
    (newlines : cursor.OnlyNewlines) (isNewline : more.peek.kind = .newline) :
    (cursor.onto more).peek.kind = .newline := by
  by_cases isEnd : cursor.ahead = []
  · rw [peek_onto_of_end isEnd]
    exact isNewline
  · rcases takes_of_filled isEnd with ⟨token, next, takes⟩
    rw [Cursor.peek_onto isEnd, takes.peek]
    exact newlines token (takes.ahead ▸ List.mem_cons_self)

/-- Behind newlines a body with these statements is read to the end. -/
structure Bears (more : Cursor) (nodes : List Node) (final : Cursor) : Prop where
  isNewline : more.peek.kind = .newline
  body {cursor : Cursor} :
    cursor.OnlyNewlines → Phrase.Reads .body (cursor.onto more) nodes final
  isEnd : final.ahead = []

end Cursor

namespace Phrase

open Cursor

variable {cursor next more final : Cursor} {node other : Node} {nodes : List Node}
  {inCommand : Bool}

theorem Reads.noColon_behind
    {form : Form} {value : form.Value} (reads : Reads form cursor value next)
    (noColon : cursor.NoLastColon) : next.NoLastColon := by
  rcases reads.passed with ⟨passed, isPassed, -⟩
  exact noColon.of_passed isPassed

/-! ## Definitions -/

theorem Reads.parameters_onto
    {list : List (Parameter Node)} (reads : Reads .parameters cursor list next)
    (isNewline : more.peek.kind = .newline) (noColon : cursor.NoLastColon)
    (newlines : next.OnlyNewlines) :
    Reads .parameters (cursor.onto more) list (next.onto more) := by
  cases reads with
  | noParameters absent =>
      apply Reads.noParameters
      rw [newlines.peek_onto isNewline]
      simp
  | emptyParameters opens closes => exact .emptyParameters (opens.onto more) (closes.onto more)
  | @parameters _ inside _ _ _ opens filled areParameters closes =>
      have related : Lengthened more 0 inside (inside.onto more) := ⟨rfl, noColon.accepts opens⟩
      have closed : Closed False True 0 (Form.final? .parameterList list) _ :=
        closed_of_accepts closes (by simp)
      rcases areParameters.simulated (simulation_lengthened isNewline) related trivial closed with
        ⟨_, readsOnto, rfl, -⟩
      have further := areParameters.hasFurther (closes.hasFurther (by simp))
      refine .parameters (opens.onto more) ?_ readsOnto (closes.onto more)
      rw [peek_onto further.filled]
      exact filled

/-- A body without statements takes no tokens. -/
theorem Reads.eq_of_emptyBody (reads : Reads .body cursor [] next) : next = cursor := by
  cases reads with
  | noBody => rfl
  | body _ _ some => exact absurd rfl some

theorem Reads.body_onto
    (reads : Reads .body cursor [] next) (newlines : next.OnlyNewlines)
    (bears : Bears more nodes final) : Reads .body (cursor.onto more) nodes final := by
  rw [reads.eq_of_emptyBody] at newlines
  exact bears.body newlines

theorem Reads.definition_onto
    {list : List (Parameter Node)} (reads : Reads .definition cursor ⟨list, []⟩ next)
    (noColon : cursor.NoLastColon) (newlines : next.OnlyNewlines)
    (bears : Bears more nodes final) :
    Reads .definition (cursor.onto more) ⟨list, nodes⟩ final := by
  cases reads with
  | definition areParameters isBody =>
      have same := isBody.eq_of_emptyBody
      have readsOnto :=
        areParameters.parameters_onto bears.isNewline noColon (same ▸ newlines)
      exact .definition readsOnto (isBody.body_onto newlines bears)

theorem Reads.classDefinition_onto
    {name : Node} {base : Option Node}
    (reads : Reads .classDefinition cursor (.classDefinition name base []) next)
    (newlines : next.OnlyNewlines) (bears : Bears more nodes final) :
    Reads .classDefinition (cursor.onto more) (.classDefinition name base nodes) final := by
  cases reads with
  | classDefinition names underived isBody =>
      have same := isBody.eq_of_emptyBody
      refine .classDefinition (names.onto more) ?_ (isBody.body_onto newlines bears)
      rw [OnlyNewlines.peek_onto (same ▸ newlines) bears.isNewline]
      simp
  | derivedClass names derives namesBase isBody =>
      exact .derivedClass (names.onto more) (derives.onto more) (namesBase.onto more)
        (isBody.body_onto newlines bears)

theorem Reads.moduleDefinition_onto
    {name : Node} (reads : Reads .moduleDefinition cursor (.moduleDefinition name []) next)
    (newlines : next.OnlyNewlines) (bears : Bears more nodes final) :
    Reads .moduleDefinition (cursor.onto more) (.moduleDefinition name nodes) final := by
  cases reads with
  | moduleDefinition names isBody =>
      exact .moduleDefinition (names.onto more) (isBody.body_onto newlines bears)

/-- The arguments in front of a block, with a body behind the block. -/
theorem Reads.arguments_onto
    {list : List Node} {behind : Cursor} (reads : Reads .arguments cursor list next)
    (arrow : next.Accepts (.mark .blockArrow) behind) (isNewline : more.peek.kind = .newline)
    (noColon : cursor.NoLastColon) (inLine : cursor.afterBody = false) :
    Reads .arguments (cursor.onto more) list (next.onto more) := by
  have related : Lengthened more 0 cursor (cursor.onto more) := ⟨rfl, noColon⟩
  have closed : Closed False True 0 (Form.final? .arguments list) next :=
    closed_of_accepts arrow (by simp)
  rcases reads.simulated (simulation_lengthened isNewline) related inLine closed with
    ⟨_, readsOnto, rfl, -⟩
  exact readsOnto

/-! ## Nodes that take a body -/

/-- The ways in which a node that may end with a body is read. -/
theorem Reads.primary_bodied
    (reads : Reads (.primary inCommand) cursor node next) (bodied : node.takesBody = true) :
    (∃ behind, cursor.Accepts (.keyword .classWord) behind ∧
      Reads .classDefinition behind node next) ∨
    (∃ behind, cursor.Accepts (.keyword .moduleWord) behind ∧
      Reads .moduleDefinition behind node next) ∨
    (∃ name behind, cursor.Accepts (.identifier name) behind ∧
      Reads (.named inCommand name) behind node next) ∨
    (∃ block behind, cursor.Accepts (.mark .blockArrow) behind ∧
      Reads .definition behind block next ∧ node = .block block) := by
  cases reads with
  | classWord here isNode => exact Or.inl ⟨_, here, isNode⟩
  | moduleWord here isNode => exact Or.inr (Or.inl ⟨_, here, isNode⟩)
  | name here isNode => exact Or.inr (Or.inr (Or.inl ⟨_, _, here, isNode⟩))
  | block here isBlock => exact Or.inr (Or.inr (Or.inr ⟨_, _, here, isBlock, rfl⟩))
  | string _ _ =>
      rw [StringParts.node_takesBody] at bodied
      cases bodied
  | colon _ isNode => cases isNode <;> cases bodied
  | brace _ isNode => cases isNode <;> cases bodied
  | paren _ isNode =>
      cases isNode
      cases bodied
  | integer | float | constant | array => cases bodied

/-- No operator was taken on the way to a node that none makes. -/
theorem Reads.climb_operand
    {cursor next : Cursor} {level : Nat} {left node : Node}
    (reads : Reads (.climb inCommand level left) cursor node next)
    (isOperand : node.isOperand = true) : left = node ∧ next = cursor := by
  cases reads with
  | stop => exact ⟨rfl, rfl⟩
  | climb continues tight isRight single further =>
      have shorter := continues.2.1.size_lt
      have shorterBehind := isRight.binary_size_lt
      rcases further.climb_operand isOperand with ⟨rfl, -⟩
      cases isOperand
termination_by cursor.size

theorem Reads.binary_operand
    {level : Nat} (reads : Reads (.binary inCommand level) cursor node next)
    (isOperand : node.isOperand = true) :
    cursor.unary? = none ∧ Reads (.primary inCommand) cursor node next := by
  cases reads with
  | binary isLeft further =>
      rcases further.climb_operand isOperand with ⟨rfl, rfl⟩
      cases isLeft with
      | unary => cases isOperand
      | operand unsigned isPrimary => exact ⟨unsigned, isPrimary⟩

/-! ## Headers -/

theorem Reads.named_onto
    {name : String} {header : Header}
    (reads : Reads (.named inCommand name) cursor (header.node []) next)
    (noColon : cursor.NoLastColon) (inLine : cursor.afterBody = false)
    (newlines : next.OnlyNewlines) (bears : Bears more nodes final) :
    Reads (.named inCommand name) (cursor.onto more) (header.node nodes) final := by
  cases header with
  | method =>
      cases reads with
      | method arrow isBlock =>
          exact .method (arrow.onto more)
            (isBlock.definition_onto (noColon.accepts arrow) newlines bears)
      | call _ _ isNode => cases isNode
  | call =>
      cases reads with
      | call noMethod areArguments isNode =>
          cases isNode with
          | withBlock arrow isBlock =>
              have readsArguments :=
                areArguments.arguments_onto arrow bears.isNewline noColon inLine
              have noColonBehind := areArguments.noColon_behind noColon
              have readsBlock :=
                isBlock.definition_onto (noColonBehind.accepts arrow) newlines bears
              refine .call ?_ readsArguments (.withBlock (arrow.onto more) readsBlock)
              rw [peek_onto ?_]
              · exact noMethod
              · exact (areArguments.hasFurther (arrow.hasFurther (by simp))).filled
  | _ =>
      cases reads with
      | call _ _ isNode => cases isNode

theorem Reads.header_onto
    {header : Header} (reads : Reads (.primary inCommand) cursor (header.node []) next)
    (noColon : cursor.NoLastColon) (newlines : next.OnlyNewlines) (bears : Bears more nodes final) :
    Reads (.primary inCommand) (cursor.onto more) (header.node nodes) final := by
  rcases reads.primary_bodied (header.node_takesBody []) with
    ⟨behind, here, isClass⟩ | ⟨behind, here, isModule⟩ | ⟨name, behind, here, isNamed⟩ |
    ⟨block, behind, here, isBlock, isNode⟩
  · cases header with
    | classWord => exact .classWord (here.onto more) (isClass.classDefinition_onto newlines bears)
    | _ => cases isClass
  · cases header with
    | moduleWord =>
        exact .moduleWord (here.onto more) (isModule.moduleDefinition_onto newlines bears)
    | _ => cases isModule
  · exact .name (here.onto more)
      (isNamed.named_onto (noColon.accepts here) (here.inLine (by simp)) newlines bears)
  · cases header with
    | block =>
        obtain rfl := Node.block.inj isNode
        exact .block (here.onto more)
          (isBlock.definition_onto (noColon.accepts here) newlines bears)
    | _ => cases isNode

end Phrase

end ScriptFront
