import ScriptFront.Proofs.Grammar.OneLine
import ScriptFront.Proofs.Grammar.ParameterNames
import ScriptFront.Proofs.Grammar.SpacedParens
import ScriptFront.Proofs.Grammar.TrailingBlocks
import ScriptFront.Proofs.Token.Defaults

/-!
# Lists of parameters

A parameter that ends in front of a comma or of the closing parenthesis is the same one in every
list.  Between the comma and the next one it does not matter how its first token is set off.
-/

namespace ScriptFront

open Phrase Cursor

namespace Token

/-- The tokens are read as the parameter in front of the mark, whatever stands behind that. -/
def AreParameter (mark : Mark) (parameter : Parameter Node) (tokens : List Token) : Prop :=
  ∀ back : Cursor, back.peek.kind = .mark mark →
    Reads .parameter (back.led tokens) parameter (back.led [])

/-- The tokens are read as an expression in front of the mark. -/
def AreValue (mark : Mark) (node : Node) (tokens : List Token) : Prop :=
  ∀ back : Cursor, back.peek.kind = .mark mark →
    Reads .expression (back.led tokens) node (back.led [])

/-- Parameters with commas between them. -/
inductive AreParameters : List (Parameter Node) → List Token → Prop where
  | last {tokens : List Token} {parameter : Parameter Node}
      (isLast : AreParameter .rightParen parameter tokens) : AreParameters [parameter] tokens
  | more {tokens others : List Token} {comma : Token} {parameter : Parameter Node}
      {list : List (Parameter Node)} (isFirst : AreParameter .comma parameter tokens)
      (isComma : comma.kind = .mark .comma) (areOthers : AreParameters list others) :
      AreParameters (parameter :: list) (tokens ++ comma :: others)

variable {tokens others : List Token} {mark : Mark}

theorem AreAsSetOff.symm (same : AreAsSetOff tokens others) : AreAsSetOff others tokens := by
  rcases same with ⟨spaced, rfl⟩
  cases tokens with
  | nil => exact ⟨spaced, rfl⟩
  | cons first rest => exact ⟨first.spaced, rfl⟩

theorem AreAsSetOff.trans
    {further : List Token} (same : AreAsSetOff tokens others)
    (alsoSame : AreAsSetOff others further) : AreAsSetOff tokens further := by
  rcases same with ⟨_, rfl⟩
  rcases alsoSame with ⟨spaced, rfl⟩
  cases tokens with
  | nil => exact ⟨spaced, rfl⟩
  | cons first rest => exact ⟨spaced, rfl⟩

theorem AreAsSetOff.restarts
    {back : Cursor} (same : AreAsSetOff tokens others)
    (starts : (back.led tokens).peek.kind.startsPhrase = true)
    (stops : back.peek.kind.startsPhrase = false) :
    (back.led tokens).Restarts (back.led others) := by
  rcases same with ⟨spaced, rfl⟩
  cases tokens with
  | nil => cases stops.symm.trans starts
  | cons first rest =>
      have noDedent : first.kind ≠ .dedent :=
        Kind.ne_dedent_of_isLayout (Kind.isLayout_of_startsPhrase starts)
      exact ⟨first, _, back.led rest, takes_cons noDedent, takes_cons noDedent, rfl, rfl⟩

end Token

namespace Phrase

variable {cursor other next : Cursor} {parameter : Parameter Node}

theorem Reads.parameter_restarted
    (reads : Reads .parameter cursor parameter next) (restarts : cursor.Restarts other) :
    Reads .parameter other parameter next := by
  cases reads with
  | splat star names => exact .splat (restarts.accepts star) names
  | parameter names isParameter => exact .parameter (restarts.accepts names) isParameter

end Phrase

namespace Token

variable {tokens others : List Token} {mark : Mark} {parameter : Parameter Node} {node : Node}
  {list : List (Parameter Node)} {name : String}

theorem AreParameter.restarted
    (isParameter : AreParameter mark parameter tokens) (same : AreAsSetOff tokens others)
    (stops : (Kind.mark mark).startsPhrase = false) : AreParameter mark parameter others := by
  intro back isMark
  have reads := isParameter back isMark
  exact reads.parameter_restarted (same.restarts reads.parameter_starts (isMark ▸ stops))

theorem AreValue.restarted
    (isValue : AreValue mark node tokens) (same : AreAsSetOff tokens others)
    (stops : (Kind.mark mark).startsPhrase = false) : AreValue mark node others := by
  intro back isMark
  have reads := isValue back isMark
  exact reads.binary_restarted (same.restarts reads.binary_starts (isMark ▸ stops))

/-- The equals sign may belong to the name or stand alone. -/
theorem AreValue.areParameter
    {value : List Token} (isValue : AreValue mark node value)
    (stops : (Kind.mark mark).startsPhrase = false) (isBare : bareName? name = none)
    (assigns : AssignApart name value tokens ∨ AssignJoined name value tokens) :
    AreParameter mark (.optional name node) tokens := by
  intro back isMark
  rcases assigns with
    ⟨word, sign, others, rfl, isWord, isSign, same⟩ | ⟨word, others, rfl, isWord, same⟩
  · have reads := isValue.restarted same stops back isMark
    exact .parameter (accepts_cons isWord (by simp))
      (.optional isBare (accepts_cons isSign (by simp)) reads)
  · have reads := isValue.restarted same stops back isMark
    exact .parameter (accepts_cons isWord (by simp))
      (.setter (bareName?_append_equals name) reads)

theorem AreParameters.reads
    {back : Cursor} (areParameters : AreParameters list tokens)
    (closes : back.peek.kind = .mark .rightParen) :
    Reads .parameterList (back.led tokens) list (back.led []) := by
  induction areParameters with
  | last isLast =>
      refine .lastParameter (isLast back closes) ?_
      intro isComma
      cases closes.symm.trans isComma
  | @more tokens others comma _ _ isFirst isComma _ inductionHypothesis =>
      rw [led_append]
      exact .moreParameters (isFirst (back.led (comma :: others)) isComma)
        (accepts_cons isComma (by simp)) inductionHypothesis

theorem AreParameters.parenthesized
    {opener closer : Token} (areParameters : AreParameters list tokens)
    (isOpener : opener.kind = .mark .leftParen) (isCloser : closer.kind = .mark .rightParen) :
    IsParameters (opener :: (tokens ++ [closer])) list := by
  intro ending
  let back : Cursor := ⟨[closer], ending, false⟩
  have isParen : back.peek.kind = .mark .rightParen := isCloser
  have reads : Reads .parameterList ⟨tokens ++ [closer], ending, false⟩ list
      ⟨[closer], ending, false⟩ := areParameters.reads isParen
  refine ⟨false, .parameters (accepts_cons isOpener (by simp)) ?_ reads
    (accepts_cons isCloser (by simp))⟩
  exact Kind.ne_rightParen_of_startsPhrase reads.parameterList_starts

end Token

/-- A name, an arrow and a parenthesis. -/
def Token.OpenMethod (name : String) (tokens : List Token) : Prop :=
  ∃ word arrow opener, tokens = [word, arrow, opener] ∧ word.kind = .identifier name ∧
    arrow.kind = .mark .arrow ∧ opener.kind = .mark .leftParen

/-- The tokens of a call without a block, in one line. -/
def Token.AreCall (name : String) (arguments : List Node) (tokens : List Token) : Prop :=
  (∀ token ∈ tokens, token.kind.isLayout = false) ∧ ∃ ending next,
    Reads (.entry false) ⟨tokens, ending, false⟩ (.single (.call name arguments none)) next ∧
      next.ahead = []

/-- The tokens in front of the parameters of a method, of a block, or of the block of a call. -/
inductive Header.Opening : (List (Parameter Node) → Header) → List Token → Prop where
  | method {tokens : List Token} {name : String} (opens : Token.OpenMethod name tokens) :
      Opening (.method name) tokens
  | block {arrow opener : Token} (isArrow : arrow.kind = .mark .blockArrow)
      (isOpener : opener.kind = .mark .leftParen) : Opening .block [arrow, opener]
  | call {given : List Token} {arrow opener : Token} {name : String} {arguments : List Node}
      (areCall : Token.AreCall name arguments given) (isArrow : arrow.kind = .mark .blockArrow)
      (isOpener : opener.kind = .mark .leftParen) :
      Opening (.call name arguments) (given ++ [arrow, opener])

section Openings

variable {name : String} {arguments : List Node} {ending : Ending}

/-- A call starts with its name. -/
theorem Phrase.Reads.exists_word_of_call
    {given : List Token} {next : Cursor}
    (reads : Reads (.primary false) ⟨given, ending, false⟩ (.call name arguments none) next) :
    ∃ word rest, given = word :: rest ∧ word.kind = .identifier name := by
  rcases reads.primary_bodied rfl with
    ⟨_, _, isClass⟩ | ⟨_, _, isModule⟩ | ⟨_, _, here, isNamed⟩ | ⟨_, _, _, _, isBlock⟩
  · cases isClass
  · cases isModule
  · rcases here.ahead with ⟨word, isAhead, isWord⟩
    cases isNamed with
    | call _ _ isNode =>
        cases isNode with
        | withoutBlock => exact ⟨word, _, isAhead, isWord⟩
  · cases isBlock

/-- A program that is a call without a block, in one line. -/
theorem Phrase.Reads.areCall
    {tokens : List Token} {last : Cursor}
    (reads : Reads (.statements false) ⟨tokens, ending, false⟩ [.call name arguments none] last)
    (inLine : ∀ token ∈ tokens, token.kind.isLayout = false) :
    Token.AreCall name arguments tokens := by
  have noNewline : ∀ token ∈ tokens, token.kind ≠ .newline := by
    intro token member
    exact (Kind.ne_of_isLayout rfl (inLine token member)).symm
  rcases reads.lone_entry rfl with ⟨next, isEntry, newlines⟩
  rw [skipNewlines_of_inLine noNewline] at isEntry
  refine ⟨inLine, ending, next, isEntry, List.eq_nil_iff_forall_not_mem.2 ?_⟩
  intro token member
  have isBehind : ∀ token ∈ next.ahead, token.kind ≠ .newline := isEntry.forall_behind noNewline
  exact isBehind token member (newlines token member)

variable {header : List (Parameter Node) → Header} {before tokens : List Token} {closer : Token}
  {list : List (Parameter Node)}

/-- The list in its parentheses is a program. -/
theorem Header.Opening.reads
    (opening : Opening header before) (areParameters : Token.AreParameters list tokens)
    (isCloser : closer.kind = .mark .rightParen) (ending : Ending) :
    ∃ next, Reads (.statements false) ⟨before ++ (tokens ++ [closer]), ending, false⟩
      [(header list).node []] next := by
  cases opening with
  | method opens =>
      rcases opens with ⟨word, arrow, opener, rfl, isWord, isArrow, isOpener⟩
      have inParens := areParameters.parenthesized isOpener isCloser
      exact reads_program_of_written (.method isWord isArrow inParens) ending
  | block isArrow isOpener =>
      have inParens := areParameters.parenthesized isOpener isCloser
      exact reads_program_of_written (.block isArrow inParens) ending
  | @call given arrow opener name arguments areCall isArrow isOpener =>
      rcases areCall with ⟨inLine, endingBefore, next, isEntry, isEnd⟩
      rcases (isEntry.entry_primary rfl).exists_word_of_call with ⟨word, rest, rfl, isWord⟩
      have inParens := areParameters.parenthesized isOpener isCloser
      rcases inParens.definition ending with ⟨flag, isBlock⟩
      have withBlock := isEntry.entry_with_block isWord inLine isEnd isArrow isBlock
        (List.forall_mem_nil _)
      have whole : word :: rest ++ [arrow, opener] ++ (tokens ++ [closer]) =
          word :: (rest ++ arrow :: opener :: (tokens ++ [closer])) := by
        simp
      have noNewline : word.kind ≠ .newline :=
        (Kind.ne_of_isLayout rfl (inLine word List.mem_cons_self)).symm
      rw [whole]
      exact ⟨_, reads_program_of_entry withBlock rfl noNewline⟩

end Openings

/-! ## What is read of a list -/

theorem Kind.isLayout_of_isWritten
    {kind : Kind} (written : kind.isWritten = true) (noNewline : kind ≠ .newline) :
    kind.isLayout = false := by
  cases kind with
  | newline => exact absurd rfl noNewline
  | indent | dedent | endOfInput => cases written
  | _ => rfl

/-- A comma or a closing parenthesis. -/
def Mark.EndsMember (mark : Mark) : Prop := mark = .comma ∨ mark = .rightParen

theorem Mark.EndsMember.stopAlike {mark : Mark} (ends : mark.EndsMember) :
    (Kind.mark mark).StopAlike (.mark mark) := by
  rcases ends with rfl | rfl
  · exact Or.inr ⟨rfl, rfl⟩
  · exact Or.inl ⟨rfl, rfl⟩

namespace Phrase

variable {next : Cursor} {tokens more : List Token} {stop : Token} {mark : Mark} {ending : Ending}

/-- What is read up to the mark is read up to it in any list. -/
theorem Reads.before_mark
    {form : Form} {value : form.Value}
    (reads : Reads form ⟨tokens ++ stop :: more, ending, false⟩ value next)
    (passes : Cursor.Passes ⟨tokens ++ stop :: more, ending, false⟩ next)
    (isEnd : next.ahead = stop :: more) (isStop : stop.kind = .mark mark) (ends : mark.EndsMember)
    (written : ∀ token ∈ tokens ++ stop :: more, token.kind.isWritten = true)
    (part : form.isPart = true) {back : Cursor} (isMark : back.peek.kind = .mark mark) :
    Reads form (back.led tokens) value (back.led []) := by
  have isPassed : tokens ++ stop :: more = tokens ++ next.ahead := by rw [isEnd]
  have noIndent : ∀ token ∈ tokens ++ stop :: more, token.kind ≠ .indent := by
    intro token member isIndent
    cases isIndent ▸ written token member
  have inLine : ∀ token ∈ tokens, token.kind.isLayout = false := by
    intro token member
    have noNewline := (reads.staysInLine part).inLine isPassed noIndent token member
    exact Kind.isLayout_of_isWritten (written token (List.mem_append_left _ member)) noNewline
  have firm := firm_of_passes passes reads.endsFirm isPassed inLine
  let here : Cursor := ⟨stop :: more, ending, false⟩
  have stops : here.peek.kind.StopAlike back.peek.kind := by
    have isHere : here.peek.kind = .mark mark := isStop
    rw [isHere, isMark]
    exact ends.stopAlike
  refine reads.followed_alike here back firm stops isEnd part ?_
  intro isArrow
  obtain rfl := Kind.mark.inj (isMark.symm.trans isArrow)
  simp [Mark.EndsMember] at ends

theorem Reads.areParameter
    {parameter : Parameter Node}
    (reads : Reads .parameter ⟨tokens ++ stop :: more, ending, false⟩ parameter next)
    (isEnd : next.ahead = stop :: more) (isStop : stop.kind = .mark mark) (ends : mark.EndsMember)
    (written : ∀ token ∈ tokens ++ stop :: more, token.kind.isWritten = true) :
    Token.AreParameter mark parameter tokens :=
  fun _ isMark => reads.before_mark reads.passes isEnd isStop ends written rfl isMark

theorem Reads.areValue
    {node : Node} (reads : Reads .expression ⟨tokens ++ stop :: more, ending, false⟩ node next)
    (isEnd : next.ahead = stop :: more) (isStop : stop.kind = .mark mark) (ends : mark.EndsMember)
    (written : ∀ token ∈ tokens ++ stop :: more, token.kind.isWritten = true) :
    Token.AreValue mark node tokens :=
  fun _ isMark => reads.before_mark reads.passes isEnd isStop ends written rfl isMark

/-! ## Methods that are read -/

section Methods

variable {word arrow opener closer : Token} {before rest : List Token} {name : String}
  {node : Node} {nodes : List Node} {block : Block Node} {last : Cursor}

/-- A name with an arrow behind it is a method. -/
theorem Reads.primary_method
    {inCommand : Bool}
    (reads : Reads (.primary inCommand) ⟨word :: arrow :: rest, ending, false⟩ node next)
    (isWord : word.kind = .identifier name) (isArrow : arrow.kind = .mark .arrow) :
    ∃ block, node = .method name block ∧ Reads .definition ⟨rest, ending, false⟩ block next := by
  have isPeek : (Cursor.mk (word :: arrow :: rest) ending false).peek.kind = .identifier name :=
    isWord
  cases reads with
  | name here isNamed =>
      obtain rfl := Kind.identifier.inj (isPeek.symm.trans here.peek_kind)
      obtain rfl := here.unique (accepts_cons isWord (by simp))
      cases isNamed with
      | call noMethod => exact absurd isArrow noMethod
      | method isMethod isBlock =>
          obtain rfl := isMethod.unique (accepts_cons isArrow (by simp))
          exact ⟨_, rfl, isBlock⟩
  | integer here | float here | constant here | string here | classWord here | moduleWord here
  | colon here | array here | brace here | paren here | block here =>
      cases isPeek.symm.trans here.peek_kind

theorem Reads.binary_method
    {inCommand : Bool} {level : Nat}
    (reads : Reads (.binary inCommand level) ⟨word :: arrow :: rest, ending, false⟩ node next)
    (isWord : word.kind = .identifier name) (isArrow : arrow.kind = .mark .arrow) :
    ∃ block last, Reads .definition ⟨rest, ending, false⟩ block last := by
  cases reads with
  | binary isLeft =>
      cases isLeft with
      | unary sign => cases isWord.symm.trans sign.peek_kind
      | operand _ isPrimary =>
          rcases isPrimary.primary_method isWord isArrow with ⟨block, -, isBlock⟩
          exact ⟨block, _, isBlock⟩

theorem skipNewlines_of_name (isWord : word.kind = .identifier name) :
    (Cursor.mk (word :: rest) ending false).skipNewlines = ⟨word :: rest, ending, false⟩ := by
  apply skipNewlines_of_none
  apply accept?_eq_none
  intro isNewline
  cases isWord.symm.trans isNewline

/-- A program that starts with a name and an arrow starts with a method. -/
theorem Reads.program_method
    (reads : Reads (.statements false) ⟨word :: arrow :: rest, ending, false⟩ nodes last)
    (isWord : word.kind = .identifier name) (isArrow : arrow.kind = .mark .arrow) :
    ∃ block next, Reads .definition ⟨rest, ending, false⟩ block next := by
  have skips : (Cursor.mk (word :: arrow :: rest) ending false).skipNewlines =
      ⟨word :: arrow :: rest, ending, false⟩ := skipNewlines_of_name isWord
  have unnamed : (Cursor.mk (word :: arrow :: rest) ending false).symbolKey? = none :=
    symbolKey?_eq_none_of_second isArrow (by simp)
  cases reads with
  | noStatements ends =>
      rw [skips] at ends
      cases ends
  | moreStatements _ isFirst =>
      rw [skips] at isFirst
      cases isFirst with
      | statement isEntry =>
          cases isEntry with
          | keyed names => exact absurd names (symbolKey?_eq_none_iff.1 unnamed _ _)
          | expression _ isNode | pair _ isNode => exact isNode.binary_method isWord isArrow

/-- The parameters of a definition in parentheses. -/
theorem Reads.definition_parameters
    (reads : Reads .definition ⟨opener :: rest, ending, false⟩ block next)
    (isOpener : opener.kind = .mark .leftParen) :
    ∃ behind, Reads .body behind block.body next ∧
      (block.parameters = [] ∧
          (Cursor.mk rest ending false).Accepts (.mark .rightParen) behind ∨
        ∃ closing, Reads .parameterList ⟨rest, ending, false⟩ block.parameters closing ∧
          closing.Accepts (.mark .rightParen) behind) := by
  cases reads with
  | definition areParameters isBody =>
      refine ⟨_, isBody, ?_⟩
      cases areParameters with
      | noParameters absent => exact absurd isOpener absent
      | emptyParameters opens closes =>
          obtain rfl := opens.unique (accepts_cons isOpener (by simp))
          exact Or.inl ⟨rfl, closes⟩
      | parameters opens _ areParameters closes =>
          obtain rfl := opens.unique (accepts_cons isOpener (by simp))
          exact Or.inr ⟨_, areParameters, closes⟩

/-- In a program that is a method without a body, the list of its parameters ends at the last
parenthesis. -/
theorem Reads.method_parameterList
    {first : Parameter Node} {others : List (Parameter Node)}
    (reads : Reads (.statements false) ⟨before ++ (tokens ++ [closer]), ending, false⟩
      [.method name ⟨first :: others, []⟩] last)
    (opens : Token.OpenMethod name before) (isCloser : closer.kind = .mark .rightParen) :
    ∃ closing, Reads .parameterList ⟨tokens ++ [closer], ending, false⟩ (first :: others) closing ∧
      closing.ahead = [closer] := by
  rcases opens with ⟨word, arrow, opener, rfl, isWord, isArrow, isOpener⟩
  rw [List.cons_append, List.cons_append, List.singleton_append] at reads
  rcases reads.lone_entry rfl with ⟨next, isEntry, newlines⟩
  rw [skipNewlines_of_name isWord] at isEntry
  rcases (isEntry.entry_primary rfl).primary_method isWord isArrow with ⟨block, isNode, isBlock⟩
  obtain ⟨-, rfl⟩ := Node.method.inj isNode
  rcases isBlock.definition_parameters isOpener with
    ⟨behind, isBody, ⟨isNil, -⟩ | ⟨closing, areParameters, closes⟩⟩
  · cases isNil
  · obtain rfl := isBody.eq_of_emptyBody
    rcases areParameters.passed with ⟨passed, isPassed, -⟩
    rcases closes.ahead with ⟨paren, isAhead, -⟩
    have whole : tokens ++ [closer] = passed ++ paren :: next.ahead := isAhead ▸ isPassed
    refine ⟨closing, areParameters, ?_⟩
    rcases List.eq_nil_or_concat next.ahead with isNil | ⟨lines, line, isLines⟩
    · rw [isNil] at whole isAhead
      rw [isAhead, (List.append_inj' whole rfl).2]
    · rw [isLines, List.concat_eq_append, ← List.cons_append, ← List.append_assoc] at whole
      obtain rfl := List.singleton_inj.1 (List.append_inj' whole rfl).2
      have isNewline : closer.kind = .newline := newlines closer (by simp [isLines])
      cases isCloser.symm.trans isNewline

/-- A name with an equals sign behind it is a parameter with a default. -/
theorem Reads.parameter_default
    {given sign : Token} {parameter : Parameter Node}
    (reads : Reads .parameter ⟨given :: sign :: rest, ending, false⟩ parameter next)
    (isGiven : given.kind = .identifier name) (isSign : sign.kind = .operator .assign)
    (isBare : bareName? name = none) :
    ∃ value, parameter = .optional name value ∧
      Reads .expression ⟨rest, ending, false⟩ value next := by
  cases reads with
  | splat star => cases isGiven.symm.trans star.peek_kind
  | parameter names isParameter =>
      obtain rfl := Kind.identifier.inj (isGiven.symm.trans names.peek_kind)
      obtain rfl := names.unique (accepts_cons isGiven (by simp))
      cases isParameter with
      | setter isSetter => cases isBare.symm.trans isSetter
      | keyword _ colon => cases isSign.symm.trans colon.peek_kind
      | plain _ unassigned => exact absurd isSign unassigned
      | optional _ assigns isValue =>
          obtain rfl := assigns.unique (accepts_cons isSign (by simp))
          exact ⟨_, rfl, isValue⟩

/-- The default of the first parameter of a method is an expression, and no colon is behind it. -/
theorem Reads.method_default
    {given sign : Token} {other : String}
    (reads : Reads (.statements false) ⟨before ++ given :: sign :: rest, ending, false⟩ nodes last)
    (opens : Token.OpenMethod name before) (isGiven : given.kind = .identifier other)
    (isSign : sign.kind = .operator .assign) (isBare : bareName? other = none) :
    ∃ value next, Reads .expression ⟨rest, ending, false⟩ value next ∧
      next.peek.kind ≠ .mark .colon := by
  rcases opens with ⟨word, arrow, opener, rfl, isWord, isArrow, isOpener⟩
  have ofFirst {first : Parameter Node} {next : Cursor} {kind : Kind}
      (isFirst : Reads .parameter ⟨given :: sign :: rest, ending, false⟩ first next)
      (isBehind : next.peek.kind = kind) (noColon : kind ≠ .mark .colon) :
      ∃ value next, Reads .expression ⟨rest, ending, false⟩ value next ∧
        next.peek.kind ≠ .mark .colon := by
    rcases isFirst.parameter_default isGiven isSign isBare with ⟨value, -, isValue⟩
    exact ⟨value, next, isValue, isBehind ▸ noColon⟩
  rcases reads.program_method isWord isArrow with ⟨block, place, isBlock⟩
  rcases isBlock.definition_parameters isOpener with
    ⟨behind, -, ⟨-, closes⟩ | ⟨closing, areParameters, closes⟩⟩
  · cases isGiven.symm.trans closes.peek_kind
  · generalize block.parameters = list at areParameters
    cases areParameters with
    | lastParameter isFirst => exact ofFirst isFirst closes.peek_kind (by simp)
    | moreParameters isFirst comma => exact ofFirst isFirst comma.peek_kind (by simp)

/-- A parameter in front of one that is no more than a name. -/
theorem Reads.first_of_two
    {comma second : Token} {parameter : Parameter Node} {closing : Cursor}
    (reads : Reads .parameterList ⟨tokens ++ [comma, second, closer], ending, false⟩
      [parameter, .plain name] closing) (isEnd : closing.ahead = [closer]) :
    ∃ next, Reads .parameter ⟨tokens ++ [comma, second, closer], ending, false⟩ parameter next ∧
      next.ahead = [comma, second, closer] := by
  cases reads with
  | @moreParameters _ next _ _ _ _ isFirst isComma areOthers =>
      refine ⟨next, isFirst, ?_⟩
      have isThree : next.ahead.length = 3 := by
        rcases isComma.ahead with ⟨token, isAhead, -⟩
        cases areOthers with
        | lastParameter isSecond =>
            cases isSecond with
            | parameter names isPlain =>
                cases isPlain with
                | plain =>
                    rcases names.ahead with ⟨word, isBehind, -⟩
                    rw [isAhead, isBehind, isEnd]
                    rfl
        | moreParameters _ _ none => cases none
      rcases isFirst.passed with ⟨passed, isPassed, -⟩
      exact (List.append_inj' isPassed isThree.symm).2.symm

/-- A line that is one statement is an expression in front of a parenthesis, if an expression is
read of it there that is no key of a pair. -/
theorem Reads.value_of_line
    {value : Node} {farther : Ending}
    (reads : Reads (.statements false) ⟨tokens, ending, false⟩ [node] last)
    (inLine : ∀ token ∈ tokens, token.kind.isLayout = false)
    (isDefault : Reads .expression ⟨tokens ++ [closer], farther, false⟩ value next)
    (noColon : next.peek.kind ≠ .mark .colon) (isCloser : closer.kind = .mark .rightParen) :
    Token.AreValue .rightParen node tokens := by
  have filled : tokens ≠ [] := by
    rintro rfl
    have starts : closer.kind.startsPhrase = true := isDefault.binary_starts
    rw [isCloser] at starts
    cases starts
  rcases reads.lone_line filled inLine rfl with
    ⟨first, middle, _, behind, isNode, isEntry, whole, isEnd⟩
  obtain rfl := List.singleton_inj.1 isNode
  have firm : Token.Firm tokens := by
    have passes : Cursor.Passes ⟨tokens, ending, false⟩ behind := isEntry.passes.append whole.passes
    refine firm_of_passes passes (isEntry.endsFirm.trans whole.endsFirm) ?_ inLine
    rw [isEnd, List.append_nil]
  let back : Cursor := ⟨[], ending, false⟩
  let paren : Cursor := ⟨[closer], farther, false⟩
  have isParen : paren.peek.kind = .mark .rightParen := isCloser
  have isLine : back.led tokens = ⟨tokens, ending, false⟩ := by
    rw [led, List.append_nil]
  have stops : back.peek.kind.StopAlike paren.peek.kind := by
    rw [isParen]
    exact Or.inl ⟨rfl, rfl⟩
  have exchanged : Exchanged back paren ⟨tokens, ending, false⟩ (paren.led tokens) :=
    ⟨stops, tokens, firm, isLine.symm, rfl⟩
  have leaves : Leaves back paren (.entry false) middle := by
    intro isArrow
    cases isParen.symm.trans isArrow
  -- The line does not start with a key, since its entry is read again in front of the parenthesis.
  rcases isEntry.exchanged exchanged (Nat.zero_le _) rfl leaves with ⟨place, readsAgain, -⟩
  have isSingle : Reads (.entry false) (paren.led tokens) (.single value) next :=
    isDefault.entry_of_binary noColon
  have same := (run_of_reads readsAgain).symm.trans (run_of_reads isSingle)
  obtain ⟨rfl, -⟩ := Prod.mk.inj (Except.ok.inj same)
  cases whole with
  | single =>
      cases isEntry with
      | expression _ isValue =>
          intro other isMark
          rw [← isLine] at isValue
          have stopsOther : other.peek.kind.stopsLine = true := by
            rw [isMark]
            rfl
          refine isValue.followed back other firm rfl stopsOther isEnd rfl ?_
          intro isArrow
          cases isMark.symm.trans isArrow

end Methods

/-- Where an expression starts with an operator, that is one which needs nothing in front of it. -/
theorem Reads.isUnary_of_operator
    {cursor next : Cursor} {inCommand : Bool} {level : Nat} {node : Node} {operator : Operator}
    (reads : Reads (.binary inCommand level) cursor node next)
    (isSign : cursor.peek.kind = .operator operator) : operator.isUnary = true := by
  cases reads with
  | binary isLeft =>
      cases isLeft with
      | unary sign isUnary =>
          obtain rfl := Kind.operator.inj (isSign.symm.trans sign.peek_kind)
          exact isUnary
      | operand _ isPrimary =>
          cases isPrimary with
          | integer here | float here | constant here | string here | name here | classWord here
          | moduleWord here | colon here | array here | brace here | paren here | block here =>
              cases isSign.symm.trans here.peek_kind

end Phrase

end ScriptFront
