import ScriptFront.Proofs.Grammar.FollowedReading
import ScriptFront.Proofs.Grammar.TrailingHeaders

/-!
# Blocks behind a call

A block behind the arguments of a call belongs to that call.  The arguments stay what they are, even
if calls among them could take the block, and the statements that are indented behind it are its
body.
-/

namespace ScriptFront

/-- The tokens of an indented body with its statements, or nothing at all. -/
inductive Token.IsBody : List Token → List Node → Prop where
  | absent : IsBody [] []
  | indented {lines inner : List Token} {indent dedent : Token} {nodes : List Node}
      (areLines : AreNewlines lines) (parted : lines ≠ []) (isIndent : indent.kind = .indent)
      (isDedent : dedent.kind = .dedent) (parsed : parseTokens inner = .ok nodes)
      (some : nodes ≠ []) : IsBody (lines ++ indent :: (inner ++ [dedent])) nodes

namespace Phrase

open Cursor

/-! ## Bodies -/

/-- The statements of a program are those of a body that is open at the end. -/
theorem Reads.statements_inBody
    {cursor next : Cursor} {nodes : List Node}
    (reads : Reads (.statements false) cursor nodes next) :
    Reads (.statements true) cursor nodes next := by
  cases reads with
  | noStatements ends =>
      refine .noStatements ?_
      rw [Cursor.endsStatements, Bool.false_and, Bool.or_false] at ends
      rw [Cursor.endsStatements, ends, Bool.true_or]
  | moreStatements _ isFirst areOthers =>
      exact .moreStatements (isFirst.statement_goesOn true) isFirst areOthers.statements_inBody
termination_by nodes

variable {cursor next last : Cursor} {node : Node} {nodes : List Node}

/-- The statements of a program are read as a body from its tokens and a dedent. -/
theorem reads_statements_of_parseTokens
    {inner : List Token} {dedent : Token} (parsed : parseTokens inner = .ok nodes)
    (isDedent : dedent.kind = .dedent) :
    ∃ last, Reads (.statements true) (ofTokens (inner ++ [dedent])) nodes last ∧
      last.skipDedent.ahead = [] := by
  by_cases isEnd : ∃ token ∈ inner, token.kind = .endOfInput
  · rcases parseTokens_eq_ok_iff.1 parsed with ⟨last, reads⟩
    rw [ofTokens_append_of_end isEnd]
    refine ⟨last, reads.statements_inBody, ?_⟩
    have atEnd := ahead_eq_nil_of_program reads
    rw [skipDedent_of_end atEnd]
    exact atEnd
  · have noEnd : ∀ token ∈ inner, token.kind ≠ .endOfInput := by
      intro token member isKind
      exact isEnd ⟨token, member, isKind⟩
    have means : dedent.kind.isTrivia = false := by
      rw [isDedent]
      rfl
    have isLast : (ofTokens [dedent]).ahead = [dedent] := by
      rw [ofTokens_cons means (by simp [isDedent])]
      rfl
    have whole : ofTokens (inner ++ [dedent]) =
        ⟨Token.significant inner ++ [dedent], (ofTokens [dedent]).ending, false⟩ := by
      rw [ofTokens_append noEnd (by rw [Token.significant_cons means]; simp), onto, isLast,
        ahead_ofTokens, Token.meaningful_eq noEnd]
      rfl
    rw [whole]
    exact reads_body_of_parseTokens noEnd parsed isDedent _

/-- The statements of a body that is written out. -/
theorem bears_of_isBody
    {body : List Token} (isBody : Token.IsBody body nodes) (written : body ≠ []) :
    ∃ final, Bears (ofTokens body) nodes final := by
  cases isBody with
  | absent => exact absurd rfl written
  | @indented lines inner indent dedent _ areLines parted isIndent isDedent parsed some =>
      rcases reads_statements_of_parseTokens parsed isDedent with ⟨last, areNodes, isEnd⟩
      have noTrivia : ∀ token ∈ lines ++ [indent], token.kind.isTrivia = false := by
        refine List.forall_mem_append.2 ⟨?_, by simp [isIndent, Kind.isTrivia]⟩
        intro line member
        rw [areLines line member]
        rfl
      have noEnd : ∀ token ∈ lines ++ [indent], token.kind ≠ .endOfInput := by
        refine List.forall_mem_append.2 ⟨?_, by simp [isIndent]⟩
        intro line member
        rw [areLines line member]
        exact Kind.noConfusion
      have means : dedent.kind.isTrivia = false := by
        rw [isDedent]
        rfl
      have behind : Token.significant (inner ++ [dedent]) ≠ [] := by
        rw [Token.significant_append, Token.significant_cons means]
        exact List.append_ne_nil_of_right_ne_nil _ (List.cons_ne_nil _ _)
      have whole : lines ++ indent :: (inner ++ [dedent]) =
          (lines ++ [indent]) ++ (inner ++ [dedent]) := by
        rw [List.append_assoc, List.singleton_append]
      rw [whole, ofTokens_append noEnd behind, ofTokens_of_plain noTrivia noEnd, onto,
        List.append_assoc, List.singleton_append]
      exact ⟨_, bears_of_statements areNodes rfl isEnd some areLines parted isIndent⟩

/-! ## Blocks -/

/-- A statement is a program with the newlines behind it. -/
theorem reads_program_before_newlines
    (reads : Reads (.entry false) cursor (.single node) next) (newlines : next.OnlyNewlines)
    (noNewline : cursor.peek.kind ≠ .newline) :
    ∃ last, Reads (.statements false) cursor [node] last := by
  by_cases isEnd : next.ahead = []
  · exact ⟨next, reads_program_of_entry reads isEnd noNewline⟩
  · rcases takes_of_filled isEnd with ⟨line, behind, takes⟩
    have isNewline : line.kind = .newline := newlines line (takes.ahead ▸ List.mem_cons_self)
    have isStatement : Reads .statement cursor node behind :=
      .statement reads .single (Or.inl ⟨line, takes, isNewline⟩)
    have ends : behind.skipNewlines.endsStatements false = true := by
      have isPassed : next.ahead = [line] ++ behind.ahead := takes.ahead
      have newlinesBehind : behind.OnlyNewlines := newlines.of_passed isPassed
      rw [Cursor.endsStatements, atEnd, newlinesBehind.ahead_skipNewlines]
      rfl
    have skips : cursor.skipNewlines = cursor := skipNewlines_of_none (accept?_eq_none noNewline)
    rw [← skips] at isStatement
    exact ⟨_, .moreStatements (isStatement.statement_goesOn false) isStatement (.noStatements ends)⟩

section Calls

variable {given behind : List Token} {word arrow : Token} {name : String} {arguments : List Node}
  {block : Block Node} {ending other : Ending}

/-- The block behind a call belongs to it, if the line could have ended in its place. -/
theorem Reads.primary_with_block
    (reads : Reads (.primary false) ⟨word :: given, ending, false⟩ (.call name arguments none) next)
    (firm : Token.Firm given) (isEnd : next.ahead = []) (isArrow : arrow.kind = .mark .blockArrow)
    (isBlock : Reads .definition ⟨behind, other, false⟩ block last) :
    Reads (.primary false) ⟨word :: (given ++ arrow :: behind), other, false⟩
      (.call name arguments (some block)) last := by
  let back : Cursor := ⟨[], ending, false⟩
  let more : Cursor := ⟨arrow :: behind, other, false⟩
  have opens : more.Accepts (.mark .blockArrow) ⟨behind, other, false⟩ :=
    accepts_cons isArrow (by simp)
  have stops : arrow.kind.stopsLine = true := by
    rw [isArrow]
    rfl
  have whole : given ++ [] = given := List.append_nil given
  rcases reads.primary_bodied rfl with
    ⟨_, _, isClass⟩ | ⟨_, _, isModule⟩ | ⟨called, place, here, isNamed⟩ | ⟨_, _, _, _, isNode⟩
  · cases isClass
  · cases isModule
  · have isWord : word.kind = .identifier called := here.peek_kind
    obtain rfl := here.unique (accepts_cons isWord (by simp))
    rw [← whole] at isNamed
    cases isNamed with
    | call noMethod areArguments isNode =>
        cases isNode with
        | withoutBlock =>
            have exchanged : Exchanged back more (back.led given) (more.led given) :=
              ⟨Or.inl ⟨rfl, stops⟩, given, firm, rfl, rfl⟩
            have noMethodAgain : (more.led given).peek.kind ≠ .mark .arrow :=
              exchanged.peek_kind_ne noMethod rfl
            have areAgain : Reads .arguments (more.led given) arguments (more.led []) :=
              areArguments.followed back more firm rfl stops isEnd rfl (leaves_of_true rfl)
            exact .name (accepts_cons isWord (by simp))
              (.call noMethodAgain areAgain (.withBlock opens isBlock))
  · cases isNode

theorem Reads.block_definition
    {rest : List Token}
    (reads : Reads (.primary false) ⟨arrow :: rest, ending, false⟩ (.block block) next)
    (isArrow : arrow.kind = .mark .blockArrow) :
    Reads .definition ⟨rest, ending, false⟩ block next := by
  rcases reads.primary_bodied rfl with
    ⟨_, _, isClass⟩ | ⟨_, _, isModule⟩ | ⟨_, _, here, -⟩ | ⟨_, _, here, isBlock, isNode⟩
  · cases isClass
  · cases isModule
  · cases isArrow.symm.trans here.peek_kind
  · obtain rfl := Node.block.inj isNode
    obtain rfl := here.unique (accepts_cons isArrow (by simp))
    exact isBlock

theorem Reads.entry_with_block
    (reads : Reads (.entry false) ⟨word :: given, ending, false⟩
      (.single (.call name arguments none)) next)
    (isWord : word.kind = .identifier name)
    (inLine : ∀ token ∈ word :: given, token.kind.isLayout = false) (isEnd : next.ahead = [])
    (isArrow : arrow.kind = .mark .blockArrow)
    (isBlock : Reads .definition ⟨behind, other, false⟩ block last) (newlines : last.OnlyNewlines) :
    Reads (.entry false) ⟨word :: (given ++ arrow :: behind), other, false⟩
      (.single (.call name arguments (some block))) last := by
  let back : Cursor := ⟨[], ending, false⟩
  let more : Cursor := ⟨arrow :: behind, other, false⟩
  have isPrimary := reads.entry_primary rfl
  have firm : Token.Firm (word :: given) := by
    refine firm_of_passes isPrimary.passes isPrimary.endsFirm ?_ inLine
    rw [isEnd, List.append_nil]
  have withBlock := isPrimary.primary_with_block firm.tail isEnd isArrow isBlock
  cases reads with
  | expression unnamed =>
      have stops : arrow.kind.stopsLine = true := by
        rw [isArrow]
        rfl
      have whole : back.led (word :: given) = ⟨word :: given, ending, false⟩ := by
        rw [led, List.append_nil]
      have exchanged : Exchanged back more ⟨word :: given, ending, false⟩
          (more.led (word :: given)) :=
        ⟨Or.inl ⟨rfl, stops⟩, word :: given, firm, whole.symm, rfl⟩
      have isNode : Reads .expression ⟨word :: (given ++ arrow :: behind), other, false⟩
          (.call name arguments (some block)) last := by
        refine .binary (withBlock.operand_of_kind isWord (by simp)) (.stop ?_)
        intro operator binding place continues
        exact absurd continues.2.1.peek_kind (newlines.peek_kind_ne rfl)
      exact .expression (exchanged.symbolKey? unnamed) isNode
        (separator?_eq_none (newlines.peek_kind_ne rfl))

end Calls

end Phrase

/-! ## Lists of tokens -/

section Programs

open Phrase

variable {word arrow : Token} {given parameters body : List Token} {name : String}
  {arguments nodes : List Node} {list : List (Parameter Node)}

/-- A header that is a program of its own takes the body behind it. -/
theorem parseTokens_with_body
    {header : Header} {head : List Token} (noEnd : ∀ token ∈ head, token.kind ≠ .endOfInput)
    (isHeader : parseTokens head = .ok [header.node []]) (isBody : Token.IsBody body nodes) :
    parseTokens (head ++ body) = .ok [header.node nodes] := by
  by_cases written : body = []
  · cases isBody with
    | absent =>
        rw [List.append_nil]
        exact isHeader
    | indented => simp at written
  · rcases bears_of_isBody isBody written with ⟨final, bears⟩
    have filled : Token.significant body ≠ [] := by
      intro isNil
      have isNewline := bears.isNewline
      rw [Cursor.peek, Cursor.peekAt, Cursor.ahead_ofTokens, Token.meaningful, isNil] at isNewline
      cases isNewline
    rcases parseTokens_eq_ok_iff.1 isHeader with ⟨last, reads⟩
    rcases Cursor.ahead_skipNewlines (Cursor.ofTokens head) with ⟨lines, isAhead, -⟩
    have ends := reads.program_ends
    rw [isAhead] at ends
    rw [parseTokens_eq_ok_iff, Cursor.ofTokens_append noEnd filled]
    exact ⟨final, reads.program_trailing .alone reads.noLastColon ends bears⟩

/-- What is read as the only statement of a program, if it may end with a body. -/
theorem reads_entry_of_parseTokens
    {first : Token} {rest : List Token} {node : Node} (inLine : first.kind.isLayout = false)
    (means : first.kind.isTrivia = false) (noEnd : ∀ token ∈ rest, token.kind ≠ .endOfInput)
    (parsed : parseTokens (first :: rest) = .ok [node]) (bodied : node.takesBody = true) :
    ∃ next, Reads (.entry false)
      ⟨first :: Token.significant rest, (Cursor.ofTokens (first :: rest)).ending, false⟩
      (.single node) next ∧ next.OnlyNewlines := by
  have noEndHere : ∀ token ∈ first :: rest, token.kind ≠ .endOfInput :=
    List.forall_mem_cons.2 ⟨(Kind.ne_of_isLayout rfl inLine).symm, noEnd⟩
  rcases parseTokens_eq_ok_iff.1 parsed with ⟨last, reads⟩
  rw [Cursor.ofTokens_cons means noEndHere] at reads
  rcases reads.lone_entry bodied with ⟨next, isEntry, newlines⟩
  have noNewline :
      (Cursor.mk (first :: Token.significant rest) (Cursor.ofTokens (first :: rest)).ending
        false).peek.kind ≠ .newline := (Kind.ne_of_isLayout rfl inLine).symm
  rw [Cursor.skipNewlines_of_none (Cursor.accept?_eq_none noNewline)] at isEntry
  exact ⟨next, isEntry, newlines⟩

/-- The block behind a call that is a program of its own. -/
theorem parseTokens_with_block
    (isWord : word.kind = .identifier name)
    (inLine : ∀ token ∈ given, token.kind.isLayout = false)
    (parsed : parseTokens (word :: given) = .ok [.call name arguments none])
    (isArrow : arrow.kind = .mark .blockArrow)
    (noEnd : ∀ token ∈ parameters, token.kind ≠ .endOfInput)
    (parsedParameters : parseTokens (arrow :: parameters) = .ok [.block ⟨list, []⟩]) :
    parseTokens (word :: (given ++ arrow :: parameters)) =
      .ok [.call name arguments (some ⟨list, []⟩)] := by
  have wordInLine : word.kind.isLayout = false := by
    rw [isWord]
    rfl
  have arrowInLine : arrow.kind.isLayout = false := by
    rw [isArrow]
    rfl
  have wordMeans : word.kind.isTrivia = false := by
    rw [isWord]
    rfl
  have arrowMeans : arrow.kind.isTrivia = false := by
    rw [isArrow]
    rfl
  have noEndGiven : ∀ token ∈ given, token.kind ≠ .endOfInput := by
    intro token member
    exact (Kind.ne_of_isLayout rfl (inLine token member)).symm
  rcases reads_entry_of_parseTokens wordInLine wordMeans noEndGiven parsed rfl with
    ⟨next, isCall, newlines⟩
  rcases reads_entry_of_parseTokens arrowInLine arrowMeans noEnd parsedParameters rfl with
    ⟨last, isBlock, newlinesBehind⟩
  have lineInLine : ∀ token ∈ word :: Token.significant given, token.kind.isLayout = false := by
    refine List.forall_mem_cons.2 ⟨wordInLine, ?_⟩
    intro token member
    exact inLine token (List.mem_filter.1 member).1
  have isEnd : next.ahead = [] := by
    have inLineBehind : ∀ token ∈ next.ahead, token.kind.isLayout = false :=
      isCall.forall_behind lineInLine
    refine List.eq_nil_iff_forall_not_mem.2 ?_
    intro token member
    exact Kind.ne_of_isLayout rfl (inLineBehind token member) (newlines token member).symm
  have readsBlock := (isBlock.entry_primary rfl).block_definition isArrow
  have isEntry := isCall.entry_with_block isWord lineInLine isEnd isArrow readsBlock newlinesBehind
  have whole : Cursor.ofTokens (word :: (given ++ arrow :: parameters)) =
      ⟨word :: (Token.significant given ++ arrow :: Token.significant parameters),
        (Cursor.ofTokens (arrow :: parameters)).ending, false⟩ := by
    have noEndWord : ∀ token ∈ word :: given, token.kind ≠ .endOfInput :=
      List.forall_mem_cons.2 ⟨(Kind.ne_of_isLayout rfl wordInLine).symm, noEndGiven⟩
    have noEndArrow : ∀ token ∈ arrow :: parameters, token.kind ≠ .endOfInput :=
      List.forall_mem_cons.2 ⟨(Kind.ne_of_isLayout rfl arrowInLine).symm, noEnd⟩
    have filled : Token.significant (arrow :: parameters) ≠ [] := by
      rw [Token.significant_cons arrowMeans]
      exact List.cons_ne_nil _ _
    rw [← List.cons_append, Cursor.ofTokens_append noEndWord filled,
      Cursor.ofTokens_cons wordMeans noEndWord, Cursor.ofTokens_cons arrowMeans noEndArrow]
    rfl
  rw [parseTokens_eq_ok_iff, whole]
  refine reads_program_before_newlines isEntry newlinesBehind ?_
  exact (Kind.ne_of_isLayout rfl wordInLine).symm

/-- A block behind a call belongs to the call, with its parameters and its body, and the arguments
stay the same. -/
theorem parseTokens_trailing_block
    (isWord : word.kind = .identifier name)
    (inLine : ∀ token ∈ given, token.kind.isLayout = false)
    (parsed : parseTokens (word :: given) = .ok [.call name arguments none])
    (isArrow : arrow.kind = .mark .blockArrow)
    (noEnd : ∀ token ∈ parameters, token.kind ≠ .endOfInput)
    (parsedParameters : parseTokens (arrow :: parameters) = .ok [.block ⟨list, []⟩])
    (isBody : Token.IsBody body nodes) :
    parseTokens (word :: (given ++ arrow :: (parameters ++ body))) =
      .ok [.call name arguments (some ⟨list, nodes⟩)] := by
  have isHeader : parseTokens (word :: (given ++ arrow :: parameters)) =
      .ok [(Header.call name arguments list).node []] :=
    parseTokens_with_block isWord inLine parsed isArrow noEnd parsedParameters
  have noEndHeader : ∀ token ∈ word :: (given ++ arrow :: parameters),
      token.kind ≠ .endOfInput := by
    refine List.forall_mem_cons.2 ⟨by simp [isWord], List.forall_mem_append.2 ⟨?_, ?_⟩⟩
    · intro token member
      exact (Kind.ne_of_isLayout rfl (inLine token member)).symm
    · exact List.forall_mem_cons.2 ⟨by simp [isArrow], noEnd⟩
  have whole : word :: (given ++ arrow :: (parameters ++ body)) =
      (word :: (given ++ arrow :: parameters)) ++ body := by
    simp
  rw [whole]
  exact parseTokens_with_body noEndHeader isHeader isBody

/-- The block goes to the first of two calls, with a parameter and a body. -/
theorem parseTokens_trailing_block_nested :
    ∃ (word arrow : Token) (given parameters body : List Token),
      (word :: (given ++ arrow :: (parameters ++ body))).map Token.kind =
        [.identifier "f", .identifier "g", .integer 1, .mark .blockArrow, .mark .leftParen,
          .identifier "x", .mark .rightParen, .newline, .newline, .indent, .integer 2, .newline,
          .integer 3, .dedent] ∧
      parseTokens (word :: given) = .ok [.call "f" [.call "g" [.integer 1] none] none] ∧
      parseTokens (word :: (given ++ arrow :: (parameters ++ body))) =
        .ok [.call "f" [.call "g" [.integer 1] none]
          (some ⟨[.plain "x"], [.integer 2, .integer 3]⟩)] := by
  let token (kind : Kind) (spaced : Bool) : Token := ⟨kind, "", ⟨1, 1, none⟩, spaced⟩
  let word := token (.identifier "f") false
  let given := [token (.identifier "g") true, token (.integer 1) true]
  let arrow := token (.mark .blockArrow) true
  let parameters := [token (.mark .leftParen) true, token (.identifier "x") false,
    token (.mark .rightParen) false]
  let lines := [token .newline false, token .newline false]
  let inner := [token (.integer 2) false, token .newline false, token (.integer 3) false]
  have parsed : parseTokens (word :: given) =
      .ok [.call "f" [.call "g" [.integer 1] none] none] := by
    with_unfolding_all rfl
  have parsedParameters : parseTokens (arrow :: parameters) = .ok [.block ⟨[.plain "x"], []⟩] := by
    with_unfolding_all rfl
  have parsedInner : parseTokens inner = .ok [.integer 2, .integer 3] := by
    with_unfolding_all rfl
  have areLines : ∀ line ∈ lines, line.kind = .newline := by decide
  have isBody : Token.IsBody (lines ++ token .indent false :: (inner ++ [token .dedent false]))
      [.integer 2, .integer 3] :=
    .indented areLines (List.cons_ne_nil _ _) rfl rfl parsedInner (List.cons_ne_nil _ _)
  have noEnd : ∀ token ∈ parameters, token.kind ≠ .endOfInput := by decide
  exact ⟨word, arrow, given, parameters, _, rfl, parsed,
    parseTokens_trailing_block rfl (by decide) parsed rfl noEnd parsedParameters isBody⟩

/-- A body needs a statement, even where the program between its marks would be empty. -/
theorem trailing_block_of_no_statements :
    ∃ (word arrow newline indent dedent : Token),
      word.kind = .identifier "f" ∧ arrow.kind = .mark .blockArrow ∧ newline.kind = .newline ∧
      indent.kind = .indent ∧ dedent.kind = .dedent ∧
      parseTokens [word] = .ok [.call "f" [] none] ∧
      parseTokens [arrow] = .ok [.block ⟨[], []⟩] ∧ parseTokens [] = .ok [] ∧
      ¬∃ nodes, parseTokens [word, arrow, newline, indent, dedent] = .ok nodes := by
  let token (kind : Kind) (spaced : Bool) : Token := ⟨kind, "", ⟨1, 1, none⟩, spaced⟩
  let word := token (.identifier "f") false
  let arrow := token (.mark .blockArrow) true
  refine ⟨word, arrow, token .newline false, token .indent false, token .dedent false, rfl, rfl,
    rfl, rfl, rfl, by with_unfolding_all rfl, by with_unfolding_all rfl,
    by with_unfolding_all rfl, ?_⟩
  have refused : parseTokens [word, arrow, token .newline false, token .indent false,
      token .dedent false] =
        .error (Refusal.fault (token .dedent false) (.unexpected [.statement])) := by
    with_unfolding_all rfl
  rintro ⟨nodes, parsed⟩
  cases refused.symm.trans parsed

end Programs

end ScriptFront
