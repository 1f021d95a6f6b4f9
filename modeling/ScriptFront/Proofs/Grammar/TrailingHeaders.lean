import ScriptFront.Proofs.Grammar.Delimiters
import ScriptFront.Proofs.Grammar.Gathering
import ScriptFront.Proofs.Grammar.HeaderEnds
import ScriptFront.Proofs.Grammar.RereadingPrograms

/-!
# Headers that take a body

A header stands alone, or it is the last argument of a call that has no parentheses.  If a newline,
an indent, the tokens of a program and a dedent follow, the statements of the program become its
body.
-/

namespace ScriptFront

namespace Phrase

open Cursor

variable {cursor next more final : Cursor} {node other : Node} {nodes : List Node}
  {inCommand : Bool}

/-! ## Entries -/

/-- An entry at the end, with a body behind its node. -/
theorem Reads.entry_onto
    (reads : Reads (.entry inCommand) cursor (.single node) next) (bodied : node.takesBody = true)
    (noColon : cursor.NoLastColon) (isNewline : more.peek.kind = .newline)
    (isEnd : final.ahead = [])
    (further : Reads (.primary inCommand) cursor node next →
      Reads (.primary inCommand) (cursor.onto more) other final) :
    Reads (.entry inCommand) (cursor.onto more) (.single other) final := by
  have simulation := simulation_lengthened isNewline
  have related : Lengthened more 0 cursor (cursor.onto more) := ⟨rfl, noColon⟩
  cases reads with
  | expression unnamed isNode =>
      have inLine := Kind.isLayout_of_startsPhrase isNode.binary_starts
      rcases isNode.binary_operand (Node.isOperand_of_takesBody bodied) with
        ⟨unsigned, isPrimary⟩
      have atEnd : final.peek = final.ending.token := peek_of_end isEnd
      have stops (kind : Kind) (real : kind ≠ .endOfInput) : final.peek.kind ≠ kind := by
        rw [atEnd]
        exact real.symm
      refine .expression (simulation.symbolKey? related inLine unnamed) ?_
        (separator?_eq_none (stops _ (by simp)))
      refine .binary (.operand (simulation.unary? related inLine unsigned)
        (further isPrimary)) (.stop ?_)
      intro operator binding place continues
      exact absurd continues.2.1.peek_kind (stops _ (by simp))

end Phrase

/-- How a node stands at the end of a statement: alone, or as the last argument of a call without
parentheses, which may stand in the same way. -/
inductive Trailing (make : List Node → Node) : (List Node → Node) → Prop where
  | alone : Trailing make make
  | argument (name : String) (list : List Node) {place : List Node → Node}
      (stands : Trailing make place) :
      Trailing make fun body => .call name (list ++ [place body]) none

theorem Trailing.takesBody
    {header : Header} {place : List Node → Node} (stands : Trailing header.node place)
    (body : List Node) : (place body).takesBody = true := by
  cases stands with
  | alone => exact header.node_takesBody body
  | argument => rfl

namespace Phrase

open Cursor

variable {cursor next more final : Cursor} {node other : Node} {nodes : List Node}

theorem Reads.entries_onto
    {inCommand : Bool} {front : List Entry} {behind : List Token}
    (reads : Reads (.entries inCommand) cursor (front ++ [.single node]) next)
    (bodied : node.takesBody = true) (noColon : cursor.NoLastColon)
    (isNewline : more.peek.kind = .newline) (isEnd : final.ahead = [])
    (ends : EndsInHeader (behind ++ cursor.ahead))
    (further : ∀ {place : Cursor} {before : List Token}, place.NoLastColon →
      EndsInHeader (before ++ place.ahead) → Reads (.primary inCommand) place node next →
      Reads (.primary inCommand) (place.onto more) other final) :
    Reads (.entries inCommand) (cursor.onto more) (front ++ [.single other]) final := by
  induction front generalizing cursor behind with
  | nil =>
      cases reads with
      | lastEntry isFirst =>
          have readsOnto := isFirst.entry_onto bodied noColon isNewline isEnd (further noColon ends)
          refine .lastEntry readsOnto ?_
          rw [peek_of_end isEnd]
          exact Kind.noConfusion
      | moreEntries _ _ areOthers => cases areOthers
  | cons first others inductionHypothesis =>
      rw [List.cons_append] at reads
      generalize isList : others ++ [Entry.single node] = list at reads
      cases reads with
      | lastEntry => simp at isList
      | @moreEntries _ _ middle start _ _ _ isFirst comma areOthers =>
          rw [← isList] at areOthers
          rcases isFirst.passed with ⟨passed, isPassed, -⟩
          rcases comma.ahead with ⟨token, isComma, -⟩
          have isWhole : behind ++ cursor.ahead = (behind ++ passed ++ [token]) ++ start.ahead := by
            rw [isPassed, isComma]
            simp
          rw [isWhole] at ends
          have noColonBehind := (isFirst.noColon_behind noColon).accepts comma
          have readsOthers := inductionHypothesis areOthers noColonBehind ends
          have related : Lengthened more 0 cursor (cursor.onto more) := ⟨rfl, noColon⟩
          have closed : Closed False True 0 (Form.final? (.entry inCommand) first) middle :=
            closed_of_accepts comma (by simp)
          rcases isFirst.simulated (simulation_lengthened isNewline) related trivial closed with
            ⟨_, readsFirst, rfl, -⟩
          exact .moreEntries readsFirst (comma.onto more) readsOthers

/-- Arguments without parentheses, with a body behind the last one. -/
theorem Reads.arguments_trailing
    {list : List Node} {before : List Token}
    (reads : Reads .arguments cursor (list ++ [node]) next)
    (bare : ∀ opened, cursor.Accepts (.mark .leftParen) opened →
      ¬Reads (.enclosed .rightParen) opened (list ++ [node]) next)
    (bodied : node.takesBody = true) (noColon : cursor.NoLastColon)
    (inLine : cursor.afterBody = false) (isNewline : more.peek.kind = .newline)
    (isEnd : final.ahead = []) (ends : EndsInHeader (before ++ cursor.ahead))
    (further : ∀ {place : Cursor} {before : List Token}, place.NoLastColon →
      EndsInHeader (before ++ place.ahead) → Reads (.primary true) place node next →
      Reads (.primary true) (place.onto more) other final) :
    Reads .arguments (cursor.onto more) (list ++ [other]) final := by
  have simulation := simulation_lengthened isNewline
  have related : Lengthened more 0 cursor (cursor.onto more) := ⟨rfl, noColon⟩
  have noHash (pairs : List (Pair Node)) : node ≠ .hash pairs := by
    rintro rfl
    cases bodied
  generalize isGathered : list ++ [node] = given at reads
  cases reads with
  | parenthesized opens _ areArguments =>
      rw [← isGathered] at areArguments
      exact absurd areArguments (bare _ opens)
  | larger opens part areEntries =>
      rcases Entry.eq_append_single isGathered.symm noHash with ⟨front, rfl, rfl⟩
      rcases accepts_of_peek_kind opens (by simp) with ⟨opened, accepts⟩
      rcases closed_of_continuesBehindParens (Bool.and_eq_true_iff.1 part).2 with ⟨rest, found⟩
      have layoutMore : more.peek.kind.isLayout = true := by
        rw [isNewline]
        rfl
      have readsOnto := areEntries.entries_onto bodied noColon isNewline isEnd ends further
      rw [← Entry.gather_append_single]
      refine .larger (accepts.onto more).peek_kind ?_ readsOnto
      rw [peek_onto accepts.ahead_ne_nil, continuesBehindParens_onto layoutMore found]
      exact part
  | command unopened starts areEntries =>
      rcases Entry.eq_append_single isGathered.symm noHash with ⟨front, rfl, rfl⟩
      have readsOnto := areEntries.entries_onto bodied noColon isNewline isEnd ends further
      have startsOnto := (simulation.atArgument related inLine).trans starts
      rw [← Entry.gather_append_single]
      exact .command (simulation.peek_kind_ne related inLine unopened rfl) startsOnto readsOnto
  | noArguments => simp at isGathered

theorem Reads.trailing_onto
    {header : Header} {place : List Node → Node} {inCommand : Bool} {before : List Token}
    (stands : Trailing header.node place)
    (reads : Reads (.primary inCommand) cursor (place []) next) (noColon : cursor.NoLastColon)
    (ends : EndsInHeader (before ++ cursor.ahead)) (newlines : next.OnlyNewlines)
    (bears : Bears more nodes final) :
    Reads (.primary inCommand) (cursor.onto more) (place nodes) final := by
  induction stands generalizing inCommand cursor before with
  | alone => exact reads.header_onto noColon newlines bears
  | @argument name list inner stands inductionHypothesis =>
      rcases reads.primary_bodied rfl with
        ⟨_, _, isClass⟩ | ⟨_, _, isModule⟩ | ⟨word, behind, here, isNamed⟩ | ⟨_, _, _, _, isNode⟩
      · cases isClass
      · cases isModule
      · have noColonBehind := noColon.accepts here
        have inLine : behind.afterBody = false := here.inLine (by simp)
        have simulation := simulation_lengthened bears.isNewline
        have related : Lengthened more 0 behind (behind.onto more) := ⟨rfl, noColonBehind⟩
        cases isNamed with
        | call noMethod areArguments isNode =>
            cases isNode with
            | withoutBlock =>
                rcases here.ahead with ⟨token, isAhead, -⟩
                have endsBehind : EndsInHeader ((before ++ [token]) ++ behind.ahead) := by
                  rw [List.append_assoc, List.singleton_append, ← isAhead]
                  exact ends
                have noMethodOnto : (behind.onto more).peek.kind ≠ .mark .arrow :=
                  simulation.peek_kind_ne related inLine noMethod rfl
                have bare (opened : Cursor) (opens : behind.Accepts (.mark .leftParen) opened) :
                    ¬Reads (.enclosed .rightParen) opened (list ++ [inner []]) next :=
                  fun areArguments => areArguments.not_parenthesized here opens newlines ends
                have argumentsOnto := areArguments.arguments_trailing bare (stands.takesBody [])
                  noColonBehind inLine bears.isNewline bears.isEnd endsBehind
                  fun noColon ends reads => inductionHypothesis reads noColon ends
                have noBlock : final.peek.kind ≠ .mark .blockArrow := by
                  rw [peek_of_end bears.isEnd]
                  exact Kind.noConfusion
                exact .name (here.onto more)
                  (.call noMethodOnto argumentsOnto (.withoutBlock (Or.inr noBlock)))
      · cases isNode

/-! ## Programs -/

theorem Reads.entry_primary
    {inCommand : Bool} (reads : Reads (.entry inCommand) cursor (.single node) next)
    (bodied : node.takesBody = true) : Reads (.primary inCommand) cursor node next := by
  cases reads with
  | expression _ isNode => exact (isNode.binary_operand (Node.isOperand_of_takesBody bodied)).2

/-- A program that is one statement, which may end with a body. -/
theorem Reads.lone_entry
    {last : Cursor} (reads : Reads (.statements false) cursor [node] last)
    (bodied : node.takesBody = true) :
    ∃ next, Reads (.entry false) cursor.skipNewlines (.single node) next ∧ next.OnlyNewlines := by
  cases reads with
  | @moreStatements _ _ middle _ _ _ _ isFirst areOthers =>
      have newlines : middle.OnlyNewlines := by
        cases areOthers with
        | noStatements ends =>
            rcases ahead_skipNewlines middle with ⟨lines, isAhead, -, areNewlines⟩
            have isEnd : middle.skipNewlines.ahead = [] := by
              simpa [Cursor.endsStatements, atEnd] using ends
            rw [isEnd, List.append_nil] at isAhead
            rw [OnlyNewlines, isAhead]
            exact areNewlines
      cases isFirst with
      | @statement _ place behind _ entry _ isEntry whole ends =>
          have newlinesBehind : behind.OnlyNewlines := by
            rcases ends with accepts | ⟨-, -, rfl⟩
            · rcases accepts.ahead with ⟨newline, isAhead, isNewline⟩
              intro token member
              rw [isAhead] at member
              rcases List.mem_cons.1 member with rfl | isBehind
              · exact isNewline
              · exact newlines token isBehind
            · exact newlines
          cases whole with
          | single => exact ⟨_, isEntry, newlinesBehind⟩
          | bareHash => cases bodied

theorem Reads.program_trailing
    {header : Header} {place : List Node → Node} {before : List Token} {last : Cursor}
    (stands : Trailing header.node place) (reads : Reads (.statements false) cursor [place []] last)
    (noColon : cursor.NoLastColon) (ends : EndsInHeader (before ++ cursor.skipNewlines.ahead))
    (bears : Bears more nodes final) :
    Reads (.statements false) (cursor.onto more) [place nodes] final := by
  have bodied := stands.takesBody []
  rcases reads.lone_entry bodied with ⟨next, isEntry, newlines⟩
  have noColonBehind := noColon.skipNewlines
  have readsOnto : Reads (.entry false) (cursor.skipNewlines.onto more) (.single (place nodes))
      final :=
    isEntry.entry_onto bodied noColonBehind bears.isNewline bears.isEnd
      fun isPrimary => isPrimary.trailing_onto stands noColonBehind ends newlines bears
  have starts := isEntry.entry_starts
  have filled : cursor.skipNewlines.ahead ≠ [] := by
    intro isEnd
    rw [peek_of_end isEnd] at starts
    cases starts
  have noNewline : (cursor.skipNewlines.onto more).peek.kind ≠ .newline := by
    rw [peek_onto filled]
    intro isNewline
    rw [isNewline] at starts
    cases starts
  have isProgram := reads_program_of_entry readsOnto bears.isEnd noNewline
  apply isProgram.statements_congr
  rw [skipNewlines_onto filled, skipNewlines_of_none (accept?_eq_none noNewline)]

/-- The tokens of a header that is a program of its own end like a header. -/
theorem Reads.program_ends
    {header : Header} {last : Cursor}
    (reads : Reads (.statements false) cursor [header.node []] last) :
    EndsInHeader cursor.ahead := by
  have bodied := header.node_takesBody []
  rcases reads.lone_entry bodied with ⟨next, isEntry, newlines⟩
  rcases ahead_skipNewlines cursor with ⟨lines, isAhead, -⟩
  have ends := (isEntry.entry_primary bodied).header_ends newlines
  rw [isAhead]
  exact ends.append lines

end Phrase

theorem Cursor.startsBody_append
    {lines rest : List Token} {indent : Token} (areLines : Token.AreNewlines lines)
    (some : lines ≠ []) (isIndent : indent.kind = .indent) (ending : Ending) (flag : Bool) :
    (Cursor.mk (lines ++ indent :: rest) ending flag).StartsBody ⟨rest, ending, false⟩ := by
  cases lines with
  | nil => exact absurd rfl some
  | cons first others =>
      have areOthers (line : Token) (member : line ∈ others) : line.kind = .newline :=
        areLines line (List.mem_cons_of_mem first member)
      have stops : (Cursor.mk (indent :: rest) ending false).peek.kind ≠ .newline := by
        intro isNewline
        cases isIndent.symm.trans isNewline
      rcases skipNewlines_append areOthers stops false with ⟨last, skipped⟩
      have isLine : (Cursor.mk (first :: (others ++ indent :: rest)) ending flag).Accepts .newline
          ⟨others ++ indent :: rest, ending, false⟩ :=
        accepts_cons (areLines first List.mem_cons_self) (by simp)
      refine ⟨_, isLine, ?_⟩
      rw [skipped]
      exact accepts_cons isIndent (by simp)

/-- Statements behind an indent, up to the end of the input or to a dedent in front of it. -/
theorem Cursor.bears_of_statements
    {start last : Cursor} {nodes : List Node} {lines : List Token} {indent : Token}
    (reads : Phrase.Reads (.statements true) start nodes last) (inLine : start.afterBody = false)
    (isEnd : last.skipDedent.ahead = []) (some : nodes ≠ [])
    (areLines : Token.AreNewlines lines) (parted : lines ≠ []) (isIndent : indent.kind = .indent) :
    Bears ⟨lines ++ indent :: start.ahead, start.ending, false⟩ nodes last.skipDedent := by
  refine ⟨?_, ?_, isEnd⟩
  · cases lines with
    | nil => exact absurd rfl parted
    | cons first others => exact areLines first List.mem_cons_self
  · intro cursor newlines
    have areAll : Token.AreNewlines (cursor.ahead ++ lines) :=
      List.forall_mem_append.2 ⟨newlines, areLines⟩
    have partedHere : cursor.ahead ++ lines ≠ [] := List.append_ne_nil_of_right_ne_nil _ parted
    have starts :
        (Cursor.mk ((cursor.ahead ++ lines) ++ indent :: start.ahead) start.ending
          cursor.afterBody).StartsBody ⟨start.ahead, start.ending, false⟩ :=
      startsBody_append areAll partedHere isIndent start.ending cursor.afterBody
    rw [List.append_assoc] at starts
    have isStart : Cursor.mk start.ahead start.ending false = start := by
      rw [← inLine]
    exact .body starts (isStart ▸ reads) some

/-- The tokens of a program are a body between an indent and a dedent. -/
theorem Cursor.bears_of_parseTokens
    {inner : List Token} {nodes : List Node} {newline indent dedent : Token}
    (noEnd : ∀ token ∈ inner, token.kind ≠ .endOfInput) (isNewline : newline.kind = .newline)
    (isIndent : indent.kind = .indent) (isDedent : dedent.kind = .dedent)
    (parsed : parseTokens inner = .ok nodes) (some : nodes ≠ []) (ending : Ending) :
    ∃ final, Bears ⟨newline :: indent :: (Token.significant inner ++ [dedent]), ending, false⟩ nodes
      final := by
  rcases reads_body_of_parseTokens noEnd parsed isDedent ending with ⟨last, areNodes, isEnd⟩
  have areLines : Token.AreNewlines [newline] := List.forall_mem_singleton.2 isNewline
  have parted : [newline] ≠ [] := List.cons_ne_nil newline []
  exact ⟨last.skipDedent, bears_of_statements areNodes rfl isEnd some areLines parted isIndent⟩

theorem Token.meaningful_indented
    {front inner : List Token} {newline indent dedent : Token}
    (noEnd : ∀ token ∈ front, token.kind ≠ .endOfInput)
    (noEndInner : ∀ token ∈ inner, token.kind ≠ .endOfInput)
    (isNewline : newline.kind = .newline) (isIndent : indent.kind = .indent)
    (isDedent : dedent.kind = .dedent) :
    meaningful (front ++ newline :: indent :: inner ++ [dedent]) =
      meaningful front ++ newline :: indent :: (significant inner ++ [dedent]) := by
  have noEndBehind : ∀ token ∈ newline :: indent :: inner ++ [dedent],
      token.kind ≠ .endOfInput := by
    simp only [List.cons_append, List.forall_mem_cons, List.forall_mem_append, isNewline, isIndent]
    refine ⟨Kind.noConfusion, Kind.noConfusion, noEndInner, ?_⟩
    simp [isDedent]
  have isBody : significant (newline :: indent :: inner ++ [dedent]) =
      newline :: indent :: (significant inner ++ [dedent]) := by
    simp [significant, isTrivia, isNewline, isIndent, isDedent, Kind.isTrivia]
  have whole : front ++ newline :: indent :: inner ++ [dedent] =
      front ++ (newline :: indent :: inner ++ [dedent]) := List.append_assoc ..
  rw [whole, meaningful_append noEnd, meaningful_eq noEnd, meaningful_eq noEndBehind, isBody]

/-- The statements of a program are the body of a header that stands alone or as the last argument
of a call without parentheses, if they are indented behind it. -/
theorem parseTokens_indented
    {header : Header} {place : List Node → Node} {front head inner : List Token}
    {newline indent dedent : Token} {nodes : List Node}
    (stands : Trailing header.node place)
    (noEnd : ∀ token ∈ front ++ head, token.kind ≠ .endOfInput)
    (noEndInner : ∀ token ∈ inner, token.kind ≠ .endOfInput)
    (isNewline : newline.kind = .newline) (isIndent : indent.kind = .indent)
    (isDedent : dedent.kind = .dedent)
    (isHeader : parseTokens head = .ok [header.node []])
    (isStatement : parseTokens (front ++ head) = .ok [place []])
    (parsed : parseTokens inner = .ok nodes) (some : nodes ≠ []) :
    parseTokens (front ++ head ++ newline :: indent :: inner ++ [dedent]) = .ok [place nodes] := by
  let tokens := front ++ head ++ newline :: indent :: inner ++ [dedent]
  let body := newline :: indent :: (Token.significant inner ++ [dedent])
  let more : Cursor := ⟨body, (Cursor.ofTokens tokens).ending, false⟩
  have joined : (Cursor.ofTokens tokens).ahead = (Cursor.ofTokens (front ++ head)).ahead ++ body :=
    Token.meaningful_indented noEnd noEndInner isNewline isIndent isDedent
  have whole : Cursor.ofTokens tokens = (Cursor.ofTokens (front ++ head)).onto more := by
    calc
      Cursor.ofTokens tokens
      _ = ⟨(Cursor.ofTokens tokens).ahead, (Cursor.ofTokens tokens).ending, false⟩ := rfl
      _ = (Cursor.ofTokens (front ++ head)).onto more := by
        rw [joined]
        rfl
  have ends : EndsInHeader (Cursor.ofTokens (front ++ head)).ahead := by
    rcases parseTokens_eq_ok_iff.1 isHeader with ⟨_, readsHeader⟩
    have noEndFront : ∀ token ∈ front, token.kind ≠ .endOfInput := by
      intro token member
      exact noEnd token (List.mem_append_left head member)
    rw [Cursor.ahead_ofTokens, Token.meaningful_append noEndFront]
    exact readsHeader.program_ends.append (Token.significant front)
  rcases parseTokens_eq_ok_iff.1 isStatement with ⟨_, reads⟩
  rcases Cursor.bears_of_parseTokens noEndInner isNewline isIndent isDedent parsed some
    (Cursor.ofTokens tokens).ending with ⟨final, bears⟩
  rcases Cursor.ahead_skipNewlines (Cursor.ofTokens (front ++ head)) with ⟨lines, isAhead, -⟩
  rw [isAhead] at ends
  rw [parseTokens_eq_ok_iff, whole]
  exact ⟨final, reads.program_trailing stands reads.noLastColon ends bears⟩

/-- The body of a method that is the last argument of a call. -/
theorem parseTokens_indented_argument :
    ∃ tokens : List Token,
      tokens.map Token.kind =
        [.identifier "g", .integer 1, .mark .comma, .identifier "m", .mark .arrow, .newline,
          .indent, .integer 2, .newline, .integer 3, .dedent] ∧
      parseTokens tokens =
        .ok [.call "g" [.integer 1, .method "m" ⟨[], [.integer 2, .integer 3]⟩] none] := by
  let tokens : List (Kind × Bool) → List Token :=
    List.map fun (kind, spaced) => ⟨kind, "", ⟨1, 1, none⟩, spaced⟩
  let front := tokens [(.identifier "g", false), (.integer 1, true), (.mark .comma, false)]
  let head := tokens [(.identifier "m", true), (.mark .arrow, true)]
  let inner := tokens [(.integer 2, false), (.newline, false), (.integer 3, false)]
  let layout (kind : Kind) : Token := ⟨kind, "", ⟨1, 1, none⟩, false⟩
  have stands : Trailing (Header.method "m" []).node fun body =>
      .call "g" ([.integer 1] ++ [.method "m" ⟨[], body⟩]) none :=
    .argument "g" [.integer 1] .alone
  have isHeader : parseTokens head = .ok [.method "m" ⟨[], []⟩] := by
    with_unfolding_all rfl
  have isStatement : parseTokens (front ++ head) =
      .ok [.call "g" [.integer 1, .method "m" ⟨[], []⟩] none] := by
    with_unfolding_all rfl
  have parsed : parseTokens inner = .ok [.integer 2, .integer 3] := by
    with_unfolding_all rfl
  have noEnd : ∀ token ∈ front ++ head, token.kind ≠ .endOfInput := by
    simp [front, head, tokens]
  have noEndInner : ∀ token ∈ inner, token.kind ≠ .endOfInput := by
    simp [inner, tokens]
  exact ⟨front ++ head ++ layout .newline :: layout .indent :: inner ++ [layout .dedent], rfl,
    parseTokens_indented stands noEnd noEndInner rfl rfl rfl isHeader isStatement parsed (by simp)⟩

/-! ## Written headers -/

namespace Phrase

/-- All of these tokens are a list of parameters. -/
def IsParameters (tokens : List Token) (list : List (Parameter Node)) : Prop :=
  ∀ ending, ∃ flag, Reads .parameters ⟨tokens, ending, false⟩ list ⟨[], ending, flag⟩

/-- All of these tokens are the arguments of a call and the mark that closes them. -/
def IsEnclosed (closer : Mark) (tokens : List Token) (list : List Node) : Prop :=
  ∀ rest ending, ∃ flag,
    Reads (.enclosed closer) ⟨tokens ++ rest, ending, false⟩ list ⟨rest, ending, flag⟩

end Phrase

open Phrase in
/-- The tokens that a header is written with. -/
inductive Header.Written : Header → List Token → Prop where
  | classWord {word name : Token} {text : String} (isWord : word.kind = .keyword .classWord)
      (isName : name.kind = .constant text) :
      Written (.classWord (.constant text) none) [word, name]
  | derivedClass {word name less base : Token} {text other : String}
      (isWord : word.kind = .keyword .classWord) (isName : name.kind = .constant text)
      (isLess : less.kind = .operator .less) (isBase : base.kind = .constant other) :
      Written (.classWord (.constant text) (some (.constant other))) [word, name, less, base]
  | moduleWord {word name : Token} {text : String} (isWord : word.kind = .keyword .moduleWord)
      (isName : name.kind = .constant text) : Written (.moduleWord (.constant text)) [word, name]
  | method {word arrow : Token} {tokens : List Token} {name : String}
      {list : List (Parameter Node)} (isWord : word.kind = .identifier name)
      (isArrow : arrow.kind = .mark .arrow) (areParameters : IsParameters tokens list) :
      Written (.method name list) (word :: arrow :: tokens)
  | block {arrow : Token} {tokens : List Token} {list : List (Parameter Node)}
      (isArrow : arrow.kind = .mark .blockArrow) (areParameters : IsParameters tokens list) :
      Written (.block list) (arrow :: tokens)
  | call {word arrow : Token} {tokens : List Token} {name : String}
      {list : List (Parameter Node)} (isWord : word.kind = .identifier name)
      (isArrow : arrow.kind = .mark .blockArrow) (areParameters : IsParameters tokens list) :
      Written (.call name [] list) (word :: arrow :: tokens)
  | callWith {word opener arrow : Token} {given tokens : List Token} {name : String}
      {arguments : List Node} {list : List (Parameter Node)} (isWord : word.kind = .identifier name)
      (isOpener : opener.kind = .mark .leftParen)
      (areGiven : IsEnclosed .rightParen given arguments)
      (isArrow : arrow.kind = .mark .blockArrow) (areParameters : IsParameters tokens list) :
      Written (.call name arguments list) (word :: opener :: (given ++ arrow :: tokens))

namespace Phrase

open Cursor

variable {ending : Ending} {flag : Bool}

theorem reads_body_of_end : Reads .body ⟨[], ending, flag⟩ [] ⟨[], ending, flag⟩ :=
  .noBody (bodyStart?_of_noIndent (List.forall_mem_nil _))

theorem IsParameters.definition
    {tokens : List Token} {list : List (Parameter Node)} (areParameters : IsParameters tokens list)
    (ending : Ending) :
    ∃ flag, Reads .definition ⟨tokens, ending, false⟩ ⟨list, []⟩ ⟨[], ending, flag⟩ := by
  rcases areParameters ending with ⟨flag, reads⟩
  exact ⟨flag, .definition reads reads_body_of_end⟩

/-- A block takes no argument from the parentheses in front of it. -/
theorem IsEnclosed.arguments
    {opener arrow : Token} {given tokens : List Token} {list : List Node}
    (areGiven : IsEnclosed .rightParen given list) (isOpener : opener.kind = .mark .leftParen)
    (isArrow : arrow.kind = .mark .blockArrow) (ending : Ending) :
    ∃ flag, Reads .arguments ⟨opener :: (given ++ arrow :: tokens), ending, false⟩ list
      ⟨arrow :: tokens, ending, flag⟩ := by
  rcases areGiven (arrow :: tokens) ending with ⟨flag, reads⟩
  have opens : (Cursor.mk (opener :: (given ++ arrow :: tokens)) ending false).Accepts
      (.mark .leftParen) ⟨given ++ arrow :: tokens, ending, false⟩ :=
    accepts_cons isOpener (by simp)
  rcases reads.spans with ⟨closing, inner, closes⟩
  rcases behindParens?_of_parens opens inner closes with ⟨passed, isPassed, -, pass⟩
  have found : behindParens? 0 (opener :: (given ++ arrow :: tokens)) = some (arrow :: tokens) := by
    have isWhole : opener :: (given ++ arrow :: tokens) = passed ++ arrow :: tokens := isPassed
    rw [isWhole]
    exact pass 0 _
  have noArgument : continuesArgument arrow = false := by
    rw [continuesArgument, isArrow]
  refine ⟨flag, .parenthesized opens ?_ reads⟩
  rw [continuesBehindParens, found]
  simp only [noArgument, Bool.and_false]

theorem reads_primary_of_written
    {header : Header} {head : List Token} (written : header.Written head) (ending : Ending) :
    ∃ flag, Reads (.primary false) ⟨head, ending, false⟩ (header.node []) ⟨[], ending, flag⟩ := by
  cases written with
  | classWord isWord isName =>
      exact ⟨false, .classWord (accepts_cons isWord (by simp))
        (.classDefinition (accepts_cons isName (by simp)) Kind.noConfusion reads_body_of_end)⟩
  | derivedClass isWord isName isLess isBase =>
      exact ⟨false, .classWord (accepts_cons isWord (by simp))
        (.derivedClass (accepts_cons isName (by simp)) (accepts_cons isLess (by simp))
          (accepts_cons isBase (by simp)) reads_body_of_end)⟩
  | moduleWord isWord isName =>
      exact ⟨false, .moduleWord (accepts_cons isWord (by simp))
        (.moduleDefinition (accepts_cons isName (by simp)) reads_body_of_end)⟩
  | method isWord isArrow areParameters =>
      rcases areParameters.definition ending with ⟨flag, reads⟩
      exact ⟨flag, .name (accepts_cons isWord (by simp))
        (.method (accepts_cons isArrow (by simp)) reads)⟩
  | block isArrow areParameters =>
      rcases areParameters.definition ending with ⟨flag, reads⟩
      exact ⟨flag, .block (accepts_cons isArrow (by simp)) reads⟩
  | @call _ arrow tokens _ _ isWord isArrow areParameters =>
      rcases areParameters.definition ending with ⟨flag, reads⟩
      have peeks : (Cursor.mk (arrow :: tokens) ending false).peek = arrow := rfl
      have noArgument : (Cursor.mk (arrow :: tokens) ending false).atArgument = false := by
        simp [atArgument, peeks, isArrow]
      have noArguments : Reads .arguments ⟨arrow :: tokens, ending, false⟩ [] _ :=
        .noArguments (by simp [peeks, isArrow]) noArgument
      exact ⟨flag, .name (accepts_cons isWord (by simp)) (.call (by simp [peeks, isArrow])
        noArguments (.withBlock (accepts_cons isArrow (by simp)) reads))⟩
  | @callWith _ opener arrow given tokens _ _ _ isWord isOpener areGiven isArrow areParameters =>
      rcases areGiven.arguments isOpener isArrow ending with ⟨behind, readsGiven⟩
      rcases areParameters.definition ending with ⟨flag, reads⟩
      have peeks : (Cursor.mk (opener :: (given ++ arrow :: tokens)) ending false).peek = opener :=
        rfl
      have arrowBehind : (Cursor.mk (arrow :: tokens) ending behind).Accepts (.mark .blockArrow)
          ⟨tokens, ending, false⟩ :=
        ⟨arrow, ⟨rfl, rfl, by simp [isArrow]⟩, isArrow⟩
      exact ⟨flag, .name (accepts_cons isWord (by simp)) (.call (by simp [peeks, isOpener])
        readsGiven (.withBlock arrowBehind reads))⟩

/-- What a header starts with is no operator and no key of a pair. -/
theorem starts_of_written
    {header : Header} {head : List Token} (written : header.Written head) (ending : Ending) :
    ∃ first rest, head = first :: rest ∧ (∀ operator, first.kind ≠ .operator operator) ∧
      first.kind ≠ .newline ∧ (Cursor.mk head ending false).symbolKey? = none := by
  cases written with
  | classWord isWord isName | derivedClass isWord isName | moduleWord isWord isName =>
      exact ⟨_, _, rfl, by simp [isWord], by simp [isWord],
        symbolKey?_eq_none_of_second isName (by simp)⟩
  | method isWord isArrow | call isWord isArrow =>
      exact ⟨_, _, rfl, by simp [isWord], by simp [isWord],
        symbolKey?_eq_none_of_second isArrow (by simp)⟩
  | block isArrow =>
      exact ⟨_, _, rfl, by simp [isArrow], by simp [isArrow],
        symbolKey?_cons_of_kind isArrow (by simp) (by simp)⟩
  | callWith isWord isOpener =>
      exact ⟨_, _, rfl, by simp [isWord], by simp [isWord],
        symbolKey?_eq_none_of_second isOpener (by simp)⟩

theorem reads_program_of_written
    {header : Header} {head : List Token} (written : header.Written head) (ending : Ending) :
    ∃ next, Reads (.statements false) ⟨head, ending, false⟩ [header.node []] next := by
  rcases starts_of_written written ending with ⟨first, rest, rfl, noSign, noNewline, unnamed⟩
  rcases reads_primary_of_written written ending with ⟨flag, reads⟩
  exact ⟨_, reads_program_of_primary reads rfl rfl noSign noNewline unnamed⟩

end Phrase

/-- A header is a program of its own, with nothing in its body. -/
theorem parseTokens_of_written
    {header : Header} {head : List Token} (written : header.Written head)
    (isBare : Token.meaningful head = head) : parseTokens head = .ok [header.node []] := by
  have isStart : Cursor.ofTokens head = ⟨head, (Cursor.ofTokens head).ending, false⟩ := by
    calc
      Cursor.ofTokens head
      _ = ⟨Token.meaningful head, (Cursor.ofTokens head).ending, false⟩ := rfl
      _ = ⟨head, (Cursor.ofTokens head).ending, false⟩ := by rw [isBare]
  rw [parseTokens_eq_ok_iff, isStart]
  exact Phrase.reads_program_of_written written _

end ScriptFront
