import Mathlib.Data.List.Chain
import ScriptFront.Proofs.Grammar.Following
import ScriptFront.Proofs.Grammar.TrailingBlocks

/-!
# Dedents that the end stands for

The bodies that are open at the end of a program may be closed by dedents, one after the other, as
long as there are any.  The program does not change by that, and it does not have to be read again
from its start: a reading with a dedent at the end is followed step by step by one without it.
-/

namespace ScriptFront

/-! ## Counting bodies -/

namespace Kind

theorem count_of_opens?
    {kind : Kind} {bracket : Bracket} (opens : kind.opens? = some bracket) :
    [kind].count .indent = [bracket].count .body ∧ [kind].count .dedent = 0 := by
  cases kind with
  | mark sign => cases sign <;> cases opens <;> exact ⟨rfl, rfl⟩
  | interpolationStart | indent => cases opens; exact ⟨rfl, rfl⟩
  | _ => cases opens

theorem count_of_closes?
    {kind : Kind} {bracket : Bracket} (closes : kind.closes? = some bracket) :
    [kind].count .dedent = [bracket].count .body ∧ [kind].count .indent = 0 := by
  cases kind with
  | mark sign => cases sign <;> cases closes <;> exact ⟨rfl, rfl⟩
  | interpolationEnd | dedent => cases closes; exact ⟨rfl, rfl⟩
  | _ => cases closes

theorem count_of_no_bracket
    {kind : Kind} (noOpen : kind.opens? = none) (noClose : kind.closes? = none) :
    [kind].count .indent = 0 ∧ [kind].count .dedent = 0 := by
  cases kind with
  | indent => cases noOpen
  | dedent => cases noClose
  | _ => exact ⟨rfl, rfl⟩

end Kind

namespace Bracket

variable {stack last : List Bracket} {kind : Kind} {kinds : List Kind}

theorem count_body_behind (isBehind : behind stack kind = some last) :
    stack.count .body + [kind].count .indent = last.count .body + [kind].count .dedent := by
  rcases behind_eq_some_iff.1 isBehind with
    ⟨bracket, opens, rfl⟩ | ⟨bracket, closes, rfl⟩ | ⟨noOpen, noClose, rfl⟩
  · have counts := Kind.count_of_opens? opens
    rw [counts.1, counts.2, ← List.singleton_append (l := stack), List.count_append]
    omega
  · have counts := Kind.count_of_closes? closes
    rw [counts.1, counts.2, ← List.singleton_append (l := last), List.count_append]
    omega
  · have counts := Kind.count_of_no_bracket noOpen noClose
    rw [counts.1, counts.2]

/-- A run of tokens leaves as many more bodies open as it has more indents than dedents. -/
theorem count_body_unclosed (isUnclosed : unclosed stack kinds = some last) :
    stack.count .body + kinds.count .indent = last.count .body + kinds.count .dedent := by
  induction kinds generalizing stack with
  | nil =>
      obtain rfl := Option.some.inj isUnclosed
      rfl
  | cons kind others inductionHypothesis =>
      obtain ⟨middle, isBehind, areOthers⟩ := Option.bind_eq_some_iff.1 isUnclosed
      have first := count_body_behind isBehind
      have rest := inductionHypothesis areOthers
      rw [← List.singleton_append, List.count_append, List.count_append]
      omega

end Bracket

namespace Cursor

variable {cursor other next last more final : Cursor} {token : Token} {kind : Kind} {depth : Nat}

/-- What a phrase passes over opens the bodies that the end of the tokens closes. -/
theorem Passes.counts (passes : cursor.Passes next) :
    ∃ passed bodies, cursor.ahead = passed ++ next.ahead ∧
      (passed.map Token.kind).count .indent = bodies + (passed.map Token.kind).count .dedent ∧
        (next.ahead ≠ [] → bodies = 0) := by
  rcases passes.leaves_bodies with ⟨passed, bodies, isPassed, -, leaves, closed⟩
  have counts := Bracket.count_body_unclosed leaves
  rw [List.count_nil, Nat.zero_add, List.count_replicate_self] at counts
  exact ⟨passed, bodies, isPassed, counts, closed⟩

/-! ## Colons and dedents -/

theorem StartsBody.peek_kind (starts : cursor.StartsBody next) : cursor.peek.kind = .newline := by
  rcases starts with ⟨line, isLine, -⟩
  exact isLine.peek_kind

/-- No phrase starts with a dedent. -/
theorem Passes.peek_ne_dedent (passes : cursor.Passes next) (moves : next.size < cursor.size) :
    cursor.peek.kind ≠ .dedent := by
  induction passes with
  | here => exact absurd moves (Nat.lt_irrefl _)
  | @append cursor middle next first _ startsFirst startsSecond =>
      rcases first.passed with ⟨passed, isPassed, sameEnding⟩
      by_cases stays : passed = []
      · -- The first part is empty, so that both parts start with the same token.
        have sameAhead : middle.ahead = cursor.ahead := by
          rw [isPassed, stays]
          rfl
        have samePeek : cursor.peek = middle.peek := by
          rw [peek, peek, peekAt, peekAt, sameAhead, sameEnding]
        have sameSize : middle.size = cursor.size := congrArg List.length sameAhead
        rw [samePeek]
        exact startsSecond (sameSize ▸ moves)
      · apply startsFirst
        have filled := List.length_pos_iff.2 stays
        rw [size, size, isPassed, List.length_append]
        omega
  | token takes alone =>
      rw [takes.peek]
      intro isDedent
      rw [isDedent] at alone
      cases alone
  | colon isColon =>
      rw [isColon.peek_kind]
      simp
  | bracket opens isOpener =>
      rw [opens.peek_kind]
      rintro rfl
      cases isOpener
  | body starts | openBody starts =>
      rw [starts.peek_kind]
      simp

end Cursor

/-- The second token is not a dedent directly behind a colon. -/
def Token.Parted (first second : Token) : Prop :=
  first.kind = .mark .colon → second.kind ≠ .dedent

namespace Token

variable {first : Token} {tokens others : List Token}

theorem isChain_parted_cons
    (noColon : first.kind ≠ .mark .colon) (chain : tokens.IsChain Parted) :
    (first :: tokens).IsChain Parted := by
  refine chain.cons ?_
  intro second _ isColon
  exact absurd isColon noColon

theorem isChain_parted_of_noColon
    (noColon : ∀ token ∈ tokens, token.kind ≠ .mark .colon) : tokens.IsChain Parted := by
  induction tokens with
  | nil => exact .nil
  | cons token rest inductionHypothesis =>
      rw [List.forall_mem_cons] at noColon
      exact isChain_parted_cons noColon.1 (inductionHypothesis noColon.2)

theorem isChain_parted_append
    (chain : tokens.IsChain Parted) (chainOthers : others.IsChain Parted)
    (ends : ∀ token, tokens.getLast? = some token → token.kind ≠ .mark .colon) :
    (tokens ++ others).IsChain Parted := by
  refine chain.append chainOthers ?_
  intro token isLast second _ isColon
  exact absurd isColon (ends token isLast)

end Token

namespace Cursor

variable {cursor other next last more final : Cursor} {token : Token} {kind : Kind} {depth : Nat}

theorem StartsBody.isChain_parted
    {passed : List Token} (starts : cursor.StartsBody next) (chain : passed.IsChain Token.Parted) :
    ∃ lines, cursor.ahead = lines ++ next.ahead ∧ (lines ++ passed).IsChain Token.Parted := by
  rcases starts.ahead with ⟨newline, lines, indent, isAhead, -, areNewlines, isIndent⟩
  refine ⟨newline :: lines ++ [indent], by rw [isAhead]; simp, ?_⟩
  have noColon : ∀ token ∈ newline :: lines ++ [indent], token.kind ≠ .mark .colon := by
    refine List.forall_mem_append.2 ⟨?_, ?_⟩
    · intro token member
      rw [areNewlines token member]
      simp
    · rw [List.forall_mem_singleton, isIndent]
      simp
  refine Token.isChain_parted_append (Token.isChain_parted_of_noColon noColon) chain ?_
  intro token isLast
  exact noColon token (List.mem_of_getLast? isLast)

/-- In a phrase no dedent stands directly behind a colon. -/
theorem Passes.isChain_parted (passes : cursor.Passes next) :
    ∃ passed, cursor.ahead = passed ++ next.ahead ∧ passed.IsChain Token.Parted := by
  induction passes with
  | here => exact ⟨[], rfl, .nil⟩
  | append first _ isFirst isSecond =>
      rcases first.last_ne_colon with ⟨left, isLeft, noColon⟩
      rcases isFirst with ⟨again, isAgain, chainLeft⟩
      obtain rfl := List.append_cancel_right (isAgain.symm.trans isLeft)
      rcases isSecond with ⟨right, isRight, chainRight⟩
      refine ⟨again ++ right, ?_, Token.isChain_parted_append chainLeft chainRight noColon⟩
      rw [isLeft, isRight, List.append_assoc]
  | @token _ _ token takes => exact ⟨[token], takes.ahead, .singleton token⟩
  | @colon _ middle _ isColon behind filled inner =>
      rcases isColon.ahead with ⟨colon, isAhead, -⟩
      rcases inner with ⟨passed, isPassed, chain⟩
      refine ⟨colon :: passed, by rw [isAhead, isPassed]; rfl, chain.cons ?_⟩
      intro second isSecond _
      have isPeek : middle.peek = second := by
        rcases List.head?_eq_some_iff.1 isSecond with ⟨rest, rfl⟩
        exact (takes_past isPassed).peek
      rw [← isPeek]
      exact behind.peek_ne_dedent filled
  | bracket opens isOpener _ behind closes _ inner =>
      rcases opens.ahead with ⟨opener, isAhead, rfl⟩
      rcases closes.ahead with ⟨closer, isBehind, -⟩
      rcases behind.last_ne_colon with ⟨passed, isPassed, noColon⟩
      rcases inner with ⟨again, isAgain, chain⟩
      obtain rfl := List.append_cancel_right (isAgain.symm.trans isPassed)
      have noColonHere : opener.kind ≠ .mark .colon := by
        intro isColon
        rw [isColon] at isOpener
        cases isOpener
      refine ⟨opener :: (again ++ [closer]), ?_, Token.isChain_parted_cons noColonHere ?_⟩
      · rw [isAhead, isPassed, isBehind]
        simp
      · exact Token.isChain_parted_append chain (.singleton closer) noColon
  | body starts behind closes inner =>
      rcases closes.ahead with ⟨dedent, isBehind, -⟩
      rcases behind.last_ne_colon with ⟨passed, isPassed, noColon⟩
      rcases inner with ⟨again, isAgain, chain⟩
      obtain rfl := List.append_cancel_right (isAgain.symm.trans isPassed)
      have chainBody := Token.isChain_parted_append chain (.singleton dedent) noColon
      rcases starts.isChain_parted chainBody with ⟨lines, isAhead, whole⟩
      refine ⟨lines ++ (again ++ [dedent]), ?_, whole⟩
      rw [isAhead, isPassed, isBehind]
      simp
  | openBody starts _ _ inner =>
      rcases inner with ⟨passed, isPassed, chain⟩
      rcases starts.isChain_parted chain with ⟨lines, isAhead, whole⟩
      refine ⟨lines ++ passed, ?_, whole⟩
      rw [isAhead, isPassed, List.append_assoc]

/-! ## The end in place of a dedent -/

/-- The search for a closing parenthesis does not need the dedent. -/
theorem behindParens?_of_onto
    {rest : List Token} (closes : more.Accepts .dedent final) (ends : final.ahead = [])
    (found : behindParens? 0 (cursor.onto more).ahead = some rest) :
    ∃ left, behindParens? 0 cursor.ahead = some left := by
  rcases closes.ahead with ⟨dedent, isMore, isDedent⟩
  rw [ends] at isMore
  have whole : (cursor.onto more).ahead = cursor.ahead ++ [dedent] := congrArg _ isMore
  rw [whole] at found
  have filled : rest ≠ [] := by
    rintro rfl
    rcases behindParens?_split found with ⟨front, paren, isSplit, isParen⟩
    obtain ⟨-, same⟩ := List.append_inj' isSplit rfl
    obtain rfl := List.singleton_inj.1 same
    cases isParen.symm.trans isDedent
  rcases behindParens?_of_append found (List.length_pos_iff.2 filled) with ⟨left, -, foundHere⟩
  exact ⟨left, foundHere⟩

namespace ShutBy

theorem end_of_other (shut : ShutBy more cursor other) (isEndOther : other.ahead = []) :
    cursor.ahead = [] := by
  cases shut with
  | ended isEnd => exact isEnd
  | ahead => exact (List.append_eq_nil_iff.1 isEndOther).1

/-- The layout ends the first place where it ends the second one. -/
theorem isLayout_peek_of_other
    (shut : ShutBy more cursor other) (layout : other.peek.kind.isLayout = true) :
    cursor.peek.kind.isLayout = true := by
  by_cases isEnd : cursor.ahead = []
  · rw [peek_of_end isEnd]
    rfl
  · cases shut with
    | ended isEndHere => exact absurd isEndHere isEnd
    | ahead noColon =>
        rw [peek_onto isEnd] at layout
        exact layout

theorem takes_of_other
    (shut : ShutBy more cursor other) (isDedent : more.peek.kind = .dedent)
    (takes : other.Takes token last) (inLine : token.kind.isLayout = false) :
    ∃ next, cursor.Takes token next ∧ ShutBy more next last := by
  cases shut with
  | ended _ isEndOther => exact absurd isEndOther (Accepts.ahead_ne_nil ⟨token, takes, rfl⟩)
  | ahead noColon =>
      have filled : cursor.ahead ≠ [] := by
        intro isEnd
        have isPeek := peek_onto_of_end isEnd more
        rw [takes.peek] at isPeek
        rw [isPeek, isDedent] at inLine
        cases inLine
      rcases takes_of_filled filled with ⟨first, next, takesHere⟩
      obtain ⟨rfl, rfl⟩ := (takesHere.onto more).unique takes
      exact ⟨next, takesHere, .ahead (noColon.takes takesHere)⟩

theorem endsStatement_of_other
    (shut : ShutBy more cursor other) (closes : more.Accepts .dedent final)
    (endsOther : other.EndsStatement last) :
    ∃ next, cursor.EndsStatement next ∧ ShutBy more next last := by
  by_cases isEnd : cursor.ahead = []
  · have endsHere := endsStatement_of_endsStatements (endsStatements_of_end isEnd true)
    rcases endsOther with accepts | ⟨-, -, rfl⟩
    · cases shut with
      | ended _ isEndOther => exact absurd isEndOther accepts.ahead_ne_nil
      | ahead noColon =>
          have isNewline := accepts.peek_kind
          rw [peek_onto_of_end isEnd, closes.peek_kind] at isNewline
          cases isNewline
    · exact ⟨cursor, endsHere, shut⟩
  · cases shut with
    | ended isEndHere => exact absurd isEndHere isEnd
    | ahead noColon =>
        rcases endsOther with accepts | ⟨differs, ends, rfl⟩
        · rcases accepts_of_onto accepts isEnd with ⟨next, acceptsHere, rfl⟩
          rcases acceptsHere with ⟨newline, takes, isNewline⟩
          exact ⟨next, Or.inl ⟨newline, takes, isNewline⟩, .ahead (noColon.takes takes)⟩
        · have alsoFilled : (cursor.onto more).ahead ≠ [] := by simp [Cursor.onto, isEnd]
          rw [isAt, atEnd_of_filled alsoFilled, peek_onto isEnd] at ends
          refine ⟨cursor, Or.inr ⟨peek_onto isEnd more ▸ differs, ?_, rfl⟩, .ahead noColon⟩
          rw [isAt, atEnd_of_filled isEnd]
          exact ends

end ShutBy

/-- What is read with the dedent at the end is read without it. -/
theorem simulation_of_shutBy (closes : more.Accepts .dedent final) (ends : final.ahead = []) :
    Simulation (fun _ other cursor => ShutBy more cursor other) False False where
  takes := fun shut takes inLine => shut.takes_of_other closes.peek_kind takes inLine
  afterBody := by
    intro depth other cursor shut filled
    cases shut with
    | ahead noColon => rfl
    | ended isEnd => exact absurd isEnd filled
  stops := by
    intro depth other cursor shut layout _
    exact Token.stopsPhrase_of_isLayout (shut.isLayout_peek_of_other layout)
  noComma := by
    intro depth other cursor shut layout _
    exact Kind.ne_of_isLayout (shut.isLayout_peek_of_other layout) rfl
  block := by
    intro depth other cursor shut layout _ isArrow
    have layoutHere := shut.isLayout_peek_of_other layout
    exact absurd isArrow (Kind.ne_of_isLayout layoutHere rfl)
  colon := by
    intro depth other cursor last next shut isColonOther isColon
    cases shut with
    | ahead noColon => exact (spaced_behind_colon_onto noColon isColon isColonOther).symm
    | ended isEnd => exact absurd isEnd isColon.ahead_ne_nil
  parens := by
    intro depth other cursor rest shut found
    cases shut with
    | ahead noColon =>
        rcases behindParens?_of_onto closes ends found with ⟨left, foundHere⟩
        refine (continuesBehindParens_onto ?_ foundHere).symm
        rw [closes.peek_kind]
        rfl
    | ended _ isEndOther =>
        rw [isEndOther] at found
        cases found
  noBody := by
    intro depth other cursor shut _ _ absent
    refine bodyStart?_eq_none ?_
    intro next starts
    cases shut with
    | ended isEnd =>
        rcases starts.ahead with ⟨newline, lines, indent, isAhead, -⟩
        rw [isEnd] at isAhead
        cases isAhead
    | ahead noColon =>
        rcases bodyStart?_of_startsBody (starts.onto more) with ⟨found, isFound, -⟩
        cases absent.symm.trans isFound
  body := fun shut starts => shut.startsBody closes.peek_kind starts
  skipNewlines := fun shut _ => shut.skipNewlines closes.peek_kind
  endsStatements := fun shut _ => (shut.endsStatements closes ends).symm
  endsStatement := fun shut _ endsOther => shut.endsStatement_of_other closes endsOther
  skipDedent := by
    intro depth other cursor shut _ endsOther
    exact shut.skipDedent closes ends ((shut.endsStatements closes ends).symm.trans endsOther)

end Cursor

namespace Phrase

open Cursor

/-- A program that is read with the dedent at the end is read without it. -/
theorem Reads.statements_of_shutBy
    {cursor other last more final : Cursor} {nodes : List Node}
    (reads : Reads (.statements false) other nodes last) (closes : more.Accepts .dedent final)
    (ends : final.ahead = []) (shut : ShutBy more cursor other) :
    ∃ next, Reads (.statements false) cursor nodes next := by
  have behind := shut.skipNewlines closes.peek_kind
  cases reads with
  | noStatements atEnd =>
      have isEndOther : other.skipNewlines.ahead = [] := by
        simpa [Cursor.endsStatements, Cursor.atEnd] using atEnd
      exact ⟨_, .noStatements (endsStatements_of_end (behind.end_of_other isEndOther) false)⟩
  | @moreStatements _ _ middle _ first others _ isFirst areOthers =>
      have shorter : middle.size < other.size :=
        Nat.lt_of_lt_of_le isFirst.statement_size_lt other.size_skipNewlines_le
      have inside : (1 : Nat) ≠ 0 := Nat.one_ne_zero
      rcases isFirst.simulated (simulation_of_shutBy closes ends) behind inside
        closed_of_nothing with ⟨place, readsFirst, shutMiddle⟩
      rcases areOthers.statements_of_shutBy closes ends shutMiddle with ⟨next, readsOthers⟩
      exact ⟨next, .moreStatements (readsFirst.statement_goesOn false) readsFirst readsOthers⟩
termination_by other.size

/-- The statements of a body that is open at the end are those of a program. -/
theorem Reads.statements_outside
    {cursor next : Cursor} {nodes : List Node}
    (reads : Reads (.statements true) cursor nodes next) (isEnd : next.ahead = []) :
    Reads (.statements false) cursor nodes next := by
  cases reads with
  | noStatements => exact .noStatements (endsStatements_of_end isEnd false)
  | moreStatements _ isFirst areOthers =>
      exact .moreStatements (isFirst.statement_goesOn false) isFirst
        (areOthers.statements_outside isEnd)
termination_by nodes

/-- Behind a body that ends with its dedent, or with the tokens, nothing but that dedent is left. -/
theorem Reads.ahead_of_skipDedent
    {cursor next : Cursor} {nodes : List Node}
    (reads : Reads (.statements true) cursor nodes next) (isEnd : next.skipDedent.ahead = [])
    (filled : next.ahead ≠ []) : ∃ dedent, next.ahead = [dedent] ∧ dedent.kind = .dedent := by
  have isDedent : next.peek.kind = .dedent := by
    simpa [Cursor.endsStatements, isAt, atEnd_of_filled filled] using reads.endsStatements
  rcases accepts_of_peek_kind isDedent (by simp) with ⟨last, accepts⟩
  rcases accepts.ahead with ⟨dedent, isAhead, isKind⟩
  rw [accepts.skipDedent_eq] at isEnd
  rw [isEnd] at isAhead
  exact ⟨dedent, isAhead, isKind⟩

end Phrase

/-! ## Dedents behind a program -/

section Programs

variable {tokens dedents : List Token} {dedent : Token} {nodes : List Node}

/-- A program has no more dedents than indents. -/
theorem count_dedent_le_of_parseTokens
    (noEnd : ∀ token ∈ tokens, token.kind ≠ .endOfInput) (parsed : parseTokens tokens = .ok nodes) :
    (tokens.map Token.kind).count .dedent ≤ (tokens.map Token.kind).count .indent := by
  rcases parseTokens_eq_ok_iff.1 parsed with ⟨next, reads⟩
  have passes : (Cursor.ofTokens tokens).Passes next := reads.passes
  rcases passes.counts with ⟨passed, bodies, isPassed, counts, -⟩
  rw [Cursor.ahead_eq_nil_of_program reads, List.append_nil, Cursor.ahead_ofTokens,
    Token.meaningful_eq noEnd] at isPassed
  rw [← isPassed, Token.count_significant rfl, Token.count_significant rfl] at counts
  omega

theorem Cursor.ofTokens_append_dedent
    (noEnd : ∀ token ∈ tokens, token.kind ≠ .endOfInput) (isDedent : dedent.kind = .dedent) :
    ∃ more final : Cursor, more.Accepts .dedent final ∧ final.ahead = [] ∧ more.ahead = [dedent] ∧
      ofTokens (tokens ++ [dedent]) = (ofTokens tokens).onto more := by
  have means : dedent.kind.isTrivia = false := by
    rw [isDedent]
    rfl
  have isLast : ofTokens [dedent] = ⟨[dedent], (ofTokens [dedent]).ending, false⟩ :=
    ofTokens_cons means (by simp [isDedent])
  have noDedent : Token.significant [dedent] ≠ [] := by
    rw [Token.significant_cons means]
    exact List.cons_ne_nil _ _
  rw [ofTokens_append noEnd noDedent, isLast]
  exact ⟨_, _, ⟨dedent, takes_past rfl, isDedent⟩, rfl, rfl, rfl⟩

/-- A dedent behind a program closes one of its bodies if there is an open one. -/
theorem parseTokens_append_dedent_iff
    (noEnd : ∀ token ∈ tokens, token.kind ≠ .endOfInput) (isDedent : dedent.kind = .dedent) :
    parseTokens (tokens ++ [dedent]) = .ok nodes ↔ parseTokens tokens = .ok nodes ∧
      (tokens.map Token.kind).count .dedent < (tokens.map Token.kind).count .indent := by
  constructor
  · intro parsed
    have noEndBehind : ∀ token ∈ tokens ++ [dedent], token.kind ≠ .endOfInput :=
      List.forall_mem_append.2 ⟨noEnd, by simp [isDedent]⟩
    have counts := count_dedent_le_of_parseTokens noEndBehind parsed
    rw [List.map_append, List.count_append, List.count_append, List.map_singleton, isDedent,
      List.count_singleton_self, List.count_singleton] at counts
    rcases parseTokens_eq_ok_iff.1 parsed with ⟨last, reads⟩
    rcases Cursor.ofTokens_append_dedent noEnd isDedent with
      ⟨more, final, closes, ends, isMore, whole⟩
    rw [whole] at reads
    have passes : ((Cursor.ofTokens tokens).onto more).Passes last := reads.passes
    have noColon : (Cursor.ofTokens tokens).NoLastColon := by
      rcases passes.isChain_parted with ⟨passed, isPassed, chain⟩
      rw [Cursor.ahead_eq_nil_of_program reads, List.append_nil, Cursor.onto, isMore] at isPassed
      rw [← isPassed] at chain
      intro token isLast isColon
      have parted := (List.isChain_append.1 chain).2.2
      exact parted token isLast dedent rfl isColon isDedent
    rcases reads.statements_of_shutBy closes ends (.ahead noColon) with ⟨next, readsHere⟩
    refine ⟨parseTokens_eq_ok_iff.2 ⟨next, readsHere⟩, Nat.lt_of_succ_le ?_⟩
    simpa using counts
  · rintro ⟨parsed, fewer⟩
    rcases Phrase.reads_statements_of_parseTokens parsed isDedent with ⟨last, reads, isEnd⟩
    by_cases filled : last.ahead = []
    · exact parseTokens_eq_ok_iff.2 ⟨last, reads.statements_outside filled⟩
    · -- The dedent would be left over, and so all bodies would be closed in front of it.
      exfalso
      rcases reads.ahead_of_skipDedent isEnd filled with ⟨left, isLeft, -⟩
      have passes : (Cursor.ofTokens (tokens ++ [dedent])).Passes last := reads.passes
      rcases passes.counts with ⟨passed, bodies, isPassed, counts, closed⟩
      rcases Cursor.ofTokens_append_dedent noEnd isDedent with ⟨more, -, -, -, isMore, whole⟩
      rw [whole, Cursor.onto, isMore, isLeft, Cursor.ahead_ofTokens,
        Token.meaningful_eq noEnd] at isPassed
      obtain ⟨rfl, -⟩ := List.append_inj' isPassed rfl
      rw [closed filled, Token.count_significant rfl, Token.count_significant rfl] at counts
      omega

/-- Dedents behind a program close its open bodies, if there are as many. -/
theorem parseTokens_append_dedents_iff
    (noEnd : ∀ token ∈ tokens, token.kind ≠ .endOfInput)
    (areDedents : ∀ dedent ∈ dedents, dedent.kind = .dedent) :
    parseTokens (tokens ++ dedents) = .ok nodes ↔ parseTokens tokens = .ok nodes ∧
      (tokens.map Token.kind).count .dedent + dedents.length ≤
        (tokens.map Token.kind).count .indent := by
  induction dedents generalizing tokens with
  | nil =>
      rw [List.append_nil]
      exact ⟨fun parsed => ⟨parsed, count_dedent_le_of_parseTokens noEnd parsed⟩, And.left⟩
  | cons dedent others inductionHypothesis =>
      rw [List.forall_mem_cons] at areDedents
      rcases areDedents with ⟨isDedent, areOthers⟩
      have noEndBehind : ∀ token ∈ tokens ++ [dedent], token.kind ≠ .endOfInput :=
        List.forall_mem_append.2 ⟨noEnd, by simp [isDedent]⟩
      have moreDedents : ((tokens ++ [dedent]).map Token.kind).count .dedent =
          (tokens.map Token.kind).count .dedent + 1 := by
        simp [isDedent]
      have sameIndents : ((tokens ++ [dedent]).map Token.kind).count .indent =
          (tokens.map Token.kind).count .indent := by
        simp [isDedent]
      rw [List.append_cons, inductionHypothesis noEndBehind areOthers, moreDedents, sameIndents,
        parseTokens_append_dedent_iff noEnd isDedent, List.length_cons, and_assoc]
      refine and_congr_right fun _ => ?_
      omega

/-- Dedents behind a program do not change it, and they are refused only where no body is left
open. -/
theorem parseTokens_append_dedents
    (noEnd : ∀ token ∈ tokens, token.kind ≠ .endOfInput)
    (areDedents : ∀ dedent ∈ dedents, dedent.kind = .dedent) (nodes : List Node) :
    (parseTokens (tokens ++ dedents) = .ok nodes → parseTokens tokens = .ok nodes) ∧
      (parseTokens tokens = .ok nodes →
        ∃ missing, (tokens.map Token.kind).count .indent =
            (tokens.map Token.kind).count .dedent + missing ∧
          (dedents.length ≤ missing → parseTokens (tokens ++ dedents) = .ok nodes) ∧
          (missing < dedents.length → ∃ fault, parseTokens (tokens ++ dedents) = .error fault)) := by
  refine ⟨fun parsed => ((parseTokens_append_dedents_iff noEnd areDedents).1 parsed).1, ?_⟩
  intro parsed
  rcases Nat.exists_eq_add_of_le (count_dedent_le_of_parseTokens noEnd parsed) with
    ⟨missing, isMissing⟩
  refine ⟨missing, isMissing, ?_, ?_⟩
  · intro enough
    refine (parseTokens_append_dedents_iff noEnd areDedents).2 ⟨parsed, ?_⟩
    omega
  · intro tooMany
    cases parsedFurther : parseTokens (tokens ++ dedents) with
    | error fault => exact ⟨fault, rfl⟩
    | ok others =>
        have counts := ((parseTokens_append_dedents_iff noEnd areDedents).1 parsedFurther).2
        omega

/-- Of two bodies that are open at the end both can be closed, and no third one. -/
theorem parseTokens_append_dedents_nested :
    ∃ (tokens : List Token) (dedent : Token) (nodes : List Node),
      tokens.map Token.kind = [.keyword .classWord, .constant "A", .newline, .indent,
        .keyword .moduleWord, .constant "B", .newline, .indent, .integer 1, .newline] ∧
      dedent.kind = .dedent ∧ parseTokens tokens = .ok nodes ∧
      parseTokens (tokens ++ [dedent, dedent]) = .ok nodes ∧
      ∃ fault, parseTokens (tokens ++ [dedent, dedent, dedent]) = .error fault := by
  let token (kind : Kind) : Token := ⟨kind, "", ⟨1, 1, none⟩, true⟩
  let tokens := [token (.keyword .classWord), token (.constant "A"), token .newline,
    token .indent, token (.keyword .moduleWord), token (.constant "B"), token .newline,
    token .indent, token (.integer 1), token .newline]
  have parsed : parseTokens tokens = .ok [.classDefinition (.constant "A") none
      [.moduleDefinition (.constant "B") [.integer 1]]] := by
    with_unfolding_all rfl
  have noEnd : ∀ token ∈ tokens, token.kind ≠ .endOfInput := by decide
  have areTwo : ∀ dedent ∈ [token .dedent, token .dedent], dedent.kind = .dedent := by decide
  have areThree : ∀ dedent ∈ [token .dedent, token .dedent, token .dedent],
      dedent.kind = .dedent := by decide
  rcases (parseTokens_append_dedents noEnd areTwo _).2 parsed with ⟨missing, counts, closed, -⟩
  have isTwo : missing = 2 := Nat.add_left_cancel (n := 0) counts.symm
  subst isTwo
  rcases (parseTokens_append_dedents noEnd areThree _).2 parsed with ⟨again, same, -, refused⟩
  have isTwo : again = 2 := Nat.add_left_cancel (n := 0) same.symm
  subst isTwo
  exact ⟨tokens, token .dedent, _, rfl, rfl, parsed, closed (Nat.le_refl 2),
    refused (Nat.lt_succ_self 2)⟩

end Programs

end ScriptFront
