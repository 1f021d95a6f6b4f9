import ScriptFront.Proofs.Token.Brackets
import ScriptFront.Proofs.Token.Shape

/-!
# Expressions inserted into strings

The stack of modes holds the braces and the inserted expressions that are open.  A closing brace
therefore belongs to the last of them: it ends an inserted expression only where all braces of that
expression are closed.
-/

namespace ScriptFront

namespace Bracket

/-- The brackets that are written with braces. -/
def isBraced : Bracket → Bool
  | .brace | .insertion => true
  | _ => false

/-- The tokens that stand outside inserted expressions, of which the given number is open. -/
def outsideInsertions : Nat → List Kind → List Kind
  | _, [] => []
  | depth, .interpolationStart :: others => outsideInsertions (depth + 1) others
  | depth, .interpolationEnd :: others => outsideInsertions (depth - 1) others
  | 0, kind :: others => kind :: outsideInsertions 0 others
  | depth + 1, _ :: others => outsideInsertions (depth + 1) others

end Bracket

/-- The brackets that the code of a frame has open. -/
def Frame.brackets (frame : Frame) : List Bracket :=
  match frame.mode with
  | .code =>
    List.replicate frame.openBraces .brace ++ if frame.interpolating then [.insertion] else []
  | _ => []

namespace ModeStack

/-- The brackets that are open, the last one first. -/
def brackets (modes : ModeStack) : List Bracket := modes.frames.flatMap Frame.brackets

variable {modes after : ModeStack} {input : List Char} {kind : Kind}

/-! ## One step -/

theorem brackets_of_code (isCode : modes.mode = .code) :
    modes.brackets = List.replicate modes.top.openBraces .brace ++
      ((if modes.top.interpolating then [.insertion] else []) ++
        modes.below.flatMap Frame.brackets) := by
  have topMode : modes.top.mode = .code := isCode
  simp only [brackets, frames, List.flatMap_cons, Frame.brackets, topMode, List.append_assoc]

theorem brackets_of_ne_code (notCode : modes.mode ≠ .code) :
    modes.brackets = modes.below.flatMap Frame.brackets := by
  have bare : modes.top.brackets = [] := by
    unfold Frame.brackets
    split
    · rename_i isCode
      exact absurd isCode notCode
    · rfl
  rw [brackets, frames, List.flatMap_cons, bare, List.nil_append]

/-- What is taken off the stack lies on another frame. -/
theorem Sound.below_eq_frames
    (sound : modes.Sound input) (surrounded : modes.mode ≠ .code ∨ modes.top.interpolating = true) :
    modes.below = modes.pop.2.frames := by
  rcases modes with ⟨top, _ | ⟨lower, others⟩⟩
  · obtain ⟨isCode, alone, -⟩ := sound.layered
    rcases surrounded with notCode | inserted
    · exact absurd isCode notCode
    · cases alone.symm.trans inserted
  · rfl

/-- Code that was not inserted lies on nothing. -/
theorem Sound.below_of_alone
    (sound : modes.Sound input) (isCode : modes.mode = .code)
    (alone : modes.top.interpolating = false) : modes.below = [] := by
  rcases modes with ⟨top, _ | ⟨lower, others⟩⟩
  · rfl
  · have liesOn := sound.layered.1
    have topMode : top.mode = .code := isCode
    simp only [Frame.LiesOn, topMode] at liesOn
    cases alone.symm.trans liesOn.1

/-- Other brackets are not written with braces. -/
theorem not_isBraced_of_isPlain (isPlain : kind.isPlain = true) :
    kind.isOf Bracket.isBraced = false := by
  cases kind with
  | mark sign => cases sign <;> first | rfl | cases isPlain
  | interpolationStart | interpolationEnd => cases isPlain
  | _ => rfl

open ScriptFront.Bracket in
/-- A token changes the open brackets as its kind says.  Only a closing brace that stands outside
all brackets is passed over. -/
theorem Turns.brackets
    (turns : modes.Turns input kind after) (sound : modes.Sound input) :
    (kind = .mark .rightBrace ∧ modes.brackets = [] ∧ after.brackets = []) ∨
      unclosed modes.brackets (only isBraced [kind]) = some after.brackets := by
  cases turns with
  | plain _ isPlain =>
      rw [only_eq_nil (not_isBraced_of_isPlain isPlain)]
      exact Or.inr rfl
  | braceOpens isCode =>
      have opened : modes.openBrace.brackets = .brace :: modes.brackets := by
        have stillCode : modes.openBrace.mode = .code := isCode
        rw [brackets_of_code isCode, brackets_of_code stillCode]
        rfl
      rw [opened]
      exact Or.inr (unclosed_only_of_opens rfl rfl _)
  | @braceCloses outer isCode counted =>
      have stillCode : mode { modes with top := { modes.top with openBraces := outer } } = .code :=
        isCode
      rw [brackets_of_code isCode, brackets_of_code stillCode, counted]
      exact Or.inr (unclosed_only_of_closes rfl rfl _)
  | strayBrace isCode uncounted alone =>
      have noBrackets : modes.brackets = [] := by
        rw [brackets_of_code isCode, sound.below_of_alone isCode alone, uncounted, alone]
        rfl
      exact Or.inl ⟨rfl, noBrackets, noBrackets⟩
  | insertionStarts isRich =>
      have opened : modes.pushInterpolation.brackets = .insertion :: modes.brackets := by
        have notCode : modes.mode ≠ .code := by simp [isRich]
        have still : (modes.setSegmentOpen true).mode ≠ .code := notCode
        rw [brackets_of_ne_code notCode, brackets_of_code rfl]
        exact congrArg (.insertion :: ·) (brackets_of_ne_code still)
      rw [opened]
      exact Or.inr (unclosed_only_of_opens rfl rfl _)
  | insertionEnds isCode uncounted inserted =>
      rw [brackets_of_code isCode, sound.below_eq_frames (Or.inr inserted), uncounted, inserted]
      exact Or.inr (unclosed_only_of_closes rfl rfl _)
  | piece isString =>
      have notCode : modes.mode ≠ .code := Mode.ne_code_of_isString isString
      have still : (modes.setSegmentOpen false).mode ≠ .code := notCode
      rw [brackets_of_ne_code notCode, brackets_of_ne_code still]
      exact Or.inr rfl
  | commentStarts => exact Or.inr rfl
  | commentEnds isComment =>
      have notCode : modes.mode ≠ .code := by simp [isComment]
      rw [brackets_of_ne_code notCode, sound.below_eq_frames (Or.inl notCode)]
      exact Or.inr rfl

/-- A quote leaves the open brackets as they are. -/
theorem Quotes.brackets
    {mark : Char} (quotes : modes.Quotes mark after) (sound : modes.Sound input) :
    after.brackets = modes.brackets := by
  cases quotes with
  | @opens mode _ delimits =>
      have inString := Mode.isString_of_delimiter? delimits
      exact brackets_of_ne_code (Mode.ne_code_of_isString inString)
  | closes _ delimits =>
      have inString := Mode.isString_of_delimiter? delimits
      have notCode := Mode.ne_code_of_isString inString
      rw [brackets_of_ne_code notCode, sound.below_eq_frames (Or.inl notCode)]
      rfl

end ModeStack

namespace Bracket

def isInsertion (bracket : Bracket) : Bool := bracket = .insertion

def isBrace (bracket : Bracket) : Bool := bracket = .brace

theorem isBraced_of_isInsertion
    (bracket : Bracket) (isInsertion : bracket.isInsertion = true) : bracket.isBraced = true := by
  cases bracket with
  | insertion => rfl
  | _ => cases isInsertion

theorem isBraced_of_isBrace (bracket : Bracket) (isBrace : bracket.isBrace = true) :
    bracket.isBraced = true := by
  cases bracket with
  | brace => rfl
  | _ => cases isBrace

/-! ## Outside inserted expressions -/

/-- The brackets that were open before the first inserted expression. -/
def ground : List Bracket → List Bracket
  | [] => []
  | bracket :: others =>
    if bracket = .insertion ∨ .insertion ∈ others then ground others else bracket :: others

theorem ground_insertion (stack : List Bracket) : ground (.insertion :: stack) = ground stack := by
  rw [ground, if_pos (Or.inl rfl)]

theorem ground_brace_of_mem {stack : List Bracket} (inside : .insertion ∈ stack) :
    ground (.brace :: stack) = ground stack := by
  rw [ground, if_pos (Or.inr inside)]

theorem ground_of_not_mem {stack : List Bracket} (outside : .insertion ∉ stack) :
    ground stack = stack := by
  cases stack with
  | nil => rfl
  | cons bracket others =>
      have differs : ¬(bracket = .insertion ∨ .insertion ∈ others) := by
        simpa [eq_comm] using outside
      rw [ground, if_neg differs]

theorem outsideInsertions_cons
    {kind : Kind} (noStart : kind ≠ .interpolationStart) (noEnd : kind ≠ .interpolationEnd)
    (depth : Nat) (others : List Kind) :
    outsideInsertions depth (kind :: others) =
      (if depth = 0 then [kind] else []) ++ outsideInsertions depth others := by
  cases kind with
  | interpolationStart => exact absurd rfl noStart
  | interpolationEnd => exact absurd rfl noEnd
  | _ => cases depth <;> rfl

/-- A token opens or closes one of the brackets that are written with braces, or leaves them as they
are. -/
theorem braced_cases
    {stack next : List Bracket} {kind : Kind}
    (isNext : unclosed stack (only isBraced [kind]) = some next) :
    (kind = .interpolationStart ∧ next = .insertion :: stack) ∨
      (kind = .interpolationEnd ∧ stack = .insertion :: next) ∨
        (kind = .mark .leftBrace ∧ next = .brace :: stack) ∨
          (kind = .mark .rightBrace ∧ stack = .brace :: next) ∨
            (kind.isOf isBraced = false ∧ next = stack) := by
  cases braced : kind.isOf isBraced with
  | false =>
      rw [only_eq_nil braced] at isNext
      exact Or.inr (Or.inr (Or.inr (Or.inr ⟨rfl, (Option.some.inj isNext).symm⟩)))
  | true =>
      rw [only_eq_singleton braced, unclosed_singleton] at isNext
      have known := behind_eq_some_iff.1 isNext
      cases kind with
      | interpolationStart | interpolationEnd => simpa [Kind.opens?, Kind.closes?] using known
      | mark sign =>
          cases sign with
          | leftBrace | rightBrace => simpa [Kind.opens?, Kind.closes?] using known
          | _ => cases braced
      | _ => cases braced

/-- A brace outside inserted expressions changes what was open before them, and no other token
does. -/
theorem unclosed_outsideInsertions_cons
    {stack next : List Bracket} {kind : Kind}
    (isNext : unclosed stack (only isBraced [kind]) = some next) (others : List Kind) :
    ∃ outside, outsideInsertions (stack.count .insertion) (kind :: others) =
        outside ++ outsideInsertions (next.count .insertion) others ∧
      unclosed (ground stack) (only isBrace outside) = some (ground next) := by
  rcases braced_cases isNext with
    ⟨rfl, rfl⟩ | ⟨rfl, rfl⟩ | ⟨rfl, rfl⟩ | ⟨rfl, rfl⟩ | ⟨plain, rfl⟩
  · refine ⟨[], ?_, by rw [ground_insertion]; rfl⟩
    rw [List.count_cons_self]
    rfl
  · refine ⟨[], ?_, by rw [ground_insertion]; rfl⟩
    rw [List.count_cons_self]
    rfl
  · rw [outsideInsertions_cons (by simp) (by simp), List.count_cons_of_ne (by simp)]
    refine ⟨_, rfl, ?_⟩
    by_cases inside : .insertion ∈ stack
    · rw [if_neg (Nat.pos_iff_ne_zero.1 (List.count_pos_iff.2 inside)), ground_brace_of_mem inside]
      rfl
    · have outside : .insertion ∉ .brace :: stack := by simpa using inside
      rw [if_pos (List.count_eq_zero.2 inside), ground_of_not_mem inside,
        ground_of_not_mem outside]
      exact unclosed_only_of_opens rfl rfl stack
  · rw [outsideInsertions_cons (by simp) (by simp), List.count_cons_of_ne (by simp)]
    refine ⟨_, rfl, ?_⟩
    by_cases inside : .insertion ∈ next
    · rw [if_neg (Nat.pos_iff_ne_zero.1 (List.count_pos_iff.2 inside)), ground_brace_of_mem inside]
      rfl
    · have outside : .insertion ∉ .brace :: next := by simpa using inside
      rw [if_pos (List.count_eq_zero.2 inside), ground_of_not_mem inside,
        ground_of_not_mem outside]
      exact unclosed_only_of_closes rfl rfl next
  · have noStart : kind ≠ .interpolationStart := by
      rintro rfl
      cases plain
    have noEnd : kind ≠ .interpolationEnd := by
      rintro rfl
      cases plain
    refine ⟨_, outsideInsertions_cons noStart noEnd _ _, ?_⟩
    have noBrace : only isBrace [kind] = [] := by
      rw [← only_only isBraced_of_isBrace, only_eq_nil plain]
      rfl
    by_cases ahead : next.count .insertion = 0
    · rw [if_pos ahead, noBrace]
      rfl
    · rw [if_neg ahead]
      rfl

/-- The braces outside inserted expressions enclose one another as they do among all. -/
theorem unclosed_outsideInsertions
    {stack last : List Bracket} {kinds : List Kind}
    (isLast : unclosed stack (only isBraced kinds) = some last) :
    unclosed (ground stack)
        (only isBrace (outsideInsertions (stack.count .insertion) kinds)) =
      some (ground last) := by
  induction kinds generalizing stack with
  | nil =>
      obtain rfl := Option.some.inj isLast
      rfl
  | cons kind others inductionHypothesis =>
      cases isNext : unclosed stack (only isBraced [kind]) with
      | none => cases (unclosed_only_cons_eq_none isNext _).symm.trans isLast
      | some next =>
          rw [unclosed_only_cons isNext] at isLast
          obtain ⟨outside, whole, first⟩ := unclosed_outsideInsertions_cons isNext others
          rw [whole, only_append, unclosed_append, first]
          exact inductionHypothesis isLast

end Bracket

namespace Scanner

open ScriptFront.Bracket

variable {file : Option String} {scanner last : Scanner} {tokens : List Token}

/-! ## Along the steps -/

/-- Reading opens and closes inserted expressions as its tokens say. -/
theorem Reaches.unclosed_insertions
    (reaches : Reaches file scanner tokens last) (sound : scanner.Sound) :
    unclosed (scanner.modes.brackets.filter isInsertion)
        (only isInsertion (tokens.map Token.kind)) =
      some (last.modes.brackets.filter isInsertion) := by
  induction reaches with
  | here => rfl
  | @token scanner last lexeme modes tokens step _ _ inductionHypothesis =>
      have turns := ModeStack.turns_of_move step
      have first : unclosed (scanner.modes.brackets.filter isInsertion)
          (only isInsertion [lexeme.kind]) = some (modes.brackets.filter isInsertion) := by
        rcases ModeStack.Turns.brackets turns sound with ⟨isRight, before, behind⟩ | isBehind
        · rw [before, behind, isRight]
          rfl
        · have kept := unclosed_filter isInsertion isBehind
          rwa [only_only isBraced_of_isInsertion] at kept
      have further := inductionHypothesis (sound.afterToken step)
      exact (unclosed_only_cons first _).trans further
  | quote step _ inductionHypothesis =>
      have quotes := ModeStack.quotes_of_move step
      have further := inductionHypothesis (sound.afterQuote step)
      rw [← ModeStack.Quotes.brackets quotes sound]
      exact further

/-- While an inserted expression is read, its brackets lie on those around it, and each closing
brace belongs to the last of them. -/
theorem Reaches.unclosed_within
    {upper outer opened : List Bracket}
    (reaches : Reaches file scanner tokens last) (sound : scanner.Sound)
    (inside : scanner.modes.brackets = upper ++ .insertion :: outer)
    (stays : unclosed (upper.filter isInsertion) (only isInsertion (tokens.map Token.kind)) =
      some opened) :
    ∃ still, last.modes.brackets = still ++ .insertion :: outer ∧
      unclosed upper (only isBraced (tokens.map Token.kind)) = some still := by
  induction reaches generalizing upper with
  | here => exact ⟨upper, inside, rfl⟩
  | @token scanner last lexeme modes tokens step _ _ inductionHypothesis =>
      have turns := ModeStack.turns_of_move step
      obtain ⟨next, isNext, first⟩ : ∃ next, modes.brackets = next ++ .insertion :: outer ∧
          unclosed upper (only isBraced [lexeme.kind]) = some next := by
        rcases ModeStack.Turns.brackets turns sound with ⟨-, before, -⟩ | isBehind
        · simp [inside] at before
        rw [inside] at isBehind
        cases braced : lexeme.kind.isOf isBraced with
        | false =>
            rw [only_eq_nil braced] at isBehind ⊢
            exact ⟨upper, (Option.some.inj isBehind).symm, rfl⟩
        | true =>
            rw [only_eq_singleton braced, unclosed_singleton] at isBehind ⊢
            refine behind_within isBehind ?_
            rintro rfl closes
            have noInsertion : unclosed [] (only isInsertion [lexeme.kind]) = none := by
              have isKept : lexeme.kind.isOf isInsertion = true := by
                simp [Kind.isOf, Kind.opens?_of_closes? closes, closes, isInsertion]
              rw [only_eq_singleton isKept, unclosed_singleton, behind_nil_of_closes closes]
            cases (unclosed_only_cons_eq_none noInsertion _).symm.trans stays
      have kept := unclosed_filter isInsertion first
      rw [only_only isBraced_of_isInsertion] at kept
      obtain ⟨still, isStill, further⟩ := inductionHypothesis (sound.afterToken step) isNext
        ((unclosed_only_cons kept _).symm.trans stays)
      exact ⟨still, isStill, (unclosed_only_cons first _).trans further⟩
  | quote step _ inductionHypothesis =>
      have quotes := ModeStack.quotes_of_move step
      have same := ModeStack.Quotes.brackets quotes sound
      exact inductionHypothesis (sound.afterQuote step) (same.trans inside) stays

/-- A token that was read stands behind a part of what was read. -/
theorem Reaches.split
    {before after : List Token} {token : Token} (reaches : Reaches file scanner tokens last)
    (whole : tokens = before ++ token :: after) :
    ∃ middle lexeme modes, Reaches file scanner before middle ∧
      middle.modes.move middle.rest = .token lexeme modes ∧ token = middle.token file lexeme ∧
        Reaches file (middle.afterToken lexeme modes) after last := by
  induction reaches generalizing before with
  | here => simp at whole
  | token step written further inductionHypothesis =>
      cases before with
      | nil =>
          obtain ⟨rfl, rfl⟩ := List.cons.inj whole
          exact ⟨_, _, _, .here, step, rfl, further⟩
      | cons first others =>
          obtain ⟨rfl, rest⟩ := List.cons.inj whole
          obtain ⟨middle, lexeme, modes, isBefore, next, isToken, isAfter⟩ :=
            inductionHypothesis rest
          exact ⟨middle, lexeme, modes, .token step written isBefore, next, isToken, isAfter⟩
  | quote step _ inductionHypothesis =>
      obtain ⟨middle, lexeme, modes, isBefore, next, isToken, isAfter⟩ := inductionHypothesis whole
      exact ⟨middle, lexeme, modes, .quote step isBefore, next, isToken, isAfter⟩

/-- Where the last piece of a string has been read, it is the last token. -/
theorem Reaches.last_of_read
    (reaches : Reaches file scanner tokens last) (sound : scanner.Sound)
    (inString : last.modes.mode.isString = true) (isRead : last.modes.top.segmentOpen = false) :
    (∃ piece, tokens.getLast? = some piece ∧ piece.kind.isFragment = true) ∨
      (tokens = [] ∧ scanner.modes.mode.isString = true ∧
        scanner.modes.top.segmentOpen = false) := by
  induction reaches with
  | here => exact Or.inr ⟨rfl, inString, isRead⟩
  | token step _ _ inductionHypothesis =>
      refine Or.inl ?_
      rcases inductionHypothesis (sound.afterToken step) inString isRead with
        ⟨piece, isLast, isFragment⟩ | ⟨rfl, inString, isRead⟩
      · exact ⟨piece, by rw [List.getLast?_cons, isLast]; rfl, isFragment⟩
      · have turns := ModeStack.turns_of_move step
        exact ⟨_, rfl, ModeStack.Sound.isFragment_of_read sound turns inString isRead⟩
  | quote step _ inductionHypothesis =>
      rcases inductionHypothesis (sound.afterQuote step) inString isRead with
        found | ⟨-, inString, isRead⟩
      · exact Or.inl found
      · have quotes := ModeStack.quotes_of_move step
        have isOpen := ModeStack.Sound.isOpen_of_quote sound quotes inString
        cases isOpen.symm.trans isRead

/-- Where a piece of a string is to be read, it is the next token. -/
theorem Reaches.head_of_open
    (reaches : Reaches file scanner tokens last) (inString : scanner.modes.mode.isString = true)
    (isOpen : scanner.modes.top.segmentOpen = true) (isCode : last.modes.mode = .code) :
    ∃ piece, tokens.head? = some piece ∧ piece.kind.isFragment = true := by
  cases reaches with
  | here => exact absurd isCode (Mode.ne_code_of_isString inString)
  | token step =>
      have turns := ModeStack.turns_of_move step
      exact ⟨_, rfl, turns.isFragment_of_open inString isOpen⟩
  | quote step =>
      have quotes := ModeStack.quotes_of_move step
      cases (quotes.isRead inString).symm.trans isOpen

/-- At the end of the input the stack is code that nothing surrounds, with some braces open. -/
theorem AtEnd.modes_eq (atEnd : last.AtEnd) :
    last.modes = ⟨⟨.code, false, last.modes.top.openBraces, false⟩, []⟩ := by
  obtain ⟨-, -, plain⟩ := atEnd
  rcases isModes : last.modes with ⟨⟨mode, interpolating, openBraces, segmentOpen⟩, below⟩
  rw [isModes] at plain
  obtain ⟨sameTop, sameBelow⟩ := ModeStack.mk.inj plain
  obtain rfl := List.map_eq_nil_iff.1 sameBelow
  cases interpolating with
  | true => cases congrArg Frame.interpolating sameTop
  | false =>
      obtain ⟨rfl, -, -, rfl⟩ := Frame.mk.inj sameTop
      rfl

/-- At the end of the input no inserted expression is open. -/
theorem AtEnd.no_insertion (atEnd : last.AtEnd) :
    last.modes.brackets.filter isInsertion = [] := by
  rw [atEnd.modes_eq, ModeStack.brackets_of_code rfl]
  simp [isInsertion]

/-- At the end of the input the next token is the end. -/
theorem AtEnd.move (atEnd : last.AtEnd) :
    last.modes.move last.rest = .token ⟨.endOfInput, [], []⟩ last.modes := by
  obtain ⟨isNil, isCode, plain⟩ := atEnd
  have bare : last.modes.inString = false := by
    rw [← ModeStack.visible_inString, plain]
    rfl
  simp only [ModeStack.move, isCode, isNil, ModeStack.codeMove, bare]
  rfl

/-- In front of an inserted expression stands a piece of its string. -/
theorem Reaches.piece_before
    {before after : List Token} {token : Token}
    (reaches : Reaches file scanner (before ++ token :: after) last) (sound : scanner.Sound)
    (isCode : scanner.modes.mode = .code) (isStart : token.kind = .interpolationStart) :
    ∃ piece, before.getLast? = some piece ∧ piece.kind.isFragment = true := by
  obtain ⟨middle, lexeme, modes, isBefore, step, rfl, -⟩ := reaches.split rfl
  have turns := ModeStack.turns_of_move step
  rw [show lexeme.kind = .interpolationStart from isStart] at turns
  cases turns with
  | plain _ isPlain => cases isPlain
  | insertionStarts isRich hasRead =>
      have inString : middle.modes.mode.isString = true := by rw [isRich]; rfl
      rcases isBefore.last_of_read sound inString hasRead with found | ⟨-, wasString, -⟩
      · exact found
      · exact absurd isCode (Mode.ne_code_of_isString wasString)

/-- Behind an inserted expression stands a piece of its string. -/
theorem Reaches.piece_behind
    {before after : List Token} {token : Token}
    (reaches : Reaches file scanner (before ++ token :: after) last) (sound : scanner.Sound)
    (isCode : last.modes.mode = .code) (isEnd : token.kind = .interpolationEnd) :
    ∃ piece, after.head? = some piece ∧ piece.kind.isFragment = true := by
  obtain ⟨middle, lexeme, modes, isBefore, step, rfl, isAfter⟩ := reaches.split rfl
  have turns := ModeStack.turns_of_move step
  rw [show lexeme.kind = .interpolationEnd from isEnd] at turns
  cases turns with
  | plain _ isPlain => cases isPlain
  | insertionEnds wasCode _ inserted =>
      obtain ⟨isRich, isOpen⟩ := ModeStack.Sound.string_pop (isBefore.sound sound) wasCode inserted
      have inString : middle.modes.pop.2.mode.isString = true := by rw [isRich]; rfl
      exact isAfter.head_of_open inString isOpen isCode

/-- What stands between the marks around an inserted expression opens no bracket that it does not
close. -/
theorem Reaches.nested_within
    {before closing : Scanner} {opens closes : Lexeme} {inside outside : ModeStack}
    (sound : before.Sound) (start : before.modes.move before.rest = .token opens inside)
    (isStart : opens.kind = .interpolationStart)
    (reaches : Reaches file (before.afterToken opens inside) tokens closing)
    (stop : closing.modes.move closing.rest = .token closes outside)
    (isEnd : closes.kind = .interpolationEnd)
    (matching : Nested (only isInsertion (tokens.map Token.kind))) :
    Nested (only isBraced (tokens.map Token.kind)) := by
  have soundInside := sound.afterToken start
  have opened : inside.brackets = [] ++ .insertion :: before.modes.brackets := by
    have turns := ModeStack.turns_of_move start
    rw [isStart] at turns
    rcases ModeStack.Turns.brackets turns sound with ⟨isOther, -, -⟩ | isNext
    · cases isOther
    · exact (Option.some.inj isNext).symm
  have stays : unclosed (List.filter isInsertion []) (only isInsertion (tokens.map Token.kind)) =
      some [] := matching
  obtain ⟨still, isStill, whole⟩ := reaches.unclosed_within soundInside opened stays
  have noInsertion : still.filter isInsertion = [] := by
    have kept := unclosed_filter isInsertion whole
    rw [only_only isBraced_of_isInsertion] at kept
    exact Option.some.inj (kept.symm.trans stays)
  have closed : closing.modes.brackets = .insertion :: outside.brackets := by
    have turns := ModeStack.turns_of_move stop
    rw [isEnd] at turns
    rcases ModeStack.Turns.brackets turns (reaches.sound soundInside) with
      ⟨isOther, -, -⟩ | isNext
    · cases isOther
    · rcases braced_cases isNext with
        ⟨isOther, -⟩ | ⟨-, isClosed⟩ | ⟨isOther, -⟩ | ⟨isOther, -⟩ | ⟨isOther, -⟩
      · cases isOther
      · exact isClosed
      · cases isOther
      · cases isOther
      · cases isOther
  cases still with
  | nil => exact whole
  | cons bracket others =>
      obtain ⟨rfl, -⟩ := List.cons.inj (isStill.symm.trans closed)
      cases noInsertion

end Scanner

/-- The tokens up to the end of a text are those that are read before it, and the end. -/
theorem reaches_of_rawItems
    {source : String} {file : Option String} {tokens : List Token}
    (lexed : rawItems source file = tokens.map Except.ok) :
    ∃ read last, Scanner.Reaches file (.start source.toList) read last ∧ last.AtEnd ∧
      tokens = read ++ [last.token file ⟨.endOfInput, [], []⟩] := by
  have significant : tokenize source file = .ok (Token.significant tokens) := by
    have appended := significantTokens_append tokens []
    rw [List.append_nil, ← lexed] at appended
    refine appended.trans ?_
    exact congrArg Except.ok (List.append_nil _)
  obtain ⟨read, last, reaches, atEnd, -⟩ := reaches_of_tokenize significant
  refine ⟨read, last, reaches, atEnd, ?_⟩
  have items : rawItems source file = _ := reaches.items
  rw [lexed, Scanner.items_of_last atEnd.move rfl] at items
  have whole : tokens.map Except.ok =
      (read ++ [last.token file ⟨.endOfInput, [], []⟩]).map (Except.ok : Token → Item) := by
    rw [items, List.map_append]
    rfl
  exact (List.map_inj_right fun _ _ same => Except.ok.inj same).1 whole

/-- A member of a list is the last one, or it stands in front of the last one. -/
theorem split_last
    {tokens before after : List Token} {token last : Token}
    (whole : tokens ++ [last] = before ++ token :: after) :
    token = last ∨ ∃ others, after = others ++ [last] ∧ tokens = before ++ token :: others := by
  rcases List.eq_nil_or_concat after with rfl | ⟨others, final, rfl⟩
  · have same := List.append_inj' whole rfl
    exact Or.inl (List.cons.inj same.2).1.symm
  · rw [List.concat_eq_append] at whole ⊢
    rw [← List.cons_append, ← List.append_assoc] at whole
    have same := List.append_inj' whole rfl
    obtain rfl := (List.cons.inj same.2).1
    exact Or.inr ⟨others, rfl, same.1⟩

open ScriptFront.Bracket in
/-- The expressions that are inserted into strings are nested, each between two pieces of its
string. Within each of them, braces and further inserted expressions close one another's partners
only, and the braces outside further inserted expressions are nested. -/
theorem rawItems_nested
    {source : String} {file : Option String} {tokens : List Token}
    (lexed : rawItems source file = tokens.map Except.ok) :
    Nested (only isInsertion (tokens.map Token.kind)) ∧
      (∀ before token after, tokens = before ++ token :: after →
        (token.kind = .interpolationStart →
          ∃ piece, before.getLast? = some piece ∧ piece.kind.isFragment = true) ∧
        (token.kind = .interpolationEnd →
          ∃ piece, after.head? = some piece ∧ piece.kind.isFragment = true)) ∧
      ∀ before opening inner closing after,
        tokens = before ++ opening :: (inner ++ closing :: after) →
        opening.kind = .interpolationStart → closing.kind = .interpolationEnd →
        Nested (only isInsertion (inner.map Token.kind)) →
          Nested (only isBraced (inner.map Token.kind)) ∧
            Nested (only isBrace (outsideInsertions 0 (inner.map Token.kind))) := by
  obtain ⟨read, last, reaches, atEnd, rfl⟩ := reaches_of_rawItems lexed
  have sound := Scanner.sound_start source.toList
  refine ⟨?_, ?_, ?_⟩
  · have unclosed := reaches.unclosed_insertions sound
    rw [atEnd.no_insertion] at unclosed
    have noEnd : only isInsertion [Kind.endOfInput] = [] := rfl
    rw [List.map_append, only_append]
    exact (congrArg _ ((congrArg _ noEnd).trans (List.append_nil _))).trans unclosed
  · intro before token after whole
    constructor
    · intro isStart
      rcases split_last whole with rfl | ⟨others, rfl, isRead⟩
      · cases isStart
      · exact (isRead ▸ reaches).piece_before sound rfl isStart
    · intro isEnd
      rcases split_last whole with rfl | ⟨others, rfl, isRead⟩
      · cases isEnd
      · obtain ⟨piece, isHead, isFragment⟩ := (isRead ▸ reaches).piece_behind sound atEnd.2.1 isEnd
        exact ⟨piece, by rw [List.head?_append, isHead]; rfl, isFragment⟩
  · intro before opening inner closing after whole isStart isEnd matching
    rcases split_last whole with rfl | ⟨others, furtherWhole, isRead⟩
    · cases isStart
    rcases split_last furtherWhole.symm with rfl | ⟨rest, -, isInside⟩
    · cases isEnd
    obtain ⟨start, opens, inside, isBefore, startStep, rfl, further⟩ := reaches.split isRead
    obtain ⟨stop, closes, outside, isInner, stopStep, rfl, -⟩ := further.split isInside
    have nested := Scanner.Reaches.nested_within (isBefore.sound sound) startStep isStart isInner
      stopStep isEnd matching
    exact ⟨nested, unclosed_outsideInsertions nested⟩

open ScriptFront.Bracket in
/-- The braces of a hash in an inserted expression do not end it. -/
theorem rawItems_nested_hash :
    ∃ tokens : List Token, rawItems "\"#\x7b\x7b\x7d\x7d\"" none = tokens.map Except.ok ∧
      tokens.map Token.kind = [.fragment "", .interpolationStart, .mark .leftBrace,
        .mark .rightBrace, .interpolationEnd, .fragment "", .endOfInput] ∧
      Nested (only isInsertion (tokens.map Token.kind)) ∧
      Nested (only isBrace (outsideInsertions 0 [.mark .leftBrace, .mark .rightBrace])) := by
  have lexed : rawItems "\"#\x7b\x7b\x7d\x7d\"" none = List.map Except.ok
      ([⟨.fragment "", "", ⟨1, 2, none⟩, false⟩] ++
        ⟨.interpolationStart, "#\x7b", ⟨1, 2, none⟩, false⟩ ::
        ([⟨.mark .leftBrace, "\x7b", ⟨1, 4, none⟩, false⟩,
          ⟨.mark .rightBrace, "\x7d", ⟨1, 5, none⟩, false⟩] ++
        ⟨.interpolationEnd, "\x7d", ⟨1, 6, none⟩, false⟩ ::
        [⟨.fragment "", "", ⟨1, 7, none⟩, false⟩,
          ⟨.endOfInput, "", ⟨1, 8, none⟩, false⟩])) := by
    with_unfolding_all rfl
  obtain ⟨nested, -, within⟩ := rawItems_nested lexed
  obtain ⟨-, braces⟩ := within _ _ _ _ _ rfl rfl rfl rfl
  exact ⟨_, lexed, rfl, nested, braces⟩

end ScriptFront
