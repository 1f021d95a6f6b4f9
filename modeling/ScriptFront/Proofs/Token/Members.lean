import Mathlib.Data.List.Basic
import ScriptFront.Proofs.Token.Enclosing
import ScriptFront.Proofs.Token.Gaps
import ScriptFront.Proofs.Token.Names

/-!
# The members of a list in parentheses

No token reaches over a comma or a closing parenthesis, unless it is a piece of a string or a
comment.  A text between two of them gives the same tokens in every list, and with more blanks in
front of it the first of them is set off.
-/

namespace ScriptFront

theorem not_startsBlank_cons {first : Char} {rest : List Char} (solid : isSpacing first = false) :
    ¬StartsBlank (first :: rest) := by
  rintro ⟨blank, isFirst, isBlank⟩
  obtain rfl := Option.some.inj isFirst
  cases solid.symm.trans isBlank

/-- A comma or a closing parenthesis. -/
def EndsMember (mark : Char) : Prop := mark = ',' ∨ mark = ')'

namespace EndsMember

variable {mark : Char}

theorem isStop (ends : EndsMember mark) : isStop mark = true := by
  rcases ends with rfl | rfl
  · rfl
  · rfl

theorem isSpacing (ends : EndsMember mark) : isSpacing mark = false := by
  rcases ends with rfl | rfl
  · rfl
  · rfl

theorem not_startsBlank (ends : EndsMember mark) (more : List Char) :
    ¬StartsBlank (mark :: more) :=
  not_startsBlank_cons ends.isSpacing

end EndsMember

namespace ModeStack

variable {modes after : ModeStack} {front : List Char} {lexeme : Lexeme}

/-! ## The parenthesis at the end of a text -/

theorem codeMove_rightParen (modes : ModeStack) (rest : List Char) :
    modes.codeMove (')' :: rest) = .token ⟨.mark .rightParen, [')'], rest⟩ modes := rfl

/-- The last character of a text, a closing parenthesis, is read in code only. -/
theorem move_rightParen
    (accepted : ∀ cause, modes.move [')'] ≠ .refused cause) :
    modes.mode = .code ∧ modes.move [')'] = .token ⟨.mark .rightParen, [')'], []⟩ modes := by
  cases isMode : modes.mode with
  | code =>
      refine ⟨rfl, ?_⟩
      simp only [move, isMode]
      exact codeMove_rightParen modes []
  | plainString =>
      refine absurd ?_
        (accepted (if modes.top.segmentOpen then .unterminatedString else .strayString))
      simp only [move, isMode, plainMove]
      split <;> rfl
  | richString =>
      refine absurd ?_
        (accepted (if modes.top.segmentOpen then .unterminatedString else .strayString))
      simp only [move, isMode, richMove]
      split <;> rfl
  | comment =>
      refine absurd ?_ (accepted .unterminatedComment)
      simp only [move, isMode]
      rfl

theorem not_mem_nameMark {character : Char} {behind : List Char}
    (noMark : character ∉ ['?', '!', '=']) : character ∉ nameMark behind := by
  simp only [List.mem_cons, List.not_mem_nil, or_false, not_or] at noMark
  rcases (isNameMark_nameMark behind).atMostOne with isMark | isMark | isMark | isMark <;>
    simp [isMark, noMark]

theorem not_mem_takeWhile_isWordChar {character : Char} (noLetter : isWordChar character = false)
    (text : List Char) : character ∉ text.takeWhile isWordChar := fun member =>
  absurd (List.mem_takeWhile_imp member) (by simp [noLetter])

/-- A token that ends the text with a closing parenthesis is that parenthesis or a comment. -/
theorem front_of_move_to_end
    (step : modes.move (front ++ [')']) = .token lexeme after) (isNil : lexeme.rest = [])
    (noComment : ∀ text, lexeme.kind ≠ .comment text) : front = [] := by
  have covers := move_covers modes (front ++ [')'])
  rw [step] at covers
  have isText : lexeme.text = front ++ [')'] := by
    have whole : lexeme.text ++ lexeme.rest = front ++ [')'] := covers
    rwa [isNil, List.append_nil] at whole
  have inText : ')' ∈ lexeme.text := by simp [isText]
  generalize isInput : front ++ [')'] = input at step
  have alone {character : Char} (isAlone : lexeme.text = [character]) : front = [] := by
    simpa using congrArg List.length (isText.symm.trans isAlone)
  have signAlone {sign : Sign} (member : sign ∈ Sign.all) (isSign : lexeme.text = sign.text) :
      front = [] := by
    have notBehind : ')' ∉ sign.text.tail := Sign.stop_notMem_tail rfl member
    rw [← isSign, isText] at notBehind
    cases front with
    | nil => rfl
    | cons first others => simp at notBehind
  cases rule_of_move step with
  | ending => simp at isInput
  | newline | commentEnds => exact alone rfl
  | comment => exact absurd rfl (noComment _)
  | spacing => cases (List.mem_takeWhile_imp inText : isSpacing ')' = true)
  | number => exact absurd inText (Numeral.not_mem_read (by decide) (by decide))
  | name =>
      rcases List.mem_append.1 inText with inWord | inMark
      · exact absurd inWord (not_mem_takeWhile_isWordChar rfl _)
      · exact absurd inMark (not_mem_nameMark (by decide))
  | constant => exact absurd inText (not_mem_takeWhile_isWordChar rfl _)
  | sign _ found | insertionEnds _ found => exact signAlone (Sign.atFront?_mem found) rfl
  | plainPiece _ _ found =>
      obtain ⟨rest, isRest⟩ := Segment.meets_of_plain? found
      cases isNil.symm.trans isRest
  | richPiece _ _ found =>
      rcases Segment.meets_of_rich? found with ⟨rest, isRest⟩ | ⟨rest, isRest⟩
      · cases isNil.symm.trans isRest
      · cases isNil.symm.trans isRest
  | insertionStarts => simp at inText

/-- Any other token leaves the parenthesis. -/
theorem front_of_move
    (step : modes.move (front ++ [')']) = .token lexeme after) (goesOn : lexeme.rest ≠ []) :
    ∃ behind, front = lexeme.text ++ behind ∧ lexeme.rest = behind ++ [')'] := by
  have covers := move_covers modes (front ++ [')'])
  rw [step] at covers
  have whole : lexeme.text ++ lexeme.rest = front ++ [')'] := covers
  rcases List.eq_nil_or_concat lexeme.rest with isNil | ⟨behind, character, isRest⟩
  · exact absurd isNil goesOn
  · rw [List.concat_eq_append] at isRest
    rw [isRest, ← List.append_assoc] at whole
    obtain ⟨isFront, isLast⟩ := List.append_inj' whole rfl
    exact ⟨behind, isFront.symm, isLast ▸ isRest⟩

/-- A token with an equals sign at its end, in front of a closing parenthesis, is an operator. -/
theorem operator_of_move_to_paren
    (step : modes.move (front ++ [')']) = .token lexeme after) (isRest : lexeme.rest = [')'])
    (isLast : front.getLast? = some '=') : ∃ operator, lexeme.kind = .operator operator := by
  have covers := move_covers modes (front ++ [')'])
  rw [step] at covers
  have isText : lexeme.text = front := by
    have whole : lexeme.text ++ lexeme.rest = front ++ [')'] := covers
    rw [isRest] at whole
    exact List.append_cancel_right whole
  rw [← isText] at isLast
  have inText : '=' ∈ lexeme.text := List.mem_of_getLast? isLast
  have ofSign {sign : Sign} (member : sign ∈ Sign.all) (isEquals : sign.text.getLast? = some '=') :
      ∃ operator, sign.kind = .operator operator := by
    have noMark : ∀ mark ∈ Mark.all, mark.sign.toList.getLast? ≠ some '=' := by decide +kernel
    rcases List.mem_append.1 member with isOperator | isMark
    · rcases List.mem_map.1 isOperator with ⟨operator, -, rfl⟩
      exact ⟨operator, rfl⟩
    · rcases List.mem_map.1 isMark with ⟨mark, isMember, rfl⟩
      exact absurd isEquals (noMark mark isMember)
  generalize front ++ [')'] = input at step
  cases rule_of_move step with
  | ending | newline | commentEnds => simp at inText
  | @comment rest =>
      rcases dropWhile_line ('#' :: rest) with isNil | ⟨others, isLine⟩
      · cases isRest.symm.trans isNil
      · cases isRest.symm.trans isLine
  | spacing => cases (List.mem_takeWhile_imp inText : isSpacing '=' = true)
  | number => exact absurd inText (Numeral.not_mem_read (by decide) (by decide))
  | @name first rest =>
      let behind := (first :: rest).dropWhile isWordChar
      have inMark : '=' ∈ nameMark behind := by
        rcases List.mem_append.1 inText with inWord | inMark
        · exact absurd inWord (not_mem_takeWhile_isWordChar rfl _)
        · exact inMark
      have isSetter : nameMark behind = ['='] := by
        rcases (isNameMark_nameMark behind).atMostOne with isMark | isMark | isMark | isMark
        · simp [isMark] at inMark
        · simp [isMark] at inMark
        · simp [isMark] at inMark
        · exact isMark
      have isBehind : behind = ['=', ')'] := by
        have whole := nameMark_append_drop behind
        have isDrop : behind.drop (nameMark behind).length = [')'] := isRest
        rwa [isDrop, isSetter, eq_comm] at whole
      -- A parenthesis that closes does not leave the sign to the name.
      rw [isBehind] at isSetter
      cases isSetter
  | constant => exact absurd inText (not_mem_takeWhile_isWordChar rfl _)
  | sign _ found => exact ofSign (Sign.atFront?_mem found) isLast
  | insertionEnds _ found isBrace =>
      rcases ofSign (Sign.atFront?_mem found) isLast with ⟨operator, isOperator⟩
      cases isBrace.symm.trans isOperator
  | plainPiece _ _ found =>
      obtain ⟨rest, meets⟩ := Segment.meets_of_plain? found
      cases isRest.symm.trans meets
  | richPiece _ _ found =>
      rcases Segment.meets_of_rich? found with ⟨rest, meets⟩ | ⟨rest, meets⟩
      · cases isRest.symm.trans meets
      · cases isRest.symm.trans meets
  | insertionStarts => simp at inText

end ModeStack

namespace Scanner

variable {file : Option String} {scanner last : Scanner} {tokens : List Token}

/-! ## Up to the last parenthesis -/

theorem Reaches.rightParen
    (reaches : Reaches file scanner tokens last) (atEnd : last.AtEnd)
    (isRest : scanner.rest = [')']) :
    ∃ closer : Token, closer.kind = .mark .rightParen ∧ tokens = [closer] ∧
      scanner.modes = last.modes ∧ scanner.modes.mode = .code := by
  have stepOf {move : Move} (step : scanner.modes.move scanner.rest = move)
      (accepted : ∀ cause, move ≠ .refused cause) :
      scanner.modes.mode = .code ∧
        move = .token ⟨.mark .rightParen, [')'], []⟩ scanner.modes := by
    rw [isRest] at step
    subst step
    exact ModeStack.move_rightParen accepted
  cases reaches with
  | here => cases isRest.symm.trans atEnd.1
  | quote step => cases (stepOf step (by simp)).2
  | token step _ further =>
      rcases stepOf step (by simp) with ⟨isCode, isToken⟩
      obtain ⟨rfl, rfl⟩ := Move.token.inj isToken
      rcases further.of_end isCode rfl with ⟨rfl, rfl⟩
      exact ⟨_, rfl, rfl, rfl, isCode⟩

/-- A comment at the end of the text is not ended. -/
theorem Reaches.not_comment_to_end
    (reaches : Reaches file scanner tokens last) (atEnd : last.AtEnd)
    (isComment : scanner.modes.mode = .comment) : scanner.rest ≠ [] := by
  intro isNil
  have refused : scanner.modes.move scanner.rest = .refused .unterminatedComment := by
    simp only [ModeStack.move, isComment, isNil]
    rfl
  cases reaches with
  | here => cases isComment.symm.trans atEnd.2.1
  | token step => cases refused.symm.trans step
  | quote step => cases refused.symm.trans step

/-- What is read of a text with a closing parenthesis at its end stands in front of the parenthesis,
and an equals sign there is the end of an operator. -/
def SplitsAtParen
    (file : Option String) (scanner : Scanner) (front : List Char) (tokens : List Token)
    (last : Scanner) : Prop :=
  ∃ read closer place, tokens = read ++ [closer] ∧ closer.kind = .mark .rightParen ∧
    Reaches file scanner read place ∧ place.rest = [')'] ∧ place.modes = last.modes ∧
      (front.getLast? = some '=' →
        ∃ token operator, read.getLast? = some token ∧ token.kind = .operator operator)

theorem Reaches.splits_here
    (reaches : Reaches file scanner tokens last) (atEnd : last.AtEnd)
    (isRest : scanner.rest = [')']) : SplitsAtParen file scanner [] tokens last := by
  rcases reaches.rightParen atEnd isRest with ⟨closer, isCloser, rfl, isModes, -⟩
  exact ⟨[], closer, scanner, rfl, isCloser, .here, isRest, isModes, by simp⟩

theorem Reaches.splits_at_paren
    {front : List Char} (reaches : Reaches file scanner tokens last) (atEnd : last.AtEnd)
    (whole : scanner.rest = front ++ [')']) : SplitsAtParen file scanner front tokens last := by
  induction reaches generalizing front with
  | here => simp [atEnd.1] at whole
  | @quote scanner last mark rest modes tokens step further inductionHypothesis =>
      have covers : mark :: rest = front ++ [')'] := by
        have covers := ModeStack.move_covers scanner.modes scanner.rest
        rw [step, whole] at covers
        exact covers
      have isQuote := (ModeStack.quotes_of_move step).eq_quote
      cases front with
      | nil =>
          obtain ⟨rfl, -⟩ := List.cons.inj covers
          simp at isQuote
      | cons first behind =>
          obtain ⟨rfl, isRest⟩ := List.cons.inj covers
          rcases inductionHypothesis atEnd isRest with
            ⟨read, closer, place, isWhole, isCloser, reads, isPlace, isModes, equals⟩
          refine ⟨read, closer, place, isWhole, isCloser, .quote step reads, isPlace, isModes, ?_⟩
          intro isLast
          refine equals ?_
          cases behind with
          | nil =>
              obtain rfl := Option.some.inj isLast
              simp at isQuote
          | cons second others => exact isLast
  | @token scanner last lexeme modes tokens step written further inductionHypothesis =>
      have reaches : Reaches file scanner (scanner.token file lexeme :: tokens) last :=
        .token step written further
      rw [whole] at step
      by_cases isHere : front = []
      · subst isHere
        exact reaches.splits_here atEnd whole
      · have goesOn : lexeme.rest ≠ [] := by
          intro isNil
          refine isHere (ModeStack.front_of_move_to_end step isNil ?_)
          intro text isComment
          obtain ⟨-, -, -, isModes⟩ := ModeStack.comment_of_move step isComment
          refine further.not_comment_to_end atEnd ?_ isNil
          rw [afterToken, isModes]
          rfl
        rcases ModeStack.front_of_move step goesOn with ⟨behind, rfl, isRest⟩
        by_cases isNil : behind = []
        · subst isNil
          rcases further.rightParen atEnd isRest with ⟨closer, isCloser, rfl, isModes, -⟩
          refine ⟨[scanner.token file lexeme], closer, _, rfl, isCloser,
            .token (whole ▸ step) written .here, isRest, isModes, ?_⟩
          intro isEquals
          rcases ModeStack.operator_of_move_to_paren step isRest isEquals with
            ⟨operator, isOperator⟩
          exact ⟨_, operator, rfl, isOperator⟩
        · rcases inductionHypothesis atEnd isRest with
            ⟨read, closer, place, isWhole, isCloser, reads, isPlace, isModes, equals⟩
          refine ⟨scanner.token file lexeme :: read, closer, place, by rw [isWhole]; rfl, isCloser,
            .token (whole ▸ step) written reads, isPlace, isModes, ?_⟩
          intro isEquals
          rw [List.getLast?_append_of_ne_nil _ isNil] at isEquals
          rcases equals isEquals with ⟨token, operator, isToken, isOperator⟩
          refine ⟨token, operator, ?_, isOperator⟩
          rw [List.getLast?_cons, isToken]
          rfl

end Scanner

/-! ## The same text at another place -/

/-- The tokens, with the first of them set off from what stands in front of it or not. -/
def Token.setOff (spaced : Bool) : List Token → List Token
  | [] => []
  | first :: others => { first with spaced } :: others

namespace Token

theorem significant_map_unplaced (tokens : List Token) :
    significant (tokens.map unplaced) = (significant tokens).map unplaced :=
  List.filter_map

theorem exists_setOff_eq (tokens : List Token) : ∃ spaced, setOff spaced tokens = tokens := by
  cases tokens with
  | nil => exact ⟨false, rfl⟩
  | cons first others => exact ⟨first.spaced, rfl⟩

theorem significant_setOff (spaced : Bool) (tokens : List Token) :
    ∃ other, significant (setOff spaced tokens) = setOff other (significant tokens) := by
  cases tokens with
  | nil => exact ⟨false, rfl⟩
  | cons first others =>
      have sameTrivia : ({ first with spaced } : Token).isTrivia = first.isTrivia := rfl
      rw [setOff, significant, significant, List.filter_cons, List.filter_cons, sameTrivia]
      cases first.isTrivia with
      | true =>
          rcases exists_setOff_eq (significant others) with ⟨other, same⟩
          exact ⟨other, same.symm⟩
      | false => exact ⟨spaced, rfl⟩

end Token

namespace Scanner

variable {file : Option String} {scanner place last : Scanner} {tokens : List Token}

theorem Reaches.setOff_unplaced (reaches : Reaches file scanner tokens last) :
    Token.setOff scanner.spaced (tokens.map Token.unplaced) = tokens.map Token.unplaced := by
  induction reaches with
  | here | token => rfl
  | quote _ _ inductionHypothesis => exact inductionHypothesis

/-- The same text gives the same tokens, set off as the place is. -/
theorem Reaches.elsewhere
    (reaches : Reaches file scanner tokens last) (sameRest : place.rest = scanner.rest)
    (same : place.modes.visible = scanner.modes.visible) :
    ∃ read final, Reaches file place read final ∧ final.rest = last.rest ∧
      final.modes.visible = last.modes.visible ∧
        read.map Token.unplaced = Token.setOff place.spaced (tokens.map Token.unplaced) := by
  induction reaches generalizing place with
  | here => exact ⟨[], place, .here, sameRest, same, rfl⟩
  | @token scanner last lexeme modes tokens step written further inductionHypothesis =>
      have sameStep := ModeStack.move_visible_congr same scanner.rest
      rw [step, ← sameRest] at sameStep
      obtain ⟨other, stepHere, sameModes⟩ := Move.token_of_visible sameStep
      have sameBehind : (place.afterToken lexeme other).modes.visible =
          (scanner.afterToken lexeme modes).modes.visible := sameModes
      have sameRestBehind : (place.afterToken lexeme other).rest =
          (scanner.afterToken lexeme modes).rest := rfl
      rcases inductionHypothesis sameRestBehind sameBehind with
        ⟨read, final, reads, isRest, isModes, areTokens⟩
      refine ⟨_, final, .token stepHere written reads, isRest, isModes, ?_⟩
      have areOthers : read.map Token.unplaced = tokens.map Token.unplaced :=
        areTokens.trans further.setOff_unplaced
      rw [List.map_cons, areOthers]
      rfl
  | @quote scanner last mark rest modes tokens step further inductionHypothesis =>
      have sameStep := ModeStack.move_visible_congr same scanner.rest
      rw [step, ← sameRest] at sameStep
      obtain ⟨other, stepHere, sameModes⟩ := Move.quote_of_visible sameStep
      have sameBehind : (place.afterQuote mark rest other).modes.visible =
          (scanner.afterQuote mark rest modes).modes.visible := sameModes
      have sameRestBehind : (place.afterQuote mark rest other).rest =
          (scanner.afterQuote mark rest modes).rest := rfl
      rcases inductionHypothesis sameRestBehind sameBehind with ⟨read, final, reads, behind⟩
      exact ⟨read, final, .quote stepHere reads, behind⟩

/-! ## Blanks in front of a text -/

theorem move_of_startsBlank
    (isCode : scanner.modes.mode = .code) (blank : StartsBlank scanner.rest) :
    scanner.modes.move scanner.rest = .token (.spacing scanner.rest) scanner.modes := by
  rcases blank with ⟨first, isFirst, isBlank⟩
  rcases List.head?_eq_some_iff.1 isFirst with ⟨rest, isRest⟩
  simp only [ModeStack.move, isCode]
  rw [isRest]
  exact ModeStack.codeMove_of_isSpacing isBlank _ _

theorem dropWhile_of_not_startsBlank {text : List Char} (solid : ¬StartsBlank text) :
    text.dropWhile isSpacing = text := by
  cases text with
  | nil => rfl
  | cons first rest =>
      refine List.dropWhile_cons_of_neg ?_
      intro isBlank
      exact solid ⟨first, rfl, isBlank⟩

/-- Blanks that are next are passed. -/
theorem reaches_past_blanks (file : Option String) (isCode : place.modes.mode = .code) :
    ∃ read middle, Reaches file place read middle ∧
      middle.rest = place.rest.dropWhile isSpacing ∧ middle.modes = place.modes ∧
        Token.significant read = [] := by
  by_cases blank : StartsBlank place.rest
  · have step := move_of_startsBlank isCode blank
    exact ⟨_, _, .token step rfl .here, rfl, rfl, rfl⟩
  · exact ⟨[], place, .here, (dropWhile_of_not_startsBlank blank).symm, rfl, rfl⟩

/-- What is read with blanks in front of it is read behind them. -/
theorem Reaches.past_blanks
    (reaches : Reaches file scanner tokens last) (isCode : scanner.modes.mode = .code)
    (stops : ¬StartsBlank last.rest) :
    ∃ middle others, middle.rest = scanner.rest.dropWhile isSpacing ∧
      middle.modes = scanner.modes ∧ Reaches file middle others last ∧
        Token.significant others = Token.significant tokens := by
  by_cases blank : StartsBlank scanner.rest
  · have isStep := move_of_startsBlank isCode blank
    cases reaches with
    | here => exact absurd blank stops
    | quote step => cases isStep.symm.trans step
    | token step _ further =>
        obtain ⟨rfl, rfl⟩ := Move.token.inj (isStep.symm.trans step)
        exact ⟨scanner.afterToken (.spacing scanner.rest) scanner.modes, _, rfl, rfl, further, rfl⟩
  · exact ⟨scanner, tokens, (dropWhile_of_not_startsBlank blank).symm, rfl, reaches, rfl⟩

/-- With more blanks in front of it a text gives the same tokens, and the first of them may be set
off. -/
theorem Reaches.behind_blanks
    {blanks : List Char} (reaches : Reaches file scanner tokens last)
    (isCode : scanner.modes.mode = .code) (stops : ¬StartsBlank last.rest)
    (areBlank : AllBlank blanks) (isRest : place.rest = blanks ++ scanner.rest)
    (same : place.modes.visible = scanner.modes.visible) :
    ∃ read final, Reaches file place read final ∧ final.rest = last.rest ∧
      final.modes.visible = last.modes.visible ∧ ∃ spaced,
        (Token.significant read).map Token.unplaced =
          Token.setOff spaced ((Token.significant tokens).map Token.unplaced) := by
  have isCodeHere : place.modes.mode = .code := by
    rw [← ModeStack.visible_mode, same, ModeStack.visible_mode, isCode]
  rcases reaches_past_blanks file isCodeHere with ⟨front, start, reads, isStart, isModes, isFront⟩
  rcases reaches.past_blanks isCode stops with
    ⟨middle, others, isMiddle, isMode, further, areOthers⟩
  have sameStart : start.rest = middle.rest := by
    rw [isStart, isMiddle, isRest, areBlank.dropWhile_append]
  have sameModes : start.modes.visible = middle.modes.visible := by
    rw [isModes, isMode, same]
  rcases further.elsewhere sameStart sameModes with
    ⟨behind, final, readsBehind, isFinal, isFinalModes, areTokens⟩
  rcases Token.significant_setOff start.spaced (others.map Token.unplaced) with ⟨spaced, isSetOff⟩
  refine ⟨front ++ behind, final, reads.append readsBehind, isFinal, isFinalModes, spaced, ?_⟩
  rw [Token.significant_append, isFront, List.nil_append, ← Token.significant_map_unplaced,
    areTokens, isSetOff, Token.significant_map_unplaced, areOthers]

/-! ## Members -/

/-- The text lies ahead, in code that nothing surrounds. -/
structure Faces (place : Scanner) (text : List Char) : Prop where
  rest : place.rest = text
  bare : place.modes.visible = ModeStack.initial.visible

theorem faces_start (text : List Char) : (start text).Faces text := ⟨rfl, rfl⟩

theorem AtEnd.faces (atEnd : last.AtEnd) : last.Faces [] := ⟨atEnd.1, atEnd.2.2⟩

namespace Faces

variable {text : List Char}

theorem isCode (faces : place.Faces text) : place.modes.mode = .code := by
  rw [← ModeStack.visible_mode, faces.bare]
  rfl

theorem atEnd (faces : place.Faces []) : place.AtEnd := ⟨faces.rest, faces.isCode, faces.bare⟩

/-- A token that leaves the stack alone leads on to the text behind it. -/
theorem afterToken (faces : place.Faces text) (lexeme : Lexeme) :
    (place.afterToken lexeme place.modes).Faces lexeme.rest :=
  ⟨rfl, faces.bare⟩

end Faces

/-- From the place tokens of the given form are read up to the text, wherever they stand. -/
def ReadsUpTo
    (file : Option String) (place : Scanner) (form : List Token → Prop) (text : List Char) : Prop :=
  ∃ read final, Reaches file place read final ∧ final.Faces text ∧
    form ((Token.significant read).map Token.unplaced)

theorem ReadsUpTo.mono
    {text : List Char} {form other : List Token → Prop} (reads : place.ReadsUpTo file form text)
    (implies : ∀ tokens, form tokens → other tokens) : place.ReadsUpTo file other text := by
  rcases reads with ⟨read, final, reaches, faces, isForm⟩
  exact ⟨read, final, reaches, faces, implies _ isForm⟩

/-- What was read in front of the tokens. -/
theorem Reaches.readsUpTo
    {text : List Char} {form : List Token → Prop} (reaches : Reaches file place tokens last)
    (further : last.ReadsUpTo file
      (fun others => form ((Token.significant tokens).map Token.unplaced ++ others)) text) :
    place.ReadsUpTo file form text := by
  rcases further with ⟨read, final, reads, faces, isForm⟩
  refine ⟨tokens ++ read, final, reaches.append reads, faces, ?_⟩
  rw [Token.significant_append, List.map_append]
  exact isForm

theorem readsUpTo_here
    {text : List Char} {form : List Token → Prop} (faces : place.Faces text) (isForm : form []) :
    place.ReadsUpTo file form text :=
  ⟨[], place, .here, faces, isForm⟩

theorem ReadsUpTo.goesOn
    {text more : List Char} {first form : List Token → Prop}
    (reads : place.ReadsUpTo file first text)
    (further : ∀ (behind : Scanner) (tokens : List Token), first tokens → behind.Faces text →
      behind.ReadsUpTo file (fun others => form (tokens ++ others)) more) :
    place.ReadsUpTo file form more := by
  rcases reads with ⟨read, final, reaches, faces, isFirst⟩
  exact reaches.readsUpTo (further final _ isFirst faces)

/-- The next token that carries meaning. -/
theorem readsUpTo_of_move
    {text : List Char} {form : List Token → Prop} {lexeme : Lexeme}
    (step : place.modes.move place.rest = .token lexeme place.modes)
    (written : lexeme.kind.isWritten = true) (means : lexeme.kind.isTrivia = false)
    (further : (place.afterToken lexeme place.modes).ReadsUpTo file
      (fun others => form ((place.token file lexeme).unplaced :: others)) text) :
    place.ReadsUpTo file form text := by
  have reaches : Reaches file place [place.token file lexeme]
      (place.afterToken lexeme place.modes) := .token step written .here
  refine reaches.readsUpTo ?_
  rw [Token.significant_cons means]
  exact further

theorem readsUpTo_of_blanks
    {text : List Char} {form : List Token → Prop} (isCode : place.modes.mode = .code)
    (further : ∀ middle : Scanner, middle.rest = place.rest.dropWhile isSpacing →
      middle.modes = place.modes → middle.ReadsUpTo file form text) :
    place.ReadsUpTo file form text := by
  rcases reaches_past_blanks file isCode with ⟨read, middle, reaches, isRest, isModes, isTrivia⟩
  refine reaches.readsUpTo ?_
  rw [isTrivia]
  exact further middle isRest isModes

/-- A token that leaves the stack alone, behind blanks. -/
theorem readsUpTo_of_token
    {lexeme : Lexeme} {blanks ahead text : List Char} {form : List Token → Prop}
    (faces : place.Faces (blanks ++ ahead)) (areBlank : AllBlank blanks)
    (solid : ¬StartsBlank ahead)
    (step : ∀ modes : ModeStack, modes.mode = .code → modes.move ahead = .token lexeme modes)
    (written : lexeme.kind.isWritten = true) (means : lexeme.kind.isTrivia = false)
    (further : ∀ (behind : Scanner) (token : Token), token.kind = lexeme.kind →
      behind.Faces lexeme.rest →
        behind.ReadsUpTo file (fun others => form (token :: others)) text) :
    place.ReadsUpTo file form text := by
  refine readsUpTo_of_blanks faces.isCode ?_
  intro middle isRest isModes
  rw [faces.rest, areBlank.dropWhile_append, dropWhile_of_not_startsBlank solid] at isRest
  have facesMiddle : middle.Faces ahead := ⟨isRest, isModes ▸ faces.bare⟩
  have stepHere : middle.modes.move middle.rest = .token lexeme middle.modes := by
    rw [isRest]
    exact step middle.modes facesMiddle.isCode
  exact readsUpTo_of_move stepHere written means (further _ _ rfl (facesMiddle.afterToken lexeme))

/-- A mark, behind blanks. -/
theorem readsUpTo_of_mark
    {mark : Mark} {blanks sign rest text : List Char} {form : List Token → Prop}
    (faces : place.Faces (blanks ++ (sign ++ rest))) (areBlank : AllBlank blanks)
    (solid : ¬StartsBlank (sign ++ rest))
    (step : ∀ modes : ModeStack,
      modes.codeMove (sign ++ rest) = .token ⟨.mark mark, sign, rest⟩ modes)
    (further : ∀ (behind : Scanner) (token : Token), token.kind = .mark mark →
      behind.Faces rest → behind.ReadsUpTo file (fun others => form (token :: others)) text) :
    place.ReadsUpTo file form text := by
  have stepInCode (modes : ModeStack) (isCode : modes.mode = .code) :
      modes.move (sign ++ rest) = .token ⟨.mark mark, sign, rest⟩ modes := by
    simp only [ModeStack.move, isCode]
    exact step modes
  exact readsUpTo_of_token faces areBlank solid stepInCode rfl rfl further

/-- Up to the end the same is read from every place on the way. -/
theorem Reaches.further
    {before : List Token} {middle : Scanner} (first : Reaches file place before middle)
    (reaches : Reaches file place tokens last) (atEnd : last.AtEnd) :
    ∃ behind, tokens = before ++ behind ∧ Reaches file middle behind last := by
  induction first generalizing tokens with
  | here => exact ⟨tokens, rfl, reaches⟩
  | token step written _ inductionHypothesis =>
      cases reaches with
      | here => exact absurd atEnd.1 (rest_ne_nil_of_token step written atEnd.2.1)
      | quote stepAgain => cases step.symm.trans stepAgain
      | token stepAgain _ further =>
          obtain ⟨rfl, rfl⟩ := Move.token.inj (step.symm.trans stepAgain)
          rcases inductionHypothesis further with ⟨behind, rfl, reads⟩
          exact ⟨behind, rfl, reads⟩
  | quote step _ inductionHypothesis =>
      cases reaches with
      | here => exact absurd atEnd.1 (rest_ne_nil_of_quote step)
      | token stepAgain => cases step.symm.trans stepAgain
      | quote stepAgain further =>
          obtain ⟨rfl, rfl, rfl⟩ := Move.quote.inj (step.symm.trans stepAgain)
          exact inductionHypothesis further

/-- A text may go on behind a blank.  Up to the blanks at its end the same is read. -/
theorem Reaches.before_blank
    {text rest : List Char} (reaches : Reaches file (start text) tokens last)
    (atEnd : last.AtEnd) :
    ∃ gap read middle, AllBlank gap ∧ Reaches file (start (text ++ ' ' :: rest)) read middle ∧
      middle.Faces (gap ++ ' ' :: rest) ∧ Token.significant read = Token.significant tokens := by
  have outside : last.modes.mode.isString = false := by
    rw [atEnd.2.1]
    rfl
  have separated : Separated ((' ' :: rest) ++ []) := separated_cons rfl _
  rw [← List.append_nil text] at reaches
  rcases reaches.with_inserted atEnd.1 outside separated_nil separated with
    ⟨gap, read, middle, isGap, isMiddle, isCode, reads, readsOn⟩
  rw [List.append_nil] at readsOn
  have areBlank : AllBlank gap := by
    rcases isGap with areBlank | ⟨inComment, -⟩
    · exact areBlank
    · cases inComment.symm.trans atEnd.2.1
  -- Behind the gap the text ends, so that nothing but blanks was read after it.
  rcases reaches_past_blanks file isCode with ⟨blanks, final, passes, isFinal, sameModes, isNil⟩
  have isEnd : final.rest = [] := by
    rw [isFinal, isMiddle]
    exact areBlank.dropWhile_append []
  rcases (reads.append passes).further reaches atEnd with ⟨behind, rfl, readsBehind⟩
  rcases readsBehind.of_end (sameModes ▸ isCode) isEnd with ⟨rfl, rfl⟩
  refine ⟨gap, read, _, areBlank, readsOn, ⟨rfl, sameModes ▸ atEnd.2.2⟩, ?_⟩
  rw [List.append_nil, Token.significant_append, isNil, List.append_nil]

/-- A newline among the tokens is one in the text. -/
theorem Reaches.mem_newline
    {token : Token} (reaches : Reaches file scanner tokens last) (member : token ∈ tokens)
    (isNewline : token.kind = .newline) : '\n' ∈ scanner.rest := by
  rcases List.append_of_mem member with ⟨before, after, whole⟩
  rcases reaches.split whole with ⟨middle, lexeme, modes, reads, step, rfl, -⟩
  rcases reads.covered with ⟨covered, isRest, -⟩
  have covers := ModeStack.move_covers middle.modes middle.rest
  rw [step] at covers
  have isText : lexeme.text ++ lexeme.rest = middle.rest := covers
  have isLine : lexeme.text = ['\n'] := ModeStack.text_of_newline step isNewline
  rw [isRest, ← isText, isLine]
  simp

end Scanner

namespace Token

open Scanner

variable {file : Option String} {scanner last : Scanner} {tokens read : List Token}
  {text : List Char}

/-- The tokens, however the first of them is set off. -/
def AreAsSetOff (tokens others : List Token) : Prop := ∃ spaced, others = setOff spaced tokens

/-- Where a member of a list starts with the text, it has tokens of the form. -/
def AreMember (file : Option String) (text : List Char) (form : List Token → Prop) : Prop :=
  ∀ (place : Scanner) (mark : Char) (more : List Char), EndsMember mark →
    place.Faces (text ++ mark :: more) → place.ReadsUpTo file form (mark :: more)

theorem AreMember.mono
    {form other : List Token → Prop} (isMember : AreMember file text form)
    (implies : ∀ tokens, form tokens → other tokens) : AreMember file text other := by
  intro place mark more ends faces
  exact (isMember place mark more ends faces).mono implies

/-- What is read in front of a seam is read there in any list, with blanks in front of it. -/
theorem areMember_of_reaches
    {tail blanks : List Char} (reaches : Reaches file scanner read last)
    (faces : scanner.Faces (text ++ tail)) (facesTail : last.Faces tail) (stopped : Stopped tail)
    (noEquals : text.getLast? ≠ some '=') (areBlank : AllBlank blanks) :
    AreMember file (blanks ++ text) (AreAsSetOff ((significant read).map unplaced)) := by
  intro place mark more ends facesPlace
  have exchanged : Reaches file { scanner with rest := text ++ mark :: more } read
      { last with rest := [] ++ mark :: more } := by
    have keeps := keepsSetters_of_getLast? noEquals tail (mark :: more)
    refine reaches.exchanged_at_stop faces.rest (facesTail.rest : last.rest = [] ++ tail) stopped
      (stopped_cons ends.isStop more) keeps ?_
    intro _ _
    refine ⟨fun blank => absurd blank (ends.not_startsBlank more), fun isComment => ?_⟩
    cases facesTail.isCode.symm.trans isComment
  have isRest : place.rest = blanks ++ (text ++ mark :: more) := by
    rw [facesPlace.rest, List.append_assoc]
  rcases exchanged.behind_blanks faces.isCode (ends.not_startsBlank more) areBlank isRest
      (facesPlace.bare.trans faces.bare.symm) with
    ⟨behind, final, reads, isFinal, isModes, areTokens⟩
  exact ⟨behind, final, reads, ⟨isFinal, isModes.trans facesTail.bare⟩, areTokens⟩

/-- A text that is read to its end is read there in any list. -/
theorem areMember_of_atEnd
    {blanks : List Char} (reaches : Reaches file (start text) read last) (atEnd : last.AtEnd)
    (noEquals : text.getLast? ≠ some '=') (areBlank : AllBlank blanks) :
    AreMember file (blanks ++ text) (AreAsSetOff ((significant read).map unplaced)) := by
  have faces : (start text).Faces (text ++ []) := by
    rw [List.append_nil]
    exact faces_start text
  have stopped : Stopped [] := by
    intro mark isHead
    cases isHead
  exact areMember_of_reaches reaches faces atEnd.faces stopped noEquals areBlank

/-- A text with a closing parenthesis behind it is read in the same way in any list, unless an
operator stands in front of the parenthesis. -/
theorem areMember_of_paren
    (reaches : Reaches file scanner tokens last) (atEnd : last.AtEnd)
    (faces : scanner.Faces (text ++ [')'])) :
    ∃ read closer, tokens = read ++ [closer] ∧ closer.kind = .mark .rightParen ∧
      ((∀ token, read.getLast? = some token → ∀ operator, token.kind ≠ .operator operator) →
        text.getLast? ≠ some '=' ∧
          AreMember file text (AreAsSetOff ((significant read).map unplaced))) := by
  rcases reaches.splits_at_paren atEnd faces.rest with
    ⟨read, closer, place, rfl, isCloser, reads, isPlace, isModes, equals⟩
  refine ⟨read, closer, rfl, isCloser, ?_⟩
  intro noSign
  have facesCloser : place.Faces [')'] := ⟨isPlace, isModes ▸ atEnd.2.2⟩
  have noEquals : text.getLast? ≠ some '=' := by
    intro isEquals
    rcases equals isEquals with ⟨token, operator, isLast, isOperator⟩
    exact noSign token isLast operator isOperator
  exact ⟨noEquals, areMember_of_reaches reads faces facesCloser (stopped_cons rfl []) noEquals
    (List.forall_mem_nil _)⟩

end Token

end ScriptFront
