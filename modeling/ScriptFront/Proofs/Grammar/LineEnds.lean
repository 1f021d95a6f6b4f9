import ScriptFront.Proofs.Grammar.BlankLines
import ScriptFront.Proofs.Token.Enclosing
import ScriptFront.Proofs.Token.Gaps

/-!
# The ends of lines

Blanks at the end of a line, a comment there, and blanks at the start of the next line give no
tokens that carry meaning.  Two texts that differ in them only are read alike: the same lines come
out.
-/

namespace ScriptFront

namespace Token

variable {token line : Token} {read others : List Token}

/-- The lines of what was read, wherever they stand. -/
def lines (atStart : Bool) (read : List Token) : List Token :=
  compact atStart ((significant read).map unplaced)

theorem compact_append (atStart : Bool) (first : List Token) :
    ∃ further, ∀ second, compact atStart (first ++ second) =
      compact atStart first ++ compact further second := by
  induction first generalizing atStart with
  | nil => exact ⟨atStart, fun second => rfl⟩
  | cons token others inductionHypothesis =>
      by_cases isLine : token.kind = .newline
      · rcases inductionHypothesis true with ⟨further, whole⟩
        refine ⟨further, fun second => ?_⟩
        cases atStart with
        | true => rw [List.cons_append, compact_blank isLine, compact_blank isLine, whole]
        | false =>
            rw [List.cons_append, compact_line isLine, compact_line isLine, whole,
              List.cons_append]
      · rcases inductionHypothesis false with ⟨further, whole⟩
        refine ⟨further, fun second => ?_⟩
        rw [List.cons_append, compact, compact, if_neg isLine, if_neg isLine, whole,
          List.cons_append]

theorem lines_append (atStart : Bool) (first : List Token) :
    ∃ further, ∀ second, lines atStart (first ++ second) =
      lines atStart first ++ lines further second := by
  rcases compact_append atStart ((significant first).map unplaced) with ⟨further, whole⟩
  refine ⟨further, fun second => ?_⟩
  rw [lines, significant, List.filter_append, List.map_append]
  exact whole _

theorem lines_trivia (areTrivia : ∀ token ∈ read, token.isTrivia = true) (atStart : Bool) :
    lines atStart (read ++ others) = lines atStart others := by
  have none : significant read = [] := by
    refine List.filter_eq_nil_iff.2 ?_
    intro token member
    simp [areTrivia token member]
  rw [lines, lines, significant, List.filter_append]
  rw [significant] at none
  rw [none]
  rfl

theorem lines_cons (means : token.isTrivia = false) (atStart : Bool) (others : List Token) :
    lines atStart (token :: others) =
      compact atStart (token.unplaced :: (significant others).map unplaced) := by
  rw [lines, significant, List.filter_cons_of_pos (by simp [means])]
  rfl

theorem means_of_newline (isLine : token.kind = .newline) : token.isTrivia = false := by
  rw [isTrivia, isLine]
  rfl

theorem lines_blank (isLine : line.kind = .newline) (others : List Token) :
    lines true (line :: others) = lines true others := by
  have isLineAnywhere : line.unplaced.kind = .newline := isLine
  rw [lines_cons (means_of_newline isLine), compact_blank isLineAnywhere]
  rfl

theorem lines_line (isLine : line.kind = .newline) (others : List Token) :
    lines false (line :: others) = ⟨.newline, "\n", default, false⟩ :: lines true others := by
  have isLineAnywhere : line.unplaced.kind = .newline := isLine
  rw [lines_cons (means_of_newline isLine), compact_line isLineAnywhere]
  rfl

theorem lines_token
    (means : token.isTrivia = false) (inLine : token.kind ≠ .newline) (atStart : Bool)
    (others : List Token) :
    lines atStart (token :: others) =
      ⟨token.kind, token.lexeme, default, token.spaced && !atStart⟩ :: lines false others := by
  have inLineAnywhere : token.unplaced.kind ≠ .newline := inLine
  rw [lines_cons means, compact, if_neg inLineAnywhere]
  rfl

/-- The lines behind a line end are what matters. -/
theorem lines_congr
    {again : Token} {more : List Token} (isLine : line.kind = .newline)
    (isLineAgain : again.kind = .newline) (same : lines true more = lines true others)
    (atStart : Bool) : lines atStart (again :: more) = lines atStart (line :: others) := by
  cases atStart with
  | true => rw [lines_blank isLine, lines_blank isLineAgain, same]
  | false => rw [lines_line isLine, lines_line isLineAgain, same]

end Token

namespace Scanner

open Token

variable {file : Option String} {place other next last : Scanner} {read again : List Token}
variable {atStart further : Bool}

/-! ## Reading on -/

/-- Every reading to the end of the text goes on behind what has been read. -/
theorem Reaches.rest_of_end
    {tokens : List Token} (first : Reaches file place read next)
    (whole : Reaches file place tokens last) (atEnd : last.AtEnd) :
    ∃ others, tokens = read ++ others ∧ Reaches file next others last := by
  induction first generalizing tokens with
  | here => exact ⟨tokens, rfl, whole⟩
  | token step written _ inductionHypothesis =>
      cases whole with
      | here =>
          obtain ⟨rfl, -⟩ := Move.token.inj (step.symm.trans atEnd.move)
          cases written
      | token stepAgain _ behind =>
          obtain ⟨rfl, rfl⟩ := Move.token.inj (step.symm.trans stepAgain)
          rcases inductionHypothesis behind with ⟨others, rfl, reaches⟩
          exact ⟨others, rfl, reaches⟩
      | quote stepAgain => cases step.symm.trans stepAgain
  | quote step _ inductionHypothesis =>
      cases whole with
      | here => cases step.symm.trans atEnd.move
      | token stepAgain => cases step.symm.trans stepAgain
      | quote stepAgain behind =>
          obtain ⟨rfl, rfl, rfl⟩ := Move.quote.inj (step.symm.trans stepAgain)
          exact inductionHypothesis behind

/-- From the second place the text is read to its end if it is from the first, with the same
lines. -/
def ReadsAlike (file : Option String) (atStart : Bool) (place other : Scanner) : Prop :=
  ∀ read last, Reaches file place read last → last.AtEnd →
    ∃ again final, Reaches file other again final ∧ final.AtEnd ∧
      lines atStart again = lines atStart read

/-- Behind what makes no difference, reading alike is reading alike. -/
theorem ReadsAlike.behind
    {behind : Scanner} (first : Reaches file place read next)
    (second : Reaches file other again behind)
    (same : ∀ others more, lines further more = lines further others →
      lines atStart (again ++ more) = lines atStart (read ++ others))
    (alike : ReadsAlike file further next behind) : ReadsAlike file atStart place other := by
  intro tokens last reaches atEnd
  rcases first.rest_of_end reaches atEnd with ⟨others, rfl, reachesBehind⟩
  rcases alike others last reachesBehind atEnd with
    ⟨more, final, reachesAgain, atEndAgain, sameLines⟩
  exact ⟨again ++ more, final, second.append reachesAgain, atEndAgain, same others more sameLines⟩

/-- Behind the same tokens. -/
theorem ReadsAlike.behind_same
    {behind : Scanner} (first : Reaches file place read next)
    (second : Reaches file other read behind)
    (alike : ∀ further, ReadsAlike file further next behind) :
    ReadsAlike file atStart place other := by
  rcases lines_append atStart read with ⟨further, whole⟩
  refine ReadsAlike.behind first second ?_ (alike further)
  intro others more same
  rw [whole, whole, same]

/-- Behind tokens that carry no meaning. -/
theorem ReadsAlike.behind_trivia
    {behind : Scanner} (first : Reaches file place read next)
    (second : Reaches file other again behind) (areTrivia : ∀ token ∈ read, token.isTrivia = true)
    (areTriviaAgain : ∀ token ∈ again, token.isTrivia = true)
    (alike : ReadsAlike file atStart next behind) : ReadsAlike file atStart place other := by
  refine ReadsAlike.behind first second ?_ alike
  intro others more same
  rw [lines_trivia areTrivia, lines_trivia areTriviaAgain, same]

/-- The same text is read alike wherever it stands.  How its first token is set off is not told at
the start of a line. -/
theorem readsAlike_of_same
    (sameRest : other.rest = place.rest) (sameModes : other.modes = place.modes)
    (apart : atStart = true ∨ other.spaced = place.spaced) :
    ReadsAlike file atStart place other := by
  intro read last reaches atEnd
  induction reaches generalizing other atStart with
  | here => exact ⟨[], other, .here, ⟨sameRest.trans atEnd.1, sameModes ▸ atEnd.2⟩, rfl⟩
  | @token place last lexeme modes tokens step written _ inductionHypothesis =>
      have stepAgain : other.modes.move other.rest = .token lexeme modes := by
        rw [sameRest, sameModes, step]
      have goesOn (atStart : Bool) :
          ∃ again final, Reaches file (other.afterToken lexeme modes) again final ∧ final.AtEnd ∧
            lines atStart again = lines atStart tokens :=
        inductionHypothesis rfl rfl (Or.inr rfl) atEnd
      cases isTrivia : lexeme.kind.isTrivia with
      | true =>
          rcases goesOn atStart with ⟨again, final, reachesAgain, atEndAgain, same⟩
          refine ⟨_, final, .token stepAgain written reachesAgain, atEndAgain, ?_⟩
          have alone (token : Token) (isKind : token.kind = lexeme.kind) :
              ∀ other ∈ [token], other.isTrivia = true := by
            intro other member
            rw [List.mem_singleton.1 member, Token.isTrivia, isKind, isTrivia]
          exact (lines_trivia (alone (other.token file lexeme) rfl) atStart).trans
            (same.trans (lines_trivia (alone (place.token file lexeme) rfl) atStart).symm)
      | false =>
          by_cases isLine : lexeme.kind = .newline
          · rcases goesOn true with ⟨again, final, reachesAgain, atEndAgain, same⟩
            exact ⟨_, final, .token stepAgain written reachesAgain, atEndAgain,
              lines_congr isLine isLine same atStart⟩
          · rcases goesOn false with ⟨again, final, reachesAgain, atEndAgain, same⟩
            refine ⟨_, final, .token stepAgain written reachesAgain, atEndAgain, ?_⟩
            have sameSpacing : (other.spaced && !atStart) = (place.spaced && !atStart) := by
              rcases apart with rfl | sameSpaced
              · rw [Bool.not_true, Bool.and_false, Bool.and_false]
              · rw [sameSpaced]
            have isToken (place : Scanner) (tokens : List Token) :
                lines atStart (place.token file lexeme :: tokens) =
                  ⟨lexeme.kind, String.ofList lexeme.text, default, place.spaced && !atStart⟩ ::
                    lines false tokens := by
              have means : (place.token file lexeme).isTrivia = false := isTrivia
              exact lines_token means isLine atStart tokens
            rw [isToken, isToken, sameSpacing, same]
  | @quote place last mark rest modes tokens step _ inductionHypothesis =>
      have stepAgain : other.modes.move other.rest = .quote mark rest modes := by
        rw [sameRest, sameModes, step]
      have goesOn : ∃ again final, Reaches file (other.afterQuote mark rest modes) again final ∧
          final.AtEnd ∧ lines atStart again = lines atStart tokens :=
        inductionHypothesis rfl rfl apart atEnd
      rcases goesOn with ⟨again, final, reachesAgain, atEndAgain, same⟩
      exact ⟨again, final, .quote stepAgain reachesAgain, atEndAgain, same⟩

theorem readsAlike_of_end
    (isCode : place.modes.mode = .code) (isNil : place.rest = [])
    (sameRest : other.rest = place.rest) (sameModes : other.modes = place.modes) :
    ReadsAlike file atStart place other := by
  intro read last reaches atEnd
  obtain ⟨rfl, rfl⟩ := reaches.of_end isCode isNil
  exact ⟨[], other, .here, ⟨sameRest.trans atEnd.1, sameModes ▸ atEnd.2⟩, rfl⟩

/-! ## Blanks -/

theorem reaches_spacing (isCode : place.modes.mode = .code) (blank : StartsBlank place.rest) :
    Reaches file place [place.token file (.spacing place.rest)]
      (place.afterToken (.spacing place.rest) place.modes) := by
  rcases blank with ⟨mark, isHead, isBlank⟩
  rcases List.head?_eq_some_iff.1 isHead with ⟨more, isRest⟩
  refine .token ?_ rfl .here
  simp only [ModeStack.move, isCode]
  rw [isRest]
  exact ModeStack.codeMove_of_isSpacing isBlank place.modes more

/-- A run of blanks is read alike, whatever blanks it is made of. -/
theorem readsAlike_spacing
    (isCode : place.modes.mode = .code) (sameModes : other.modes = place.modes)
    (blank : StartsBlank place.rest) (blankOther : StartsBlank other.rest)
    (same : other.rest.dropWhile isSpacing = place.rest.dropWhile isSpacing) :
    ReadsAlike file atStart place other := by
  have areTrivia (place : Scanner) :
      ∀ token ∈ [place.token file (.spacing place.rest)], token.isTrivia = true := by
    intro token member
    rw [List.mem_singleton.1 member]
    rfl
  refine ReadsAlike.behind_trivia (reaches_spacing isCode blank)
    (reaches_spacing (sameModes ▸ isCode) blankOther) (areTrivia place) (areTrivia other) ?_
  exact readsAlike_of_same same sameModes (Or.inr rfl)

/-- Blanks may be ahead, or none. -/
theorem reaches_blanks (isCode : place.modes.mode = .code) :
    ∃ read next, Reaches file place read next ∧ (∀ token ∈ read, token.isTrivia = true) ∧
      next.rest = place.rest.dropWhile isSpacing ∧ next.modes = place.modes := by
  by_cases blank : StartsBlank place.rest
  · refine ⟨_, _, reaches_spacing isCode blank, ?_, rfl, rfl⟩
    intro token member
    rw [List.mem_singleton.1 member]
    rfl
  · refine ⟨[], place, .here, by simp, ?_, rfl⟩
    cases isRest : place.rest with
    | nil => rfl
    | cons first others =>
        rw [List.dropWhile_cons_of_neg]
        intro isBlank
        exact blank ⟨first, by rw [isRest]; rfl, isBlank⟩

/-- At the start of a line blanks make no difference. -/
theorem readsAlike_blanks
    (isCode : place.modes.mode = .code) (sameModes : other.modes = place.modes)
    (same : other.rest.dropWhile isSpacing = place.rest.dropWhile isSpacing) :
    ReadsAlike file true place other := by
  rcases reaches_blanks isCode with ⟨read, next, reaches, areTrivia, isRest, isModes⟩
  rcases reaches_blanks (sameModes ▸ isCode) with
    ⟨again, behind, reachesOther, areTriviaAgain, isRestOther, isModesOther⟩
  refine ReadsAlike.behind_trivia reaches reachesOther areTrivia areTriviaAgain ?_
  refine readsAlike_of_same ?_ ?_ (Or.inl rfl)
  · rw [isRest, isRestOther, same]
  · rw [isModes, isModesOther, sameModes]

/-- Nor do they at the end of the text. -/
theorem readsAlike_at_end
    (isCode : place.modes.mode = .code) (sameModes : other.modes = place.modes)
    (blanks : place.rest.dropWhile isSpacing = [])
    (blanksOther : other.rest.dropWhile isSpacing = []) : ReadsAlike file atStart place other := by
  rcases reaches_blanks isCode with ⟨read, next, reaches, areTrivia, isRest, isModes⟩
  rcases reaches_blanks (sameModes ▸ isCode) with
    ⟨again, behind, reachesOther, areTriviaAgain, isRestOther, isModesOther⟩
  refine ReadsAlike.behind_trivia reaches reachesOther areTrivia areTriviaAgain ?_
  refine readsAlike_of_end (isModes ▸ isCode) (isRest.trans blanks) ?_ ?_
  · rw [isRest, isRestOther, blanks, blanksOther]
  · rw [isModes, isModesOther, sameModes]

/-! ## Line ends -/

theorem reaches_newline
    {more : List Char} (isCode : place.modes.mode = .code) (isLine : place.rest = '\n' :: more) :
    Reaches file place [place.token file ⟨.newline, ['\n'], more⟩]
      (place.afterToken ⟨.newline, ['\n'], more⟩ place.modes) := by
  refine .token ?_ rfl .here
  simp only [ModeStack.move, isCode]
  rw [isLine]
  rfl

/-- A comment ends with its line. -/
theorem reaches_comment
    {text more : List Char} (isCode : place.modes.mode = .code)
    (isComment : place.rest = '#' :: text ++ '\n' :: more) (inLine : '\n' ∉ '#' :: text) :
    ∃ comment line behind, Reaches file place [comment, line] behind ∧ comment.isTrivia = true ∧
      line.kind = .newline ∧ behind.rest = more ∧ behind.modes = place.modes ∧
        behind.spaced = false := by
  have goOn : ∀ mark ∈ '#' :: text, decide (mark ≠ '\n') = true := by
    intro mark member
    refine decide_eq_true ?_
    rintro rfl
    exact inLine member
  have isRest : (Lexeme.comment place.rest).rest = '\n' :: more := by
    change place.rest.dropWhile (fun mark => decide (mark ≠ '\n')) = _
    rw [isComment, List.dropWhile_append_of_pos goOn]
    rfl
  have step : place.modes.move place.rest =
      .token (.comment place.rest) (place.modes.push .comment) := by
    simp only [ModeStack.move, isCode]
    rw [isComment]
    rfl
  let middle := place.afterToken (.comment place.rest) (place.modes.push .comment)
  have stepBehind : middle.modes.move middle.rest =
      .token ⟨.newline, ['\n'], more⟩ middle.modes.pop.2 := by
    have isMiddle : middle.rest = '\n' :: more := isRest
    rw [isMiddle]
    rfl
  exact ⟨_, _, _, .token step rfl (.token stepBehind rfl .here), rfl, rfl, rfl, rfl, rfl⟩

theorem reaches_lineEnd
    {gap more : List Char} (isCode : place.modes.mode = .code) (ends : EndsLine gap)
    (whole : place.rest = gap ++ '\n' :: more) :
    ∃ read line next, Reaches file place (read ++ [line]) next ∧
      (∀ token ∈ read, token.isTrivia = true) ∧ line.kind = .newline ∧ next.rest = more ∧
        next.modes = place.modes ∧ next.spaced = false := by
  rcases reaches_blanks isCode with ⟨read, middle, reaches, areTrivia, isMiddle, isModes⟩
  have isCodeMiddle : middle.modes.mode = .code := isModes ▸ isCode
  rw [whole, dropWhile_append_stop rfl] at isMiddle
  rcases ends.trivia with isNil | ⟨text, isComment⟩
  · rw [isNil] at isMiddle
    exact ⟨read, _, _, reaches.append (reaches_newline isCodeMiddle isMiddle), areTrivia, rfl, rfl,
      isModes, rfl⟩
  · rw [isComment] at isMiddle
    have inLine : '\n' ∉ '#' :: text := by
      rw [← isComment]
      intro member
      exact ends.inLine ((List.dropWhile_sublist _).subset member)
    rcases reaches_comment isCodeMiddle isMiddle inLine with
      ⟨comment, line, behind, reachesBehind, isTrivia, isLine, isRest, sameModes, unspaced⟩
    refine ⟨read ++ [comment], line, behind, ?_, ?_, isLine, isRest, sameModes.trans isModes,
      unspaced⟩
    · rw [List.append_assoc]
      exact reaches.append reachesBehind
    · intro token member
      rcases List.mem_append.1 member with isBefore | isHere
      · exact areTrivia token isBefore
      · rw [List.mem_singleton.1 isHere]
        exact isTrivia

/-- What stands at the end of a line in front of its newline makes no difference. -/
theorem readsAlike_lineEnd
    {gap blank more : List Char} (isCode : place.modes.mode = .code)
    (sameModes : other.modes = place.modes) (ends : EndsLine gap) (endsOther : EndsLine blank)
    (whole : place.rest = gap ++ '\n' :: more) (wholeOther : other.rest = blank ++ '\n' :: more) :
    ReadsAlike file atStart place other := by
  rcases reaches_lineEnd isCode ends whole with
    ⟨read, line, next, reaches, areTrivia, isLine, isRest, isModes, unspaced⟩
  rcases reaches_lineEnd (sameModes ▸ isCode) endsOther wholeOther with
    ⟨again, lineAgain, behind, reachesOther, areTriviaAgain, isLineAgain, isRestOther, isModesOther,
      unspacedOther⟩
  have alike : ReadsAlike file true next behind := by
    refine readsAlike_of_same ?_ ?_ (Or.inl rfl)
    · rw [isRest, isRestOther]
    · rw [isModes, isModesOther, sameModes]
  refine ReadsAlike.behind reaches reachesOther ?_ alike
  intro others moreTokens same
  rw [List.append_assoc, List.append_assoc, lines_trivia areTrivia, lines_trivia areTriviaAgain]
  exact lines_congr isLine isLineAgain same atStart

/-- Behind a newline that is read here, reading alike from the next line on is reading alike. -/
theorem readsAlike_line
    {lexeme : Lexeme} {modes : ModeStack} {rest more : List Char}
    (step : place.modes.move place.rest = .token lexeme modes) (isLine : lexeme.kind = .newline)
    (isRest : place.rest = '\n' :: rest) (sameModes : other.modes = place.modes)
    (isRestOther : other.rest = '\n' :: more)
    (alike : ReadsAlike file true (place.afterToken ⟨.newline, ['\n'], rest⟩ modes)
      (other.afterToken ⟨.newline, ['\n'], more⟩ modes)) :
    ReadsAlike file atStart place other := by
  have turns := ModeStack.turns_of_move step
  rw [isLine] at turns
  have steps (more : List Char) : place.modes.move ('\n' :: more) =
      .token ⟨.newline, ['\n'], more⟩ modes := by
    cases turns with
    | plain isCode =>
        simp only [ModeStack.move, isCode]
        rfl
    | commentEnds isComment =>
        simp only [ModeStack.move, isComment]
        rfl
  have stepHere : place.modes.move place.rest = .token ⟨.newline, ['\n'], rest⟩ modes := by
    rw [isRest, steps]
  have stepOther : other.modes.move other.rest = .token ⟨.newline, ['\n'], more⟩ modes := by
    rw [sameModes, isRestOther, steps]
  refine ReadsAlike.behind (.token stepHere rfl .here) (.token stepOther rfl .here) ?_ alike
  intro others moreTokens same
  exact lines_congr rfl rfl same atStart

end Scanner

end ScriptFront
