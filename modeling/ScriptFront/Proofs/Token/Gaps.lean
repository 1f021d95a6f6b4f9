import ScriptFront.Proofs.Token.Exchange
import ScriptFront.Proofs.Token.Insertions

/-!
# Gaps between tokens

Between the last token that carries meaning and a place there may be blanks, or a comment whose line
ends at the place.  A text that is inserted at the place goes on with the gap: all that stands in
front of the gap is read as before.
-/

namespace ScriptFront

/-- Only blanks. -/
def AllBlank (text : List Char) : Prop :=
  ∀ character ∈ text, character = ' ' ∨ character = '\t' ∨ character = '\r'

instance : DecidablePred AllBlank := fun text =>
  List.decidableBAll (fun character => character = ' ' ∨ character = '\t' ∨ character = '\r') text

theorem AllBlank.spacing {text : List Char} (blank : AllBlank text) :
    ∀ character ∈ text, isSpacing character = true :=
  fun character member => isSpacing_iff.2 (blank character member)

/-- The longest run of blanks consists of blanks. -/
theorem allBlank_takeWhile (text : List Char) : AllBlank (text.takeWhile isSpacing) :=
  fun character member => isSpacing_iff.1 (List.all_eq_true.1 List.all_takeWhile character member)

/-- What may stand between the last token of a line and its newline: blanks, and a comment behind
them. -/
structure EndsLine (gap : List Char) : Prop where
  inLine : '\n' ∉ gap
  trivia : gap.dropWhile isSpacing = [] ∨ ∃ text, gap.dropWhile isSpacing = '#' :: text

theorem AllBlank.dropWhile_append {text : List Char} (blank : AllBlank text) (more : List Char) :
    (text ++ more).dropWhile isSpacing = more.dropWhile isSpacing :=
  List.dropWhile_append_of_pos blank.spacing

theorem AllBlank.append_endsLine {text more : List Char} (blank : AllBlank text)
    (ends : EndsLine more) : EndsLine (text ++ more) := by
  refine ⟨?_, ?_⟩
  · intro member
    rcases List.mem_append.1 member with inBlanks | behind
    · exact absurd (blank _ inBlanks) (by decide)
    · exact ends.inLine behind
  · rw [blank.dropWhile_append]
    exact ends.trivia

theorem endsLine_nil : EndsLine [] := ⟨by simp, Or.inl rfl⟩

theorem AllBlank.endsLine {text : List Char} (blank : AllBlank text) : EndsLine text := by
  have ends := blank.append_endsLine endsLine_nil
  rwa [List.append_nil] at ends

theorem endsLine_comment {text : List Char} (inLine : '\n' ∉ text) : EndsLine ('#' :: text) := by
  refine ⟨?_, Or.inr ⟨text, rfl⟩⟩
  intro member
  rcases List.mem_cons.1 member with same | behind
  · cases same
  · exact inLine behind

namespace Scanner

variable {file : Option String} {place last : Scanner} {read : List Token}

/-- Without a token only quotes are passed, which are no whitespace. -/
theorem Reaches.spaced_of_no_token
    {tokens : List Token} (reaches : Reaches file place tokens last) (none : tokens = []) :
    last.spaced = place.spaced := by
  induction reaches with
  | here => rfl
  | token => cases none
  | quote _ _ inductionHypothesis => exact inductionHypothesis none

/-- Outside of strings nothing is passed without a token. -/
theorem Reaches.eq_of_no_token
    (reaches : Reaches file place [] last) (outside : place.modes.mode.isString = false)
    (outsideBehind : last.modes.mode.isString = false) : last = place := by
  cases reaches with
  | here => rfl
  | quote step further =>
      cases ModeStack.quotes_of_move step with
      | closes _ delimits =>
          cases outside.symm.trans (Mode.isString_of_delimiter? delimits)
      | opens _ delimits =>
          -- The piece of the string that opens here would be the next token.
          have inString := Mode.isString_of_delimiter? delimits
          cases further with
          | here => cases outsideBehind.symm.trans inString
          | quote stepBehind =>
              have isRead := (ModeStack.quotes_of_move stepBehind).isRead inString
              cases isRead.symm.trans inString

/-- A place behind whitespace or a comment. -/
theorem Reaches.last_trivia
    (reaches : Reaches file place read last) (unspaced : place.spaced = false)
    (spaced : last.spaced = true) (outside : last.modes.mode.isString = false) :
    ∃ before middle lexeme modes, Reaches file place before middle ∧
      middle.modes.move middle.rest = .token lexeme modes ∧ lexeme.kind.isTrivia = true ∧
        last = middle.afterToken lexeme modes := by
  rcases List.eq_nil_or_concat read with rfl | ⟨before, token, isRead⟩
  · cases (reaches.spaced_of_no_token rfl).symm.trans spaced |>.symm.trans unspaced
  · rw [List.concat_eq_append] at isRead
    rcases reaches.split isRead with ⟨middle, lexeme, modes, isBefore, step, -, further⟩
    have isTrivia : lexeme.kind.isTrivia = true :=
      (further.spaced_of_no_token rfl).symm.trans spaced
    have isLast := further.eq_of_no_token (ModeStack.notString_of_trivia step isTrivia) outside
    exact ⟨before, middle, lexeme, modes, isBefore, step, isTrivia, isLast⟩

/-- The end of a line is read behind a comment only directly behind it. -/
structure Commented (scanner : Scanner) : Prop where
  sound : scanner.Sound
  spaced : scanner.modes.mode = .comment → scanner.spaced = true

theorem Reaches.commented (reaches : Reaches file place read last) (commented : place.Commented) :
    last.Commented := by
  refine reaches.keeps ?_ ?_ commented
  · intro scanner lexeme modes step commented
    refine ⟨commented.sound.afterToken step, fun inComment => ?_⟩
    rcases ModeStack.Sound.kind_of_comment commented.sound step inComment with ⟨text, isKind⟩
    exact congrArg Kind.isTrivia isKind
  · intro scanner mark rest modes step commented
    refine ⟨commented.sound.afterQuote step, fun inComment => ?_⟩
    exact absurd inComment (ModeStack.Sound.quote_ne_comment commented.sound step)

/-- What stands between the last token that carries meaning and a place: blanks, or the comment
whose newline is next. -/
def IsGap (last : Scanner) (gap : List Char) : Prop :=
  AllBlank gap ∨ last.modes.mode = .comment ∧ ∃ text, gap = '#' :: text ∧ '\n' ∉ text

theorem IsGap.endsLine
    {gap text : List Char} (isGap : IsGap last gap) (ends : EndsLine text) :
    EndsLine (gap ++ text) := by
  rcases isGap with blank | ⟨-, comment, rfl, inLine⟩
  · exact blank.append_endsLine ends
  · refine endsLine_comment ?_
    intro member
    rcases List.mem_append.1 member with inComment | behind
    · exact inLine inComment
    · exact ends.inLine behind

theorem isGap_of_trivia
    {lexeme : Lexeme} {modes : ModeStack}
    (step : place.modes.move place.rest = .token lexeme modes)
    (isTrivia : lexeme.kind.isTrivia = true) :
    place.modes.mode = .code ∧ IsGap (place.afterToken lexeme modes) lexeme.text := by
  rcases Kind.isTrivia_iff.1 isTrivia with isKind | ⟨text, isKind⟩
  · rcases ModeStack.blanks_of_move step isKind with ⟨isCode, rfl, -⟩
    exact ⟨isCode, Or.inl (allBlank_takeWhile place.rest)⟩
  · rcases ModeStack.comment_of_move step isKind with ⟨isCode, ⟨rest, isRest⟩, rfl, rfl⟩
    refine ⟨isCode, Or.inr ⟨rfl, rest.takeWhile (· ≠ '\n'), ?_, ?_⟩⟩
    · rw [isRest]
      rfl
    · intro member
      have differs := List.all_eq_true.1 List.all_takeWhile _ member
      simp at differs

/-- A text may be inserted at a place outside of strings.  What stands in front of the gap before
the place is read as without it. -/
theorem Reaches.with_inserted
    {before text tail : List Char} (reaches : Reaches file (start (before ++ tail)) read last)
    (isRest : last.rest = tail) (outside : last.modes.mode.isString = false)
    (separated : Separated tail) (separatedText : Separated (text ++ tail)) :
    ∃ gap front middle, IsGap last gap ∧ middle.rest = gap ++ tail ∧ middle.modes.mode = .code ∧
      Reaches file (start (before ++ tail)) front middle ∧
        Reaches file (start (before ++ (text ++ tail))) front
          { middle with rest := gap ++ (text ++ tail) } := by
  cases spaced : last.spaced with
  | false =>
      have isCode : last.modes.mode = .code := by
        have commented := reaches.commented ⟨sound_start _, fun inComment => by cases inComment⟩
        cases isMode : last.modes.mode with
        | code => rfl
        | plainString | richString =>
            rw [isMode] at outside
            cases outside
        | comment => cases (commented.spaced isMode).symm.trans spaced
      exact ⟨[], read, last, Or.inl (by simp [AllBlank]), isRest, isCode, reaches,
        reaches.exchanged rfl isRest separated separatedText
          fun _ isSpaced => nomatch isSpaced.symm.trans spaced⟩
  | true =>
      rcases reaches.last_trivia rfl spaced outside with
        ⟨front, middle, lexeme, modes, isFront, step, isTrivia, rfl⟩
      rcases isGap_of_trivia step isTrivia with ⟨isCode, isGap⟩
      have isMiddle : middle.rest = lexeme.text ++ tail := by
        have covers := ModeStack.move_covers middle.modes middle.rest
        rw [step] at covers
        rw [← isRest]
        exact covers.symm
      have filled : lexeme.text ≠ [] :=
        ModeStack.text_ne_nil_of_move step (Kind.isWritten_of_isTrivia isTrivia)
          (by rw [isCode]; rfl)
      exact ⟨lexeme.text, front, middle, isGap, isMiddle, isCode, isFront,
        isFront.exchanged rfl isMiddle separated separatedText (fun isNil => absurd isNil filled)⟩

end Scanner

end ScriptFront
