import Mathlib.Logic.Relation
import ScriptFront.Proofs.Grammar.EnclosedPrograms
import ScriptFront.Proofs.Grammar.LineEnds
import ScriptFront.Proofs.Token.Places

/-!
# Text without significance

Which blanks separate two tokens says nothing to a program, and neither do blanks at the ends of its
lines, blank lines and comments.  A source may be edited so any number of times: what it parses to
stays the same.
-/

namespace ScriptFront

/-- A token of a kind lies in the source, between two other texts. -/
structure LiesBetween
    (file : Option String) (source : String) (kind : Kind) (before text behind : List Char) :
    Prop where
  whole : source.toList = before ++ (text ++ behind)
  read : ∃ token, .ok token ∈ rawItems source file ∧ token.kind = kind ∧
    token.LiesIn source.toList file ⟨before.length, before.length + text.length⟩

/-- Blanks between two texts, possibly none, stand at a margin of the source: at its start or its
end, in front of a newline or behind one. -/
inductive Margin
    (file : Option String) (source : String) (before blanks behind : List Char) : Prop where
  | sourceStart (isStart : before = [])
  | sourceEnd (isEnd : behind = [])
  | beforeLine {rest : List Char}
      (line : LiesBetween file source .newline (before ++ blanks) ['\n'] rest)
  | behindLine {front : List Char} (isBehind : before = front ++ ['\n'])
      (line : LiesBetween file source .newline front ['\n'] (blanks ++ behind))

/-- One edit of text that has no significance. -/
inductive Relayout (file : Option String) (source other : String) : Prop where
  /-- Whitespace is replaced by other blanks. -/
  | respaced {before blanks again behind : List Char}
      (space : LiesBetween file source .whitespace before blanks behind) (filled : again ≠ [])
      (blank : AllBlank again) (edited : other.toList = before ++ (again ++ behind))
  | inserted {before blanks behind : List Char} (whole : source.toList = before ++ behind)
      (margin : Margin file source before [] behind) (blank : AllBlank blanks)
      (edited : other.toList = before ++ (blanks ++ behind))
  | removed {before blanks behind : List Char}
      (space : LiesBetween file source .whitespace before blanks behind)
      (margin : Margin file source before blanks behind) (edited : other.toList = before ++ behind)
  | doubled {before behind : List Char}
      (line : LiesBetween file source .newline before ['\n'] behind)
      (edited : other.toList = before ++ '\n' :: '\n' :: behind)
  | commented {before text behind : List Char}
      (line : LiesBetween file source .newline before ['\n'] behind) (inLine : '\n' ∉ text)
      (edited : other.toList = before ++ ' ' :: '#' :: (text ++ '\n' :: behind))

variable {file : Option String} {source other : String} {kind : Kind} {tokens : List Token}
variable {before text blanks again behind : List Char}

open Scanner

/-! ## The place of a token -/

/-- A token of the source lies where it says. -/
theorem liesBetween_of_rawItems
    (count : Nat) (token : Token) (whole : source.toList = before ++ (text ++ behind))
    (found : (rawItems source file)[count]? = some (.ok token))
    (lexeme : token.lexeme.toList = text)
    (location : token.location = (Position.start.after before).inFile file) :
    LiesBetween file source token.kind before text behind := by
  refine ⟨whole, token, List.mem_of_getElem? found, rfl, ?_⟩
  refine Token.liesIn_of_location (Nat.le_add_right _ _) ?_ ?_ ?_
  · rw [whole]
    simp
  · rw [lexeme, Span.of, whole]
    simp
  · rw [location, Position.ofOffset_eq, whole]
    simp

theorem Position.eq_of_inFile
    {first second : Position} (same : first.inFile file = second.inFile file) : first = second := by
  obtain ⟨sameLine, sameColumn, -⟩ := Location.mk.inj same
  cases first
  cases second
  exact congr (congrArg _ sameLine) sameColumn

/-- Of the items of a source that is read to its end, all but the end of input are tokens read. -/
theorem mem_of_item
    {all : List Token} {last : Scanner} {token : Token}
    (reaches : Reaches file (start source.toList) all last) (atEnd : last.AtEnd)
    (isItem : .ok token ∈ rawItems source file) (written : token.kind.isWritten = true) :
    token ∈ all := by
  have items : rawItems source file = _ := reaches.items
  rw [items, items_of_last atEnd.move rfl] at isItem
  rcases List.mem_append.1 isItem with isRead | isEnd
  · rcases List.mem_map.1 isRead with ⟨again, member, same⟩
    exact Except.ok.inj same ▸ member
  · obtain rfl := Except.ok.inj (List.mem_singleton.1 isEnd)
    cases written

/-- A token that lies in the source is read there. -/
theorem LiesBetween.place
    (lies : LiesBetween file source kind before text behind) (written : kind.isWritten = true)
    (lexed : tokenize source file = .ok tokens) :
    ∃ read middle lexeme modes, Reaches file (start source.toList) read middle ∧
      middle.modes.move middle.rest = .token lexeme modes ∧ lexeme.kind = kind ∧
        lexeme.text = text ∧ middle.rest = text ++ behind := by
  rcases reaches_of_tokenize lexed with ⟨all, last, reaches, atEnd, -⟩
  rcases lies.read with ⟨token, isItem, rfl, liesIn⟩
  rcases List.append_of_mem (mem_of_item reaches atEnd isItem written) with ⟨front, others, isAll⟩
  rcases reaches.split isAll with ⟨middle, lexeme, modes, isFront, step, rfl, -⟩
  rcases isFront.covered with ⟨covered, isWhole, position⟩
  have isBefore : covered = before := by
    have samePosition := Position.eq_of_inFile liesIn.location
    rw [position, Position.ofOffset_eq] at samePosition
    have isPrefix : source.toList.take before.length = before := by
      rw [lies.whole]
      exact List.take_left
    rw [isPrefix] at samePosition
    exact Position.eq_of_start_after ⟨_, isWhole.symm⟩ ⟨_, lies.whole.symm⟩ samePosition
  subst isBefore
  refine ⟨front, middle, lexeme, modes, isFront, step, rfl, ?_, ?_⟩
  · have isText := liesIn.lexeme
    rw [Span.of, lies.whole] at isText
    simpa [Scanner.token] using isText
  · exact (List.append_cancel_left (lies.whole.symm.trans isWhole)).symm

/-! ## Edits in place -/

theorem StartsBlank.separated (blank : StartsBlank text) : Separated text := by
  rcases blank with ⟨mark, isHead, isBlank⟩
  intro head isAlsoHead
  obtain rfl := Option.some.inj (isHead.symm.trans isAlsoHead)
  exact Bool.or_eq_true_iff.2 (Or.inl isBlank)

theorem AllBlank.startsBlank
    (blank : AllBlank blanks) (filled : blanks ≠ []) (behind : List Char) :
    StartsBlank (blanks ++ behind) := by
  rcases List.exists_cons_of_ne_nil filled with ⟨first, others, rfl⟩
  exact ⟨first, rfl, blank.spacing first List.mem_cons_self⟩

theorem AllBlank.separated
    (blank : AllBlank blanks) (separated : Separated behind) : Separated (blanks ++ behind) := by
  by_cases filled : blanks = []
  · rw [filled]
    exact separated
  · exact (blank.startsBlank filled behind).separated

theorem separated_line (more : List Char) : Separated ('\n' :: more) := separated_cons rfl more

theorem not_startsBlank_line (more : List Char) : ¬StartsBlank ('\n' :: more) := by
  rintro ⟨mark, isHead, isBlank⟩
  obtain rfl := Option.some.inj isHead
  cases isBlank

/-- Behind a place that reading comes to, the text is exchanged for another one. -/
theorem readsAlike_exchanged
    {tail more : List Char} {read : List Token} {middle : Scanner}
    (reaches : Reaches file (start (before ++ tail)) read middle) (isRest : middle.rest = tail)
    (separated : Separated tail) (separatedMore : Separated more)
    (stops : StartsBlank more → StartsBlank tail)
    (alike : ∀ atStart, ReadsAlike file atStart middle { middle with rest := more }) :
    ReadsAlike file true (start (before ++ tail)) (start (before ++ more)) := by
  have isRestHere : middle.rest = [] ++ tail := isRest
  exact .behind_same reaches
    (reaches.exchanged rfl isRestHere separated separatedMore fun _ _ blank => stops blank) alike

/-- At a place that reading comes to, a text is inserted. -/
theorem readsAlike_inserted
    {tail : List Char} {read : List Token} {last : Scanner}
    (reaches : Reaches file (start (before ++ tail)) read last) (isRest : last.rest = tail)
    (outside : last.modes.mode.isString = false) (separated : Separated tail)
    (separatedText : Separated (text ++ tail))
    (alike : ∀ gap middle atStart, IsGap last gap → middle.rest = gap ++ tail →
      middle.modes.mode = .code →
        ReadsAlike file atStart middle { middle with rest := gap ++ (text ++ tail) }) :
    ReadsAlike file true (start (before ++ tail)) (start (before ++ (text ++ tail))) := by
  rcases reaches.with_inserted isRest outside separated separatedText with
    ⟨gap, front, middle, isGap, isMiddle, isCode, isFront, isFrontAgain⟩
  exact .behind_same isFront isFrontAgain
    fun atStart => alike gap middle atStart isGap isMiddle isCode

namespace LiesBetween

/-- Whitespace is a run of blanks in code. -/
theorem whitespace_place
    (space : LiesBetween file source .whitespace before blanks behind)
    (lexed : tokenize source file = .ok tokens) :
    AllBlank blanks ∧ blanks ≠ [] ∧ ¬StartsBlank behind ∧
      ∃ read middle, Reaches file (start (before ++ (blanks ++ behind))) read middle ∧
        middle.rest = blanks ++ behind ∧ middle.modes.mode = .code := by
  rcases space.place rfl lexed with
    ⟨read, middle, lexeme, modes, reaches, step, isKind, rfl, isRest⟩
  have isTrivia : lexeme.kind.isTrivia = true := by
    rw [isKind]
    rfl
  have isBehind : lexeme.rest = behind := by
    have covers := ModeStack.move_covers middle.modes middle.rest
    rw [step] at covers
    exact List.append_cancel_left (covers.trans isRest)
  rw [space.whole] at reaches
  rcases ModeStack.blanks_of_move step isKind with ⟨isCode, isSpacing, -⟩
  refine ⟨?_, ModeStack.text_ne_nil_of_move step (Kind.isWritten_of_isTrivia isTrivia)
    (by rw [isCode]; rfl), ?_, read, middle, reaches, isRest, isCode⟩
  · rw [isSpacing]
    exact allBlank_takeWhile middle.rest
  · rw [← isBehind]
    exact ModeStack.not_startsBlank_of_move step isTrivia

/-- A newline ends a line of code, or a comment. -/
theorem newline_place
    (line : LiesBetween file source .newline before ['\n'] behind)
    (lexed : tokenize source file = .ok tokens) :
    ∃ read middle lexeme modes, Reaches file (start (before ++ '\n' :: behind)) read middle ∧
      middle.rest = '\n' :: behind ∧ middle.modes.mode.isString = false ∧
        middle.modes.move middle.rest = .token lexeme modes ∧ lexeme.kind = .newline ∧
          modes.mode = .code := by
  rcases line.place rfl lexed with ⟨read, middle, lexeme, modes, reaches, step, isKind, -, isRest⟩
  have sound : middle.Sound := reaches.sound (sound_start _)
  have turns := ModeStack.turns_of_move step
  rw [isKind] at turns
  rw [line.whole] at reaches
  cases turns with
  | plain isCode =>
      refine ⟨read, middle, lexeme, middle.modes, reaches, isRest, ?_, step, isKind, isCode⟩
      rw [isCode]
      rfl
  | commentEnds isComment =>
      refine ⟨read, middle, lexeme, _, reaches, isRest, ?_, step, isKind,
        ModeStack.Sound.mode_pop sound (by simp [isComment])⟩
      rw [isComment]
      rfl

theorem readsAlike_respaced
    (space : LiesBetween file source .whitespace before blanks behind)
    (lexed : tokenize source file = .ok tokens) (blank : AllBlank again) (filled : again ≠ []) :
    ReadsAlike file true (start source.toList) (start (before ++ (again ++ behind))) := by
  rcases space.whitespace_place lexed with
    ⟨blankHere, filledHere, -, read, middle, reaches, isRest, isCode⟩
  have starts := blankHere.startsBlank filledHere behind
  have startsAgain := blank.startsBlank filled behind
  rw [space.whole]
  refine readsAlike_exchanged reaches isRest starts.separated startsAgain.separated
    (fun _ => starts) ?_
  intro atStart
  refine readsAlike_spacing isCode rfl (isRest ▸ starts) startsAgain ?_
  rw [isRest, blankHere.dropWhile_append]
  exact blank.dropWhile_append behind

/-- Blanks at the start of the line behind a newline. -/
theorem readsAlike_lineStart
    {more : List Char} (line : LiesBetween file source .newline before ['\n'] behind)
    (lexed : tokenize source file = .ok tokens)
    (same : more.dropWhile isSpacing = behind.dropWhile isSpacing) :
    ReadsAlike file true (start source.toList) (start (before ++ '\n' :: more)) := by
  rcases line.newline_place lexed with
    ⟨read, middle, lexeme, modes, reaches, isRest, -, step, isKind, isCode⟩
  rw [line.whole]
  refine readsAlike_exchanged reaches isRest (separated_line behind) (separated_line more)
    (fun blank => absurd blank (not_startsBlank_line more)) ?_
  intro atStart
  exact readsAlike_line step isKind isRest rfl rfl (readsAlike_blanks isCode rfl same)

/-- Blanks and a comment at the end of the line in front of a newline. -/
theorem readsAlike_lineEnd
    (line : LiesBetween file source .newline before ['\n'] behind)
    (lexed : tokenize source file = .ok tokens) (ends : EndsLine text)
    (separated : Separated (text ++ '\n' :: behind)) :
    ReadsAlike file true (start source.toList) (start (before ++ (text ++ '\n' :: behind))) := by
  rcases line.newline_place lexed with
    ⟨read, middle, lexeme, modes, reaches, isRest, outside, -⟩
  rw [line.whole]
  refine readsAlike_inserted reaches isRest outside (separated_line behind) separated ?_
  intro gap place atStart isGap isPlace isCode
  have endsHere : EndsLine gap := by
    have ends := isGap.endsLine endsLine_nil
    rwa [List.append_nil] at ends
  exact Scanner.readsAlike_lineEnd isCode rfl endsHere (isGap.endsLine ends) isPlace
    (List.append_assoc gap text ('\n' :: behind)).symm

theorem readsAlike_doubled
    (line : LiesBetween file source .newline before ['\n'] behind)
    (lexed : tokenize source file = .ok tokens) :
    ReadsAlike file true (start source.toList) (start (before ++ '\n' :: '\n' :: behind)) := by
  rcases line.newline_place lexed with
    ⟨read, middle, lexeme, modes, reaches, isRest, -, step, isKind, isCode⟩
  rw [line.whole]
  refine readsAlike_exchanged reaches isRest (separated_line behind) (separated_line _)
    (fun blank => absurd blank (not_startsBlank_line _)) ?_
  intro atStart
  refine readsAlike_line step isKind isRest rfl rfl ?_
  refine ReadsAlike.behind .here (reaches_newline isCode rfl) ?_
    (readsAlike_of_same rfl rfl (Or.inl rfl))
  intro others more same
  exact (Token.lines_blank rfl more).trans same

/-- Whitespace at the end of the line in front of a newline is removed. -/
theorem readsAlike_lineEnd_removed
    (space : LiesBetween file source .whitespace before blanks ('\n' :: behind))
    (lexed : tokenize source file = .ok tokens) :
    ReadsAlike file true (start source.toList) (start (before ++ '\n' :: behind)) := by
  rcases space.whitespace_place lexed with ⟨blank, filled, -, read, middle, reaches, isRest, isCode⟩
  have starts := blank.startsBlank filled ('\n' :: behind)
  rw [space.whole]
  refine readsAlike_exchanged reaches isRest starts.separated (separated_line _)
    (fun _ => starts) ?_
  intro atStart
  exact Scanner.readsAlike_lineEnd isCode rfl blank.endsLine endsLine_nil isRest rfl

/-- Whitespace at the end of the source is removed. -/
theorem readsAlike_end_removed
    (space : LiesBetween file source .whitespace before blanks [])
    (lexed : tokenize source file = .ok tokens) :
    ReadsAlike file true (start source.toList) (start (before ++ [])) := by
  rcases space.whitespace_place lexed with ⟨blank, filled, -, read, middle, reaches, isRest, isCode⟩
  have starts := blank.startsBlank filled []
  rw [space.whole]
  refine readsAlike_exchanged reaches isRest starts.separated separated_nil (fun _ => starts) ?_
  intro atStart
  refine readsAlike_at_end isCode rfl ?_ rfl
  rw [isRest, blank.dropWhile_append]
  rfl

end LiesBetween

/-- Blanks are inserted at the end of the source. -/
theorem readsAlike_end_inserted
    (whole : source.toList = before ++ []) (lexed : tokenize source file = .ok tokens)
    (blank : AllBlank blanks) :
    ReadsAlike file true (start source.toList) (start (before ++ (blanks ++ []))) := by
  rcases reaches_of_tokenize lexed with ⟨read, last, reaches, atEnd, -⟩
  have outside : last.modes.mode.isString = false := by
    rw [atEnd.2.1]
    rfl
  rw [whole] at reaches ⊢
  refine readsAlike_inserted reaches atEnd.1 outside separated_nil
    (blank.separated separated_nil) ?_
  intro gap middle atStart isGap isMiddle isCode
  rcases isGap with blankGap | ⟨inComment, -⟩
  · refine readsAlike_at_end isCode rfl ?_ ?_
    · rw [isMiddle, blankGap.dropWhile_append]
      rfl
    · rw [blankGap.dropWhile_append, blank.dropWhile_append]
      rfl
  · cases inComment.symm.trans atEnd.2.1

/-- Behind the start of the source blanks make no difference. -/
theorem readsAlike_start
    {more : List Char} (same : more.dropWhile isSpacing = source.toList.dropWhile isSpacing) :
    ReadsAlike file true (start source.toList) (start more) :=
  readsAlike_blanks rfl rfl same

theorem Margin.readsAlike_inserted
    (margin : Margin file source before [] behind) (whole : source.toList = before ++ behind)
    (lexed : tokenize source file = .ok tokens) (blank : AllBlank blanks) :
    ReadsAlike file true (start source.toList) (start (before ++ (blanks ++ behind))) := by
  cases margin with
  | sourceStart isStart =>
      subst isStart
      refine readsAlike_start ?_
      rw [whole]
      exact blank.dropWhile_append behind
  | sourceEnd isEnd =>
      subst isEnd
      exact readsAlike_end_inserted whole lexed blank
  | @beforeLine rest line =>
      rw [List.append_nil] at line
      obtain rfl := List.append_cancel_left (whole.symm.trans line.whole)
      exact line.readsAlike_lineEnd lexed blank.endsLine (blank.separated (separated_line rest))
  | behindLine isBehind line =>
      subst isBehind
      have alike := line.readsAlike_lineStart lexed (blank.dropWhile_append behind)
      rw [List.append_assoc]
      exact alike

theorem Margin.readsAlike_removed
    (margin : Margin file source before blanks behind)
    (space : LiesBetween file source .whitespace before blanks behind)
    (lexed : tokenize source file = .ok tokens) :
    ReadsAlike file true (start source.toList) (start (before ++ behind)) := by
  have blank := (space.whitespace_place lexed).1
  cases margin with
  | sourceStart isStart =>
      subst isStart
      refine readsAlike_start ?_
      rw [space.whole]
      exact (blank.dropWhile_append behind).symm
  | sourceEnd isEnd =>
      subst isEnd
      exact space.readsAlike_end_removed lexed
  | @beforeLine rest line =>
      have sameWhole := line.whole
      rw [List.append_assoc, space.whole] at sameWhole
      obtain rfl := List.append_cancel_left (List.append_cancel_left sameWhole)
      exact space.readsAlike_lineEnd_removed lexed
  | behindLine isBehind line =>
      subst isBehind
      have alike := line.readsAlike_lineStart lexed (blank.dropWhile_append behind).symm
      rw [List.append_assoc]
      exact alike

/-- An edited source is read alike. -/
theorem Relayout.readsAlike
    (edit : Relayout file source other) (lexed : tokenize source file = .ok tokens) :
    ReadsAlike file true (start source.toList) (start other.toList) := by
  cases edit with
  | respaced space filled blank edited =>
      rw [edited]
      exact space.readsAlike_respaced lexed blank filled
  | inserted whole margin blank edited =>
      rw [edited]
      exact margin.readsAlike_inserted whole lexed blank
  | removed space margin edited =>
      rw [edited]
      exact margin.readsAlike_removed space lexed
  | doubled line edited =>
      rw [edited]
      exact line.readsAlike_doubled lexed
  | @commented before text behind line inLine edited =>
      have blank : AllBlank [' '] := by decide
      have ends : EndsLine ([' '] ++ '#' :: text) := blank.append_endsLine (endsLine_comment inLine)
      rw [edited]
      exact line.readsAlike_lineEnd lexed ends (separated_cons rfl _)

/-! ## Programs -/

/-- No body is indented in a text. -/
theorem flat_of_written
    {read : List Token} {ending : Ending} (written : ∀ token ∈ read, token.kind.isWritten = true) :
    Cursor.Flat ⟨(Token.significant read).map Token.unplaced, ending, false⟩ := by
  refine ⟨?_, rfl⟩
  intro token member layout
  rcases List.mem_map.1 member with ⟨placed, isRead, rfl⟩
  have isWritten := written placed (List.mem_filter.1 isRead).1
  have isLayout : placed.kind.isLayout = true := layout
  change placed.kind = .newline
  cases isKind : placed.kind with
  | newline => rfl
  | indent | dedent | endOfInput =>
      rw [isKind] at isWritten
      cases isWritten
  | _ =>
      rw [isKind] at isLayout
      cases isLayout

/-- One edit leaves the program as it is. -/
theorem Relayout.parse_eq
    {nodes : List Node} (edit : Relayout file source other)
    (parsed : parse source file = .ok nodes) : parse other file = .ok nodes := by
  rw [parse] at parsed
  cases lexed : tokenize source file with
  | error fault =>
      rw [lexed] at parsed
      cases parsed
  | ok tokens =>
      rw [lexed] at parsed
      rcases reaches_of_tokenize lexed with ⟨read, last, reaches, atEnd, rfl⟩
      rcases edit.readsAlike lexed read last reaches atEnd with
        ⟨again, final, reachesAgain, atEndAgain, same⟩
      rcases parseTokens_eq_ok_iff.1 parsed with ⟨place, reads⟩
      rw [Cursor.ofTokens_of_written reaches.written rfl] at reads
      let there : Cursor :=
        ⟨(Token.significant again).map Token.unplaced, ⟨default, final.spaced⟩, false⟩
      have flatThere : there.Flat := flat_of_written reachesAgain.written
      have sameLines : Token.compact true ((Token.significant read).map Token.unplaced) =
          Token.compact true there.ahead := same.symm
      have readsAnywhere : Phrase.Reads (.statements false)
          ⟨(Token.significant read).map Token.unplaced, ⟨default, last.spaced⟩, false⟩ nodes _ :=
        reads.moved fun _ => default
      rcases readsAnywhere.statements_compact sameLines (flat_of_written reaches.written)
        flatThere with ⟨behind, readsThere⟩
      exact reachesAgain.parse atEndAgain readsThere

/-- Text without significance may be edited any number of times, and the source still parses to the
same program. -/
theorem parse_of_relayouts
    {nodes : List Node} (parsed : parse source file = .ok nodes)
    (edits : Relation.ReflTransGen (Relayout file) source other) :
    parse other file = .ok nodes := by
  induction edits with
  | refl => exact parsed
  | tail _ edit inductionHypothesis => exact edit.parse_eq inductionHypothesis

/-- A call keeps its argument, although the blanks in front of it become a tab, a comment stands
behind it, and the next line is set apart and indented. -/
theorem parse_of_relayouts_call :
    Relation.ReflTransGen (Relayout none) "f  -1\nx" "f\t-1 # one\n\n x" ∧
      parse "f\t-1 # one\n\n x" none =
        .ok [.call "f" [.unary .minus (.integer 1)] none, .call "x" [] none] := by
  have parsed : parse "f  -1\nx" none =
      .ok [.call "f" [.unary .minus (.integer 1)] none, .call "x" [] none] := by
    with_unfolding_all rfl
  have space : LiesBetween none "f  -1\nx" .whitespace ['f'] [' ', ' '] ['-', '1', '\n', 'x'] :=
    liesBetween_of_rawItems 1 ⟨.whitespace, "  ", ⟨1, 2, none⟩, false⟩ (by rfl)
      (by with_unfolding_all rfl) (by rfl) (by rfl)
  have line : LiesBetween none "f\t-1\nx" .newline ['f', '\t', '-', '1'] ['\n'] ['x'] :=
    liesBetween_of_rawItems 4 ⟨.newline, "\n", ⟨1, 5, none⟩, false⟩ (by rfl)
      (by with_unfolding_all rfl) (by rfl) (by rfl)
  have lineAgain : LiesBetween none "f\t-1\n\nx" .newline
      ['f', '\t', '-', '1'] ['\n'] ['\n', 'x'] :=
    liesBetween_of_rawItems 4 ⟨.newline, "\n", ⟨1, 5, none⟩, false⟩ (by rfl)
      (by with_unfolding_all rfl) (by rfl) (by rfl)
  have emptyLine : LiesBetween none "f\t-1 # one\n\nx" .newline
      ['f', '\t', '-', '1', ' ', '#', ' ', 'o', 'n', 'e', '\n'] ['\n'] ['x'] :=
    liesBetween_of_rawItems 7 ⟨.newline, "\n", ⟨2, 1, none⟩, false⟩ (by rfl)
      (by with_unfolding_all rfl) (by rfl) (by rfl)
  have tab : AllBlank ['\t'] := by decide
  have blank : AllBlank [' '] := by decide
  have inLine : '\n' ∉ [' ', 'o', 'n', 'e'] := by decide
  have edits : Relation.ReflTransGen (Relayout none) "f  -1\nx" "f\t-1 # one\n\n x" := by
    calc
      Relation.ReflTransGen (Relayout none) "f  -1\nx" "f\t-1\nx" :=
        .single (.respaced space (List.cons_ne_nil _ _) tab rfl)
      Relation.ReflTransGen (Relayout none) _ "f\t-1\n\nx" := .single (.doubled line rfl)
      Relation.ReflTransGen (Relayout none) _ "f\t-1 # one\n\nx" :=
        .single (.commented lineAgain inLine rfl)
      Relation.ReflTransGen (Relayout none) _ "f\t-1 # one\n\n x" :=
        .single (.inserted rfl (.behindLine rfl emptyLine) blank rfl)
  exact ⟨edits, parse_of_relayouts parsed edits⟩

end ScriptFront
