import ScriptFront.Proofs.Token.Shape

/-!
# Texts exchanged behind a seam

What is read up to a place does not depend on the text behind it.  A separator there, or the end of
the text, may be exchanged for another one, with any text behind, as long as no run of blanks goes
on over the place.  So may a comma or a closing parenthesis, unless an equals sign stands in front
of it.
-/

namespace ScriptFront

/-- A separator is next, or the text ends. -/
def Separated (text : List Char) : Prop := ∀ mark ∈ text.head?, isSeparator mark = true

/-- A separator, a comma or a closing parenthesis is next, or the text ends. -/
def Stopped (text : List Char) : Prop := ∀ mark ∈ text.head?, isStop mark = true

/-- In front of both texts an equals sign belongs to the name before it, or the front does not end
with one. -/
def KeepsSetters (tail other front : List Char) : Prop :=
  (∀ mark ∈ tail.head?, KeepsSetter mark front) ∧ ∀ mark ∈ other.head?, KeepsSetter mark front

/-- A blank is next. -/
def StartsBlank (text : List Char) : Prop := ∃ mark ∈ text.head?, isSpacing mark = true

theorem separated_nil : Separated [] := by
  intro mark member
  cases member

theorem separated_cons {mark : Char} (separates : isSeparator mark = true) (more : List Char) :
    Separated (mark :: more) := by
  intro head isHead
  exact Option.some.inj isHead ▸ separates

theorem Separated.stopped {text : List Char} (separated : Separated text) : Stopped text :=
  fun mark isHead => isStop_of_isSeparator (separated mark isHead)

theorem stopped_cons {mark : Char} (stops : isStop mark = true) (more : List Char) :
    Stopped (mark :: more) := by
  intro head isHead
  exact Option.some.inj isHead ▸ stops

theorem keepsSetters_of_separated
    {tail other : List Char} (separated : Separated tail) (separatedOther : Separated other)
    (front : List Char) : KeepsSetters tail other front :=
  ⟨fun mark isHead => keepsSetter_of_isSeparator (separated mark isHead) front,
    fun mark isHead => keepsSetter_of_isSeparator (separatedOther mark isHead) front⟩

theorem keepsSetters_of_getLast?
    {front : List Char} (noEquals : front.getLast? ≠ some '=') (tail other : List Char) :
    KeepsSetters tail other front :=
  ⟨fun _ _ => Or.inr noEquals, fun _ _ => Or.inr noEquals⟩

theorem KeepsSetters.of_append
    {tail other front rest : List Char} (keeps : KeepsSetters tail other (front ++ rest)) :
    KeepsSetters tail other rest :=
  ⟨fun mark isHead => (keeps.1 mark isHead).of_append,
    fun mark isHead => (keeps.2 mark isHead).of_append⟩

/-- A character that is no stop stands in front of the seam. -/
theorem Stopped.front_of_append
    {front tail rest : List Char} {mark : Char} (stopped : Stopped tail)
    (whole : front ++ tail = mark :: rest) (joins : isStop mark = false) :
    ∃ others, front = mark :: others ∧ rest = others ++ tail := by
  cases front with
  | nil =>
      have stops := stopped mark (by rw [← List.nil_append tail, whole]; rfl)
      cases joins.symm.trans stops
  | cons first others =>
      obtain ⟨rfl, isRest⟩ := List.cons.inj whole
      exact ⟨others, rfl, isRest.symm⟩

/-! ## Runs of characters -/

theorem head_dropWhile_stops
    {continues : Char → Bool} {input rest : List Char} {mark : Char}
    (isRest : input.dropWhile continues = mark :: rest) : continues mark = false := by
  have stops := List.head?_dropWhile_not continues input
  rw [isRest] at stops
  simpa using stops

/-- A run that ends in front of the seam, or at it, ends there if nothing behind the seam prolongs
it. -/
theorem run_exchanged
    {continues : Char → Bool} {front tail other run rest : List Char}
    (isRun : (front ++ tail).takeWhile continues = run)
    (isRest : (front ++ tail).dropWhile continues = rest ++ tail)
    (stops : rest = [] → ∀ mark ∈ other.head?, continues mark = false) :
    (front ++ other).takeWhile continues = run ∧
      (front ++ other).dropWhile continues = rest ++ other := by
  have isFront : front = run ++ rest := by
    have whole := List.takeWhile_append_dropWhile (p := continues) (l := front ++ tail)
    rw [isRun, isRest, ← List.append_assoc] at whole
    exact (List.append_cancel_right whole).symm
  have goOn : ∀ mark ∈ run, continues mark = true := by
    rw [← isRun]
    exact List.all_eq_true.1 List.all_takeWhile
  have stopsAt : ∀ mark ∈ (rest ++ other).head?, continues mark = false := by
    intro mark isHead
    cases rest with
    | nil => exact stops rfl mark isHead
    | cons first others =>
        obtain rfl := Option.some.inj isHead
        exact head_dropWhile_stops isRest
  rw [isFront, List.append_assoc, List.takeWhile_append_of_pos goOn,
    List.dropWhile_append_of_pos goOn]
  cases behind : rest ++ other with
  | nil => simp
  | cons mark more =>
      have stopsHere := stopsAt mark (by rw [behind]; rfl)
      simp [stopsHere]

namespace Lexeme

variable {front tail other : List Char} {lexeme : Lexeme}

theorem spacing_exchanged
    (isLexeme : spacing (front ++ tail) = lexeme.followedBy tail)
    (stops : lexeme.rest = [] → ∀ mark ∈ other.head?, isSpacing mark = false) :
    spacing (front ++ other) = lexeme.followedBy other := by
  obtain ⟨sameRun, sameRest⟩ :=
    run_exchanged (congrArg Lexeme.text isLexeme) (congrArg Lexeme.rest isLexeme) stops
  obtain ⟨kind, text, rest⟩ := lexeme
  obtain rfl : .whitespace = kind := congrArg Lexeme.kind isLexeme
  rw [spacing, sameRun, sameRest]
  rfl

theorem comment_exchanged
    (isLexeme : comment (front ++ tail) = lexeme.followedBy tail)
    (stops : lexeme.rest = [] → ∀ mark ∈ other.head?, decide (mark ≠ '\n') = false) :
    comment (front ++ other) = lexeme.followedBy other := by
  have sameText := congrArg Lexeme.text isLexeme
  obtain ⟨sameRun, sameRest⟩ := run_exchanged sameText (congrArg Lexeme.rest isLexeme) stops
  obtain ⟨kind, text, rest⟩ := lexeme
  have isKind : (comment (front ++ tail)).kind = kind := congrArg Lexeme.kind isLexeme
  have isRun : (front ++ tail).takeWhile (· ≠ '\n') = text := sameText
  rw [← isKind]
  unfold comment
  rw [sameRun, sameRest, isRun]
  rfl

end Lexeme

/-! ## Pieces of strings -/

namespace Segment

/-- A piece between single quotes is the same in front of any text that starts with one. -/
theorem plain?_text
    {input : List Char} {segment : Segment} (found : plain? input = some segment)
    (more : List Char) :
    plain? (segment.text ++ '\'' :: more) = some { segment with rest := '\'' :: more } := by
  fun_induction plain? input generalizing segment with
  | case1 => cases found
  | case2 rest =>
      obtain rfl := Option.some.inj found
      rfl
  | case3 rest inductionHypothesis | case4 rest inductionHypothesis =>
      obtain ⟨inner, isInner, rfl⟩ := Option.map_eq_some_iff.1 found
      have exchanged := inductionHypothesis isInner
      simp [plain?, exchanged, prepend]
  | case5 character rest notQuote notEscapedQuote notEscapedSlash inductionHypothesis =>
      obtain ⟨inner, isInner, rfl⟩ := Option.map_eq_some_iff.1 found
      have exchanged := inductionHypothesis isInner
      obtain ⟨behind, isBehind⟩ := meets_of_plain? isInner
      have whole := plain?_append isInner
      rw [isBehind] at whole
      -- The character behind this one is the same before any text that starts with a quote.
      have sameHead : (inner.text ++ '\'' :: more).head? = rest.head? := by
        rw [← whole]
        cases inner.text <;> rfl
      change plain? (character :: (inner.text ++ '\'' :: more)) = _
      rw [plain?, exchanged]
      · rfl
      · exact notQuote
      · intro others isSlash same
        rw [same] at sameHead
        obtain ⟨others, isRest⟩ := List.head?_eq_some_iff.1 sameHead.symm
        exact notEscapedQuote others isSlash isRest
      · intro others isSlash same
        rw [same] at sameHead
        obtain ⟨others, isRest⟩ := List.head?_eq_some_iff.1 sameHead.symm
        exact notEscapedSlash others isSlash isRest

/-- A piece between double quotes is the same in front of any text that ends it. -/
theorem rich?_text
    {input behind : List Char} {segment : Segment} (found : rich? input = some segment)
    (ends : rich? behind = some ⟨[], [], behind⟩) :
    rich? (segment.text ++ behind) = some { segment with rest := behind } := by
  fun_induction rich? input generalizing segment with
  | case1 | case4 => cases found
  | case2 rest | case3 rest =>
      obtain rfl := Option.some.inj found
      exact ends
  | case5 escaped rest inductionHypothesis =>
      obtain ⟨inner, isInner, rfl⟩ := Option.map_eq_some_iff.1 found
      have exchanged := inductionHypothesis isInner
      simp [rich?, exchanged, prepend]
  | case6 character rest notQuote notInsertion notLast notEscape inductionHypothesis =>
      obtain ⟨inner, isInner, rfl⟩ := Option.map_eq_some_iff.1 found
      have exchanged := inductionHypothesis isInner
      have notSlash : character ≠ '\\' := by
        intro isSlash
        cases rest with
        | nil => exact notLast isSlash rfl
        | cons escaped others => exact notEscape escaped others isSlash rfl
      change rich? (character :: (inner.text ++ behind)) = _
      rw [rich?, exchanged]
      · rfl
      · exact notQuote
      · intro others isSign same
        cases isText : inner.text with
        | nil =>
            -- What ends a piece starts with a quote or with a number sign.
            rw [isText, List.nil_append] at same
            rcases meets_of_rich? ends with ⟨more, meets⟩ | ⟨more, meets⟩ <;>
              cases meets.symm.trans same
        | cons first text =>
            rw [isText, List.cons_append] at same
            have whole := rich?_append isInner
            rw [isText, List.cons_append, (List.cons.inj same).1] at whole
            exact notInsertion _ isSign whole.symm
      · exact fun isSlash _ => notSlash isSlash
      · exact fun _ _ isSlash _ => notSlash isSlash

end Segment

/-! ## Steps -/

theorem Kind.isWritten_of_isTrivia {kind : Kind} (isTrivia : kind.isTrivia = true) :
    kind.isWritten = true := by
  rcases Kind.isTrivia_iff.1 isTrivia with rfl | ⟨text, rfl⟩
  · rfl
  · rfl

theorem Move.followedBy_nil (move : Move) : move.followedBy [] = move := by
  cases move with
  | token lexeme modes =>
      have same : lexeme.rest ++ [] = lexeme.rest := List.append_nil _
      simp [followedBy, Lexeme.followedBy, same]
  | quote mark rest modes => simp [followedBy]
  | refused cause => rfl

theorem Move.followedBy_inj
    {first second : Move} {more : List Char}
    (same : first.followedBy more = second.followedBy more) : first = second := by
  cases first with
  | token lexeme modes =>
      cases second with
      | token other after =>
          cases lexeme
          cases other
          simpa [followedBy, Lexeme.followedBy] using same
      | quote | refused => cases same
  | quote mark rest modes =>
      cases second with
      | quote => simpa [followedBy] using same
      | token | refused => cases same
  | refused cause =>
      cases second with
      | refused => exact same
      | token | quote => cases same

/-- What a step covers in front of a seam, it covers whatever follows. -/
theorem Move.covers_of_followedBy
    {move : Move} {front tail : List Char}
    (covers : (move.followedBy tail).Covers (front ++ tail)) : move.Covers front := by
  cases move with
  | token lexeme modes =>
      have whole : lexeme.text ++ (lexeme.rest ++ tail) = front ++ tail := covers
      rw [← List.append_assoc] at whole
      exact List.append_cancel_right whole
  | quote mark rest modes =>
      have whole : mark :: (rest ++ tail) = front ++ tail := covers
      exact List.append_cancel_right whole
  | refused cause => trivial

/-- Whitespace and comments that reach up to the seam do not go on behind it. -/
def Move.StopsAt (other : List Char) : Move → Prop
  | .token lexeme _ =>
    lexeme.kind.isTrivia = true → lexeme.rest = [] →
      ¬StartsBlank other ∧ ∀ text, lexeme.kind = .comment text → Separated other
  | _ => True

namespace ModeStack

variable {modes after : ModeStack} {input front tail other : List Char} {lexeme : Lexeme}
variable {short : Move}

/-- Behind whitespace and comments no blank is next. -/
theorem not_startsBlank_of_move
    (step : modes.move input = .token lexeme after) (isTrivia : lexeme.kind.isTrivia = true) :
    ¬StartsBlank lexeme.rest := by
  rintro ⟨mark, isHead, isBlank⟩
  rcases Kind.isTrivia_iff.1 isTrivia with isKind | ⟨text, isKind⟩
  · obtain ⟨-, rfl, -⟩ := blanks_of_move step isKind
    have stops := List.head?_dropWhile_not isSpacing input
    rw [show input.dropWhile isSpacing = (Lexeme.spacing input).rest from rfl, isHead] at stops
    cases isBlank.symm.trans (by simpa using stops)
  · obtain ⟨-, -, rfl, -⟩ := comment_of_move step isKind
    rcases dropWhile_line input with isNil | ⟨rest, isLine⟩
    · rw [show (Lexeme.comment input).rest = [] from isNil] at isHead
      cases isHead
    · rw [show (Lexeme.comment input).rest = '\n' :: rest from isLine] at isHead
      obtain rfl := Option.some.inj isHead
      cases isBlank

/-- A step within code that reads no blanks and no comment decides alike before all stops. -/
theorem move_append_stopped
    {first : Char} {rest : List Char} (isCode : modes.mode = .code)
    (notBlank : isSpacing first = false) (notComment : first ≠ '#') (stopped : Stopped tail)
    (keeps : ∀ mark ∈ tail.head?, KeepsSetter mark (first :: rest)) :
    modes.move (first :: rest ++ tail) = (modes.move (first :: rest)).followedBy tail := by
  have ends (mark : Char) : (modes.move (first :: rest)).EndsBefore mark := by
    cases step : modes.move (first :: rest) with
    | quote | refused => trivial
    | token lexeme after =>
        refine ⟨?_, ?_⟩
        · intro isBlank
          have solid := isSolid_codeMove notBlank modes rest
          simp only [move, isCode] at step
          rw [step] at solid
          have isSolid : lexeme.kind.isSolid = true := solid
          rw [isBlank] at isSolid
          cases isSolid
        · intro text isComment
          obtain ⟨-, ⟨others, same⟩, -⟩ := comment_of_move step isComment
          exact absurd (List.cons.inj same).1 notComment
  cases tail with
  | nil => rw [List.append_nil, Move.followedBy_nil]
  | cons mark more =>
      have endsCode := ends mark
      simp only [move, isCode] at endsCode ⊢
      exact codeMove_append_stop (stopped mark rfl) modes (keeps mark rfl) endsCode more

/-- In front of a separator that is no blank a newline is next, or nothing. -/
theorem newline_of_separated
    (separated : Separated other) (notBlank : ¬StartsBlank other) :
    ∀ mark ∈ other.head?, mark = '\n' := by
  intro mark isHead
  have separates := separated mark isHead
  have notSpacing : isSpacing mark = false := by
    cases isBlank : isSpacing mark with
    | false => rfl
    | true => exact absurd ⟨mark, isHead, isBlank⟩ notBlank
  simpa [isSeparator, notSpacing] using separates

/-- A text that starts with no blank does not prolong a run of blanks. -/
theorem not_isSpacing_of_head (notBlank : ¬StartsBlank other) :
    ∀ mark ∈ other.head?, isSpacing mark = false := by
  intro mark isHead
  cases isBlank : isSpacing mark with
  | false => rfl
  | true => exact absurd ⟨mark, isHead, isBlank⟩ notBlank

theorem codeMove_exchanged
    (isCode : modes.mode = .code) (step : modes.move (front ++ tail) = short.followedBy tail)
    (filled : front ≠ []) (stopped : Stopped tail) (stoppedOther : Stopped other)
    (keeps : KeepsSetters tail other front) (stops : short.StopsAt other) :
    modes.move (front ++ other) = short.followedBy other := by
  rcases List.exists_cons_of_ne_nil filled with ⟨first, rest, rfl⟩
  by_cases isBlank : isSpacing first = true
  · have blanks (more : List Char) : modes.move (first :: rest ++ more) =
        .token (.spacing (first :: rest ++ more)) modes := by
      simp only [move, isCode]
      exact codeMove_of_isSpacing isBlank modes (rest ++ more)
    rw [blanks] at step ⊢
    cases short with
    | quote | refused => cases step
    | token lexeme after =>
        obtain ⟨isLexeme, rfl⟩ := Move.token.inj step
        have isTrivia : lexeme.kind.isTrivia = true :=
          congrArg (fun lexeme => lexeme.kind.isTrivia) isLexeme.symm
        have exchanged : Lexeme.spacing (first :: rest ++ other) = lexeme.followedBy other := by
          refine Lexeme.spacing_exchanged isLexeme ?_
          intro isNil
          exact not_isSpacing_of_head (stops isTrivia isNil).1
        rw [exchanged]
        rfl
  by_cases isComment : first = '#'
  · subst isComment
    have comment (more : List Char) : modes.move ('#' :: rest ++ more) =
        .token (.comment ('#' :: rest ++ more)) (modes.push .comment) := by
      simp only [move, isCode]
      rfl
    rw [comment] at step ⊢
    cases short with
    | quote | refused => cases step
    | token lexeme after =>
        obtain ⟨isLexeme, rfl⟩ := Move.token.inj step
        have isKind := congrArg Lexeme.kind isLexeme.symm
        have isTrivia : lexeme.kind.isTrivia = true :=
          congrArg (fun lexeme => lexeme.kind.isTrivia) isLexeme.symm
        have exchanged : Lexeme.comment ('#' :: rest ++ other) = lexeme.followedBy other := by
          refine Lexeme.comment_exchanged isLexeme ?_
          intro isNil mark isHead
          obtain ⟨notBlank, separated⟩ := stops isTrivia isNil
          have isNewline := newline_of_separated (separated _ isKind) notBlank mark isHead
          simp [isNewline]
        rw [exchanged]
        rfl
  · have notBlank : isSpacing first = false := by simpa using isBlank
    rw [move_append_stopped isCode notBlank isComment stopped keeps.1] at step
    rw [move_append_stopped isCode notBlank isComment stoppedOther keeps.2,
      Move.followedBy_inj step]

theorem segmentMove_exchanged
    {read? : List Char → Option Segment}
    (step : modes.segmentMove (read? (front ++ tail)) = short.followedBy tail)
    (accepted : ∀ cause, short ≠ .refused cause)
    (whole : ∀ segment, read? (front ++ tail) = some segment →
      segment.text ++ segment.rest = front ++ tail)
    (exchanged : ∀ segment back, read? (front ++ tail) = some segment →
      segment.rest = back ++ tail →
        read? (segment.text ++ (back ++ other)) = some { segment with rest := back ++ other }) :
    modes.segmentMove (read? (front ++ other)) = short.followedBy other := by
  cases found : read? (front ++ tail) with
  | none =>
      rw [found] at step
      cases short with
      | token | quote => cases step
      | refused cause => exact absurd rfl (accepted cause)
  | some segment =>
      rw [found] at step
      cases short with
      | quote | refused => cases step
      | token lexeme after =>
          obtain ⟨isLexeme, rfl⟩ := Move.token.inj step
          have isRest : segment.rest = lexeme.rest ++ tail := congrArg Lexeme.rest isLexeme
          have isFront : front = segment.text ++ lexeme.rest := by
            have covered := whole segment found
            rw [isRest, ← List.append_assoc] at covered
            exact (List.append_cancel_right covered).symm
          obtain ⟨kind, text, rest⟩ := lexeme
          obtain ⟨rfl, rfl, -⟩ := Lexeme.mk.inj isLexeme
          rw [isFront, List.append_assoc, exchanged segment _ found isRest]
          rfl

theorem plainMove_exchanged
    (step : modes.plainMove (front ++ tail) = short.followedBy tail)
    (accepted : ∀ cause, short ≠ .refused cause) (stopped : Stopped tail) :
    modes.plainMove (front ++ other) = short.followedBy other := by
  unfold plainMove at step ⊢
  by_cases isOpen : modes.top.segmentOpen = true
  · rw [if_pos isOpen] at step ⊢
    refine segmentMove_exchanged step accepted (fun _ => Segment.plain?_append) ?_
    intro segment back found isRest
    obtain ⟨behind, meets⟩ := Segment.meets_of_plain? found
    obtain ⟨others, rfl, -⟩ := stopped.front_of_append (isRest.symm.trans meets) rfl
    exact Segment.plain?_text found (others ++ other)
  · rw [if_neg isOpen] at step ⊢
    split at step
    · rename_i rest whole
      obtain ⟨others, rfl, rfl⟩ := stopped.front_of_append whole rfl
      have isShort : (Move.quote '\'' others modes.pop.2).followedBy tail = short.followedBy tail :=
        step
      rw [← Move.followedBy_inj isShort]
      rfl
    · cases short with
      | token | quote => cases step
      | refused cause => exact absurd rfl (accepted cause)

theorem richMove_exchanged
    (step : modes.richMove (front ++ tail) = short.followedBy tail)
    (accepted : ∀ cause, short ≠ .refused cause) (stopped : Stopped tail) :
    modes.richMove (front ++ other) = short.followedBy other := by
  unfold richMove at step ⊢
  by_cases isOpen : modes.top.segmentOpen = true
  · rw [if_pos isOpen] at step ⊢
    refine segmentMove_exchanged step accepted (fun _ => Segment.rich?_append) ?_
    intro segment back found isRest
    rcases Segment.meets_of_rich? found with ⟨behind, meets⟩ | ⟨behind, meets⟩
    · obtain ⟨others, rfl, -⟩ := stopped.front_of_append (isRest.symm.trans meets) rfl
      exact Segment.rich?_text found rfl
    · obtain ⟨others, rfl, isBehind⟩ := stopped.front_of_append (isRest.symm.trans meets) rfl
      obtain ⟨others, rfl, -⟩ := stopped.front_of_append isBehind.symm rfl
      exact Segment.rich?_text found rfl
  · rw [if_neg isOpen] at step ⊢
    split at step
    · rename_i rest whole
      obtain ⟨others, rfl, rfl⟩ := stopped.front_of_append whole rfl
      have isShort : (Move.quote '"' others modes.pop.2).followedBy tail = short.followedBy tail :=
        step
      rw [← Move.followedBy_inj isShort]
      rfl
    · rename_i rest whole
      obtain ⟨others, rfl, isBehind⟩ := stopped.front_of_append whole rfl
      obtain ⟨others, rfl, rfl⟩ := stopped.front_of_append isBehind.symm rfl
      have isShort : (Move.token ⟨.interpolationStart, ['#', '{'], others⟩
          modes.pushInterpolation).followedBy tail = short.followedBy tail := step
      rw [← Move.followedBy_inj isShort]
      rfl
    · cases short with
      | token | quote => cases step
      | refused cause => exact absurd rfl (accepted cause)

theorem commentMove_exchanged
    (step : modes.commentMove (front ++ tail) = short.followedBy tail)
    (accepted : ∀ cause, short ≠ .refused cause) (filled : front ≠ []) :
    modes.commentMove (front ++ other) = short.followedBy other := by
  rcases List.exists_cons_of_ne_nil filled with ⟨first, others, rfl⟩
  unfold commentMove at step ⊢
  split at step
  · rename_i rest whole
    obtain ⟨rfl, rfl⟩ := List.cons.inj whole
    have isShort : (Move.token ⟨.newline, ['\n'], others⟩ modes.pop.2).followedBy tail =
        short.followedBy tail := step
    rw [← Move.followedBy_inj isShort]
    rfl
  · cases short with
    | token | quote => cases step
    | refused cause => exact absurd rfl (accepted cause)

/-- A step that ends in front of a seam, or at it, is the same with another text behind the seam. -/
theorem move_exchanged
    (step : modes.move (front ++ tail) = short.followedBy tail)
    (accepted : ∀ cause, short ≠ .refused cause)
    (filled : modes.mode.isString = false → front ≠ []) (stopped : Stopped tail)
    (stoppedOther : Stopped other) (keeps : KeepsSetters tail other front)
    (stops : short.StopsAt other) : modes.move (front ++ other) = short.followedBy other := by
  cases isMode : modes.mode with
  | code =>
      exact codeMove_exchanged isMode step (filled (by rw [isMode]; rfl)) stopped stoppedOther keeps
        stops
  | plainString =>
      simp only [move, isMode] at step ⊢
      exact plainMove_exchanged step accepted stopped
  | richString =>
      simp only [move, isMode] at step ⊢
      exact richMove_exchanged step accepted stopped
  | comment =>
      simp only [move, isMode] at step ⊢
      exact commentMove_exchanged step accepted (filled (by rw [isMode]; rfl))

/-- Outside of strings every token covers a character. -/
theorem text_ne_nil_of_move
    (step : modes.move input = .token lexeme after) (written : lexeme.kind.isWritten = true)
    (notString : modes.mode.isString = false) : lexeme.text ≠ [] := by
  unfold move at step
  cases isMode : modes.mode with
  | code =>
      simp only [isMode] at step
      exact codeMove_text_ne_nil step (Scanner.not_endOfInput_of_isWritten written)
  | plainString | richString =>
      rw [isMode] at notString
      cases notString
  | comment =>
      simp only [isMode] at step
      unfold commentMove at step
      split at step
      · obtain ⟨rfl, -⟩ := Move.token.inj step
        simp
      · cases step

/-- Whitespace and comments do not lead into strings. -/
theorem notString_of_trivia
    (step : modes.move input = .token lexeme after) (isTrivia : lexeme.kind.isTrivia = true) :
    after.mode.isString = false := by
  rcases Kind.isTrivia_iff.1 isTrivia with isKind | ⟨text, isKind⟩
  · obtain ⟨isCode, -, rfl⟩ := blanks_of_move step isKind
    rw [isCode]
    rfl
  · obtain ⟨-, -, -, rfl⟩ := comment_of_move step isKind
    rfl

end ModeStack

namespace Scanner

variable {file : Option String} {scanner last : Scanner} {tokens : List Token}

/-! ## Along the steps -/

/-- What is read stands in front of what is left. -/
theorem Reaches.covered (reaches : Reaches file scanner tokens last) :
    ∃ covered, scanner.rest = covered ++ last.rest ∧
      last.position = scanner.position.after covered := by
  induction reaches with
  | here => exact ⟨[], rfl, rfl⟩
  | @token scanner last lexeme modes _ step _ _ inductionHypothesis =>
      have whole := ModeStack.move_covers scanner.modes scanner.rest
      rw [step] at whole
      rcases inductionHypothesis with ⟨covered, isRest, position⟩
      refine ⟨lexeme.text ++ covered, ?_, ?_⟩
      · rw [List.append_assoc, ← isRest]
        exact whole.symm
      · rw [Position.after_append]
        exact position
  | @quote scanner last mark rest modes _ step _ inductionHypothesis =>
      have whole := ModeStack.move_covers scanner.modes scanner.rest
      rw [step] at whole
      rcases inductionHypothesis with ⟨covered, isRest, position⟩
      refine ⟨mark :: covered, ?_, position⟩
      rw [List.cons_append, ← isRest]
      exact whole.symm

/-- Outside of strings nothing is read where nothing is covered. -/
theorem Reaches.eq_of_rest
    (reaches : Reaches file scanner tokens last) (notString : scanner.modes.mode.isString = false)
    (same : last.rest = scanner.rest) : last = scanner := by
  cases reaches with
  | here => rfl
  | @token _ _ lexeme modes _ step written further =>
      have whole : lexeme.text ++ lexeme.rest = scanner.rest := by
        have covers := ModeStack.move_covers scanner.modes scanner.rest
        rwa [step] at covers
      rcases further.covered with ⟨covered, isRest, -⟩
      have lengths := congrArg List.length whole
      have lengthsBehind : lexeme.rest.length = (covered ++ last.rest).length :=
        congrArg List.length isRest
      have positive := List.length_pos_iff.2 (ModeStack.text_ne_nil_of_move step written notString)
      rw [List.length_append] at lengths lengthsBehind
      rw [same] at lengthsBehind
      omega
  | @quote _ _ mark rest modes _ step further =>
      have shorter := ModeStack.length_lt_of_quote step
      rcases further.covered with ⟨covered, isRest, -⟩
      have lengths : rest.length = (covered ++ last.rest).length := congrArg List.length isRest
      rw [List.length_append, same] at lengths
      omega

/-- What is read in front of a seam, or up to it, is read with another text behind the seam. -/
theorem Reaches.exchanged_at_stop
    {front back tail other : List Char} (reaches : Reaches file scanner tokens last)
    (whole : scanner.rest = front ++ tail) (isRest : last.rest = back ++ tail)
    (stopped : Stopped tail) (stoppedOther : Stopped other) (keeps : KeepsSetters tail other front)
    (stops : back = [] → last.spaced = true →
      (StartsBlank other → StartsBlank tail) ∧ (last.modes.mode = .comment → Separated other)) :
    Reaches file { scanner with rest := front ++ other } tokens
      { last with rest := back ++ other } := by
  induction reaches generalizing front with
  | here =>
      obtain rfl := List.append_cancel_right (whole.symm.trans isRest)
      exact .here
  | @token scanner last lexeme modes tokens step written further inductionHypothesis =>
      rcases further.covered with ⟨covered, isCovered, -⟩
      have isBehind : lexeme.rest = (covered ++ back) ++ tail := by
        rw [List.append_assoc, ← isRest]
        exact isCovered
      let short : Lexeme := ⟨lexeme.kind, lexeme.text, covered ++ back⟩
      have isShort : lexeme = short.followedBy tail := by
        rw [Lexeme.followedBy, ← isBehind]
      have stepShort : scanner.modes.move (front ++ tail) =
          (Move.token short modes).followedBy tail := by
        rw [← whole, step, isShort]
        rfl
      have stopsShort : (Move.token short modes).StopsAt other := by
        intro isTrivia isNil
        have noBlank := ModeStack.not_startsBlank_of_move step isTrivia
        obtain ⟨rfl, rfl⟩ := List.append_eq_nil_iff.1 isNil
        have isLast := further.eq_of_rest (ModeStack.notString_of_trivia step isTrivia)
          isCovered.symm
        obtain ⟨blanks, comments⟩ := stops rfl (by rw [isLast]; exact isTrivia)
        refine ⟨fun startsBlank => noBlank ?_, fun text isComment => comments ?_⟩
        · rw [isBehind]
          exact blanks startsBlank
        · obtain ⟨-, -, -, rfl⟩ := ModeStack.comment_of_move step isComment
          rw [isLast]
          rfl
      have isFront : lexeme.text ++ (covered ++ back) = front := by
        have covers := ModeStack.move_covers scanner.modes (front ++ tail)
        rw [stepShort] at covers
        exact Move.covers_of_followedBy covers
      have filled : scanner.modes.mode.isString = false → front ≠ [] := by
        intro notString isNil
        rw [isNil] at isFront
        exact ModeStack.text_ne_nil_of_move step written notString
          (List.append_eq_nil_iff.1 isFront).1
      have exchanged := ModeStack.move_exchanged stepShort (by simp) filled stopped stoppedOther
        keeps stopsShort
      have reads : Reaches file { scanner with rest := front ++ other }
          (scanner.token file (short.followedBy other) :: tokens)
          { last with rest := back ++ other } :=
        .token exchanged written
          (inductionHypothesis isBehind isRest (isFront.symm ▸ keeps).of_append stops)
      exact reads
  | @quote scanner last mark rest modes tokens step further inductionHypothesis =>
      rcases further.covered with ⟨covered, isCovered, -⟩
      have isBehind : rest = (covered ++ back) ++ tail := by
        rw [List.append_assoc, ← isRest]
        exact isCovered
      have stepShort : scanner.modes.move (front ++ tail) =
          (Move.quote mark (covered ++ back) modes).followedBy tail := by
        rw [← whole, step, isBehind]
        rfl
      have isFront : [mark] ++ (covered ++ back) = front := by
        have covers := ModeStack.move_covers scanner.modes (front ++ tail)
        rw [stepShort] at covers
        exact Move.covers_of_followedBy covers
      have filled : scanner.modes.mode.isString = false → front ≠ [] := by
        intro _ isNil
        rw [isNil] at isFront
        cases isFront
      have exchanged := ModeStack.move_exchanged stepShort (by simp) filled stopped stoppedOther
        keeps trivial
      exact .quote exchanged
        (inductionHypothesis isBehind isRest (isFront.symm ▸ keeps).of_append stops)

/-- A separator behind what is read may be exchanged for another one. -/
theorem Reaches.exchanged
    {front back tail other : List Char} (reaches : Reaches file scanner tokens last)
    (whole : scanner.rest = front ++ tail) (isRest : last.rest = back ++ tail)
    (separated : Separated tail) (separatedOther : Separated other)
    (stops : back = [] → last.spaced = true → StartsBlank other → StartsBlank tail) :
    Reaches file { scanner with rest := front ++ other } tokens
      { last with rest := back ++ other } := by
  have keeps := keepsSetters_of_separated separated separatedOther front
  refine reaches.exchanged_at_stop whole isRest separated.stopped separatedOther.stopped keeps ?_
  intro isNil spaced
  exact ⟨stops isNil spaced, fun _ => separatedOther⟩

end Scanner

end ScriptFront
