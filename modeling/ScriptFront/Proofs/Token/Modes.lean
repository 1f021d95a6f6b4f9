import ScriptFront.Token.Scanner

/-!
# The stack of modes

Every frame lies on one that could open it: a string or a comment on code, and an inserted
expression on the string whose next piece follows it.  Reading keeps the frames in this order, and
it stops behind a piece of a string only in front of what may end one.
-/

namespace ScriptFront

/-- A frame may lie directly on another one. -/
def Frame.LiesOn (frame lower : Frame) : Prop :=
  match frame.mode with
  | .code => frame.interpolating = true ∧ lower.mode = .richString ∧ lower.segmentOpen = true
  | _ => frame.interpolating = false ∧ lower.mode = .code

/-- What stands behind a piece of a string that was read. -/
def Frame.Meets (frame : Frame) (input : List Char) : Prop :=
  frame.segmentOpen = false →
    match frame.mode with
    | .plainString => ∃ rest, input = '\'' :: rest
    | .richString => (∃ rest, input = '"' :: rest) ∨ ∃ rest, input = '#' :: '{' :: rest
    | _ => True

namespace ModeStack

/-- Code is at the bottom, and every other frame lies on one that could open it. -/
def Layered (top : Frame) : List Frame → Prop
  | [] => top.mode = .code ∧ top.interpolating = false ∧ top.segmentOpen = false
  | lower :: others => top.LiesOn lower ∧ Layered lower others

/-- The stacks that reading meets, each in front of a text that its top frame may read. -/
structure Sound (modes : ModeStack) (input : List Char) : Prop where
  layered : Layered modes.top modes.below
  meets : modes.top.Meets input

theorem layered_of_top
    {first second : Frame} {others : List Frame} (layered : Layered first others)
    (sameMode : second.mode = first.mode)
    (sameFlag : second.interpolating = first.interpolating)
    (sameSegment : first.mode = .code → second.segmentOpen = first.segmentOpen) :
    Layered second others := by
  cases others with
  | nil =>
      rcases layered with ⟨isCode, plain, closed⟩
      exact ⟨sameMode.trans isCode, sameFlag.trans plain, (sameSegment isCode).trans closed⟩
  | cons lower others =>
      refine ⟨?_, layered.2⟩
      have liesOn := layered.1
      unfold Frame.LiesOn at liesOn ⊢
      rw [sameMode, sameFlag]
      exact liesOn

theorem sound_of_code
    {top : Frame} {others : List Frame}
    (layered : Layered top others) (isCode : top.mode = .code) (input : List Char) :
    (ModeStack.mk top others).Sound input := by
  refine ⟨layered, ?_⟩
  intro _
  simp only [isCode]

theorem sound_initial (input : List Char) : initial.Sound input := by
  have layered : Layered (.entering .code) [] := ⟨rfl, rfl, rfl⟩
  exact sound_of_code layered rfl input

end ModeStack

/-- Reading goes on with a sound stack, and no piece of a string ends astray. -/
def Move.KeepsSound : Move → Prop
  | .token lexeme modes => modes.Sound lexeme.rest
  | .quote _ rest modes => modes.Sound rest
  | .refused cause => cause ≠ .strayString

namespace Segment

/-- A piece between single quotes ends in front of one. -/
theorem meets_of_plain?
    {input : List Char} {segment : Segment} (found : plain? input = some segment) :
    ∃ rest, segment.rest = '\'' :: rest := by
  fun_induction plain? input generalizing segment with
  | case1 => cases found
  | case2 rest =>
      obtain rfl := Option.some.inj found
      exact ⟨rest, rfl⟩
  | case3 rest inductionHypothesis | case4 rest inductionHypothesis
  | case5 character rest _ _ _ inductionHypothesis =>
      obtain ⟨inner, isInner, rfl⟩ := Option.map_eq_some_iff.1 found
      have meets := inductionHypothesis isInner
      exact meets

/-- A piece between double quotes ends in front of one or of an inserted expression. -/
theorem meets_of_rich?
    {input : List Char} {segment : Segment} (found : rich? input = some segment) :
    (∃ rest, segment.rest = '"' :: rest) ∨ ∃ rest, segment.rest = '#' :: '{' :: rest := by
  fun_induction rich? input generalizing segment with
  | case1 | case4 => cases found
  | case2 rest =>
      obtain rfl := Option.some.inj found
      exact Or.inl ⟨rest, rfl⟩
  | case3 rest =>
      obtain rfl := Option.some.inj found
      exact Or.inr ⟨rest, rfl⟩
  | case5 escaped rest inductionHypothesis
  | case6 character rest _ _ _ _ inductionHypothesis =>
      obtain ⟨inner, isInner, rfl⟩ := Option.map_eq_some_iff.1 found
      have meets := inductionHypothesis isInner
      exact meets

end Segment

namespace ModeStack

variable {modes : ModeStack} {input : List Char}

/-! ## One step -/

theorem sound_push
    (layered : Layered modes.top modes.below) (isCode : modes.mode = .code)
    {mode : Mode} (notCode : mode ≠ .code) (ready : mode = .comment ∨ mode.isString)
    (rest : List Char) : (modes.push mode).Sound rest := by
  refine ⟨⟨?_, layered⟩, ?_⟩
  · cases mode with
    | code => exact absurd rfl notCode
    | _ => exact ⟨rfl, isCode⟩
  · intro closed
    cases mode with
    | plainString | richString => cases closed
    | _ => trivial

theorem keepsSound_signMove
    (layered : Layered modes.top modes.below) (isCode : modes.mode = .code)
    (sign : Sign) (rest : List Char) : (modes.signMove sign rest).KeepsSound := by
  rcases modes with ⟨⟨mode, interpolating, openBraces, segmentOpen⟩, others⟩
  obtain rfl : mode = .code := isCode
  unfold signMove
  split
  · have opened : Layered ⟨.code, interpolating, openBraces + 1, segmentOpen⟩ others :=
      layered_of_top layered rfl rfl fun _ => rfl
    exact sound_of_code opened rfl rest
  · cases openBraces with
    | succ outer =>
        have closed : Layered ⟨.code, interpolating, outer, segmentOpen⟩ others :=
          layered_of_top layered rfl rfl fun _ => rfl
        exact sound_of_code closed rfl rest
    | zero =>
        cases interpolating with
        | false => exact sound_of_code layered rfl rest
        | true =>
            cases others with
            | nil => cases layered.2.1
            | cons lower others =>
                -- The string below the expression has a piece to be read.
                obtain ⟨⟨-, -, isOpen⟩, lowerLayered⟩ := layered
                refine ⟨lowerLayered, ?_⟩
                intro closed
                cases isOpen.symm.trans closed
  · exact sound_of_code layered rfl rest

theorem keepsSound_numberMove
    (layered : Layered modes.top modes.below) (isCode : modes.mode = .code)
    (reading : Numeral.Reading) : (modes.numberMove reading).KeepsSound := by
  unfold numberMove
  split
  · exact sound_of_code layered isCode _
  · rename_i cause failed
    intro isStray
    unfold Numeral.kind at failed
    split at failed
    · cases failed
    · split at failed
      · cases failed
      all_goals
        obtain rfl := Except.error.inj failed
        cases isStray

theorem keepsSound_codeMove
    (layered : Layered modes.top modes.below) (isCode : modes.mode = .code)
    (input : List Char) : (modes.codeMove input).KeepsSound := by
  unfold codeMove
  split
  · split
    · simp [Move.KeepsSound]
    · exact sound_of_code layered isCode _
  · exact sound_of_code layered isCode _
  · exact sound_push layered isCode (by simp) (Or.inr rfl) _
  · exact sound_push layered isCode (by simp) (Or.inr rfl) _
  · exact sound_push layered isCode (by simp) (Or.inl rfl) _
  · split
    · exact sound_of_code layered isCode _
    split
    · exact keepsSound_numberMove layered isCode _
    split
    · exact sound_of_code layered isCode _
    split
    · exact sound_of_code layered isCode _
    split
    · simp [Move.KeepsSound]
    · exact keepsSound_signMove layered isCode _ _

/-- The frame below a string or a comment is code. -/
theorem sound_pop
    (layered : Layered modes.top modes.below) (notCode : modes.mode ≠ .code)
    (rest : List Char) : modes.pop.2.Sound rest := by
  rcases modes with ⟨top, others⟩
  cases others with
  | nil => exact absurd layered.1 notCode
  | cons lower others =>
      obtain ⟨liesOn, lowerLayered⟩ := layered
      have lowerCode : lower.mode = .code := by
        unfold Frame.LiesOn at liesOn
        split at liesOn
        · rename_i isCode
          exact absurd isCode notCode
        · exact liesOn.2
      exact sound_of_code lowerLayered lowerCode rest

theorem keepsSound_segmentMove
    (layered : Layered modes.top modes.below) (notCode : modes.mode ≠ .code)
    {segment? : Option Segment}
    (meets : ∀ segment, segment? = some segment →
      (modes.setSegmentOpen false).top.Meets segment.rest) :
    (modes.segmentMove segment?).KeepsSound := by
  cases segment? with
  | none => simp [segmentMove, Move.KeepsSound]
  | some segment =>
      have closed : Layered (modes.setSegmentOpen false).top modes.below := by
        refine layered_of_top layered rfl rfl ?_
        intro isCode
        exact absurd isCode notCode
      exact ⟨closed, meets segment rfl⟩

theorem keepsSound_plainMove
    (sound : modes.Sound input) (isPlain : modes.mode = .plainString) :
    (modes.plainMove input).KeepsSound := by
  have topMode : modes.top.mode = .plainString := isPlain
  unfold plainMove
  split
  · refine keepsSound_segmentMove sound.layered (by simp [isPlain]) ?_
    intro segment found _
    simpa only [setSegmentOpen, topMode] using Segment.meets_of_plain? found
  · rename_i closed
    have meets := sound.meets (by simpa using closed)
    simp only [topMode] at meets
    obtain ⟨rest, rfl⟩ := meets
    exact sound_pop sound.layered (by simp [isPlain]) rest

theorem keepsSound_richMove
    (sound : modes.Sound input) (isRich : modes.mode = .richString) :
    (modes.richMove input).KeepsSound := by
  have topMode : modes.top.mode = .richString := isRich
  unfold richMove
  split
  · refine keepsSound_segmentMove sound.layered (by simp [isRich]) ?_
    intro segment found _
    simpa only [setSegmentOpen, topMode] using Segment.meets_of_rich? found
  · rename_i closed
    have meets := sound.meets (by simpa using closed)
    simp only [topMode] at meets
    rcases meets with ⟨rest, rfl⟩ | ⟨rest, rfl⟩
    · exact sound_pop sound.layered (by simp [isRich]) rest
    · have lower : Layered (modes.setSegmentOpen true).top modes.below := by
        refine layered_of_top sound.layered rfl rfl ?_
        intro isCode
        cases topMode.symm.trans isCode
      have layered : Layered .interpolation ((modes.setSegmentOpen true).top :: modes.below) :=
        ⟨⟨rfl, isRich, rfl⟩, lower⟩
      exact sound_of_code layered rfl rest

theorem keepsSound_commentMove
    (sound : modes.Sound input) (isComment : modes.mode = .comment) :
    (modes.commentMove input).KeepsSound := by
  unfold commentMove
  split
  · exact sound_pop sound.layered (by simp [isComment]) _
  · simp [Move.KeepsSound]

/-- A step from a sound stack leads to a sound stack. -/
theorem Sound.move (sound : modes.Sound input) : (modes.move input).KeepsSound := by
  unfold ModeStack.move
  split
  · exact keepsSound_codeMove sound.layered ‹_› input
  · exact keepsSound_plainMove sound ‹_›
  · exact keepsSound_richMove sound ‹_›
  · exact keepsSound_commentMove sound ‹_›

end ModeStack

/-! ## What a step reads -/

/-- Tokens of these kinds are written in a text. -/
def Kind.isWritten : Kind → Bool
  | .indent | .dedent | .endOfInput => false
  | _ => true

/-- Tokens of these kinds are written in a text, and not as blanks. -/
def Kind.isSolid : Kind → Bool
  | .whitespace | .indent | .dedent | .endOfInput => false
  | _ => true

/-- A token that was read is solid. -/
def Move.IsSolid : Move → Prop
  | .token lexeme _ => lexeme.kind.isSolid = true
  | _ => True

theorem Kind.isWritten_of_isSolid {kind : Kind} (solid : kind.isSolid = true) :
    kind.isWritten = true := by
  cases kind with
  | indent | dedent | endOfInput => cases solid
  | _ => rfl

theorem Numeral.kind_cases
    {numeral : Numeral} {text : List Char} {kind : Kind} (isKind : numeral.kind text = .ok kind) :
    (∃ value, kind = .integer value) ∨ ∃ value, kind = .float value := by
  unfold Numeral.kind at isKind
  split at isKind
  · exact Or.inr ⟨_, (Except.ok.inj isKind).symm⟩
  · split at isKind
    · exact Or.inl ⟨_, (Except.ok.inj isKind).symm⟩
    · cases isKind
    · cases isKind

theorem Lexeme.kind_name_cases (input : List Char) :
    (∃ text, (name input).kind = .identifier text) ∨
      ∃ keyword, (name input).kind = .keyword keyword := by
  unfold name
  dsimp only
  split
  · exact Or.inr ⟨_, rfl⟩
  · exact Or.inl ⟨_, rfl⟩

theorem Sign.kind_cases {sign : Sign} (member : sign ∈ all) :
    (∃ operator, sign.kind = .operator operator) ∨ ∃ mark, sign.kind = .mark mark := by
  rcases List.mem_append.1 member with isOperator | isMark
  · obtain ⟨operator, -, rfl⟩ := List.mem_map.1 isOperator
    exact Or.inl ⟨operator, rfl⟩
  · obtain ⟨mark, -, rfl⟩ := List.mem_map.1 isMark
    exact Or.inr ⟨mark, rfl⟩

namespace ModeStack

variable {modes : ModeStack} {input : List Char}

theorem isSolid_numberMove (modes : ModeStack) (reading : Numeral.Reading) :
    (modes.numberMove reading).IsSolid := by
  unfold numberMove
  split
  · rename_i isKind
    rcases Numeral.kind_cases isKind with ⟨value, rfl⟩ | ⟨value, rfl⟩ <;> rfl
  · trivial

theorem isSolid_signMove
    (modes : ModeStack) {sign : Sign} (member : sign ∈ Sign.all) (rest : List Char) :
    (modes.signMove sign rest).IsSolid := by
  have solid : sign.kind.isSolid = true := by
    rcases Sign.kind_cases member with ⟨operator, isKind⟩ | ⟨mark, isKind⟩ <;> rw [isKind] <;> rfl
  unfold signMove
  split
  · exact solid
  · split
    · rfl
    · exact solid
  · exact solid

theorem codeMove_of_isSpacing
    {first : Char} (isBlank : isSpacing first = true) (modes : ModeStack) (rest : List Char) :
    modes.codeMove (first :: rest) = .token (.spacing (first :: rest)) modes := by
  rcases isSpacing_iff.1 isBlank with rfl | rfl | rfl <;> rfl

theorem isSolid_codeMove
    {first : Char} (solid : isSpacing first = false) (modes : ModeStack) (rest : List Char) :
    (modes.codeMove (first :: rest)).IsSolid := by
  unfold codeMove
  split
  · rename_i isNil
    cases isNil
  · rfl
  · trivial
  · trivial
  · rfl
  · rename_i same
    obtain ⟨rfl, rfl⟩ := List.cons.inj same
    rw [if_neg (by simp [solid])]
    split
    · exact isSolid_numberMove modes _
    split
    · rcases Lexeme.kind_name_cases (first :: rest) with ⟨text, isKind⟩ | ⟨keyword, isKind⟩ <;>
        exact congrArg Kind.isSolid isKind
    split
    · rfl
    split
    · trivial
    · rename_i found
      exact isSolid_signMove modes (Sign.atFront?_mem found) _

theorem isSolid_segmentMove (modes : ModeStack) (segment? : Option Segment) :
    (modes.segmentMove segment?).IsSolid := by
  cases segment? with
  | none => trivial
  | some segment => rfl

/-- Everything but blanks and the end of the input is solid, and these are read in code only: blanks
as far as they go, and the end behind all characters where no string surrounds it. -/
theorem cases_of_move
    {lexeme : Lexeme} {after : ModeStack} (step : modes.move input = .token lexeme after) :
    lexeme.kind.isSolid = true ∨ modes.mode = .code ∧
      ((lexeme = .spacing input ∧ after = modes) ∨
        (modes.inString = false ∧ input = [] ∧ lexeme = ⟨.endOfInput, [], []⟩)) := by
  have solidOf (move : Move) (solid : move.IsSolid) (same : move = .token lexeme after) :
      lexeme.kind.isSolid = true := by
    rw [same] at solid
    exact solid
  unfold move at step
  split at step
  · rename_i isCode
    cases input with
    | cons first rest =>
        cases blank : isSpacing first with
        | false => exact Or.inl (solidOf _ (isSolid_codeMove blank modes rest) step)
        | true =>
            rw [codeMove_of_isSpacing blank] at step
            obtain ⟨rfl, rfl⟩ := Move.token.inj step
            exact Or.inr ⟨isCode, Or.inl ⟨rfl, rfl⟩⟩
    | nil =>
        unfold codeMove at step
        by_cases surrounded : modes.inString = true
        · rw [if_pos surrounded] at step
          cases step
        · rw [if_neg surrounded] at step
          obtain ⟨rfl, -⟩ := Move.token.inj step
          exact Or.inr ⟨isCode, Or.inr ⟨by simpa using surrounded, rfl, rfl⟩⟩
  · refine Or.inl (solidOf _ ?_ step)
    unfold plainMove
    split
    · exact isSolid_segmentMove modes _
    · split <;> trivial
  · refine Or.inl (solidOf _ ?_ step)
    unfold richMove
    split
    · exact isSolid_segmentMove modes _
    · split <;> trivial
  · refine Or.inl (solidOf _ ?_ step)
    unfold commentMove
    split <;> trivial

/-- A step that reads no written token ends the input: in code that no string surrounds, behind all
characters. -/
theorem end_of_move
    {lexeme : Lexeme} {after : ModeStack}
    (step : modes.move input = .token lexeme after)
    (unwritten : lexeme.kind.isWritten = false) :
    modes.mode = .code ∧ modes.inString = false ∧ input = [] ∧
      lexeme = ⟨.endOfInput, [], []⟩ := by
  rcases cases_of_move step with solid | ⟨isCode, ⟨rfl, -⟩ | isEnd⟩
  · cases unwritten.symm.trans (Kind.isWritten_of_isSolid solid)
  · cases unwritten
  · exact ⟨isCode, isEnd⟩

/-- Blanks are read in code only, and they leave the stack as it is. -/
theorem blanks_of_move
    {lexeme : Lexeme} {after : ModeStack} (step : modes.move input = .token lexeme after)
    (isBlank : lexeme.kind = .whitespace) :
    modes.mode = .code ∧ lexeme = .spacing input ∧ after = modes := by
  rcases cases_of_move step with solid | ⟨isCode, areBlanks | ⟨-, -, rfl⟩⟩
  · rw [isBlank] at solid
    cases solid
  · exact ⟨isCode, areBlanks⟩
  · cases isBlank

theorem isWritten_of_move
    {lexeme : Lexeme} {after : ModeStack} (step : modes.move input = .token lexeme after)
    (more : lexeme.kind ≠ .endOfInput) : lexeme.kind.isWritten = true := by
  cases written : lexeme.kind.isWritten with
  | true => rfl
  | false =>
      obtain ⟨-, -, -, rfl⟩ := end_of_move step written
      exact absurd rfl more

/-- Nothing surrounds the code at the end of the input. -/
theorem Sound.below_eq_nil
    (sound : modes.Sound input) (isCode : modes.mode = .code) (bare : modes.inString = false) :
    modes.below = [] := by
  rcases modes with ⟨top, others⟩
  cases others with
  | nil => rfl
  | cons lower others =>
      have liesOn := sound.layered.1
      have topMode : top.mode = .code := isCode
      simp only [Frame.LiesOn, topMode] at liesOn
      simp [inString, frames, liesOn.2.1, Mode.isString] at bare

end ModeStack

/-- The stack is sound in front of what is left. -/
def Scanner.Sound (scanner : Scanner) : Prop :=
  scanner.modes.Sound scanner.rest

theorem Scanner.sound_start (text : List Char) : (start text).Sound :=
  ModeStack.sound_initial text

/-- Induction along the steps of a scanner, each of which keeps the stack sound. -/
@[elab_as_elim]
theorem Scanner.Sound.induction
    {motive : ∀ scanner : Scanner, scanner.Sound → Prop}
    (refused : ∀ (scanner : Scanner) (sound : scanner.Sound) (cause : LexicalCause),
      scanner.modes.move scanner.rest = .refused cause → cause ≠ .strayString →
        motive scanner sound)
    (quote : ∀ (scanner : Scanner) (sound : scanner.Sound) (mark : Char) (rest : List Char)
      (modes : ModeStack) (soundNext : (scanner.afterQuote mark rest modes).Sound),
      scanner.modes.move scanner.rest = .quote mark rest modes → motive _ soundNext →
        motive scanner sound)
    (last : ∀ (scanner : Scanner) (sound : scanner.Sound) (lexeme : Lexeme) (modes : ModeStack),
      scanner.modes.move scanner.rest = .token lexeme modes → lexeme.kind = .endOfInput →
        motive scanner sound)
    (token : ∀ (scanner : Scanner) (sound : scanner.Sound) (lexeme : Lexeme) (modes : ModeStack)
      (soundNext : (scanner.afterToken lexeme modes).Sound),
      scanner.modes.move scanner.rest = .token lexeme modes → lexeme.kind ≠ .endOfInput →
        motive _ soundNext → motive scanner sound)
    {scanner : Scanner} (sound : scanner.Sound) : motive scanner sound := by
  -- what is left becomes shorter, except behind a piece of a string, which the stack remembers
  induction size : scanner.size using Nat.strongRecOn generalizing scanner with
  | _ bound inductionHypothesis =>
    have keepsSound : (scanner.modes.move scanner.rest).KeepsSound := ModeStack.Sound.move sound
    cases step : scanner.modes.move scanner.rest with
    | refused cause =>
        rw [step] at keepsSound
        exact refused scanner sound cause step keepsSound
    | quote mark rest modes =>
        have soundNext : (scanner.afterQuote mark rest modes).Sound := by
          rwa [step] at keepsSound
        have shorter : (scanner.afterQuote mark rest modes).size < bound :=
          size ▸ size_afterQuote_lt step
        exact quote scanner sound mark rest modes soundNext step
          (inductionHypothesis _ shorter soundNext rfl)
    | token lexeme modes =>
        have soundNext : (scanner.afterToken lexeme modes).Sound := by
          rwa [step] at keepsSound
        by_cases ended : lexeme.kind = .endOfInput
        · exact last scanner sound lexeme modes step ended
        · have shorter : (scanner.afterToken lexeme modes).size < bound :=
            size ▸ ModeStack.pending_lt_of_token step ended
          exact token scanner sound lexeme modes soundNext step ended
            (inductionHypothesis _ shorter soundNext rfl)

end ScriptFront
