import ScriptFront.Token.Scanner

/-!
# A blank, a newline or a stop behind a text

What is read from a text does not change when a newline and further text follow it, as long as
something is read: no token reaches over the end of its text into a newline behind it.  A blank
makes no difference either, except that it prolongs a run of blanks and a comment.  Neither does a
comma or a closing parenthesis, but in front of them an equals sign at the end of the text belongs
to no name.
-/

namespace ScriptFront

/-- The lexeme with more text behind what is left. -/
def Lexeme.followedBy (lexeme : Lexeme) (more : List Char) : Lexeme :=
  { lexeme with rest := lexeme.rest ++ more }

def Segment.followedBy (segment : Segment) (more : List Char) : Segment :=
  { segment with rest := segment.rest ++ more }

/-- The step with more text behind what is left. -/
def Move.followedBy (more : List Char) : Move → Move
  | .token lexeme modes => .token (lexeme.followedBy more) modes
  | .quote mark rest modes => .quote mark (rest ++ more) modes
  | .refused cause => .refused cause

/-- Blanks and newlines, over which no word, number or sign reaches. -/
def isSeparator (character : Char) : Bool :=
  isSpacing character || character = '\n'

/-- Separators, commas and closing parentheses: no word, number or longer sign goes on with one. -/
def isStop (character : Char) : Bool :=
  isSeparator character || character = ',' || character = ')'

theorem isSeparator_cases
    {mark : Char} (separates : isSeparator mark = true) :
    mark = ' ' ∨ mark = '\t' ∨ mark = '\r' ∨ mark = '\n' := by
  simpa [isSeparator, isSpacing, or_assoc] using separates

theorem isStop_of_isSeparator {mark : Char} (separates : isSeparator mark = true) :
    isStop mark = true := by
  rw [isStop, separates]
  rfl

theorem isStop_cases
    {mark : Char} (stops : isStop mark = true) :
    mark = ' ' ∨ mark = '\t' ∨ mark = '\r' ∨ mark = '\n' ∨ mark = ',' ∨ mark = ')' := by
  simpa [isStop, isSeparator, isSpacing, or_assoc] using stops

theorem endsSetterName_of_isSeparator
    {mark : Char} (separates : isSeparator mark = true) : endsSetterName mark = true := by
  rcases isSeparator_cases separates with rfl | rfl | rfl | rfl <;> rfl

theorem isWordChar_of_isStop
    {mark : Char} (stops : isStop mark = true) : isWordChar mark = false := by
  rcases isStop_cases stops with rfl | rfl | rfl | rfl | rfl | rfl <;> rfl

theorem isDigit_of_isStop
    {mark : Char} (stops : isStop mark = true) : mark.isDigit = false := by
  rcases isStop_cases stops with rfl | rfl | rfl | rfl | rfl | rfl <;> rfl

/-- An equals sign at the end of a text belongs to the name before it alike, whether the character
stands behind it or nothing does. -/
def KeepsSetter (mark : Char) (input : List Char) : Prop :=
  endsSetterName mark = true ∨ input.getLast? ≠ some '='

theorem keepsSetter_of_isSeparator
    {mark : Char} (separates : isSeparator mark = true) (input : List Char) :
    KeepsSetter mark input :=
  Or.inl (endsSetterName_of_isSeparator separates)

/-- The end of a text decides. -/
theorem KeepsSetter.of_append
    {mark : Char} {front input : List Char} (keeps : KeepsSetter mark (front ++ input)) :
    KeepsSetter mark input := by
  refine keeps.imp_right ?_
  intro differs isLast
  refine differs ?_
  rw [List.getLast?_append, isLast]
  rfl

/-- A separator behind the text does not prolong what the step reads. -/
def Move.EndsBefore (mark : Char) : Move → Prop
  | .token lexeme _ =>
    (lexeme.kind = .whitespace → isSpacing mark = false ∨ lexeme.rest ≠ []) ∧
      ∀ text, lexeme.kind = .comment text → mark = '\n'
  | _ => True

theorem Move.endsBefore_newline (move : Move) : move.EndsBefore '\n' := by
  cases move with
  | token => exact ⟨fun _ => Or.inl rfl, fun _ _ => rfl⟩
  | _ => trivial

/-! ## Runs of characters -/

section Runs

variable {continues : Char → Bool} {mark : Char}

theorem takeWhile_append_stop
    (stops : continues mark = false) (input more : List Char) :
    (input ++ mark :: more).takeWhile continues = input.takeWhile continues := by
  induction input with
  | nil => simp [stops]
  | cons first rest inductionHypothesis =>
      rw [List.cons_append, List.takeWhile_cons, List.takeWhile_cons, inductionHypothesis]

theorem dropWhile_append_stop
    (stops : continues mark = false) (input more : List Char) :
    (input ++ mark :: more).dropWhile continues =
      input.dropWhile continues ++ mark :: more := by
  induction input with
  | nil => simp [stops]
  | cons first rest inductionHypothesis =>
      rw [List.cons_append, List.dropWhile_cons, List.dropWhile_cons, inductionHypothesis]
      split <;> rfl

/-- A run that ends within the text ends there before any further text. -/
theorem takeWhile_append_of_dropWhile
    {input : List Char} (ends : input.dropWhile continues ≠ []) (more : List Char) :
    (input ++ more).takeWhile continues = input.takeWhile continues ∧
      (input ++ more).dropWhile continues = input.dropWhile continues ++ more := by
  induction input with
  | nil => exact absurd rfl ends
  | cons first rest inductionHypothesis =>
      by_cases goesOn : continues first = true
      · rw [List.dropWhile_cons_of_pos goesOn] at ends
        have further := inductionHypothesis ends
        simp [goesOn, further]
      · simp [goesOn]

end Runs

namespace Lexeme

/-- A run of blanks does not go on behind a newline, nor behind its end within the text. -/
theorem spacing_append_separator
    {mark : Char} {input : List Char}
    (ends : isSpacing mark = false ∨ (spacing input).rest ≠ []) (more : List Char) :
    spacing (input ++ mark :: more) = (spacing input).followedBy (mark :: more) := by
  rcases ends with stops | ends
  · simp only [spacing, followedBy, takeWhile_append_stop stops, dropWhile_append_stop stops]
  · obtain ⟨sameRun, sameRest⟩ := takeWhile_append_of_dropWhile ends (mark :: more)
    simp only [spacing, followedBy, sameRun, sameRest]

theorem comment_append_newline (input more : List Char) :
    comment (input ++ '\n' :: more) = (comment input).followedBy ('\n' :: more) := by
  have stops : decide ('\n' ≠ '\n') = false := by decide
  unfold comment
  rw [takeWhile_append_stop stops, dropWhile_append_stop stops]
  rfl

section Stop

variable {mark : Char} (stops : isStop mark = true)
include stops

theorem constant_append_stop (input more : List Char) :
    constant (input ++ mark :: more) = (constant input).followedBy (mark :: more) := by
  have ends := isWordChar_of_isStop stops
  simp only [constant, followedBy, takeWhile_append_stop ends, dropWhile_append_stop ends]

/-- An equals sign belongs to a name before a separator just as at the end of the text. -/
theorem nameMark_append_stop {behind : List Char} (keeps : KeepsSetter mark behind)
    (more : List Char) : nameMark (behind ++ mark :: more) = nameMark behind := by
  rcases behind with _ | ⟨first, _ | ⟨second, others⟩⟩
  · rcases isStop_cases stops with rfl | rfl | rfl | rfl | rfl | rfl <;> rfl
  · have differs : mark ≠ '=' := by
      rcases isStop_cases stops with rfl | rfl | rfl | rfl | rfl | rfl <;> decide
    by_cases isQuestion : first = '?'
    · simp [nameMark, isQuestion, differs]
    by_cases isBang : first = '!'
    · simp [nameMark, isBang, differs]
    by_cases isEquals : first = '='
    · subst isEquals
      rcases keeps with ends | noEquals
      · simp [nameMark, ends]
      · exact absurd rfl noEquals
    simp [nameMark, isQuestion, isBang, isEquals]
  · -- With two characters behind the letters the mark depends on no further one.
    rw [List.cons_append, List.cons_append]
    by_cases isQuestion : first = '?'
    · subst isQuestion
      by_cases isEquals : second = '=' <;> simp [nameMark, isEquals]
    by_cases isBang : first = '!'
    · subst isBang
      by_cases isEquals : second = '=' <;> simp [nameMark, isEquals]
    by_cases isEquals : first = '='
    · subst isEquals
      rfl
    simp [nameMark, isQuestion, isBang, isEquals]

theorem name_append_stop {input : List Char} (keeps : KeepsSetter mark input)
    (more : List Char) :
    name (input ++ mark :: more) = (name input).followedBy (mark :: more) := by
  have ends := isWordChar_of_isStop stops
  have keepsBehind : KeepsSetter mark (input.dropWhile isWordChar) := by
    rw [← List.takeWhile_append_dropWhile (p := isWordChar) (l := input)] at keeps
    exact keeps.of_append
  have short : (nameMark (input.dropWhile isWordChar)).length ≤
      (input.dropWhile isWordChar).length := by
    have whole := congrArg List.length (nameMark_append_drop (input.dropWhile isWordChar))
    rw [List.length_append] at whole
    omega
  simp only [name, followedBy, takeWhile_append_stop ends, dropWhile_append_stop ends,
    nameMark_append_stop stops keepsBehind, List.drop_append_of_le_length short]

end Stop

end Lexeme

/-! ## Numbers -/

namespace Numeral

def Reading.followedBy (reading : Reading) (more : List Char) : Reading :=
  { reading with rest := reading.rest ++ more }

section Stop

variable {mark : Char} (stops : isStop mark = true)

include stops in
theorem readDecimal_append_stop (input more : List Char) :
    readDecimal (input ++ mark :: more) = (readDecimal input).followedBy (mark :: more) := by
  have noDigit := isDigit_of_isStop stops
  have noPoint : mark ≠ '.' := by
    rcases isStop_cases stops with rfl | rfl | rfl | rfl | rfl | rfl <;> decide
  unfold readDecimal
  rw [takeWhile_append_stop noDigit, dropWhile_append_stop noDigit]
  cases behind : input.dropWhile Char.isDigit with
  | nil => simp [Reading.followedBy, noPoint]
  | cons first others =>
      by_cases isPoint : first = '.'
      · subst isPoint
        simp only [List.cons_append, takeWhile_append_stop noDigit,
          dropWhile_append_stop noDigit]
        split <;> rfl
      · simp [Reading.followedBy, isPoint]

theorem readBased_append_stop
    {isDigit : Char → Bool} (stops : isDigit mark = false)
    (base : Nat) (letters digits more : List Char) :
    readBased base isDigit letters (digits ++ mark :: more) =
      (readBased base isDigit letters digits).followedBy (mark :: more) := by
  simp only [readBased, Reading.followedBy, takeWhile_append_stop stops,
    dropWhile_append_stop stops]

/-- Without a base mark and a digit of its base a number is read in base ten or eight. -/
theorem read_eq_readDecimal
    {input : List Char}
    (unmarked : ∀ letter digit others, input = '0' :: letter :: digit :: others →
      ((letter = 'x' || letter = 'X') && isHexDigit digit) = false ∧
        ((letter = 'b' || letter = 'B') && isBinaryDigit digit) = false) :
    read input = readDecimal input := by
  unfold read
  split
  · rename_i letter digit others
    obtain ⟨noHex, noBinary⟩ := unmarked letter digit others rfl
    rw [noHex, noBinary]
    rfl
  · rfl

include stops in
theorem read_append_stop (input more : List Char) :
    read (input ++ mark :: more) = (read input).followedBy (mark :: more) := by
  have decimal := readDecimal_append_stop stops input more
  have noHex : isHexDigit mark = false := by
    rcases isStop_cases stops with rfl | rfl | rfl | rfl | rfl | rfl <;> decide
  have noBinary : isBinaryDigit mark = false := by
    rcases isStop_cases stops with rfl | rfl | rfl | rfl | rfl | rfl <;> decide
  have noLetter : mark ≠ 'x' ∧ mark ≠ 'X' ∧ mark ≠ 'b' ∧ mark ≠ 'B' := by
    rcases isStop_cases stops with rfl | rfl | rfl | rfl | rfl | rfl <;> decide
  rcases input with _ | ⟨first, _ | ⟨letter, _ | ⟨digit, others⟩⟩⟩
  · have noZero : mark ≠ '0' := by
      rcases isStop_cases stops with rfl | rfl | rfl | rfl | rfl | rfl <;> decide
    rw [read_eq_readDecimal, read_eq_readDecimal, decimal]
    · intro letter digit others same
      cases same
    · intro letter digit others same
      exact absurd (List.cons.inj same).1 noZero
  · rw [read_eq_readDecimal, read_eq_readDecimal, decimal]
    · intro letter digit others same
      cases same
    · intro letter digit others same
      obtain ⟨-, isLetter, -⟩ : first = '0' ∧ mark = letter ∧ more = digit :: others := by
        simpa using same
      subst isLetter
      simp [noLetter]
  · rw [read_eq_readDecimal, read_eq_readDecimal, decimal]
    · intro letter digit others same
      cases same
    · intro other digit others same
      obtain ⟨-, -, isDigit, -⟩ : first = '0' ∧ letter = other ∧ mark = digit ∧ more = others := by
        simpa using same
      subst isDigit
      simp [noHex, noBinary]
  · by_cases isZero : first = '0'
    · subst isZero
      simp only [List.cons_append] at decimal ⊢
      simp only [read]
      split
      · exact readBased_append_stop noHex 16 _ (digit :: others) more
      split
      · exact readBased_append_stop noBinary 2 _ (digit :: others) more
      · exact decimal
    · rw [read_eq_readDecimal, read_eq_readDecimal, decimal]
      all_goals
        intro other second rest same
        exact absurd (List.cons.inj same).1 isZero

end Stop

end Numeral

/-! ## Signs -/

namespace Sign

/-- No sign goes on with a stop. -/
theorem stop_notMem_tail
    {sign : Sign} {mark : Char} (stops : isStop mark = true) (member : sign ∈ all) :
    mark ∉ sign.text.tail := by
  have every : all.all (fun one => one.text.tail.all fun character => !isStop character) = true := by
    decide +kernel
  intro inText
  have apart := List.all_eq_true.1 (List.all_eq_true.1 every sign member) mark inText
  rw [stops] at apart
  cases apart

theorem isPrefixOf_append_stop
    {text : List Char} {mark : Char} (absent : mark ∉ text) (input more : List Char) :
    text.isPrefixOf (input ++ mark :: more) = text.isPrefixOf input := by
  induction text generalizing input with
  | nil => simp
  | cons first others inductionHypothesis =>
      obtain ⟨differs, otherAbsent⟩ := List.ne_and_not_mem_of_not_mem_cons absent
      cases input with
      | nil => simp [List.isPrefixOf, differs.symm]
      | cons head tail =>
          simp [List.isPrefixOf, inductionHypothesis otherAbsent]

theorem atFront?_append_stop
    {mark : Char} (stops : isStop mark = true) (first : Char) (input more : List Char) :
    atFront? (first :: input ++ mark :: more) = atFront? (first :: input) := by
  unfold atFront?
  refine congrArg longest? (List.filter_congr ?_)
  intro sign member
  have absent := stop_notMem_tail stops member
  cases isText : sign.text with
  | nil => exact absurd isText (text_ne_nil member)
  | cons head others =>
      rw [isText, List.tail_cons] at absent
      rw [List.cons_append, List.isPrefixOf_cons_cons, List.isPrefixOf_cons_cons,
        isPrefixOf_append_stop absent]

end Sign

/-! ## Pieces of strings -/

namespace Segment

theorem plain?_append_more
    {input : List Char} {segment : Segment} (found : plain? input = some segment)
    (more : List Char) : plain? (input ++ more) = some (segment.followedBy more) := by
  fun_induction plain? input generalizing segment with
  | case1 => cases found
  | case2 rest =>
      obtain rfl := Option.some.inj found
      rfl
  | case3 rest inductionHypothesis | case4 rest inductionHypothesis =>
      obtain ⟨inner, isInner, rfl⟩ := Option.map_eq_some_iff.1 found
      have extended := inductionHypothesis isInner
      simp [plain?, extended, prepend, followedBy]
  | case5 character rest notQuote notEscapedQuote notEscapedSlash inductionHypothesis =>
      obtain ⟨inner, isInner, rfl⟩ := Option.map_eq_some_iff.1 found
      have extended := inductionHypothesis isInner
      cases rest with
      | nil => cases isInner
      | cons next others =>
          rw [List.cons_append, List.cons_append, plain?]
          · rw [← List.cons_append, extended]
            rfl
          · exact notQuote
          · intro behind isSlash same
            obtain ⟨rfl, -⟩ := List.cons.inj same
            exact notEscapedQuote others isSlash rfl
          · intro behind isSlash same
            obtain ⟨rfl, -⟩ := List.cons.inj same
            exact notEscapedSlash others isSlash rfl

theorem rich?_append_more
    {input : List Char} {segment : Segment} (found : rich? input = some segment)
    (more : List Char) : rich? (input ++ more) = some (segment.followedBy more) := by
  fun_induction rich? input generalizing segment with
  | case1 | case4 => cases found
  | case2 rest | case3 rest =>
      obtain rfl := Option.some.inj found
      rfl
  | case5 escaped rest inductionHypothesis =>
      obtain ⟨inner, isInner, rfl⟩ := Option.map_eq_some_iff.1 found
      have extended := inductionHypothesis isInner
      simp [rich?, extended, prepend, followedBy]
  | case6 character rest notQuote notInsertion notLast notEscape inductionHypothesis =>
      obtain ⟨inner, isInner, rfl⟩ := Option.map_eq_some_iff.1 found
      have extended := inductionHypothesis isInner
      cases rest with
      | nil => cases isInner
      | cons next others =>
          rw [List.cons_append, List.cons_append, rich?]
          · rw [← List.cons_append, extended]
            rfl
          · exact notQuote
          · intro behind isSign same
            obtain ⟨rfl, -⟩ := List.cons.inj same
            exact notInsertion others isSign rfl
          · intro _ same
            cases same
          · intro escaped behind isSlash same
            exact notEscape next others isSlash rfl

end Segment

namespace ModeStack

variable {modes : ModeStack} {input : List Char}

/-! ## Steps -/

theorem numberMove_followedBy (reading : Numeral.Reading) (more : List Char) :
    modes.numberMove (reading.followedBy more) = (modes.numberMove reading).followedBy more := by
  unfold numberMove
  rw [show (reading.followedBy more).numeral = reading.numeral from rfl,
    show (reading.followedBy more).text = reading.text from rfl]
  split <;> rfl

theorem signMove_followedBy (sign : Sign) (rest more : List Char) :
    modes.signMove sign (rest ++ more) = (modes.signMove sign rest).followedBy more := by
  unfold signMove
  split
  · rfl
  · split <;> rfl
  · rfl

/-- A step within code decides alike before a stop and at the end of the text. -/
theorem codeMove_append_stop
    {mark : Char} (stops : isStop mark = true) (modes : ModeStack) {first : Char}
    {rest : List Char} (keeps : KeepsSetter mark (first :: rest))
    (ends : (modes.codeMove (first :: rest)).EndsBefore mark) (more : List Char) :
    modes.codeMove (first :: rest ++ mark :: more) =
      (modes.codeMove (first :: rest)).followedBy (mark :: more) := by
  have number := Numeral.read_append_stop stops (first :: rest) more
  have name := Lexeme.name_append_stop stops keeps more
  have constant := Lexeme.constant_append_stop stops (first :: rest) more
  have sign := Sign.atFront?_append_stop stops first rest more
  rw [List.cons_append] at number name constant sign ⊢
  by_cases isNewline : first = '\n'
  · subst isNewline
    rfl
  by_cases isSingle : first = '\''
  · subst isSingle
    rfl
  by_cases isDouble : first = '"'
  · subst isDouble
    rfl
  by_cases isComment : first = '#'
  · subst isComment
    obtain rfl := ends.2 _ rfl
    have comment := Lexeme.comment_append_newline ('#' :: rest) more
    exact congrArg (Move.token · (modes.push .comment)) comment
  simp only [codeMove] at ends ⊢
  split
  · rename_i isBlank
    rw [if_pos isBlank] at ends
    have spacing := Lexeme.spacing_append_separator (ends.1 rfl) more
    exact congrArg (Move.token · modes) spacing
  split
  · rw [number]
    exact numberMove_followedBy _ _
  split
  · exact congrArg (Move.token · modes) name
  split
  · exact congrArg (Move.token · modes) constant
  rw [sign]
  split
  · rfl
  · rename_i found
    have short := (Sign.atFront?_isPrefix found).length_le
    rw [← List.cons_append, List.drop_append_of_le_length short]
    exact signMove_followedBy _ _ _

theorem segmentMove_append
    {segment? extended? : Option Segment} {more : List Char}
    (longer : ∀ segment, segment? = some segment →
      extended? = some (segment.followedBy more))
    (accepted : ∀ cause, modes.segmentMove segment? ≠ .refused cause) :
    modes.segmentMove extended? = (modes.segmentMove segment?).followedBy more := by
  cases segment? with
  | none => exact absurd rfl (accepted .unterminatedString)
  | some segment =>
      rw [longer segment rfl]
      rfl

theorem plainMove_append
    (accepted : ∀ cause, modes.plainMove input ≠ .refused cause) (more : List Char) :
    modes.plainMove (input ++ more) = (modes.plainMove input).followedBy more := by
  unfold plainMove at accepted ⊢
  by_cases isOpen : modes.top.segmentOpen
  · simp only [if_pos isOpen] at accepted ⊢
    exact segmentMove_append (fun _ found => Segment.plain?_append_more found _) accepted
  · simp only [if_neg isOpen] at accepted ⊢
    split at accepted
    · rfl
    · exact absurd rfl (accepted .strayString)

theorem richMove_append
    (accepted : ∀ cause, modes.richMove input ≠ .refused cause) (more : List Char) :
    modes.richMove (input ++ more) = (modes.richMove input).followedBy more := by
  unfold richMove at accepted ⊢
  by_cases isOpen : modes.top.segmentOpen
  · simp only [if_pos isOpen] at accepted ⊢
    exact segmentMove_append (fun _ found => Segment.rich?_append_more found _) accepted
  · simp only [if_neg isOpen] at accepted ⊢
    split at accepted
    · rfl
    · rfl
    · exact absurd rfl (accepted .strayString)

theorem commentMove_append
    (accepted : ∀ cause, modes.commentMove input ≠ .refused cause) (more : List Char) :
    modes.commentMove (input ++ more) = (modes.commentMove input).followedBy more := by
  unfold commentMove at accepted ⊢
  split at accepted
  · rfl
  · exact absurd rfl (accepted .unterminatedComment)

/-- A step that reads something reads the same if a separator and more text follow. -/
theorem move_append_separator
    {mark : Char} (separates : isSeparator mark = true) (some : modes.mode = .code → input ≠ [])
    (accepted : ∀ cause, modes.move input ≠ .refused cause)
    (ends : (modes.move input).EndsBefore mark) (more : List Char) :
    modes.move (input ++ mark :: more) = (modes.move input).followedBy (mark :: more) := by
  cases isMode : modes.mode with
  | code =>
      simp only [move, isMode] at ends ⊢
      cases input with
      | nil => exact absurd rfl (some isMode)
      | cons first rest =>
          exact codeMove_append_stop (isStop_of_isSeparator separates) modes
            (keepsSetter_of_isSeparator separates _) ends more
  | plainString =>
      simp only [move, isMode] at accepted ⊢
      exact plainMove_append accepted _
  | richString =>
      simp only [move, isMode] at accepted ⊢
      exact richMove_append accepted _
  | comment =>
      simp only [move, isMode] at accepted ⊢
      exact commentMove_append accepted _

/-- A step that reads something reads the same if a newline and more text follow. -/
theorem move_append_newline
    (some : modes.mode = .code → input ≠ [])
    (accepted : ∀ cause, modes.move input ≠ .refused cause) (more : List Char) :
    modes.move (input ++ '\n' :: more) = (modes.move input).followedBy ('\n' :: more) :=
  move_append_separator rfl some accepted (Move.endsBefore_newline _) more

end ModeStack

end ScriptFront
