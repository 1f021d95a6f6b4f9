import Mathlib.Data.List.TakeWhile
import ScriptFront.Proofs.Token.Turns

/-!
# The rules of reading

A token is read by one of a few rules, each of which says what stands ahead, what of it the token
covers, and what becomes of the stack of modes.  In code the first character decides about the rule.
-/

namespace ScriptFront

namespace ModeStack

/-- A token is read from the front of a text by one of these rules. -/
inductive TokenRule (modes : ModeStack) : List Char → Lexeme → ModeStack → Prop where
  | ending (isCode : modes.mode = .code) (bare : modes.inString = false) :
      TokenRule modes [] ⟨.endOfInput, [], []⟩ modes
  | newline {rest : List Char} (isCode : modes.mode = .code) :
      TokenRule modes ('\n' :: rest) ⟨.newline, ['\n'], rest⟩ modes
  | comment {rest : List Char} (isCode : modes.mode = .code) :
      TokenRule modes ('#' :: rest) (.comment ('#' :: rest)) (modes.push .comment)
  | spacing {first : Char} {rest : List Char} (isCode : modes.mode = .code)
      (isBlank : isSpacing first = true) :
      TokenRule modes (first :: rest) (.spacing (first :: rest)) modes
  | number {first : Char} {rest : List Char} {kind : Kind} (isCode : modes.mode = .code)
      (isDigit : first.isDigit = true)
      (hasKind : (Numeral.read (first :: rest)).numeral.kind (Numeral.read (first :: rest)).text =
        .ok kind) :
      TokenRule modes (first :: rest)
        ⟨kind, (Numeral.read (first :: rest)).text, (Numeral.read (first :: rest)).rest⟩ modes
  | name {first : Char} {rest : List Char} (isCode : modes.mode = .code)
      (starts : isNameStart first = true) :
      TokenRule modes (first :: rest) (.name (first :: rest)) modes
  | constant {first : Char} {rest : List Char} (isCode : modes.mode = .code)
      (isUpper : first.isUpper = true) :
      TokenRule modes (first :: rest) (.constant (first :: rest)) modes
  | sign {input : List Char} {sign : Sign} {after : ModeStack} (isCode : modes.mode = .code)
      (found : Sign.atFront? input = some sign)
      (turns : modes.Turns input sign.kind after) :
      TokenRule modes input ⟨sign.kind, sign.text, input.drop sign.text.length⟩ after
  | insertionEnds {input : List Char} {sign : Sign} {after : ModeStack} (isCode : modes.mode = .code)
      (found : Sign.atFront? input = some sign) (isBrace : sign.kind = .mark .rightBrace)
      (turns : modes.Turns input .interpolationEnd after) :
      TokenRule modes input ⟨.interpolationEnd, sign.text, input.drop sign.text.length⟩ after
  | plainPiece {input : List Char} {segment : Segment} (isPlain : modes.mode = .plainString)
      (isOpen : modes.top.segmentOpen = true) (found : Segment.plain? input = some segment) :
      TokenRule modes input
        ⟨.fragment (String.ofList segment.value), segment.text, segment.rest⟩
        (modes.setSegmentOpen false)
  | richPiece {input : List Char} {segment : Segment} (isRich : modes.mode = .richString)
      (isOpen : modes.top.segmentOpen = true) (found : Segment.rich? input = some segment) :
      TokenRule modes input
        ⟨.fragment (String.ofList segment.value), segment.text, segment.rest⟩
        (modes.setSegmentOpen false)
  | insertionStarts {rest : List Char} (isRich : modes.mode = .richString)
      (isRead : modes.top.segmentOpen = false) :
      TokenRule modes ('#' :: '{' :: rest) ⟨.interpolationStart, ['#', '{'], rest⟩
        modes.pushInterpolation
  | commentEnds {rest : List Char} (isComment : modes.mode = .comment) :
      TokenRule modes ('\n' :: rest) ⟨.newline, ['\n'], rest⟩ modes.pop.2

variable {modes after : ModeStack} {input : List Char} {lexeme : Lexeme}

/-! ## Every token is read by a rule -/

theorem rule_of_numberMove
    {first : Char} {rest : List Char} (isCode : modes.mode = .code) (isDigit : first.isDigit = true)
    (step : modes.numberMove (Numeral.read (first :: rest)) = .token lexeme after) :
    modes.TokenRule (first :: rest) lexeme after := by
  unfold numberMove at step
  split at step
  · rename_i hasKind
    obtain ⟨rfl, rfl⟩ := Move.token.inj step
    exact .number isCode isDigit hasKind
  · cases step

theorem rule_of_signMove
    {sign : Sign} (isCode : modes.mode = .code) (found : Sign.atFront? input = some sign)
    (step : modes.signMove sign (input.drop sign.text.length) = .token lexeme after) :
    modes.TokenRule input lexeme after := by
  have turns : modes.Turns input lexeme.kind after := by
    have followed : modes.FollowsRules input
        (modes.signMove sign (input.drop sign.text.length)) :=
      signMove_followsRules isCode (Sign.atFront?_mem found) _
    rwa [step] at followed
  unfold signMove at step
  split at step
  · obtain ⟨rfl, rfl⟩ := Move.token.inj step
    exact .sign isCode found turns
  · rename_i isBrace
    split at step
    · obtain ⟨rfl, rfl⟩ := Move.token.inj step
      exact .insertionEnds isCode found isBrace turns
    · obtain ⟨rfl, rfl⟩ := Move.token.inj step
      exact .sign isCode found turns
  · obtain ⟨rfl, rfl⟩ := Move.token.inj step
    exact .sign isCode found turns

theorem rule_of_codeMove
    (isCode : modes.mode = .code) (step : modes.codeMove input = .token lexeme after) :
    modes.TokenRule input lexeme after := by
  unfold codeMove at step
  split at step
  · split at step
    · cases step
    · rename_i bare
      obtain ⟨rfl, rfl⟩ := Move.token.inj step
      exact .ending isCode (by simpa using bare)
  · obtain ⟨rfl, rfl⟩ := Move.token.inj step
    exact .newline isCode
  · cases step
  · cases step
  · obtain ⟨rfl, rfl⟩ := Move.token.inj step
    exact .comment isCode
  · split at step
    · rename_i isBlank
      obtain ⟨rfl, rfl⟩ := Move.token.inj step
      exact .spacing isCode isBlank
    split at step
    · rename_i isDigit
      exact rule_of_numberMove isCode isDigit step
    split at step
    · rename_i starts
      obtain ⟨rfl, rfl⟩ := Move.token.inj step
      exact .name isCode starts
    split at step
    · rename_i isUpper
      obtain ⟨rfl, rfl⟩ := Move.token.inj step
      exact .constant isCode isUpper
    split at step
    · cases step
    · rename_i found
      exact rule_of_signMove isCode found step

/-- A step inside of a string reads the piece that was found. -/
theorem piece_of_segmentMove
    {segment? : Option Segment} (step : modes.segmentMove segment? = .token lexeme after) :
    ∃ segment, segment? = some segment ∧
      lexeme = ⟨.fragment (String.ofList segment.value), segment.text, segment.rest⟩ ∧
      after = modes.setSegmentOpen false := by
  cases segment? with
  | none => cases step
  | some segment =>
      obtain ⟨rfl, rfl⟩ := Move.token.inj step
      exact ⟨segment, rfl, rfl, rfl⟩

/-- A step reads a token by one of the rules only. -/
theorem rule_of_move (step : modes.move input = .token lexeme after) :
    modes.TokenRule input lexeme after := by
  unfold move at step
  split at step
  · rename_i isCode
    exact rule_of_codeMove isCode step
  · rename_i isPlain
    unfold plainMove at step
    split at step
    · rename_i isOpen
      obtain ⟨segment, found, rfl, rfl⟩ := piece_of_segmentMove step
      exact .plainPiece isPlain isOpen found
    · split at step <;> cases step
  · rename_i isRich
    unfold richMove at step
    split at step
    · rename_i isOpen
      obtain ⟨segment, found, rfl, rfl⟩ := piece_of_segmentMove step
      exact .richPiece isRich isOpen found
    · rename_i isRead
      split at step
      · cases step
      · obtain ⟨rfl, rfl⟩ := Move.token.inj step
        exact .insertionStarts isRich (by simpa using isRead)
      · cases step
  · rename_i isComment
    unfold commentMove at step
    split at step
    · obtain ⟨rfl, rfl⟩ := Move.token.inj step
      exact .commentEnds isComment
    · cases step

theorem text_of_newline
    (step : modes.move input = .token lexeme after) (isNewline : lexeme.kind = .newline) :
    lexeme.text = ['\n'] := by
  cases rule_of_move step with
  | newline | commentEnds => rfl
  | ending | comment | spacing | constant | insertionEnds | plainPiece | richPiece
  | insertionStarts => cases isNewline
  | number _ _ hasKind =>
      rcases Numeral.kind_cases hasKind with ⟨number, rfl⟩ | ⟨number, rfl⟩ <;> cases isNewline
  | @name first rest =>
      rcases Lexeme.kind_name_cases (first :: rest) with ⟨text, isKind⟩ | ⟨keyword, isKind⟩ <;>
        cases isKind.symm.trans isNewline
  | sign _ found =>
      rcases Sign.kind_cases (Sign.atFront?_mem found) with ⟨operator, isKind⟩ | ⟨mark, isKind⟩ <;>
        cases isKind.symm.trans isNewline

end ModeStack

/-! ## What a number is written with -/

namespace Numeral

variable {character : Char} {input : List Char}

theorem not_mem_readDecimal (noDigit : character.isDigit = false) (noPoint : character ≠ '.') :
    character ∉ (readDecimal input).text := by
  have notDigits (text : List Char) : character ∉ text.takeWhile Char.isDigit := fun member =>
    absurd (List.mem_takeWhile_imp member) (by simp [noDigit])
  unfold readDecimal
  split
  · rename_i behind _
    split
    · exact notDigits input
    · simp [notDigits, noPoint]
  · exact notDigits input

/-- A number is written with the digits of the largest base, the letters of the base marks and the
point. -/
theorem not_mem_read
    (noDigit : isHexDigit character = false) (noMark : character ∉ ['x', 'X', '.']) :
    character ∉ (read input).text := by
  have parts : character.isDigit = false ∧ character ≠ '0' ∧ character ≠ 'b' ∧ character ≠ 'B' := by
    refine ⟨?_, ?_, ?_, ?_⟩
    · cases isDigit : character.isDigit with
      | false => rfl
      | true => simp [isHexDigit, isDigit] at noDigit
    all_goals
      rintro rfl
      revert noDigit
      decide
  obtain ⟨notDecimal, notZero, notB, notUpperB⟩ := parts
  have notBinary : isBinaryDigit character = false := by
    have notOne : character ≠ '1' := by
      rintro rfl
      cases notDecimal
    simp [isBinaryDigit, notZero, notOne]
  have noPoint : character ≠ '.' := fun isPoint => noMark (by simp [isPoint])
  have based {base : Nat} {isDigit : Char → Bool} {letter : Char} {digits : List Char}
      (noDigit : isDigit character = false) (noLetter : character ≠ letter) :
      character ∉ (readBased base isDigit ['0', letter] digits).text := by
    have notDigits : character ∉ digits.takeWhile isDigit := fun member =>
      absurd (List.mem_takeWhile_imp member) (by simp [noDigit])
    simp [readBased, notZero, noLetter, notDigits]
  unfold read
  split
  · rename_i letter digit others
    split
    · rename_i isMark
      refine based noDigit ?_
      rintro rfl
      refine noMark ?_
      simp only [Bool.and_eq_true, Bool.or_eq_true, decide_eq_true_eq] at isMark
      rcases isMark.1 with isX | isX <;> simp [isX]
    · split
      · rename_i isMark
        refine based notBinary ?_
        rintro rfl
        simp only [Bool.and_eq_true, Bool.or_eq_true, decide_eq_true_eq] at isMark
        rcases isMark.1 with isB | isB
        · exact notB isB
        · exact notUpperB isB
      · exact not_mem_readDecimal notDecimal noPoint
  · exact not_mem_readDecimal notDecimal noPoint

end Numeral

/-! ## The rule that the first character decides about -/

/-- Line ends, quotes, comments and blanks start with these characters. -/
def opensLayoutOrString (first : Char) : Bool :=
  first ∈ ['\n', '\'', '"', '#'] || isSpacing first

theorem opensLayoutOrString_of_isWordChar {first : Char} (isLetter : isWordChar first = true) :
    opensLayoutOrString first = false := by
  have noOther (other : Char) (noLetter : isWordChar other = false) : first ≠ other := by
    rintro rfl
    cases noLetter.symm.trans isLetter
  simp [opensLayoutOrString, isSpacing, noOther '\n' rfl, noOther '\'' rfl, noOther '"' rfl,
    noOther '#' rfl, noOther ' ' rfl, noOther '\t' rfl, noOther '\r' rfl]

theorem isDigit_of_isNameStart {first : Char} (starts : isNameStart first = true) :
    first.isDigit = false := by
  rcases Bool.or_eq_true_iff.1 starts with isLower | isUnderscore
  · apply Bool.eq_false_iff.2
    intro isDigit
    have least : 'a'.val ≤ first.val := of_decide_eq_true (Bool.and_eq_true_iff.1 isLower).1
    have most : first.val ≤ '9'.val := of_decide_eq_true (Bool.and_eq_true_iff.1 isDigit).2
    exact absurd (UInt32.le_trans least most) (by decide)
  · rw [of_decide_eq_true isUnderscore]
    rfl

theorem isDigit_of_isUpper {first : Char} (isUpper : first.isUpper = true) :
    first.isDigit = false := by
  apply Bool.eq_false_iff.2
  intro isDigit
  have least : 'A'.val ≤ first.val := (of_decide_eq_true isUpper).1
  have most : first.val ≤ '9'.val := of_decide_eq_true (Bool.and_eq_true_iff.1 isDigit).2
  exact absurd (UInt32.le_trans least most) (by decide)

theorem isNameStart_of_isUpper {first : Char} (isUpper : first.isUpper = true) :
    isNameStart first = false := by
  apply Bool.eq_false_iff.2
  intro starts
  rcases Bool.or_eq_true_iff.1 starts with isLower | isUnderscore
  · have least : 'a'.val ≤ first.val := of_decide_eq_true (Bool.and_eq_true_iff.1 isLower).1
    have most : first.val ≤ 'Z'.val := (of_decide_eq_true isUpper).2
    exact absurd (UInt32.le_trans least most) (by decide)
  · rw [of_decide_eq_true isUnderscore] at isUpper
    cases isUpper

namespace ModeStack

/-- Where a word or a sign stands, the first character tells numbers, names, constants and signs
apart. -/
theorem codeMove_cons
    {first : Char} (opensNone : opensLayoutOrString first = false) (modes : ModeStack)
    (rest : List Char) :
    modes.codeMove (first :: rest) =
      if first.isDigit then modes.numberMove (Numeral.read (first :: rest))
      else if isNameStart first then .token (.name (first :: rest)) modes
      else if first.isUpper then .token (.constant (first :: rest)) modes
      else match Sign.atFront? (first :: rest) with
        | none => .refused (.unexpected first)
        | some sign => modes.signMove sign ((first :: rest).drop sign.text.length) := by
  obtain ⟨noneOf, noSpacing⟩ := Bool.or_eq_false_iff.1 opensNone
  have apart := of_decide_eq_false noneOf
  simp only [List.mem_cons, List.not_mem_nil, or_false, not_or] at apart
  unfold codeMove
  split
  case h_1 isNil => cases isNil
  case h_2 same => exact absurd (List.cons.inj same).1 apart.1
  case h_3 same => exact absurd (List.cons.inj same).1 apart.2.1
  case h_4 same => exact absurd (List.cons.inj same).1 apart.2.2.1
  case h_5 same => exact absurd (List.cons.inj same).1 apart.2.2.2
  case h_6 same =>
    obtain ⟨rfl, rfl⟩ := List.cons.inj same
    exact if_neg (ne_true_of_eq_false noSpacing)

theorem codeMove_of_isDigit
    {first : Char} (isDigit : first.isDigit = true) (modes : ModeStack) (rest : List Char) :
    modes.codeMove (first :: rest) = modes.numberMove (Numeral.read (first :: rest)) := by
  have isLetter : isWordChar first = true := by simp [isWordChar, isDigit]
  rw [codeMove_cons (opensLayoutOrString_of_isWordChar isLetter), if_pos isDigit]

theorem codeMove_of_isNameStart
    {first : Char} (starts : isNameStart first = true) (modes : ModeStack) (rest : List Char) :
    modes.codeMove (first :: rest) = .token (.name (first :: rest)) modes := by
  have opensNone := opensLayoutOrString_of_isWordChar (Lexeme.isWordChar_of_isNameStart starts)
  rw [codeMove_cons opensNone, if_neg (ne_true_of_eq_false (isDigit_of_isNameStart starts)),
    if_pos starts]

theorem codeMove_of_isUpper
    {first : Char} (isUpper : first.isUpper = true) (modes : ModeStack) (rest : List Char) :
    modes.codeMove (first :: rest) = .token (.constant (first :: rest)) modes := by
  have opensNone := opensLayoutOrString_of_isWordChar (Lexeme.isWordChar_of_isUpper isUpper)
  rw [codeMove_cons opensNone, if_neg (ne_true_of_eq_false (isDigit_of_isUpper isUpper)),
    if_neg (ne_true_of_eq_false (isNameStart_of_isUpper isUpper)), if_pos isUpper]

end ModeStack

end ScriptFront
