import ScriptFront.Proofs.Token.Names
import ScriptFront.Proofs.Token.Rules

/-!
# Signs

A sign can be read by testing one character after the other, without ever going back: this finds
the longest of all signs that stand at a place.  Every sign of a text is the longest one at its
place, and the value that a token carries is what is written there.
-/

namespace ScriptFront

/-! ## Testing one character after the other -/

/-- Tests of the characters ahead.  A test that succeeds passes its character, and what comes after
it is tested behind that character. -/
inductive SignTests where
  | settled (kind? : Option Kind)
  | test (mark : Char) (found otherwise : SignTests)

/-- The sign with one more character in front. -/
def Sign.behind (mark : Char) (sign : Sign) : Sign := { sign with text := mark :: sign.text }

namespace SignTests

def operator (sign : Operator) : SignTests := .settled (some (.operator sign))

def mark (sign : Mark) : SignTests := .settled (some (.mark sign))

/-- An operator, or the one that assigns by it. -/
def orAssign (plain assigning : Operator) : SignTests :=
  .test '=' (operator assigning) (operator plain)

/-- The sign that the tests find, with the characters they pass. -/
def read : SignTests → List Char → Option Sign
  | .settled kind?, _ => kind?.map (⟨·, []⟩)
  | .test mark found otherwise, input =>
    if input.head? = some mark then (found.read input.tail).map (.behind mark)
    else otherwise.read input

/-- The signs that the tests can find. -/
def signs : SignTests → List Sign
  | .settled kind? => (kind?.map (⟨·, []⟩)).toList
  | .test mark found otherwise => found.signs.map (.behind mark) ++ otherwise.signs

/-- No character is tested twice at one place, and where a sign may end, every longer beginning that
is passed is a sign, too. -/
def IsProper : SignTests → Prop
  | .settled _ => True
  | .test mark found otherwise =>
    found.IsProper ∧ otherwise.IsProper ∧
      (∀ sign ∈ otherwise.signs, sign.text.head? ≠ some mark) ∧
      ((∃ sign ∈ otherwise.signs, sign.text = []) → ∃ sign ∈ found.signs, sign.text = [])

instance decidableIsProper : DecidablePred IsProper
  | .settled _ => .isTrue trivial
  | .test _ found otherwise =>
    have := decidableIsProper found
    have := decidableIsProper otherwise
    inferInstanceAs (Decidable (_ ∧ _ ∧ _ ∧ _))

end SignTests

/-- The sign is the longest one of several at the front of a text. -/
structure Sign.IsLongest (signs : List Sign) (input : List Char) (sign : Sign) : Prop where
  member : sign ∈ signs
  isPrefix : sign.text <+: input
  longest : ∀ other ∈ signs, other.text <+: input → other.text.length ≤ sign.text.length

namespace SignTests

variable {tests : SignTests} {input : List Char} {sign : Sign}

/-- Where one of the signs stands, proper tests find a sign. -/
theorem exists_read
    (proper : tests.IsProper) (member : sign ∈ tests.signs) (isPrefix : sign.text <+: input) :
    ∃ best, tests.read input = some best := by
  induction tests generalizing input sign with
  | settled kind? =>
      cases kind? with
      | none => cases member
      | some kind => exact ⟨_, rfl⟩
  | test mark found otherwise foundHypothesis otherwiseHypothesis =>
      rcases proper with ⟨properFound, properOtherwise, notAgain, goesOn⟩
      rw [read]
      by_cases isHead : input.head? = some mark
      · rcases List.head?_eq_some_iff.1 isHead with ⟨rest, rfl⟩
        have further : ∃ inner ∈ found.signs, inner.text <+: rest := by
          rcases List.mem_append.1 member with inFound | inOtherwise
          · rcases List.mem_map.1 inFound with ⟨inner, isInner, rfl⟩
            exact ⟨inner, isInner, (List.cons_prefix_cons.1 isPrefix).2⟩
          · have isEmpty : sign.text = [] := by
              cases isText : sign.text with
              | nil => rfl
              | cons head others =>
                  rw [isText] at isPrefix
                  obtain rfl := (List.cons_prefix_cons.1 isPrefix).1
                  exact absurd (by rw [isText]; rfl) (notAgain sign inOtherwise)
            rcases goesOn ⟨sign, inOtherwise, isEmpty⟩ with ⟨inner, isInner, isNil⟩
            exact ⟨inner, isInner, isNil ▸ List.nil_prefix⟩
        rcases further with ⟨inner, isInner, innerPrefix⟩
        rcases foundHypothesis properFound isInner innerPrefix with ⟨best, isBest⟩
        rw [if_pos isHead, List.tail_cons, isBest]
        exact ⟨_, rfl⟩
      · rw [if_neg isHead]
        rcases List.mem_append.1 member with inFound | inOtherwise
        · rcases List.mem_map.1 inFound with ⟨inner, -, rfl⟩
          rcases isPrefix with ⟨more, rfl⟩
          exact absurd rfl isHead
        · exact otherwiseHypothesis properOtherwise inOtherwise isPrefix

/-- Proper tests find the longest of their signs. -/
theorem isLongest_of_read
    (proper : tests.IsProper) (isRead : tests.read input = some sign) :
    sign.IsLongest tests.signs input := by
  induction tests generalizing input sign with
  | settled kind? =>
      cases kind? with
      | none => cases isRead
      | some kind =>
          obtain rfl := Option.some.inj isRead
          refine ⟨List.mem_singleton.2 rfl, List.nil_prefix, ?_⟩
          intro other isOther _
          obtain rfl := List.mem_singleton.1 isOther
          exact Nat.le_refl _
  | test mark found otherwise foundHypothesis otherwiseHypothesis =>
      rcases proper with ⟨properFound, properOtherwise, notAgain, -⟩
      rw [read] at isRead
      by_cases isHead : input.head? = some mark
      · rcases List.head?_eq_some_iff.1 isHead with ⟨rest, rfl⟩
        rw [if_pos isHead, List.tail_cons] at isRead
        rcases Option.map_eq_some_iff.1 isRead with ⟨inner, isInner, rfl⟩
        have longestInner := foundHypothesis properFound isInner
        refine ⟨?_, ?_, ?_⟩
        · exact List.mem_append_left _ (List.mem_map_of_mem longestInner.member)
        · exact List.cons_prefix_cons.2 ⟨rfl, longestInner.isPrefix⟩
        · intro other isOther otherPrefix
          rcases List.mem_append.1 isOther with inFound | inOtherwise
          · rcases List.mem_map.1 inFound with ⟨shorter, isShorter, rfl⟩
            have bound := longestInner.longest shorter isShorter
              (List.cons_prefix_cons.1 otherPrefix).2
            exact Nat.succ_le_succ bound
          · cases isText : other.text with
            | nil => exact Nat.zero_le _
            | cons head others =>
                rw [isText] at otherPrefix
                obtain rfl := (List.cons_prefix_cons.1 otherPrefix).1
                exact absurd (by rw [isText]; rfl) (notAgain other inOtherwise)
      · rw [if_neg isHead] at isRead
        have longestOtherwise := otherwiseHypothesis properOtherwise isRead
        refine ⟨List.mem_append_right _ longestOtherwise.member, longestOtherwise.isPrefix, ?_⟩
        intro other isOther otherPrefix
        rcases List.mem_append.1 isOther with inFound | inOtherwise
        · rcases List.mem_map.1 inFound with ⟨inner, -, rfl⟩
          rcases otherPrefix with ⟨more, rfl⟩
          exact absurd rfl isHead
        · exact longestOtherwise.longest other inOtherwise otherPrefix

end SignTests

/-- The tests for the signs of the language. -/
def signTests : SignTests :=
  .test '{' (.mark .leftBrace) <|
  .test '}' (.mark .rightBrace) <|
  .test '(' (.mark .leftParen) <|
  .test ')' (.mark .rightParen) <|
  .test '[' (.mark .leftBracket) <|
  .test ']' (.mark .rightBracket) <|
  .test ',' (.mark .comma) <|
  .test '@' (.mark .atSign) <|
  .test '^' (.operator .caret) <|
  .test '~' (.operator .tilde) <|
  .test '.' (.test '.' (.test '.' (.operator .tripleDot) (.operator .doubleDot)) (.mark .dot)) <|
  .test ':' (.test ':' (.mark .doubleColon) (.mark .colon)) <|
  .test '?' (.test '?' (.mark .doubleQuestion) (.settled none)) <|
  .test '+' (.orAssign .plus .plusAssign) <|
  .test '-' (.test '>' (.mark .arrow) (.orAssign .minus .minusAssign)) <|
  .test '*' (.test '*' (.orAssign .doubleStar .doubleStarAssign) (.orAssign .star .starAssign)) <|
  .test '/' (.orAssign .slash .slashAssign) <|
  .test '%' (.orAssign .percent .percentAssign) <|
  .test '='
    (.test '=' (.test '=' (.operator .tripleEqual) (.operator .equal)) (.operator .assign)) <|
  .test '!' (.test '=' (.operator .notEqual) (.operator .bang)) <|
  .test '<'
    (.test '=' (.test '>' (.operator .spaceship) (.operator .lessEqual))
      (.test '<' (.operator .shiftLeft) (.operator .less))) <|
  .test '>'
    (.test '=' (.operator .greaterEqual)
      (.test '>' (.operator .shiftRight) (.operator .greater))) <|
  .test '&'
    (.test '&' (.operator .doubleAmpersand)
      (.test '>' (.mark .blockArrow) (.operator .ampersand))) <|
  .test '|' (.test '|' (.operator .doublePipe) (.operator .pipe)) <|
  .settled none

namespace Sign

variable {input : List Char} {sign : Sign}

theorem isProper_signTests : signTests.IsProper := by
  decide +kernel

/-- The tests know the signs of the table, and no others. -/
theorem mem_signTests_iff (sign : Sign) : sign ∈ signTests.signs ↔ sign ∈ all := by
  have tested : ∀ one ∈ signTests.signs, one ∈ all := by decide +kernel
  have listed : ∀ one ∈ all, one ∈ signTests.signs := by decide +kernel
  exact ⟨tested sign, listed sign⟩

/-- No two signs are written alike. -/
theorem eq_of_text {first second : Sign} (isFirst : first ∈ all) (isSecond : second ∈ all)
    (same : first.text = second.text) : first = second := by
  have pairs : ∀ one ∈ all, ∀ other ∈ all, one.text = other.text → one = other := by
    decide +kernel
  exact pairs first isFirst second isSecond same

theorem isLongest_of_atFront? (found : atFront? input = some sign) : sign.IsLongest all input := by
  refine ⟨atFront?_mem found, atFront?_isPrefix found, ?_⟩
  intro other isOther otherPrefix
  apply length_le_longest? found
  exact List.mem_filter.2 ⟨isOther, List.isPrefixOf_iff_prefix.2 otherPrefix⟩

theorem atFront?_of_isPrefix (member : sign ∈ all) (isPrefix : sign.text <+: input) :
    ∃ best, atFront? input = some best := by
  cases found : atFront? input with
  | some best => exact ⟨best, rfl⟩
  | none =>
      have isNone := longest?_eq_none_iff.1 found
      have inFilter : sign ∈ all.filter (·.text.isPrefixOf input) :=
        List.mem_filter.2 ⟨member, List.isPrefixOf_iff_prefix.2 isPrefix⟩
      rw [isNone] at inFilter
      cases inFilter

/-- At one place only one sign is the longest. -/
theorem IsLongest.eq {first second : Sign} (isFirst : first.IsLongest all input)
    (isSecond : second.IsLongest all input) : first = second := by
  have sameLength : first.text.length = second.text.length :=
    Nat.le_antisymm (isSecond.longest first isFirst.member isFirst.isPrefix)
      (isFirst.longest second isSecond.member isSecond.isPrefix)
  have sameText : first.text = second.text :=
    (List.prefix_of_prefix_length_le isFirst.isPrefix isSecond.isPrefix
      (Nat.le_of_eq sameLength)).eq_of_length sameLength
  exact eq_of_text isFirst.member isSecond.member sameText

/-- Testing one character after the other finds the longest sign of the table. -/
theorem read_signTests (input : List Char) : signTests.read input = atFront? input := by
  cases isRead : signTests.read input with
  | some sign =>
      have longest := SignTests.isLongest_of_read isProper_signTests isRead
      have inTable : sign ∈ all := (mem_signTests_iff sign).1 longest.member
      rcases atFront?_of_isPrefix inTable longest.isPrefix with ⟨best, found⟩
      have same : sign = best := by
        refine IsLongest.eq ⟨inTable, longest.isPrefix, ?_⟩ (isLongest_of_atFront? found)
        intro other isOther
        exact longest.longest other ((mem_signTests_iff other).2 isOther)
      rw [found, same]
  | none =>
      cases found : atFront? input with
      | none => rfl
      | some best =>
          have tested := (mem_signTests_iff best).2 (atFront?_mem found)
          rcases SignTests.exists_read isProper_signTests tested (atFront?_isPrefix found) with
            ⟨sign, isSign⟩
          cases isRead.symm.trans isSign

end Sign

/-! ## The signs of a text -/

/-- How operators and marks are written. -/
def signSpellings : List String :=
  Operator.all.map Operator.sign ++
    [".", "::", "??", "[", "]", "(", ")", "\x7b", "\x7d", ",", "@", "->", "&>", ":"]

/-- Operators and marks. -/
def Kind.isSign : Kind → Bool
  | .operator _ | .mark _ => true
  | _ => false

/-- How a token is written, where its value tells it. -/
def Kind.spelling? : Kind → Option String
  | .operator sign => some sign.sign
  | .mark sign => some sign.sign
  | .keyword word => some word.word
  | .identifier name => some name
  | .constant name => some name
  | _ => none

theorem signSpellings_eq : signSpellings = Sign.all.map fun sign => String.ofList sign.text := by
  decide +kernel

theorem Sign.spelling?_kind {sign : Sign} (member : sign ∈ all) :
    sign.kind.spelling? = some (String.ofList sign.text) := by
  have every : ∀ one ∈ all, one.kind.spelling? = some (String.ofList one.text) := by
    decide +kernel
  exact every sign member

theorem Lexeme.spelling?_name (input : List Char) :
    (name input).kind.spelling? = some (String.ofList (name input).text) := by
  have named := symbolName?_name input
  rcases kind_name_cases input with ⟨text, isKind⟩ | ⟨keyword, isKind⟩
  · rw [isKind] at named ⊢
    exact named
  · rw [isKind] at named ⊢
    exact named

namespace ModeStack

variable {modes after : ModeStack} {input : List Char} {lexeme : Lexeme}

/-- An operator or a mark is read as the longest sign at its place. -/
theorem sign_of_move
    (step : modes.move input = .token lexeme after) (isSign : lexeme.kind.isSign = true) :
    Sign.atFront? input = some ⟨lexeme.kind, lexeme.text⟩ := by
  cases rule_of_move step with
  | sign _ found => exact found
  | number _ _ hasKind =>
      rcases Numeral.kind_cases hasKind with ⟨value, rfl⟩ | ⟨value, rfl⟩ <;> cases isSign
  | @name first rest =>
      rcases Lexeme.kind_name_cases (first :: rest) with ⟨text, isKind⟩ | ⟨keyword, isKind⟩
      · rw [isKind] at isSign
        cases isSign
      · rw [isKind] at isSign
        cases isSign
  | ending | newline | comment | spacing | constant | insertionEnds | plainPiece | richPiece
  | insertionStarts | commentEnds => cases isSign

/-- The value that a token carries is what is written. -/
theorem spelling?_of_move
    (step : modes.move input = .token lexeme after) {spelling : String}
    (isSpelling : lexeme.kind.spelling? = some spelling) :
    String.ofList lexeme.text = spelling := by
  cases rule_of_move step with
  | sign _ found =>
      have spelled := Sign.spelling?_kind (Sign.atFront?_mem found)
      exact Option.some.inj (spelled.symm.trans isSpelling)
  | number _ _ hasKind =>
      rcases Numeral.kind_cases hasKind with ⟨value, rfl⟩ | ⟨value, rfl⟩ <;> cases isSpelling
  | @name first rest =>
      have spelled := Lexeme.spelling?_name (first :: rest)
      exact Option.some.inj (spelled.symm.trans isSpelling)
  | constant => exact Option.some.inj isSpelling
  | ending | newline | comment | spacing | insertionEnds | plainPiece | richPiece
  | insertionStarts | commentEnds => cases isSpelling

end ModeStack

/-- The token is a sign, and this is where it stands in a text: no sign at its place is longer, and
testing one character after the other finds it there. -/
structure Token.IsSignIn
    (text : List Char) (file : Option String) (token : Token) (before behind : List Char) : Prop where
  whole : text = before ++ (token.lexeme.toList ++ behind)
  location : token.location = (Position.start.after before).inFile file
  entry : token.lexeme ∈ signSpellings
  longest : ∀ spelling ∈ signSpellings, spelling.toList <+: token.lexeme.toList ++ behind →
    spelling.length ≤ token.lexeme.length
  tested : signTests.read (token.lexeme.toList ++ behind) =
    some ⟨token.kind, token.lexeme.toList⟩

/-- The step that reads a sign reads the longest one. -/
theorem Scanner.isSignIn_token
    {scanner : Scanner} {text before : List Char} {lexeme : Lexeme} {modes : ModeStack}
    (file : Option String) (whole : text = before ++ scanner.rest)
    (position : scanner.position = Position.start.after before)
    (step : scanner.modes.move scanner.rest = .token lexeme modes)
    (isSign : lexeme.kind.isSign = true) :
    (scanner.token file lexeme).IsSignIn text file before lexeme.rest := by
  have covered := ModeStack.move_covers scanner.modes scanner.rest
  rw [step] at covered
  have isRest : lexeme.text ++ lexeme.rest = scanner.rest := covered
  have found := ModeStack.sign_of_move step isSign
  have isLongest := Sign.isLongest_of_atFront? found
  have isLexeme : (scanner.token file lexeme).lexeme = String.ofList lexeme.text := rfl
  constructor
  case whole => rw [isLexeme, String.toList_ofList, isRest, whole]
  case location =>
    rw [← position]
    rfl
  case entry =>
    rw [signSpellings_eq]
    exact List.mem_map.2 ⟨_, isLongest.member, rfl⟩
  case longest =>
    intro spelling isEntry isPrefix
    rw [signSpellings_eq] at isEntry
    rcases List.mem_map.1 isEntry with ⟨other, isOther, rfl⟩
    rw [isLexeme, String.toList_ofList, String.toList_ofList, isRest] at isPrefix
    rw [isLexeme, String.length_ofList, String.length_ofList]
    exact isLongest.longest other isOther isPrefix
  case tested =>
    rw [isLexeme, String.toList_ofList, isRest, Sign.read_signTests]
    exact found

/-- Whatever a text is, each of its operators and marks is the longest sign at its place, and the
value of an operator, a mark, a name or a reserved word is what is written. -/
theorem signs_in_text
    {source : String} {file : Option String} {token : Token}
    (isItem : .ok token ∈ rawItems source file) :
    (token.kind.isSign = true →
      ∃ before behind, token.IsSignIn source.toList file before behind) ∧
    ∀ spelling, token.kind.spelling? = some spelling → token.lexeme = spelling := by
  have sound := Scanner.sound_start source.toList
  rcases sound.reaches_of_item isItem with ⟨front, place, lexeme, modes, reaches, step, rfl⟩
  rcases reaches.covered with ⟨before, whole, position⟩
  constructor
  · intro isSign
    exact ⟨before, lexeme.rest, Scanner.isSignIn_token file whole position step isSign⟩
  · intro spelling isSpelling
    exact ModeStack.spelling?_of_move step isSpelling

/-- In `1<=>==`, the first sign takes three of the five characters, and not two or one. -/
theorem signs_in_text_spaceship :
    .ok ⟨.operator .spaceship, "<=>", ⟨1, 2, none⟩, false⟩ ∈ rawItems "1<=>==" none ∧
      (∃ before behind, Token.IsSignIn "1<=>==".toList none
        ⟨.operator .spaceship, "<=>", ⟨1, 2, none⟩, false⟩ before behind) ∧
      "<=>" = Operator.spaceship.sign := by
  have isItem :
      .ok ⟨.operator .spaceship, "<=>", ⟨1, 2, none⟩, false⟩ ∈ rawItems "1<=>==" none := by
    have items : rawItems "1<=>==" none =
        [.ok ⟨.integer 1, "1", ⟨1, 1, none⟩, false⟩,
          .ok ⟨.operator .spaceship, "<=>", ⟨1, 2, none⟩, false⟩,
          .ok ⟨.operator .equal, "==", ⟨1, 5, none⟩, false⟩,
          .ok ⟨.endOfInput, "", ⟨1, 7, none⟩, false⟩] := by
      with_unfolding_all rfl
    rw [items]
    exact List.mem_cons_of_mem _ List.mem_cons_self
  have signs := signs_in_text isItem
  exact ⟨isItem, signs.1 rfl, signs.2 _ rfl⟩

end ScriptFront
