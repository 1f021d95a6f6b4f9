import ScriptFront.Proofs.Token.Members
import ScriptFront.Proofs.Token.Signs

/-!
# A name with a default behind it

The equals sign between the name of a parameter and its default is a token of its own, or it belongs
to the name.  Which one it is depends on the blanks around it and on the character behind it.
-/

namespace ScriptFront

/-- A name of letters, digits and underscores that is no reserved word and has no mark. -/
structure IsBareName (name : String) : Prop where
  starts : ∃ first ∈ name.toList.head?, first.isLower = true ∨ first = '_'
  letters : ∀ character ∈ name.toList, character.isAlphanum = true ∨ character = '_'
  unreserved : name ≠ "class" ∧ name ≠ "module"

namespace IsBareName

variable {name : String} {rest : List Char}

theorem exists_cons (isName : IsBareName name) :
    ∃ first letters, name.toList = first :: letters ∧ isNameStart first = true := by
  rcases isName.starts with ⟨first, isFirst, starts⟩
  rcases List.head?_eq_some_iff.1 isFirst with ⟨letters, isLetters⟩
  exact ⟨first, letters, isLetters, isNameStart_iff.2 starts⟩

theorem wordChars (isName : IsBareName name) :
    ∀ character ∈ name.toList, isWordChar character = true :=
  fun character member => isWordChar_iff.2 (isName.letters character member)

theorem ofWord?_eq_none (isName : IsBareName name) : Keyword.ofWord? name = none := by
  cases found : Keyword.ofWord? name with
  | none => rfl
  | some keyword =>
      have isWord := Keyword.eq_word_of_ofWord? found
      cases keyword with
      | classWord => exact absurd isWord isName.unreserved.1
      | moduleWord => exact absurd isWord isName.unreserved.2

theorem takeWhile_append (isName : IsBareName name)
    (ends : ∀ next ∈ rest.head?, isWordChar next = false) :
    (name.toList ++ rest).takeWhile isWordChar = name.toList ∧
      (name.toList ++ rest).dropWhile isWordChar = rest := by
  have noWord : rest.takeWhile isWordChar = [] ∧ rest.dropWhile isWordChar = rest := by
    cases rest with
    | nil => exact ⟨rfl, rfl⟩
    | cons next others =>
        have noLetter : ¬isWordChar next = true := by simp [ends next rfl]
        exact ⟨List.takeWhile_cons_of_neg noLetter, List.dropWhile_cons_of_neg noLetter⟩
  rw [List.takeWhile_append_of_pos isName.wordChars,
    List.dropWhile_append_of_pos isName.wordChars, noWord.1, noWord.2, List.append_nil]
  exact ⟨rfl, rfl⟩

/-- The name is read with the mark that may belong to it. -/
theorem name_append (isName : IsBareName name)
    (ends : ∀ next ∈ rest.head?, isWordChar next = false) :
    Lexeme.name (name.toList ++ rest) =
      ⟨.identifier (String.ofList (name.toList ++ nameMark rest)), name.toList ++ nameMark rest,
        rest.drop (nameMark rest).length⟩ := by
  rcases isName.takeWhile_append ends with ⟨isWord, isBehind⟩
  simp only [Lexeme.name, isWord, isBehind, String.ofList_toList, isName.ofWord?_eq_none]
  cases nameMark rest <;> rfl

theorem not_startsBlank (isName : IsBareName name) : ¬StartsBlank (name.toList ++ rest) := by
  rcases isName.exists_cons with ⟨first, letters, isLetters, starts⟩
  have opensNone := opensLayoutOrString_of_isWordChar (Lexeme.isWordChar_of_isNameStart starts)
  rw [isLetters]
  exact not_startsBlank_cons (Bool.or_eq_false_iff.1 opensNone).2

theorem move (isName : IsBareName name) (ends : ∀ next ∈ rest.head?, isWordChar next = false)
    {modes : ModeStack} (isCode : modes.mode = .code) :
    modes.move (name.toList ++ rest) =
      .token ⟨.identifier (String.ofList (name.toList ++ nameMark rest)),
        name.toList ++ nameMark rest, rest.drop (nameMark rest).length⟩ modes := by
  rw [← isName.name_append ends]
  rcases isName.exists_cons with ⟨first, letters, isLetters, starts⟩
  simp only [ModeStack.move, isCode, isLetters]
  exact ModeStack.codeMove_of_isNameStart starts modes _

end IsBareName

namespace Sign

variable {rest : List Char}

/-- A single equals sign assigns. -/
theorem atFront?_assign (single : rest.head? ≠ some '=') :
    atFront? ('=' :: rest) = some ⟨.operator .assign, ['=']⟩ := by
  rw [← read_signTests]
  simp [signTests, SignTests.read, SignTests.operator, single, behind]

/-- No sign that starts with an equals sign can stand in front of an expression. -/
theorem not_isUnary_of_equals {sign : Sign} (found : atFront? ('=' :: rest) = some sign) :
    ∃ operator, sign.kind = .operator operator ∧ operator.isUnary = false := by
  have listed : ∀ one ∈ all, one.text.head? = some '=' →
      one.kind ∈ [.operator .assign, .operator .equal, .operator .tripleEqual] := by
    decide +kernel
  have isHead : sign.text.head? = some '=' := by
    have isPrefix := atFront?_isPrefix found
    cases isText : sign.text with
    | nil => exact absurd isText (text_ne_nil (atFront?_mem found))
    | cons first others =>
        rw [isText] at isPrefix
        exact congrArg some (List.cons_prefix_cons.1 isPrefix).1
  have isListed := listed sign (atFront?_mem found) isHead
  simp only [List.mem_cons, List.not_mem_nil, or_false] at isListed
  rcases isListed with isKind | isKind | isKind
  · exact ⟨_, isKind, rfl⟩
  · exact ⟨_, isKind, rfl⟩
  · exact ⟨_, isKind, rfl⟩

end Sign

/-- A text that starts with an equals sign starts with an operator that needs something in front of
it. -/
theorem Scanner.Reaches.operator_of_equals
    {file : Option String} {scanner last : Scanner} {read : List Token} {rest : List Char}
    (reaches : Reaches file scanner read last) (faces : scanner.Faces ('=' :: rest))
    (atEnd : last.AtEnd) :
    ∃ token others operator, read = token :: others ∧ token.kind = .operator operator ∧
      operator.isUnary = false := by
  have isStep : scanner.modes.move scanner.rest = scanner.modes.codeMove ('=' :: rest) := by
    simp only [ModeStack.move, faces.isCode, faces.rest]
  rw [ModeStack.codeMove_cons rfl, if_neg (by decide), if_neg (by decide),
    if_neg (by decide)] at isStep
  cases found : Sign.atFront? ('=' :: rest) with
  | none =>
      rw [found] at isStep
      cases reaches with
      | here => cases faces.rest.symm.trans atEnd.1
      | token step | quote step => cases isStep.symm.trans step
  | some sign =>
      rcases Sign.not_isUnary_of_equals found with ⟨operator, isOperator, notUnary⟩
      simp only [found, ModeStack.signMove, isOperator] at isStep
      cases reaches with
      | here => cases faces.rest.symm.trans atEnd.1
      | quote step => cases isStep.symm.trans step
      | token step =>
          obtain ⟨rfl, -⟩ := Move.token.inj (isStep.symm.trans step)
          exact ⟨_, _, operator, rfl, rfl, notUnary⟩

namespace Token

open Scanner

variable {file : Option String} {name : String} {value : List Token}
  {margin left behind : List Char}

/-- The name, an equals sign, and the tokens of a value. -/
def AssignApart (name : String) (value tokens : List Token) : Prop :=
  ∃ word sign others, tokens = word :: sign :: others ∧ word.kind = .identifier name ∧
    sign.kind = .operator .assign ∧ AreAsSetOff value others

/-- The name with an equals sign that belongs to it, and the tokens of a value. -/
def AssignJoined (name : String) (value tokens : List Token) : Prop :=
  ∃ word others, tokens = word :: others ∧ word.kind = .identifier (name ++ "=") ∧
    AreAsSetOff value others

/-- A name, behind blanks, up to what follows it. -/
theorem readsUpTo_of_name
    {place : Scanner} {rest text : List Char} {form : List Token → Prop} (isName : IsBareName name)
    (areBlank : AllBlank margin) (faces : place.Faces (margin ++ (name.toList ++ rest)))
    (ends : ∀ next ∈ rest.head?, isWordChar next = false)
    (further : ∀ (behind : Scanner) (word : Token),
      word.kind = .identifier (String.ofList (name.toList ++ nameMark rest)) →
      behind.Faces (rest.drop (nameMark rest).length) →
        behind.ReadsUpTo file (fun others => form (word :: others)) text) :
    place.ReadsUpTo file form text := by
  have step (modes : ModeStack) (isCode : modes.mode = .code) := isName.move ends isCode
  exact readsUpTo_of_token faces areBlank isName.not_startsBlank step rfl rfl further

theorem move_assign
    {modes : ModeStack} {rest : List Char} (isCode : modes.mode = .code)
    (single : rest.head? ≠ some '=') :
    modes.move ('=' :: rest) = .token ⟨.operator .assign, ['='], rest⟩ modes := by
  simp only [ModeStack.move, isCode]
  rw [ModeStack.codeMove_cons rfl, Sign.atFront?_assign single]
  rfl

/-- Unless the sign belongs to the name, it is a token of its own. -/
theorem areMember_apart
    (isName : IsBareName name) (areBlankMargin : AllBlank margin) (areBlank : AllBlank left)
    (isValue : AreMember file behind (AreAsSetOff value))
    (single : ∃ first ∈ behind.head?, first ≠ '=')
    (noMark : ∀ more, nameMark (left ++ '=' :: (behind ++ more)) = []) :
    AreMember file (margin ++ (name.toList ++ (left ++ '=' :: behind)))
      (AssignApart name value) := by
  intro place mark more ends faces
  have noWord : ∀ next ∈ (left ++ '=' :: (behind ++ mark :: more)).head?,
      isWordChar next = false := by
    intro next isNext
    cases left with
    | nil =>
        obtain rfl := Option.some.inj isNext
        rfl
    | cons first others =>
        obtain rfl := Option.some.inj isNext
        have separates : isSeparator first = true := by
          rw [isSeparator, areBlank.spacing first List.mem_cons_self]
          rfl
        exact isWordChar_of_isStop (isStop_of_isSeparator separates)
  refine readsUpTo_of_name isName areBlankMargin (by simpa using faces) noWord ?_
  intro front word isWord facesFront
  rw [noMark, List.append_nil, String.ofList_toList] at isWord
  rw [noMark] at facesFront
  have facesSign : front.Faces (left ++ '=' :: (behind ++ mark :: more)) := facesFront
  have singleHere : (behind ++ mark :: more).head? ≠ some '=' := by
    rcases single with ⟨first, isFirst, differs⟩
    rw [List.head?_append, isFirst]
    exact fun same => differs (Option.some.inj same)
  refine readsUpTo_of_token facesSign areBlank (not_startsBlank_cons rfl)
    (fun modes isCode => move_assign isCode singleHere) rfl rfl ?_
  intro place sign isSign facesValue
  refine (isValue place mark more ends facesValue).mono ?_
  intro others areOthers
  exact ⟨word, sign, others, rfl, isWord, isSign, areOthers⟩

/-- In front of a blank or a parenthesis the sign belongs to a name directly before it. -/
theorem areMember_joined
    (isName : IsBareName name) (areBlankMargin : AllBlank margin)
    (isValue : AreMember file behind (AreAsSetOff value))
    (closes : ∃ first ∈ behind.head?, endsSetterName first = true) :
    AreMember file (margin ++ (name.toList ++ '=' :: behind)) (AssignJoined name value) := by
  intro place mark more ends faces
  have isMark : nameMark ('=' :: (behind ++ mark :: more)) = ['='] := by
    rcases closes with ⟨first, isFirst, closes⟩
    rcases List.head?_eq_some_iff.1 isFirst with ⟨others, rfl⟩
    exact if_pos closes
  have noWord : ∀ next ∈ ('=' :: (behind ++ mark :: more)).head?, isWordChar next = false := by
    intro next isNext
    obtain rfl := Option.some.inj isNext
    rfl
  refine readsUpTo_of_name isName areBlankMargin (by simpa using faces) noWord ?_
  intro front word isWord facesFront
  rw [isMark] at isWord facesFront
  refine (isValue _ mark more ends facesFront).mono ?_
  intro others areOthers
  refine ⟨word, others, rfl, ?_, areOthers⟩
  rw [isWord, String.ofList_append, String.ofList_toList]

/-- A sign behind blanks is a token of its own. -/
theorem areMember_behind_blank
    (isName : IsBareName name) (areBlankMargin : AllBlank margin) (areBlank : AllBlank left)
    (filled : left ≠ []) (isValue : AreMember file behind (AreAsSetOff value))
    (single : ∃ first ∈ behind.head?, first ≠ '=') :
    AreMember file (margin ++ (name.toList ++ (left ++ '=' :: behind)))
      (AssignApart name value) := by
  refine areMember_apart isName areBlankMargin areBlank isValue single ?_
  intro more
  rcases List.exists_cons_of_ne_nil filled with ⟨first, others, rfl⟩
  rcases areBlank first List.mem_cons_self with rfl | rfl | rfl <;> rfl

/-- However blanks stand around the sign, it is there with the name in front of it. -/
theorem areMember_default
    (isName : IsBareName name) (areBlankMargin : AllBlank margin) (areBlank : AllBlank left)
    (isValue : AreMember file behind (AreAsSetOff value))
    (single : ∃ first ∈ behind.head?, first ≠ '=') :
    AreMember file (margin ++ (name.toList ++ (left ++ '=' :: behind)))
      fun tokens => AssignApart name value tokens ∨ AssignJoined name value tokens := by
  by_cases filled : left = []
  · subst filled
    rcases single with ⟨first, isFirst, differs⟩
    by_cases closes : endsSetterName first = true
    · have joined := areMember_joined isName areBlankMargin isValue ⟨first, isFirst, closes⟩
      exact joined.mono fun _ => Or.inr
    · have noMark (more : List Char) : nameMark ([] ++ '=' :: (behind ++ more)) = [] := by
        rcases List.head?_eq_some_iff.1 isFirst with ⟨others, rfl⟩
        exact if_neg closes
      have apart := areMember_apart isName areBlankMargin areBlank isValue
        ⟨first, isFirst, differs⟩ noMark
      exact apart.mono fun _ => Or.inl
  · have apart := areMember_behind_blank isName areBlankMargin areBlank filled isValue single
    exact apart.mono fun _ => Or.inl

end Token

end ScriptFront
