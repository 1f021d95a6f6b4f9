import ScriptFront.Proofs.Grammar.EnclosedPrograms
import ScriptFront.Proofs.Grammar.ParameterLists
import ScriptFront.Proofs.Grammar.WellBracketed

/-!
# The texts of a list of parameters

A text that is read alone in the list of a method gives the same tokens in every list.  It is the
same parameter at the end of each, and at every other place if it ends in front of a comma.
-/

namespace ScriptFront

/-- What stands in front of the parameters of a method, of a block, or of the block of a call. -/
inductive OpensList (file : Option String) : String → (List (Parameter Node) → Header) → Prop where
  | method {name : String} (isName : IsBareName name) :
      OpensList file (name ++ " -> (") (.method name)
  | block : OpensList file "&> (" .block
  | call {text name : String} {arguments : List Node} (inLine : '\n' ∉ text.toList)
      (isCall : parse text file = .ok [.call name arguments none]) :
      OpensList file (text ++ " &> (") (.call name arguments)

/-- The texts are parameters between commas: each of them is one in a list of its own, and each but
the last ends in front of a comma, so that the name behind that is another one. -/
inductive AreMembers (file : Option String) : List String → List (Parameter Node) → Prop where
  | last {text : String} {parameter : Parameter Node}
      (alone : parse ("m -> (" ++ text ++ ")") file = .ok [.method "m" ⟨[parameter], []⟩]) :
      AreMembers file [text] [parameter]
  | more {text : String} {texts : List String} {parameter : Parameter Node}
      {list : List (Parameter Node)}
      (alone : parse ("m -> (" ++ text ++ ")") file = .ok [.method "m" ⟨[parameter], []⟩])
      (inFront : parse ("m -> (" ++ text ++ ",z)") file =
        .ok [.method "m" ⟨[parameter, .plain "z"], []⟩])
      (areOthers : AreMembers file texts list) :
      AreMembers file (text :: texts) (parameter :: list)

namespace Scanner

open Phrase

variable {file : Option String} {place : Scanner} {source : String} {form : List Token → Prop}
  {nodes : List Node}

/-! ## Programs by the form of their tokens -/

theorem ReadsUpTo.parse
    (readsUpTo : (start source.toList).ReadsUpTo file form [])
    (reads : ∀ tokens ending, form tokens →
      ∃ next, Reads (.statements false) ⟨tokens, ending, false⟩ nodes next) :
    ScriptFront.parse source file = .ok nodes := by
  rcases readsUpTo with ⟨read, last, reaches, faces, isForm⟩
  rcases reads _ ⟨default, last.spaced⟩ isForm with ⟨next, isProgram⟩
  exact reaches.parse faces.atEnd isProgram

theorem ReadsUpTo.reads_of_parse
    (readsUpTo : (start source.toList).ReadsUpTo file form [])
    (parsed : ScriptFront.parse source file = .ok nodes) :
    ∃ tokens ending next, form tokens ∧ (∀ token ∈ tokens, token.kind.isWritten = true) ∧
      Reads (.statements false) ⟨tokens, ending, false⟩ nodes next := by
  rcases readsUpTo with ⟨read, last, reaches, faces, isForm⟩
  rcases reaches.reads_of_parse faces.atEnd parsed with ⟨ending, next, reads⟩
  refine ⟨_, ending, next, isForm, ?_, reads⟩
  intro token member
  rcases List.mem_map.1 member with ⟨original, isMember, rfl⟩
  exact reaches.written original (List.mem_filter.1 isMember).1

/-! ## Lists of parameters -/

/-- An arrow and the parenthesis behind it. -/
theorem readsUpTo_of_arrow
    {mark : Mark} {blanks sign rest : List Char}
    (faces : place.Faces (blanks ++ (sign ++ ' ' :: '(' :: rest))) (areBlank : AllBlank blanks)
    (solid : ¬StartsBlank (sign ++ ' ' :: '(' :: rest))
    (step : ∀ modes : ModeStack, modes.codeMove (sign ++ ' ' :: '(' :: rest) =
      .token ⟨.mark mark, sign, ' ' :: '(' :: rest⟩ modes)
    (isForm : ∀ arrow opener : Token, arrow.kind = .mark mark →
      opener.kind = .mark .leftParen → form [arrow, opener]) :
    place.ReadsUpTo file form rest := by
  refine readsUpTo_of_mark faces areBlank solid step ?_
  intro behind arrow isArrow facesBehind
  have isBlank : AllBlank [' '] := by decide
  have solidBehind : ¬StartsBlank (['('] ++ rest) := not_startsBlank_cons rfl
  refine readsUpTo_of_mark facesBehind isBlank solidBehind (fun _ => rfl) ?_
  intro final opener isOpener facesRest
  exact readsUpTo_here facesRest (isForm arrow opener isArrow isOpener)

end Scanner

open Scanner Phrase

variable {file : Option String} {place : Scanner} {opening : String}
  {header : List (Parameter Node) → Header} {rest : List Char}

theorem readsUpTo_of_method
    {name : String} (isName : IsBareName name)
    (faces : place.Faces ((name ++ " -> (").toList ++ rest)) :
    place.ReadsUpTo file (Token.OpenMethod name) rest := by
  rw [String.toList_append, List.append_assoc] at faces
  have noBlank : AllBlank [] := List.forall_mem_nil _
  have isBlank : AllBlank [' '] := by decide
  let behind : List Char := [' '] ++ (['-', '>'] ++ ' ' :: '(' :: rest)
  have facesName : place.Faces ([] ++ (name.toList ++ behind)) := faces
  have endsName : ∀ next ∈ behind.head?, isWordChar next = false := by
    intro next isNext
    obtain rfl := Option.some.inj isNext
    rfl
  refine Token.readsUpTo_of_name isName noBlank facesName endsName ?_
  intro middle word isWord facesBehind
  have noMark : nameMark behind = [] := rfl
  rw [noMark, List.append_nil, String.ofList_toList] at isWord
  refine readsUpTo_of_arrow facesBehind isBlank (not_startsBlank_cons rfl) (fun _ => rfl) ?_
  intro arrow opener isArrow isOpener
  exact ⟨word, arrow, opener, rfl, isWord, isArrow, isOpener⟩

/-- Tokens of a text without a newline stand in a line. -/
theorem inLine_of_reaches
    {text : List Char} {read : List Token} {last : Scanner}
    (reaches : Reaches file (start text) read last) (inLine : '\n' ∉ text) :
    ∀ token ∈ (Token.significant read).map Token.unplaced, token.kind.isLayout = false := by
  intro token member
  rcases List.mem_map.1 member with ⟨original, isMember, rfl⟩
  have isRead : original ∈ read := (List.mem_filter.1 isMember).1
  refine Kind.isLayout_of_isWritten (reaches.written original isRead) ?_
  intro isNewline
  exact inLine (reaches.mem_newline isRead isNewline)

/-- A call in one line is read as a call with a block arrow behind it. -/
theorem readsUpTo_of_call
    {text name : String} {arguments : List Node} (inLine : '\n' ∉ text.toList)
    (isCall : parse text file = .ok [.call name arguments none]) :
    (start (text.toList ++ ' ' :: '&' :: '>' :: ' ' :: '(' :: rest)).ReadsUpTo file
      (Header.Opening (.call name arguments)) rest := by
  rcases reaches_of_parse isCall with ⟨read, last, reaches, atEnd⟩
  rcases reaches.reads_of_parse atEnd isCall with ⟨ending, next, reads⟩
  have areCall := reads.areCall (inLine_of_reaches reaches inLine)
  rcases reaches.before_blank atEnd with ⟨gap, front, middle, areBlank, isFront, faces, same⟩
  have isBlank : AllBlank [' '] := by decide
  have facesArrow : middle.Faces (gap ++ [' '] ++ (['&', '>'] ++ ' ' :: '(' :: rest)) := by
    simpa using faces
  refine isFront.readsUpTo ?_
  rw [same]
  exact readsUpTo_of_arrow facesArrow (List.forall_mem_append.2 ⟨areBlank, isBlank⟩)
    (not_startsBlank_cons rfl) (fun _ => rfl) fun _ _ => .call areCall

theorem OpensList.readsUpTo (opens : OpensList file opening header) :
    (start (opening.toList ++ rest)).ReadsUpTo file (Header.Opening header) rest := by
  cases opens with
  | block =>
      have noBlank : AllBlank [] := List.forall_mem_nil _
      have facesArrow : (start ("&> (".toList ++ rest)).Faces
          ([] ++ (['&', '>'] ++ ' ' :: '(' :: rest)) := faces_start _
      exact readsUpTo_of_arrow facesArrow noBlank (not_startsBlank_cons rfl) (fun _ => rfl)
        fun _ _ => .block
  | method isName =>
      exact (readsUpTo_of_method isName (faces_start _)).mono fun _ => .method
  | call inLine isCall =>
      rw [String.toList_append, List.append_assoc]
      exact readsUpTo_of_call inLine isCall

/-- Texts that are parameters wherever they stand between commas. -/
inductive AreListed (file : Option String) : List String → List (Parameter Node) → Prop where
  | last {text : String} {parameter : Parameter Node}
      (isLast : Token.AreMember file text.toList (Token.AreParameter .rightParen parameter)) :
      AreListed file [text] [parameter]
  | more {text : String} {texts : List String} {parameter : Parameter Node}
      {list : List (Parameter Node)}
      (isFirst : Token.AreMember file text.toList (Token.AreParameter .comma parameter))
      (areOthers : AreListed file texts list) :
      AreListed file (text :: texts) (parameter :: list)

variable {texts : List String} {list : List (Parameter Node)}

theorem AreListed.ne_nil (listed : AreListed file texts list) : texts ≠ [] := by
  cases listed with
  | last | more => exact List.cons_ne_nil _ _

theorem AreListed.readsUpTo
    {more : List Char} (listed : AreListed file texts list)
    (faces : place.Faces ((",".intercalate texts).toList ++ ')' :: more)) :
    place.ReadsUpTo file (Token.AreParameters list) (')' :: more) := by
  induction listed generalizing place with
  | last isLast =>
      rw [String.intercalate_singleton] at faces
      have reads := isLast place ')' more (Or.inr rfl) faces
      exact reads.mono fun _ => .last
  | @more text texts parameter list isFirst areOthers inductionHypothesis =>
      rw [String.intercalate_cons_of_ne_nil areOthers.ne_nil, String.toList_append,
        String.toList_append, List.append_assoc, List.append_assoc] at faces
      have reads := isFirst place ',' _ (Or.inl rfl) faces
      refine reads.goesOn ?_
      intro behind tokens isParameter facesComma
      have noBlank : AllBlank [] := List.forall_mem_nil _
      have facesSign : behind.Faces
          ([] ++ ([','] ++ ((",".intercalate texts).toList ++ ')' :: more))) := facesComma
      refine readsUpTo_of_mark facesSign noBlank (not_startsBlank_cons rfl) (fun _ => rfl) ?_
      intro place comma isComma facesOthers
      exact (inductionHypothesis facesOthers).mono fun _ => .more isParameter isComma

theorem readsUpTo_of_closer
    {form : List Token → Prop} (faces : place.Faces [')'])
    (isForm : ∀ closer : Token, closer.kind = .mark .rightParen → form [closer]) :
    place.ReadsUpTo file form [] := by
  have noBlank : AllBlank [] := List.forall_mem_nil _
  have facesSign : place.Faces ([] ++ ([')'] ++ [])) := faces
  refine readsUpTo_of_mark facesSign noBlank (not_startsBlank_cons rfl) (fun _ => rfl) ?_
  intro behind closer isCloser facesEnd
  exact readsUpTo_here facesEnd (isForm closer isCloser)

theorem AreListed.parse
    (listed : AreListed file texts list) (opens : OpensList file opening header) :
    ScriptFront.parse (opening ++ ",".intercalate texts ++ ")") file =
      .ok [(header list).node []] := by
  let form (tokens : List Token) : Prop := ∃ before inner closer,
    tokens = before ++ (inner ++ [closer]) ∧ Header.Opening header before ∧
      Token.AreParameters list inner ∧ closer.kind = .mark .rightParen
  have readsUpTo :
      (start (opening ++ ",".intercalate texts ++ ")").toList).ReadsUpTo file form [] := by
    rw [String.toList_append, String.toList_append, List.append_assoc]
    refine opens.readsUpTo.goesOn ?_
    intro behind before isOpening facesList
    refine (listed.readsUpTo facesList).goesOn ?_
    intro place inner areParameters facesCloser
    refine readsUpTo_of_closer facesCloser ?_
    intro closer isCloser
    exact ⟨before, inner, closer, rfl, isOpening, areParameters, isCloser⟩
  apply readsUpTo.parse
  rintro tokens ending ⟨before, inner, closer, rfl, isOpening, areParameters, isCloser⟩
  exact isOpening.reads areParameters isCloser ending

/-! ## A text in the list of a method -/

theorem isBareName_m : IsBareName "m" :=
  ⟨⟨'m', rfl, Or.inl rfl⟩, List.forall_mem_singleton.2 (Or.inl rfl), by decide⟩

theorem isBareName_z : IsBareName "z" :=
  ⟨⟨'z', rfl, Or.inl rfl⟩, List.forall_mem_singleton.2 (Or.inl rfl), by decide⟩

variable {text tail : String} {nodes : List Node}

/-- What a program says of the tokens of a text in the list of a method. -/
theorem exists_reads_of_method
    {mark : Char} {more : List Char} {form behind : List Token → Prop}
    (isMember : Token.AreMember file text.toList form) (ends : EndsMember mark)
    (isTail : tail.toList = mark :: more)
    (readsTail : ∀ place : Scanner, place.Faces (mark :: more) → place.ReadsUpTo file behind [])
    (parsed : parse ("m -> (" ++ text ++ tail) file = .ok nodes) :
    ∃ before tokens others ending next, Token.OpenMethod "m" before ∧ form tokens ∧
      behind others ∧ (∀ token ∈ tokens ++ others, token.kind.isWritten = true) ∧
        Reads (.statements false) ⟨before ++ (tokens ++ others), ending, false⟩ nodes next := by
  let whole (all : List Token) : Prop := ∃ before tokens others,
    all = before ++ (tokens ++ others) ∧ Token.OpenMethod "m" before ∧ form tokens ∧ behind others
  have readsUpTo : (start ("m -> (" ++ text ++ tail).toList).ReadsUpTo file whole [] := by
    rw [String.toList_append, String.toList_append, List.append_assoc]
    refine (readsUpTo_of_method isBareName_m (faces_start _)).goesOn ?_
    intro place before isOpening facesText
    rw [isTail] at facesText
    refine (isMember place mark more ends facesText).goesOn ?_
    intro final tokens isText facesTail
    refine (readsTail final facesTail).mono ?_
    intro others isBehind
    exact ⟨before, tokens, others, rfl, isOpening, isText, isBehind⟩
  rcases readsUpTo.reads_of_parse parsed with
    ⟨all, ending, next, ⟨before, tokens, others, rfl, isOpening, isText, isBehind⟩, written, reads⟩
  refine ⟨before, tokens, others, ending, next, isOpening, isText, isBehind, ?_, reads⟩
  intro token member
  exact written token (List.mem_append_right before member)

/-- The same with nothing but the closing parenthesis behind the text. -/
theorem exists_reads_alone
    {form : List Token → Prop} (isMember : Token.AreMember file text.toList form)
    (parsed : parse ("m -> (" ++ text ++ ")") file = .ok nodes) :
    ∃ before tokens closer ending next, Token.OpenMethod "m" before ∧ form tokens ∧
      closer.kind = .mark .rightParen ∧
      (∀ token ∈ tokens ++ [closer], token.kind.isWritten = true) ∧
        Reads (.statements false) ⟨before ++ (tokens ++ [closer]), ending, false⟩ nodes next := by
  let isCloser (others : List Token) : Prop :=
    ∃ closer, others = [closer] ∧ closer.kind = .mark .rightParen
  have readsTail (place : Scanner) (faces : place.Faces [')']) :
      place.ReadsUpTo file isCloser [] :=
    readsUpTo_of_closer faces fun closer isKind => ⟨closer, rfl, isKind⟩
  rcases exists_reads_of_method isMember (Or.inr rfl) rfl readsTail parsed with
    ⟨before, tokens, _, ending, next, isOpening, isText, ⟨closer, rfl, isKind⟩, written, reads⟩
  exact ⟨before, tokens, closer, ending, next, isOpening, isText, isKind, written, reads⟩

/-- The same with another parameter behind the text. -/
theorem exists_reads_inFront
    {form : List Token → Prop} (isMember : Token.AreMember file text.toList form)
    (parsed : parse ("m -> (" ++ text ++ ",z)") file = .ok nodes) :
    ∃ before tokens comma second closer ending next, Token.OpenMethod "m" before ∧ form tokens ∧
      comma.kind = .mark .comma ∧ closer.kind = .mark .rightParen ∧
      (∀ token ∈ tokens ++ [comma, second, closer], token.kind.isWritten = true) ∧
        Reads (.statements false) ⟨before ++ (tokens ++ [comma, second, closer]), ending, false⟩
          nodes next := by
  let isTail (others : List Token) : Prop := ∃ comma second closer,
    others = [comma, second, closer] ∧ comma.kind = .mark .comma ∧ closer.kind = .mark .rightParen
  have readsTail (place : Scanner) (faces : place.Faces [',', 'z', ')']) :
      place.ReadsUpTo file isTail [] := by
    have noBlank : AllBlank [] := List.forall_mem_nil _
    have facesComma : place.Faces ([] ++ ([','] ++ ['z', ')'])) := faces
    refine readsUpTo_of_mark facesComma noBlank (not_startsBlank_cons rfl) (fun _ => rfl) ?_
    intro behind comma isComma facesName
    have facesZ : behind.Faces ([] ++ ("z".toList ++ [')'])) := facesName
    refine Token.readsUpTo_of_name isBareName_z noBlank facesZ (by simp [isWordChar]) ?_
    intro final second _ facesCloser
    refine readsUpTo_of_closer facesCloser ?_
    intro closer isCloser
    exact ⟨comma, second, closer, rfl, isComma, isCloser⟩
  rcases exists_reads_of_method isMember (Or.inl rfl) rfl readsTail parsed with
    ⟨before, tokens, _, ending, next, isOpening, isText,
      ⟨comma, second, closer, rfl, isComma, isCloser⟩, written, reads⟩
  exact ⟨before, tokens, comma, second, closer, ending, next, isOpening, isText, isComma, isCloser,
    written, reads⟩

/-- In a program no operator stands in front of a parenthesis at the end. -/
theorem Phrase.Reads.not_operator_before_paren
    {tokens : List Token} {closer token : Token} {ending : Ending} {last : Cursor}
    (reads : Reads (.statements false) ⟨tokens ++ [closer], ending, false⟩ nodes last)
    (isCloser : closer.kind = .mark .rightParen) (isLast : tokens.getLast? = some token)
    (operator : Operator) : token.kind ≠ .operator operator := by
  rcases reads.endsFirm with ⟨passed, isPassed, -, chain⟩
  rw [Cursor.ahead_eq_nil_of_program reads, List.append_nil] at isPassed
  obtain rfl : tokens ++ [closer] = passed := isPassed
  intro isSign
  exact (List.isChain_append.1 chain).2.2 token isLast closer rfl operator isSign isCloser

theorem Token.getLast?_significant
    {read : List Token} {token : Token} (isLast : read.getLast? = some token)
    (means : token.isTrivia = false) : (significant read).getLast? = some token := by
  rcases List.getLast?_eq_some_iff.1 isLast with ⟨front, rfl⟩
  rw [significant_append, significant_cons means]
  exact List.getLast?_concat

theorem Phrase.Reads.not_operator_at_end
    {front read : List Token} {closer token : Token} {ending : Ending} {last : Cursor}
    (reads : Reads (.statements false)
      ⟨(Token.significant (front ++ (read ++ [closer]))).map Token.unplaced, ending, false⟩
        nodes last)
    (isCloser : closer.kind = .mark .rightParen) (isLast : read.getLast? = some token)
    (operator : Operator) : token.kind ≠ .operator operator := by
  intro isSign
  have means : closer.isTrivia = false := by
    rw [Token.isTrivia, isCloser]
    rfl
  have meansToken : token.isTrivia = false := by
    rw [Token.isTrivia, isSign]
    rfl
  have isSignificant : Token.significant (front ++ (read ++ [closer])) =
      Token.significant (front ++ read) ++ [closer] := by
    rw [← List.append_assoc, Token.significant_append, Token.significant_cons means]
    rfl
  have isLastOfAll : (front ++ read).getLast? = some token := by
    rw [List.getLast?_append, isLast]
    rfl
  have isLastMeant : ((Token.significant (front ++ read)).map Token.unplaced).getLast? =
      some token.unplaced := by
    rw [List.getLast?_map, Token.getLast?_significant isLastOfAll meansToken]
    rfl
  rw [isSignificant, List.map_append] at reads
  exact reads.not_operator_before_paren isCloser isLastMeant operator isSign

/-- The tokens of a text that stands alone in the list of a method are the same in every list. -/
theorem exists_member_of_alone
    (parsed : parse ("m -> (" ++ text ++ ")") file = .ok nodes) :
    text.toList.getLast? ≠ some '=' ∧
      ∃ tokens, Token.AreMember file text.toList (Token.AreAsSetOff tokens) := by
  rcases reaches_of_parse parsed with ⟨all, last, reaches, atEnd⟩
  rcases reaches.reads_of_parse atEnd parsed with ⟨ending, next, reads⟩
  rw [String.toList_append, String.toList_append, List.append_assoc] at reaches
  rcases readsUpTo_of_method isBareName_m (faces_start _) with
    ⟨front, place, reachesText, faces, -⟩
  rcases reachesText.further reaches atEnd with ⟨behind, rfl, reachesEnd⟩
  rcases Token.areMember_of_paren reachesEnd atEnd faces with
    ⟨read, closer, rfl, isCloser, isMember⟩
  rcases isMember fun _ isLast => reads.not_operator_at_end isCloser isLast with
    ⟨noEquals, sameTokens⟩
  exact ⟨noEquals, _, sameTokens⟩

/-! ## Parameters -/

section Parameters

variable {parameter : Parameter Node} {mark : Mark} {given tokens : List Token}

theorem Token.AreMember.areParameter
    (isMember : AreMember file text.toList (AreAsSetOff given)) (same : AreAsSetOff given tokens)
    (isParameter : AreParameter mark parameter tokens)
    (stops : (Kind.mark mark).startsPhrase = false) :
    AreMember file text.toList (AreParameter mark parameter) := by
  refine isMember.mono ?_
  intro others isOther
  exact isParameter.restarted (same.symm.trans isOther) stops

theorem areMember_of_alone
    (parsed : parse ("m -> (" ++ text ++ ")") file =
      .ok [.method "m" ⟨[parameter], []⟩]) :
    Token.AreMember file text.toList (Token.AreParameter .rightParen parameter) := by
  rcases exists_member_of_alone parsed with ⟨-, given, isMember⟩
  rcases exists_reads_alone isMember parsed with
    ⟨before, tokens, closer, ending, next, opens, same, isCloser, written, reads⟩
  rcases reads.method_parameterList opens isCloser with ⟨closing, areParameters, isEnd⟩
  cases areParameters with
  | moreParameters _ _ none => cases none
  | lastParameter isFirst =>
      have isParameter := isFirst.areParameter isEnd isCloser (Or.inr rfl) written
      exact isMember.areParameter same isParameter rfl

/-- The first of two parameters, the tokens of which are known. -/
theorem exists_first_of_two
    {form : List Token → Prop} (isMember : Token.AreMember file text.toList form)
    (parsed : parse ("m -> (" ++ text ++ ",z)") file =
      .ok [.method "m" ⟨[parameter, .plain "z"], []⟩]) :
    ∃ tokens comma more ending next, form tokens ∧ comma.kind = .mark .comma ∧
      (∀ token ∈ tokens ++ comma :: more, token.kind.isWritten = true) ∧
        Reads .parameter ⟨tokens ++ comma :: more, ending, false⟩ parameter next ∧
          next.ahead = comma :: more := by
  rcases exists_reads_inFront isMember parsed with
    ⟨before, tokens, comma, second, closer, ending, next, opens, isText, isComma, isCloser,
      written, reads⟩
  have whole : tokens ++ [comma, second, closer] = (tokens ++ [comma, second]) ++ [closer] := by
    simp
  rw [whole] at reads
  rcases reads.method_parameterList opens isCloser with ⟨closing, areParameters, isEnd⟩
  rw [← whole] at areParameters
  rcases areParameters.first_of_two isEnd with ⟨behind, isFirst, isBehind⟩
  exact ⟨tokens, comma, [second, closer], ending, behind, isText, isComma, written, isFirst,
    isBehind⟩

theorem areMember_inFront
    (alone : parse ("m -> (" ++ text ++ ")") file = .ok nodes)
    (parsed : parse ("m -> (" ++ text ++ ",z)") file =
      .ok [.method "m" ⟨[parameter, .plain "z"], []⟩]) :
    Token.AreMember file text.toList (Token.AreParameter .comma parameter) := by
  rcases exists_member_of_alone alone with ⟨-, given, isMember⟩
  rcases exists_first_of_two isMember parsed with
    ⟨tokens, comma, more, ending, next, same, isComma, written, isFirst, isEnd⟩
  have isParameter := isFirst.areParameter isEnd isComma (Or.inl rfl) written
  exact isMember.areParameter same isParameter rfl

theorem AreMembers.listed (areMembers : AreMembers file texts list) :
    AreListed file texts list := by
  induction areMembers with
  | last alone => exact .last (areMember_of_alone alone)
  | more alone inFront _ inductionHypothesis =>
      exact .more (areMember_inFront alone inFront) inductionHypothesis

end Parameters

end ScriptFront
