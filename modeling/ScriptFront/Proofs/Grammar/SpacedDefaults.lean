import ScriptFront.Proofs.Grammar.MemberTexts

/-!
# Blanks around the equals sign of a default

A parameter with a default is the same one whatever blanks stand on either side of its equals sign,
alone and at any place of a longer list.  In front of another parameter this takes a default that
ends at the comma: a call without parentheses would go on with what stands behind it.
-/

namespace ScriptFront

open Scanner Phrase

variable {file : Option String} {opening text : String}
  {header : List (Parameter Node) → Header} {nodes : List Node} {list : List (Parameter Node)}

/-- A parameter with a default, and the blanks on either side of the equals sign. -/
def withDefault (name left right value : String) : String := name ++ left ++ "=" ++ right ++ value

section Defaults

variable {name value margin left right : String} {node : Node} {tokens read : List Token}
  {last : Scanner}

theorem toList_withDefault (margin name left right value : String) :
    (margin ++ withDefault name left right value).toList =
      margin.toList ++ (name.toList ++ (left.toList ++ '=' :: (right.toList ++ value.toList))) := by
  simp [withDefault]

theorem IsBareName.bareName?_eq_none (isName : IsBareName name) : bareName? name = none := by
  refine ScriptFront.bareName?_eq_none ?_
  intro isLast
  exact absurd (isName.letters '=' (List.mem_of_getLast? isLast)) (by decide)

/-- An expression does not start with an equals sign. -/
theorem head_of_value
    (isValue : Token.AreValue .rightParen node ((Token.significant read).map Token.unplaced))
    (reaches : Reaches file (start value.toList) read last) (atEnd : last.AtEnd) :
    ∃ first ∈ value.toList.head?, first ≠ '=' := by
  let closer : Token := ⟨.mark .rightParen, "", default, false⟩
  let back : Cursor := ⟨[closer], ⟨default, false⟩, false⟩
  have reads := isValue back rfl
  cases isText : value.toList with
  | nil =>
      have isNil : (start value.toList).rest = [] := isText
      rcases reaches.of_end rfl isNil with ⟨rfl, -⟩
      cases reads.binary_starts
  | cons first rest =>
      refine ⟨first, rfl, ?_⟩
      rintro rfl
      have faces : (start value.toList).Faces ('=' :: rest) := isText ▸ faces_start _
      rcases reaches.operator_of_equals faces atEnd with
        ⟨token, others, operator, rfl, isOperator, notUnary⟩
      have means : token.isTrivia = false := by
        rw [Token.isTrivia, isOperator]
        rfl
      rw [Token.significant_cons means] at reads
      cases notUnary.symm.trans (reads.isUnary_of_operator isOperator)

/-- In a list the tokens are those of a name with a default, however the equals sign is set off. -/
def AssignsWith
    (file : Option String) (margin name value : String) (tokens : List Token) : Prop :=
  ∀ left right, AllBlank left.toList → AllBlank right.toList →
    Token.AreMember file (margin ++ withDefault name left right value).toList fun others =>
      Token.AssignApart name tokens others ∨ Token.AssignJoined name tokens others

/-- What stands behind the equals sign of a text that is read alone in a list. -/
theorem exists_value_of_alone
    (isName : IsBareName name) (inLine : '\n' ∉ value.toList)
    (isValue : parse value file = .ok [node]) (areBlank : AllBlank margin.toList)
    (alone : parse ("m -> (" ++ (margin ++ withDefault name " " " " value) ++ ")") file =
      .ok nodes) :
    ∃ tokens, Token.AreValue .rightParen node tokens ∧
      Token.AreMember file (margin ++ withDefault name " " " " value).toList
        (Token.AssignApart name tokens) ∧ AssignsWith file margin name value tokens := by
  rcases reaches_of_parse isValue with ⟨read, last, reaches, atEnd⟩
  rcases reaches.reads_of_parse atEnd isValue with ⟨_, _, readsValue⟩
  have noEquals : value.toList.getLast? ≠ some '=' := by
    intro isLast
    apply (exists_member_of_alone alone).1
    rw [toList_withDefault]
    simp [List.getLast?_cons, List.getLast?_append, isLast]
  have isMember {right : List Char} (areBlankRight : AllBlank right) :=
    Token.areMember_of_atEnd reaches atEnd noEquals areBlankRight
  have isBlank : AllBlank [' '] := by decide
  have isApart : Token.AreMember file (margin ++ withDefault name " " " " value).toList
      (Token.AssignApart name ((Token.significant read).map Token.unplaced)) := by
    rw [toList_withDefault]
    exact Token.areMember_behind_blank isName areBlank isBlank (List.cons_ne_nil _ _)
      (isMember isBlank) ⟨' ', rfl, by decide⟩
  -- The statement that the value is could be a pair.  Then a colon would be a fault of the list.
  have isDefault :
      Token.AreValue .rightParen node ((Token.significant read).map Token.unplaced) := by
    rcases exists_reads_alone isApart alone with
      ⟨before, _, closer, ending, next, opens, ⟨given, sign, others, rfl, isGiven, isSign, same⟩,
        isCloser, -, reads⟩
    rcases reads.method_default opens isGiven isSign isName.bareName?_eq_none with
      ⟨other, behind, isExpression, noColon⟩
    have stops : closer.kind.startsPhrase = false := by
      rw [isCloser]
      rfl
    let back : Cursor := ⟨[closer], ending, false⟩
    have restarts : (back.led others).Restarts (back.led _) :=
      same.symm.restarts isExpression.binary_starts stops
    exact readsValue.value_of_line (inLine_of_reaches reaches inLine)
      (isExpression.binary_restarted restarts) noColon isCloser
  refine ⟨_, isDefault, isApart, ?_⟩
  intro left right areBlankLeft areBlankRight
  rw [toList_withDefault]
  refine Token.areMember_default isName areBlank areBlankLeft (isMember areBlankRight) ?_
  cases isRight : right.toList with
  | nil => exact head_of_value isDefault reaches atEnd
  | cons first others =>
      refine ⟨first, rfl, ?_⟩
      rintro rfl
      rw [isRight] at areBlankRight
      exact absurd (areBlankRight '=' List.mem_cons_self) (by decide)

/-- The value in front of a comma. -/
theorem areValue_of_inFront
    {parameter : Parameter Node} (isName : IsBareName name)
    (isApart : Token.AreMember file text.toList (Token.AssignApart name tokens))
    (parsed : parse ("m -> (" ++ text ++ ",z)") file =
      .ok [.method "m" ⟨[parameter, .plain "z"], []⟩]) :
    ∃ other, parameter = .optional name other ∧ Token.AreValue .comma other tokens := by
  rcases exists_first_of_two isApart parsed with
    ⟨_, comma, more, ending, next, ⟨given, sign, others, rfl, isGiven, isSign, same⟩, isComma,
      written, isFirst, isEnd⟩
  rcases isFirst.parameter_default isGiven isSign isName.bareName?_eq_none with
    ⟨other, rfl, isExpression⟩
  have writtenBehind : ∀ token ∈ others ++ comma :: more, token.kind.isWritten = true := by
    intro token member
    exact written token (List.mem_cons_of_mem _ (List.mem_cons_of_mem _ member))
  have isValue := isExpression.areValue isEnd isComma (Or.inl rfl) writtenBehind
  exact ⟨other, rfl, isValue.restarted same.symm rfl⟩

theorem AssignsWith.listed
    {mark : Mark} (assigns : AssignsWith file margin name value tokens) (isName : IsBareName name)
    (isValue : Token.AreValue mark node tokens) (stops : (Kind.mark mark).startsPhrase = false)
    (areBlankLeft : AllBlank left.toList) (areBlankRight : AllBlank right.toList) :
    Token.AreMember file (margin ++ withDefault name left right value).toList
      (Token.AreParameter mark (.optional name node)) := by
  refine (assigns left right areBlankLeft areBlankRight).mono ?_
  intro others isAssigned
  exact isValue.areParameter stops isName.bareName?_eq_none isAssigned

/-- Alone in the list of a method the text is the parameter with that default. -/
theorem parse_alone
    (assigns : AssignsWith file margin name value tokens) (isName : IsBareName name)
    (isValue : Token.AreValue .rightParen node tokens) (opens : OpensList file opening header)
    (areBlankLeft : AllBlank left.toList) (areBlankRight : AllBlank right.toList) :
    parse (opening ++ (margin ++ withDefault name left right value) ++ ")") file =
      .ok [(header [.optional name node]).node []] := by
  have isMember := assigns.listed isName isValue rfl areBlankLeft areBlankRight
  have parsed := (AreListed.last isMember).parse opens
  rwa [String.intercalate_singleton] at parsed

theorem opensList_m : OpensList file "m -> (" (.method "m") := .method isBareName_m

theorem parameter_of_alone
    {parameter : Parameter Node} (assigns : AssignsWith file margin name value tokens)
    (isName : IsBareName name) (isValue : Token.AreValue .rightParen node tokens)
    (alone : parse ("m -> (" ++ (margin ++ withDefault name " " " " value) ++ ")") file =
      .ok [.method "m" ⟨[parameter], []⟩]) : parameter = .optional name node := by
  have isBlank : AllBlank " ".toList := by decide
  have parsed := parse_alone assigns isName isValue opensList_m isBlank isBlank
  have same := Except.ok.inj (alone.symm.trans parsed)
  simpa [Header.node] using same

/-- The parameter with the default may be spelled with other blanks in any list. -/
theorem AreMembers.respelled
    {before after : List String} (isName : IsBareName name) (inLine : '\n' ∉ value.toList)
    (isValue : parse value file = .ok [node]) (areBlank : AllBlank margin.toList)
    (areMembers : AreMembers file
      (before ++ (margin ++ withDefault name " " " " value) :: after) list) :
    ∃ front back, list = front ++ .optional name node :: back ∧ front.length = before.length ∧
      ∀ left right, AllBlank left.toList → AllBlank right.toList →
        AreListed file (before ++ (margin ++ withDefault name left right value) :: after) list := by
  induction before generalizing list with
  | nil =>
      rw [List.nil_append] at areMembers
      cases areMembers with
      | last alone =>
          rcases exists_value_of_alone isName inLine isValue areBlank alone with
            ⟨tokens, isDefault, -, assigns⟩
          obtain rfl := parameter_of_alone assigns isName isDefault alone
          refine ⟨[], [], rfl, rfl, ?_⟩
          intro left right areBlankLeft areBlankRight
          exact .last (assigns.listed isName isDefault rfl areBlankLeft areBlankRight)
      | more alone inFront areOthers =>
          rcases exists_value_of_alone isName inLine isValue areBlank alone with
            ⟨tokens, isDefault, isApart, assigns⟩
          obtain rfl := parameter_of_alone assigns isName isDefault alone
          -- In front of the comma the value is read anew, and found to be the same.
          rcases areValue_of_inFront isName isApart inFront with ⟨other, same, isOther⟩
          obtain ⟨-, rfl⟩ := Parameter.optional.inj same
          refine ⟨[], _, rfl, rfl, ?_⟩
          intro left right areBlankLeft areBlankRight
          exact .more (assigns.listed isName isOther rfl areBlankLeft areBlankRight)
            areOthers.listed
  | cons first others inductionHypothesis =>
      rw [List.cons_append] at areMembers
      generalize isRest : others ++ (margin ++ withDefault name " " " " value) :: after = rest
        at areMembers
      cases areMembers with
      | last => simp at isRest
      | more alone inFront areOthers =>
          rw [← isRest] at areOthers
          rcases inductionHypothesis areOthers with ⟨front, back, rfl, isPlace, respelled⟩
          refine ⟨_ :: front, back, rfl, congrArg Nat.succ isPlace, ?_⟩
          intro left right areBlankLeft areBlankRight
          exact .more (areMember_inFront alone inFront)
            (respelled left right areBlankLeft areBlankRight)

end Defaults

/-- Blanks around the equals sign of a default do not matter.  If the text `a = e` is read in the
list of a method, then with any blanks it is the one parameter `a` with the value of `e` in the list
of every method, of a block, and of the block of a call.  So it is at every place of a longer list,
each parameter of which but the last ends in front of the comma behind it. -/
theorem parse_spaced_default
    {name value : String} {node : Node} {file : Option String} (isName : IsBareName name)
    (inLine : '\n' ∉ value.toList) (isValue : parse value file = .ok [node]) :
    (∀ nodes, parse ("m -> (" ++ withDefault name " " " " value ++ ")") file = .ok nodes →
      ∀ left right, AllBlank left.toList → AllBlank right.toList →
        ∀ opening header, OpensList file opening header →
          parse (opening ++ withDefault name left right value ++ ")") file =
            .ok [(header [.optional name node]).node []]) ∧
    ∀ before after margin list, AllBlank margin.toList →
      AreMembers file (before ++ (margin ++ withDefault name " " " " value) :: after) list →
      ∃ front back, list = front ++ .optional name node :: back ∧ front.length = before.length ∧
        ∀ left right, AllBlank left.toList → AllBlank right.toList →
          ∀ opening header, OpensList file opening header →
            parse (opening ++
              ",".intercalate (before ++ (margin ++ withDefault name left right value) :: after) ++
                ")") file = .ok [(header list).node []] := by
  refine ⟨?_, ?_⟩
  · intro nodes alone left right areBlankLeft areBlankRight opening header opens
    have noMargin (left right : String) :
        "" ++ withDefault name left right value = withDefault name left right value :=
      String.empty_append
    have noBlank : AllBlank "".toList := List.forall_mem_nil _
    rw [← noMargin] at alone ⊢
    rcases exists_value_of_alone isName inLine isValue noBlank alone with
      ⟨tokens, isDefault, -, assigns⟩
    exact parse_alone assigns isName isDefault opens areBlankLeft areBlankRight
  · intro before after margin list areBlank areMembers
    rcases areMembers.respelled isName inLine isValue areBlank with
      ⟨front, back, isList, isPlace, respelled⟩
    refine ⟨front, back, isList, isPlace, ?_⟩
    intro left right areBlankLeft areBlankRight opening header opens
    exact (respelled left right areBlankLeft areBlankRight).parse opens

/-- A default in parentheses, alone in the list of a block and of the block of a call, and between
two other parameters. -/
theorem parse_spaced_default_nested :
    IsBareName "a" ∧ '\n' ∉ "(2)".toList ∧ parse "(2)" none = .ok [.group (.integer 2)] ∧
      parse "m -> (a = (2))" none = .ok [.method "m" ⟨[.optional "a" (.group (.integer 2))], []⟩] ∧
      parse "&> (a=(2))" none = .ok [.block ⟨[.optional "a" (.group (.integer 2))], []⟩] ∧
      parse "f 1" none = .ok [.call "f" [.integer 1] none] ∧
      parse "f 1 &> (a =(2))" none = .ok [.call "f" [.integer 1]
        (some ⟨[.optional "a" (.group (.integer 2))], []⟩)] ∧
      parse "m -> (b = f(1), a= (2),*c)" none =
        .ok [.method "m" ⟨[.optional "b" (.call "f" [.integer 1] none),
          .optional "a" (.group (.integer 2)), .splat "c"], []⟩] := by
  have isName : IsBareName "a" :=
    ⟨⟨'a', rfl, Or.inl rfl⟩, List.forall_mem_singleton.2 (Or.inl rfl), by decide⟩
  have inLine : '\n' ∉ "(2)".toList := by decide
  have isValue : parse "(2)" none = .ok [.group (.integer 2)] := by with_unfolding_all rfl
  have alone : parse "m -> (a = (2))" none =
      .ok [.method "m" ⟨[.optional "a" (.group (.integer 2))], []⟩] := by
    with_unfolding_all rfl
  have areMembers : AreMembers none
      (["b = f(1)"] ++ (" " ++ withDefault "a" " " " " "(2)") :: ["*c"])
      [.optional "b" (.call "f" [.integer 1] none), .optional "a" (.group (.integer 2)),
        .splat "c"] := by
    refine .more ?_ ?_ (.more ?_ ?_ (.last ?_))
    all_goals with_unfolding_all rfl
  have noBlank : AllBlank "".toList := List.forall_mem_nil _
  have isBlank : AllBlank " ".toList := by decide
  have spaced := parse_spaced_default isName inLine isValue
  have isCall : parse "f 1" none = .ok [.call "f" [.integer 1] none] := by with_unfolding_all rfl
  have inBlock := spaced.1 _ alone "" "" noBlank noBlank _ _ .block
  have inCall := spaced.1 _ alone " " "" isBlank noBlank _ _ (.call (by decide) isCall)
  rcases spaced.2 ["b = f(1)"] ["*c"] " " _ isBlank areMembers with ⟨-, -, -, -, respelled⟩
  have inList := respelled "" " " noBlank isBlank _ _ opensList_m
  have isBlock : "&> (" ++ withDefault "a" "" "" "(2)" ++ ")" = "&> (a=(2))" := by decide
  have isCallText : "f 1" ++ " &> (" ++ withDefault "a" " " "" "(2)" ++ ")" =
      "f 1 &> (a =(2))" := by
    decide
  have isList : "m -> (" ++ ",".intercalate
      (["b = f(1)"] ++ (" " ++ withDefault "a" "" " " "(2)") :: ["*c"]) ++ ")" =
        "m -> (b = f(1), a= (2),*c)" := by decide
  rw [isBlock] at inBlock
  rw [isCallText] at inCall
  rw [isList] at inList
  exact ⟨isName, inLine, isValue, alone, inBlock, isCall, inCall, inList⟩

/-- A default that is a call without parentheses goes on behind the comma, and where another
parameter with a default stands there, the blanks around its equals sign are seen. -/
theorem default_goes_on_behind_comma :
    (¬∀ (name value : String) (node : Node) (nodes : List Node) (before after : List String),
      IsBareName name → '\n' ∉ value.toList → parse value none = .ok [node] →
      parse ("m -> (" ++ withDefault name " " " " value ++ ")") none = .ok nodes →
      (∀ text ∈ before ++ after, ∃ parameter,
        parse ("m -> (" ++ text ++ ")") none = .ok [.method "m" ⟨[parameter], []⟩]) →
      ∃ front back, front.length = before.length ∧
        parse ("m -> (" ++
          ",".intercalate (before ++ withDefault name " " " " value :: after) ++ ")") none =
            .ok [.method "m" ⟨front ++ .optional name node :: back, []⟩]) ∧
    parse "m -> (b = f 1, a = 2)" none ≠ parse "m -> (b = f 1, a= 2)" none := by
  constructor
  · intro law
    have isName : IsBareName "a" :=
      ⟨⟨'a', rfl, Or.inl rfl⟩, List.forall_mem_singleton.2 (Or.inl rfl), by decide⟩
    have isValue : parse "f 1" none = .ok [.call "f" [.integer 1] none] := by
      with_unfolding_all rfl
    have alone : parse "m -> (a = f 1)" none =
        .ok [.method "m" ⟨[.optional "a" (.call "f" [.integer 1] none)], []⟩] := by
      with_unfolding_all rfl
    have isSecond : parse "m -> ( b)" none = .ok [.method "m" ⟨[.plain "b"], []⟩] := by
      with_unfolding_all rfl
    have together : parse "m -> (a = f 1, b)" none =
        .ok [.method "m"
          ⟨[.optional "a" (.call "f" [.integer 1, .call "b" [] none] none)], []⟩] := by
      with_unfolding_all rfl
    have areParameters : ∀ text ∈ [] ++ [" b"], ∃ parameter,
        parse ("m -> (" ++ text ++ ")") none = .ok [.method "m" ⟨[parameter], []⟩] :=
      List.forall_mem_singleton.2 ⟨_, isSecond⟩
    rcases law "a" "f 1" _ _ [] [" b"] isName (by decide) isValue alone areParameters with
      ⟨front, back, isPlace, parsed⟩
    obtain rfl := List.eq_nil_of_length_eq_zero isPlace
    cases together.symm.trans parsed
  · have apart : parse "m -> (b = f 1, a = 2)" none =
        .ok [.method "m" ⟨[.optional "b" (.call "f"
          [.integer 1, .binary .assign (.call "a" [] none) (.integer 2)] none)], []⟩] := by
      with_unfolding_all rfl
    have joined : parse "m -> (b = f 1, a= 2)" none =
        .ok [.method "m" ⟨[.optional "b" (.call "f"
          [.integer 1, .call "a=" [.integer 2] none] none)], []⟩] := by
      with_unfolding_all rfl
    rw [apart, joined]
    intro same
    cases same

end ScriptFront
