import ScriptFront.Proofs.Grammar.Building
import ScriptFront.Proofs.Token.Calls
import ScriptFront.Proofs.Token.Names

/-!
# The names of parameters

A name takes in an equals sign that stands directly behind it, unless a value follows the sign at
once.  Where such a name declares a parameter, the sign is taken off again and the parameter has a
value.  Behind a star it is not taken off.
-/

namespace ScriptFront

/-- The name has taken in the equals sign behind it. -/
def EndsInEquals (name : String) : Prop := ∃ bare, name = bare ++ "="

theorem toList_append_equals (bare : String) : (bare ++ "=").toList = bare.toList ++ ['='] :=
  String.toList_append

theorem bareName?_append_equals (bare : String) : bareName? (bare ++ "=") = some bare := by
  have isLast : (bare ++ "=").toList.getLast? = some '=' := by
    rw [toList_append_equals, List.getLast?_concat]
  rw [bareName?, if_pos isLast, toList_append_equals, List.dropLast_concat, String.ofList_toList]

theorem bareName?_eq_some_iff {name bare : String} :
    bareName? name = some bare ↔ name = bare ++ "=" := by
  constructor
  · intro isSetter
    unfold bareName? at isSetter
    split at isSetter
    · rename_i isLast
      obtain rfl := Option.some.inj isSetter
      rcases List.getLast?_eq_some_iff.1 isLast with ⟨letters, isName⟩
      apply String.toList_injective
      rw [toList_append_equals, String.toList_ofList, isName, List.dropLast_concat]
    · cases isSetter
  · rintro rfl
    exact bareName?_append_equals bare

theorem bareName?_eq_none_iff {name : String} : bareName? name = none ↔ ¬EndsInEquals name := by
  constructor
  · rintro isBare ⟨bare, isSetter⟩
    cases isBare.symm.trans (bareName?_eq_some_iff.2 isSetter)
  · intro ends
    cases isSetter : bareName? name with
    | none => rfl
    | some bare => exact absurd ⟨bare, bareName?_eq_some_iff.1 isSetter⟩ ends

/-! ## Names in a text -/

/-- A name takes in one mark only. -/
theorem Token.IsNameIn.not_endsInEquals
    {closers text before run mark behind : List Char} {file : Option String} {token : Token}
    {bare : String} (named : token.IsNameIn closers text file before run mark behind)
    (isName : token.kind = .identifier (bare ++ "=")) : ¬EndsInEquals bare := by
  rintro ⟨front, rfl⟩
  have noSign : '=' ∉ run := fun member => absurd (named.letters _ member) (by decide)
  have isLexeme : token.kind = .identifier token.lexeme := named.named (by simp [isName])
  have whole : run ++ mark = front.toList ++ ['=', '='] := by
    rw [← named.lexeme, ← Kind.identifier.inj (isName.symm.trans isLexeme), toList_append_equals,
      toList_append_equals, List.append_assoc]
    rfl
  have short : mark.length ≤ 1 := by
    rcases named.marked.atMostOne with rfl | rfl | rfl | rfl <;> decide
  have covers : mark.length ≤ ['=', '='].length := Nat.le_succ_of_le short
  -- The first of the two signs would be the last letter of the run.
  rcases List.suffix_of_suffix_length_le ⟨run, whole⟩ ⟨front.toList, rfl⟩ covers with
    ⟨letters, isSigns⟩
  cases letters with
  | nil =>
      rw [List.nil_append] at isSigns
      rw [isSigns] at short
      exact absurd short (by decide)
  | cons letter others =>
      obtain ⟨rfl, -⟩ := List.cons.inj isSigns
      refine noSign ?_
      have isRun : run = front.toList ++ '=' :: others := by
        rw [← isSigns, ← List.append_assoc] at whole
        exact List.append_cancel_right whole
      rw [isRun]
      simp

theorem not_endsInEquals_of_tokenize
    {source : String} {file : Option String} {tokens : List Token} {token : Token} {bare : String}
    (lexed : tokenize source file = .ok tokens) (member : token ∈ tokens)
    (isName : token.kind = .identifier (bare ++ "=")) : ¬EndsInEquals bare := by
  have isItem := (of_mem_tokenize lexed member).1
  rcases names_in_text isItem (by rw [isName]; rfl) with ⟨before, run, mark, behind, named⟩
  exact named.not_endsInEquals isName

/-! ## Declarations -/

/-- What the tokens at a place say about the name of the parameter that is read there. -/
structure Parameter.DeclaredAt (place : Cursor) (parameter : Parameter Node) : Prop where
  /-- A name that has taken in the sign gives it back, and the parameter has a value. -/
  setter : ∀ bare, place.peek.kind = .identifier (bare ++ "=") →
    ¬EndsInEquals bare ∧ ∃ value, parameter = .optional bare value
  /-- The sign stays in a name exactly if that stands behind a star. -/
  kept : ∀ bare, parameter.name = bare ++ "=" ↔
    ∃ behind last, place.Accepts (.operator .star) behind ∧
      behind.Accepts (.identifier (bare ++ "=")) last

namespace Phrase

variable {place next : Cursor} {parameter : Parameter Node} {name : String}

theorem Reads.not_endsInEquals
    (reads : Reads (.parameterValue name) place parameter next)
    (single : ∀ bare, name = bare ++ "=" → ¬EndsInEquals bare) : ¬EndsInEquals parameter.name := by
  cases reads with
  | setter isSetter => exact single _ (bareName?_eq_some_iff.1 isSetter)
  | optional isBare | keyword isBare | plain isBare => exact bareName?_eq_none_iff.1 isBare

theorem Reads.declaredAt
    (reads : Reads .parameter place parameter next)
    (single : ∀ bare, place.peek.kind = .identifier (bare ++ "=") → ¬EndsInEquals bare) :
    parameter.DeclaredAt place := by
  cases reads with
  | splat star names =>
      constructor
      case setter =>
        intro bare isName
        cases star.peek_kind.symm.trans isName
      case kept =>
        intro bare
        constructor
        · rintro rfl
          exact ⟨_, _, star, names⟩
        · rintro ⟨behind, last, isStar, isName⟩
          obtain rfl := star.unique isStar
          exact Kind.identifier.inj (names.peek_kind.symm.trans isName.peek_kind)
  | @parameter _ _ _ name _ names isParameter =>
      have bareOnly : ∀ bare, name = bare ++ "=" → ¬EndsInEquals bare := by
        rintro bare rfl
        exact single bare names.peek_kind
      constructor
      case setter =>
        intro bare isName
        obtain rfl := Kind.identifier.inj (names.peek_kind.symm.trans isName)
        refine ⟨bareOnly bare rfl, ?_⟩
        have isSetter := bareName?_append_equals bare
        cases isParameter with
        | setter isBare =>
            obtain rfl := Option.some.inj (isBare.symm.trans isSetter)
            exact ⟨_, rfl⟩
        | optional isBare | keyword isBare | plain isBare => cases isBare.symm.trans isSetter
      case kept =>
        intro bare
        constructor
        · intro isKept
          exact absurd ⟨bare, isKept⟩ (isParameter.not_endsInEquals bareOnly)
        · rintro ⟨behind, last, isStar, -⟩
          cases names.peek_kind.symm.trans isStar.peek_kind

end Phrase

/-! ## Every parameter of a tree is declared -/

/-- The parameter is read at a place with these tokens from there to the end. -/
def Parameter.ReadAmong (tokens : List Token) (parameter : Parameter Node) : Prop :=
  ∃ place next, place.ahead <:+ tokens ∧ Phrase.Reads .parameter place parameter next

/-- The parameters of a definition, or of the block behind the arguments of a call. -/
def Node.parameters : Node → List (Parameter Node)
  | .method _ inner | .block inner | .call _ _ (some inner) => inner.parameters
  | _ => []

namespace Phrase

/-- The parameters at the top of what a phrase yields. -/
def Form.declared : (form : Form) → form.Value → List (Parameter Node)
  | .definition, whole => whole.parameters
  | .parameters, list | .parameterList, list => list
  | _, _ => []

theorem Reads.declared_readAmong
    {tokens : List Token} {form : Form} {cursor next : Cursor} {value : form.Value}
    (reads : Reads form cursor value next) (within : cursor.ahead <:+ tokens) :
    ∀ parameter ∈ form.declared value, parameter.ReadAmong tokens := by
  induction reads with
  | definition _ _ areRead => exact areRead within
  | parameters opens _ _ _ areRead => exact areRead (opens.suffix.trans within)
  | lastParameter isFirst =>
      exact List.forall_mem_singleton.2 ⟨_, _, within, isFirst⟩
  | moreParameters isFirst comma _ _ areRead =>
      have behind := comma.suffix.trans (isFirst.suffix.trans within)
      exact List.forall_mem_cons.2 ⟨⟨_, _, within, isFirst⟩, areRead behind⟩
  | _ => exact List.forall_mem_nil _

end Phrase

namespace Node

/-- All parameters of a node are read among the tokens. -/
theorem Made.readAmong {tokens : List Token} {node : Node} (made : node.Made tokens) :
    ∀ parameter ∈ node.parameters, parameter.ReadAmong tokens := by
  cases made with
  | callWith _ _ within isBlock | block within isBlock | method _ within isBlock =>
      exact isBlock.declared_readAmong within
  | _ => exact List.forall_mem_nil _

end Node

/-- However the tokens of a text are laid out, every parameter of the tree they make is declared at a
place among them: with a value where its name has taken in an equals sign, and with the sign left in
its name only behind a star. -/
theorem declared_of_parseTokens
    {source : String} {file : Option String} {tokens laid : List Token} {nodes : List Node}
    (lexed : tokenize source file = .ok tokens)
    (laidOut : ∀ token ∈ laid, token.kind.isLayout = false → token ∈ tokens)
    (parsed : parseTokens laid = .ok nodes) :
    (∀ statement ∈ nodes, ∀ part, Node.Occurs part statement → ∀ parameter ∈ part.parameters,
      parameter.ReadAmong (Cursor.ofTokens laid).ahead) ∧
    ∀ place next parameter, place.ahead <:+ (Cursor.ofTokens laid).ahead →
      Phrase.Reads .parameter place parameter next → parameter.DeclaredAt place := by
  constructor
  · intro statement member part occurs
    have whole := whole_of_parseTokens parsed statement member
    exact (whole.everywhere part occurs).made.readAmong
  · intro place next parameter within reads
    refine reads.declaredAt ?_
    intro bare isName
    rcases Cursor.accepts_of_peek_kind isName (by simp) with ⟨behind, accepts⟩
    rcases accepts.ahead with ⟨token, isAhead, isKind⟩
    have ahead : token ∈ (Cursor.ofTokens laid).ahead :=
      within.subset (isAhead ▸ List.mem_cons_self)
    have significant := (List.takeWhile_sublist _).subset ahead
    have member : token ∈ laid := (List.mem_filter.1 significant).1
    exact not_endsInEquals_of_tokenize lexed (laidOut token member (by rw [isKind]; rfl)) isKind

/-- An equals sign that is taken off in front of a number, and one behind a star that stays. -/
theorem declared_nested_parameters :
    ∃ tokens laid nodes, tokenize "m -> (a= 1, c: &> (*b= ))\nx" none = .ok tokens ∧
      laid.map Token.kind = [.identifier "m", .mark .arrow, .mark .leftParen, .identifier "a=",
        .integer 1, .mark .comma, .identifier "c", .mark .colon, .mark .blockArrow,
        .mark .leftParen, .operator .star, .identifier "b=", .mark .rightParen, .mark .rightParen,
        .newline, .indent, .identifier "x", .dedent, .endOfInput] ∧
      (∀ token ∈ laid, token.kind.isLayout = false → token ∈ tokens) ∧
      parseTokens laid = .ok nodes ∧
      nodes = [.method "m" ⟨[.optional "a" (.integer 1), .keyword "c" (.block ⟨[.splat "b="], []⟩)],
        [.call "x" [] none]⟩] ∧
      (∀ statement ∈ nodes, ∀ part, Node.Occurs part statement → ∀ parameter ∈ part.parameters,
        parameter.ReadAmong (Cursor.ofTokens laid).ahead) ∧
      ∀ place next parameter, place.ahead <:+ (Cursor.ofTokens laid).ahead →
        Phrase.Reads .parameter place parameter next → parameter.DeclaredAt place := by
  let token (kind : Kind) (lexeme : String) (column : Nat) (spaced : Bool) : Token :=
    ⟨kind, lexeme, ⟨1, column, none⟩, spaced⟩
  let header : List Token :=
    [token (.identifier "m") "m" 1 false, token (.mark .arrow) "->" 3 true,
      token (.mark .leftParen) "(" 6 true, token (.identifier "a=") "a=" 7 false,
      token (.integer 1) "1" 10 true, token (.mark .comma) "," 11 false,
      token (.identifier "c") "c" 13 true, token (.mark .colon) ":" 14 false,
      token (.mark .blockArrow) "&>" 16 true, token (.mark .leftParen) "(" 19 true,
      token (.operator .star) "*" 20 false, token (.identifier "b=") "b=" 21 false,
      token (.mark .rightParen) ")" 24 true, token (.mark .rightParen) ")" 25 false,
      token .newline "\n" 26 false]
  let word : Token := ⟨.identifier "x", "x", ⟨2, 1, none⟩, false⟩
  let ending : Token := ⟨.endOfInput, "", ⟨2, 2, none⟩, false⟩
  let indent : Token := ⟨.indent, "", ⟨2, 1, none⟩, false⟩
  let dedent : Token := ⟨.dedent, "", ⟨2, 2, none⟩, false⟩
  have lexed : tokenize "m -> (a= 1, c: &> (*b= ))\nx" none = .ok (header ++ [word, ending]) := by
    with_unfolding_all rfl
  have laidOut : ∀ token ∈ header ++ [indent, word, dedent, ending],
      token.kind.isLayout = false → token ∈ header ++ [word, ending] := by
    intro token member inLine
    rcases List.mem_append.1 member with inHeader | inBody
    · exact List.mem_append_left _ inHeader
    · have isWord : token = word := by
        simp only [List.mem_cons, List.not_mem_nil, or_false] at inBody
        rcases inBody with rfl | rfl | rfl | rfl
        · cases inLine
        · rfl
        · cases inLine
        · cases inLine
      simp [isWord]
  have parsed : parseTokens (header ++ [indent, word, dedent, ending]) =
      .ok [.method "m" ⟨[.optional "a" (.integer 1), .keyword "c" (.block ⟨[.splat "b="], []⟩)],
        [.call "x" [] none]⟩] := by
    with_unfolding_all rfl
  exact ⟨_, _, _, lexed, rfl, laidOut, parsed, rfl, declared_of_parseTokens lexed laidOut parsed⟩

/-- Behind a star an equals sign stays in the name of a parameter. -/
theorem equals_kept_behind_star :
    ¬∀ (source : String) (file : Option String) (tokens laid : List Token) (nodes : List Node),
      tokenize source file = .ok tokens →
      (∀ token ∈ laid, token.kind.isLayout = false → token ∈ tokens) →
      parseTokens laid = .ok nodes →
      ∀ statement ∈ nodes, ∀ part, Node.Occurs part statement → ∀ parameter ∈ part.parameters,
        ¬EndsInEquals parameter.name := by
  intro law
  let token (kind : Kind) (lexeme : String) (column : Nat) (spaced : Bool) : Token :=
    ⟨kind, lexeme, ⟨1, column, none⟩, spaced⟩
  let tokens : List Token :=
    [token (.identifier "m") "m" 1 false, token (.mark .arrow) "->" 3 true,
      token (.mark .leftParen) "(" 6 true, token (.operator .star) "*" 7 false,
      token (.identifier "a=") "a=" 8 false, token (.mark .rightParen) ")" 11 true,
      token .endOfInput "" 12 false]
  have lexed : tokenize "m -> (*a= )" none = .ok tokens := by with_unfolding_all rfl
  have parsed : parseTokens tokens = .ok [.method "m" ⟨[.splat "a="], []⟩] := by
    with_unfolding_all rfl
  have noSign := law _ none tokens tokens _ lexed (fun _ member _ => member) parsed _
    List.mem_cons_self _ (.root _) (.splat "a=") List.mem_cons_self
  exact noSign ⟨"a", rfl⟩

end ScriptFront
