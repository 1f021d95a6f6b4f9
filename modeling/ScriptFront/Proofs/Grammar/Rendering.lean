import ScriptFront.Proofs.Grammar.Climbing

/-!
# Renderings of programs

A rendering says which tokens a program is written with.  It leaves open what carries no meaning:
the text and the place of every token, most of the spacing, how many newlines stand between two
lines, and whether an empty list of parameters has parentheses.
-/

namespace ScriptFront

/-- What a rendering asks for at one place. -/
inductive Slot where
  /-- A token of a kind, behind a blank or not if that matters. -/
  | token (kind : Kind) (spaced? : Option Bool)
  /-- A number of newlines or more. -/
  | newlines (least : Nat)
  /-- A pair of parentheses with nothing between them, or nothing. -/
  | parentheses
deriving DecidableEq, Repr

namespace Slot

/-- A token of a kind, however it is spaced. -/
def of (kind : Kind) : Slot := .token kind none

/-- The rendering with another spacing of its first token. -/
def respace (spaced? : Option Bool) : List Slot → List Slot
  | .token kind _ :: others => .token kind spaced? :: others
  | slots => slots

/-- Renderings with commas between them. -/
def separated : List (List Slot) → List Slot
  | [] => []
  | [only] => only
  | first :: others => first ++ of (.mark .comma) :: separated others

/-- Parameters between parentheses. -/
def parenthesized : List (List Slot) → List Slot
  | [] => [.parentheses]
  | parameters => of (.mark .leftParen) :: separated parameters ++ [of (.mark .rightParen)]

/-- Statements as an indented body. -/
def indented : List Slot → List Slot
  | [] => []
  | slots => .newlines 1 :: of .indent :: .newlines 0 :: slots ++ [of .dedent]

end Slot

/-- The tokens are what the rendering asks for. -/
inductive Fits : List Slot → List Token → Prop where
  | nil : Fits [] []
  | token {kind : Kind} {spaced? : Option Bool} {slots : List Slot} {token : Token}
      {tokens : List Token}
      (isKind : token.kind = kind)
      (isSpaced : ∀ spaced, spaced? = some spaced → token.spaced = spaced)
      (others : Fits slots tokens) :
      Fits (.token kind spaced? :: slots) (token :: tokens)
  | newlines {least : Nat} {slots : List Slot} {lines tokens : List Token}
      (areNewlines : ∀ line ∈ lines, line.kind = .newline)
      (enough : least ≤ lines.length)
      (others : Fits slots tokens) :
      Fits (.newlines least :: slots) (lines ++ tokens)
  | parentheses {slots : List Slot} {left right : Token} {tokens : List Token}
      (opens : left.kind = .mark .leftParen)
      (closes : right.kind = .mark .rightParen)
      (others : Fits slots tokens) :
      Fits (.parentheses :: slots) (left :: right :: tokens)
  | noParentheses {slots : List Slot} {tokens : List Token}
      (others : Fits slots tokens) :
      Fits (.parentheses :: slots) tokens

/-- The fewest tokens that a slot can be filled with. -/
def Slot.sample : Slot → List Token
  | .token kind spaced? => [⟨kind, "", ⟨1, 1, none⟩, spaced?.getD false⟩]
  | .newlines least => List.replicate least ⟨.newline, "\n", ⟨1, 1, none⟩, false⟩
  | .parentheses => []

/-- Every rendering can be filled with tokens. -/
theorem fits_sample (slots : List Slot) : Fits slots (slots.flatMap Slot.sample) := by
  induction slots with
  | nil => exact .nil
  | cons head tail inductionHypothesis =>
      rw [List.flatMap_cons]
      cases head with
      | token kind spaced? =>
          refine .token rfl ?_ inductionHypothesis
          rintro spaced rfl
          rfl
      | newlines least =>
          refine .newlines ?_ ?_ inductionHypothesis
          · intro line member
            rw [List.eq_of_mem_replicate member]
          · exact Nat.le_of_eq List.length_replicate.symm
      | parentheses => exact .noParentheses inductionHypothesis

/-! ## The rendering of a tree -/

namespace Node

/-- The statement is written with an indented body behind it. -/
def endsWithBody : Node → Bool
  | .classDefinition _ _ body | .moduleDefinition _ body => !body.isEmpty
  | .method _ inner | .block inner | .call _ _ (some inner) => !inner.body.isEmpty
  | _ => false

/-- How a part of a string is spaced: a text joins what stands in front of it. -/
def partSpacing : Node → Option Bool
  | .text _ => some false
  | _ => none

end Node

mutual

/-- The tokens of a tree. -/
def Node.slots : Node → List Slot
  | .integer value => [.of (.integer value)]
  | .float value => [.of (.float value)]
  | .text value => [.of (.fragment value)]
  | .interpolation inner =>
    .of .interpolationStart :: inner.slots ++ [.of .interpolationEnd]
  | .interpolated parts => Slot.respace none (partSlots parts)
  | .constant name => [.of (.constant name)]
  | .symbol name => .of (.mark .colon) :: Slot.respace (some false) name.slots
  | .array elements =>
    .of (.mark .leftBracket) :: Slot.separated (elementSlots elements) ++
      [.of (.mark .rightBracket)]
  | .hash pairs =>
    .of (.mark .leftBrace) :: Slot.separated (pairSlots pairs) ++ [.of (.mark .rightBrace)]
  | .call name arguments trailing =>
    .of (.identifier name) :: .token (.mark .leftParen) (some false) ::
      Slot.separated (elementSlots arguments) ++
        .of (.mark .rightParen) :: trailingSlots trailing
  | .block ⟨parameters, body⟩ =>
    .of (.mark .blockArrow) :: Slot.parenthesized (parameterSlots parameters) ++
      Slot.indented (statementSlots body)
  | .method name ⟨parameters, body⟩ =>
    .of (.identifier name) :: .of (.mark .arrow) ::
      Slot.parenthesized (parameterSlots parameters) ++ Slot.indented (statementSlots body)
  | .classDefinition name superclass body =>
    .of (.keyword .classWord) :: name.slots ++ superclassSlots superclass ++
      Slot.indented (statementSlots body)
  | .moduleDefinition name body =>
    .of (.keyword .moduleWord) :: name.slots ++ Slot.indented (statementSlots body)
  | .unary operator operand => .of (.operator operator) :: operand.slots
  | .binary operator left right => left.slots ++ .of (.operator operator) :: right.slots
  | .group inner => .of (.mark .leftParen) :: inner.slots ++ [.of (.mark .rightParen)]

/-- The tokens of each tree of a list. -/
def elementSlots : List Node → List (List Slot)
  | [] => []
  | element :: elements => element.slots :: elementSlots elements

/-- The tokens of the parts of a string. -/
def partSlots : List Node → List Slot
  | [] => []
  | part :: parts => Slot.respace part.partSpacing part.slots ++ partSlots parts

/-- A pair has its colon in front of a blank. -/
def pairSlots : List (Pair Node) → List (List Slot)
  | [] => []
  | ⟨key, value⟩ :: pairs =>
    (key.slots ++ .of (.mark .colon) :: Slot.respace (some true) value.slots) :: pairSlots pairs

def Parameter.slots : Parameter Node → List Slot
  | .plain name => [.of (.identifier name)]
  | .splat name => [.of (.operator .star), .of (.identifier name)]
  | .optional name value => .of (.identifier name) :: .of (.operator .assign) :: value.slots
  | .keyword name value => .of (.identifier name) :: .of (.mark .colon) :: value.slots

def parameterSlots : List (Parameter Node) → List (List Slot)
  | [] => []
  | parameter :: parameters => parameter.slots :: parameterSlots parameters

def trailingSlots : Option (Block Node) → List Slot
  | none => []
  | some ⟨parameters, body⟩ =>
    .of (.mark .blockArrow) :: Slot.parenthesized (parameterSlots parameters) ++
      Slot.indented (statementSlots body)

def superclassSlots : Option Node → List Slot
  | none => []
  | some base => .of (.operator .less) :: base.slots

/-- Statements, each on a line of its own; behind an indented body no newline is needed. -/
def statementSlots : List Node → List Slot
  | [] => []
  | statement :: statements =>
    statement.slots ++
      .newlines (if statements.isEmpty || statement.endsWithBody then 0 else 1) ::
        statementSlots statements

end

/-- The tokens of a program. -/
def programSlots (statements : List Node) : List Slot := .newlines 0 :: statementSlots statements

/-! ## Trees that can be written -/

namespace Node

/-- Expressions that hold no definition. -/
inductive IsExpression : Node → Prop where
  | integer (value : Int) : IsExpression (.integer value)
  | float (value : Binary64) : IsExpression (.float value)
  | constant (name : String) : IsExpression (.constant name)
  | string {parts : StringParts} (inners : ∀ inner ∈ parts.inners, IsExpression inner) :
      IsExpression parts.node
  | symbol {parts : StringParts} (inners : ∀ inner ∈ parts.inners, IsExpression inner) :
      IsExpression (.symbol parts.node)
  | array {elements : List Node} (areElements : ∀ element ∈ elements, IsExpression element) :
      IsExpression (.array elements)
  | hash {pairs : List (Pair Node)}
      (keys : ∀ pair ∈ pairs, IsExpression pair.key)
      (values : ∀ pair ∈ pairs, IsExpression pair.value) :
      IsExpression (.hash pairs)
  | call {name : String} {arguments : List Node}
      (areArguments : ∀ argument ∈ arguments, IsExpression argument) :
      IsExpression (.call name arguments none)
  | group {inner : Node} (isInner : IsExpression inner) : IsExpression (.group inner)
  | unary {operator : Operator} {operand : Node}
      (isUnary : operator.isUnary = true)
      (notBinary : operand.isBinary = false)
      (isOperand : IsExpression operand) :
      IsExpression (.unary operator operand)
  | binary {operator : Operator} {binding : Binding} {left right : Node}
      (isBinding : operator.binding? = some binding)
      (admitsLeft : binding.AdmitsLeft left)
      (admitsRight : binding.AdmitsRight right)
      (isLeft : IsExpression left)
      (isRight : IsExpression right) :
      IsExpression (.binary operator left right)

end Node

/-- A parameter whose name does not end in an equals sign, with an expression as its value. -/
def Parameter.IsWritable : Parameter Node → Prop
  | .plain name => name.toList.getLast? ≠ some '='
  | .splat _ => True
  | .optional name value | .keyword name value =>
    name.toList.getLast? ≠ some '=' ∧ value.IsExpression

namespace Node

/-- Expressions, and definitions that stand on lines of their own. -/
inductive IsStatement : Node → Prop where
  | expression {node : Node} (isExpression : node.IsExpression) : IsStatement node
  | classDefinition {name : String} {base? : Option String} {body : List Node}
      (areStatements : ∀ statement ∈ body, IsStatement statement) :
      IsStatement (.classDefinition (.constant name) (base?.map .constant) body)
  | moduleDefinition {name : String} {body : List Node}
      (areStatements : ∀ statement ∈ body, IsStatement statement) :
      IsStatement (.moduleDefinition (.constant name) body)
  | method {name : String} {parameters : List (Parameter Node)} {body : List Node}
      (areParameters : ∀ parameter ∈ parameters, parameter.IsWritable)
      (areStatements : ∀ statement ∈ body, IsStatement statement) :
      IsStatement (.method name ⟨parameters, body⟩)
  | block {parameters : List (Parameter Node)} {body : List Node}
      (areParameters : ∀ parameter ∈ parameters, parameter.IsWritable)
      (areStatements : ∀ statement ∈ body, IsStatement statement) :
      IsStatement (.block ⟨parameters, body⟩)
  | call {name : String} {arguments : List Node} {parameters : List (Parameter Node)}
      {body : List Node}
      (areArguments : ∀ argument ∈ arguments, argument.IsExpression)
      (areParameters : ∀ parameter ∈ parameters, parameter.IsWritable)
      (areStatements : ∀ statement ∈ body, IsStatement statement) :
      IsStatement (.call name arguments (some ⟨parameters, body⟩))

end Node

/-! ## Parts of renderings -/

namespace Fits

variable {kind : Kind} {spaced? : Option Bool} {slots first second : List Slot}
  {tokens : List Token}

theorem token_cons (fits : Fits (.token kind spaced? :: slots) tokens) :
    ∃ token others, tokens = token :: others ∧ token.kind = kind ∧
      (∀ spaced, spaced? = some spaced → token.spaced = spaced) ∧ Fits slots others := by
  cases fits with
  | token isKind isSpaced others => exact ⟨_, _, rfl, isKind, isSpaced, others⟩

theorem of_cons (fits : Fits (.of kind :: slots) tokens) :
    ∃ token others, tokens = token :: others ∧ token.kind = kind ∧ Fits slots others := by
  rcases fits.token_cons with ⟨token, others, whole, isKind, -, fitsOthers⟩
  exact ⟨token, others, whole, isKind, fitsOthers⟩

theorem of_singleton (fits : Fits [.of kind] tokens) :
    ∃ token, tokens = [token] ∧ token.kind = kind := by
  rcases fits.of_cons with ⟨token, others, rfl, isKind, nothing⟩
  cases nothing
  exact ⟨token, rfl, isKind⟩

theorem newlines_cons {least : Nat} (fits : Fits (.newlines least :: slots) tokens) :
    ∃ lines others, tokens = lines ++ others ∧ (∀ line ∈ lines, line.kind = .newline) ∧
      least ≤ lines.length ∧ Fits slots others := by
  cases fits with
  | newlines areNewlines enough others => exact ⟨_, _, rfl, areNewlines, enough, others⟩

theorem append (fits : Fits (first ++ second) tokens) :
    ∃ left right, tokens = left ++ right ∧ Fits first left ∧ Fits second right := by
  induction first generalizing tokens with
  | nil => exact ⟨[], tokens, rfl, .nil, fits⟩
  | cons head tail inductionHypothesis =>
      rw [List.cons_append] at fits
      cases fits with
      | token isKind isSpaced others =>
          rcases inductionHypothesis others with ⟨left, right, rfl, isLeft, isRight⟩
          exact ⟨_, right, rfl, .token isKind isSpaced isLeft, isRight⟩
      | newlines areNewlines enough others =>
          rcases inductionHypothesis others with ⟨left, right, rfl, isLeft, isRight⟩
          exact ⟨_, right, (List.append_assoc ..).symm, .newlines areNewlines enough isLeft,
            isRight⟩
      | parentheses opens closes others =>
          rcases inductionHypothesis others with ⟨left, right, rfl, isLeft, isRight⟩
          exact ⟨_, right, rfl, .parentheses opens closes isLeft, isRight⟩
      | noParentheses others =>
          rcases inductionHypothesis others with ⟨left, right, rfl, isLeft, isRight⟩
          exact ⟨left, right, rfl, .noParentheses isLeft, isRight⟩

end Fits

end ScriptFront
