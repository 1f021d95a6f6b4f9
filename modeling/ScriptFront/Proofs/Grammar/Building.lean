import ScriptFront.Proofs.Grammar.Climbing
import ScriptFront.Proofs.Grammar.Passing

/-!
# How trees are built

Every node of a tree is made by one rule of the grammar, out of what that rule has read.  What the
rules make sure of for the nodes that they make therefore holds at every node of every tree.
-/

namespace ScriptFront

/-! ## What is left to read -/

namespace Cursor

variable {cursor next : Cursor} {token : Token} {kind : Kind}

theorem Takes.suffix (takes : cursor.Takes token next) : next.ahead <:+ cursor.ahead :=
  takes.ahead ▸ List.suffix_cons token next.ahead

theorem Accepts.suffix (accepts : cursor.Accepts kind next) : next.ahead <:+ cursor.ahead := by
  rcases accepts with ⟨token, takes, -⟩
  exact takes.suffix

theorem skipNewlines_suffix (cursor : Cursor) : cursor.skipNewlines.ahead <:+ cursor.ahead := by
  rcases ahead_skipNewlines cursor with ⟨lines, isAhead, -⟩
  exact ⟨lines, isAhead.symm⟩

theorem StartsBody.suffix (starts : cursor.StartsBody next) : next.ahead <:+ cursor.ahead := by
  rcases starts with ⟨line, isLine, isIndent⟩
  exact isIndent.suffix.trans (line.skipNewlines_suffix.trans isLine.suffix)

theorem NamesKey.suffix {name : String} (names : cursor.NamesKey name next) :
    next.ahead <:+ cursor.ahead := by
  rcases names with ⟨word, colon, takes, -, isColon, -⟩
  exact isColon.suffix.trans takes.suffix

end Cursor

theorem Phrase.Reads.suffix {form : Phrase.Form} {cursor next : Cursor} {value : form.Value}
    (reads : Reads form cursor value next) : next.ahead <:+ cursor.ahead := by
  rcases reads.passed with ⟨passed, isPassed, -⟩
  exact ⟨passed, isPassed.symm⟩

/-! ## Nodes that are made by a rule -/

namespace Node

open Phrase

/-- The ways in which a node is made, with what is read for it among the tokens. -/
inductive Made (tokens : List Token) : Node → Prop where
  | integer (value : Int) : Made tokens (.integer value)
  | float (value : Binary64) : Made tokens (.float value)
  | constant (name : String) : Made tokens (.constant name)
  | text (value : String) : Made tokens (.text value)
  | interpolation (inner : Node) : Made tokens (.interpolation inner)
  | string (text : String) (inner : Node) (others : StringParts) :
      Made tokens (.interpolated (StringParts.insertion text inner others).nodes)
  | symbol (name : StringParts) : Made tokens (.symbol name.node)
  | array (elements : List Node) : Made tokens (.array elements)
  | hash (pairs : List (Pair Node)) : Made tokens (.hash pairs)
  | group (inner : Node) : Made tokens (.group inner)
  | call (name : String) (list : List Node) : Made tokens (.call name list none)
  /-- A call with a block behind its arguments. -/
  | callWith {place last : Cursor} {block : Block Node} (name : String) (list : List Node)
      (within : place.ahead <:+ tokens) (isBlock : Reads .definition place block last) :
      Made tokens (.call name list (some block))
  | block {place last : Cursor} {block : Block Node}
      (within : place.ahead <:+ tokens) (isBlock : Reads .definition place block last) :
      Made tokens (.block block)
  | method {place last : Cursor} {block : Block Node} (name : String)
      (within : place.ahead <:+ tokens) (isBlock : Reads .definition place block last) :
      Made tokens (.method name block)
  | classDefinition (name : String) (base? : Option String) (nodes : List Node) :
      Made tokens (.classDefinition (.constant name) (base?.map .constant) nodes)
  | moduleDefinition (name : String) (nodes : List Node) :
      Made tokens (.moduleDefinition (.constant name) nodes)
  | unary {inCommand : Bool} {place last : Cursor} {operator : Operator} {operand : Node}
      (isUnary : operator.isUnary = true)
      (isOperand : Reads (.unary inCommand) place operand last) :
      Made tokens (.unary operator operand)
  /-- An operator that may follow its left operand, with the right one behind it. -/
  | binary {inCommand : Bool} {place behind last : Cursor} {operator : Operator} {binding : Binding}
      {left right : Node} (follows : place.Follows left)
      (continues : place.Continues operator binding behind)
      (isRight : Reads (.binary inCommand binding.operandLevel) behind right last) :
      Made tokens (.binary operator left right)

/-- A rule has made the node, and an insertion stands below it only if it is a string. -/
structure Built (tokens : List Token) (node : Node) : Prop where
  made : node.Made tokens
  insertion : ∀ inner, .interpolation inner ∈ node.children → ∃ parts, node = .interpolated parts

/-- Every node of the tree is built, and the tree is no insertion, which is only a part of one. -/
structure Whole (tokens : List Token) (node : Node) : Prop where
  notInserted : ∀ inner, node ≠ .interpolation inner
  everywhere : node.Everywhere (Built tokens)

variable {tokens : List Token} {node : Node}

theorem everywhere_built
    (made : node.Made tokens) (children : ∀ child ∈ node.children, child.Whole tokens) :
    node.Everywhere (Built tokens) := by
  refine everywhere_iff.2 ⟨⟨made, ?_⟩, ?_⟩
  · intro inner member
    exact absurd rfl ((children _ member).notInserted inner)
  · intro child member
    exact (children child member).everywhere

/-- A whole tree from whole trees. -/
theorem whole_of_made
    (made : node.Made tokens) (notInserted : ∀ inner, node ≠ .interpolation inner)
    (children : ∀ child ∈ node.children, child.Whole tokens) : node.Whole tokens :=
  ⟨notInserted, everywhere_built made children⟩

theorem whole_text (value : String) : (Node.text value).Whole tokens :=
  whole_of_made (.text value) nofun (List.forall_mem_nil _)

theorem whole_constant (name : String) : (Node.constant name).Whole tokens :=
  whole_of_made (.constant name) nofun (List.forall_mem_nil _)

theorem whole_symbolName (name : String) : (Node.symbol (.text name)).Whole tokens :=
  whole_of_made (.symbol (.last name)) nofun (List.forall_mem_singleton.2 (whole_text name))

theorem whole_hash_iff (pairs : List (Pair Node)) :
    (Node.hash pairs).Whole tokens ↔ ∀ child ∈ pairs.flatMap Pair.nodes, child.Whole tokens := by
  constructor
  · intro whole child member
    rcases everywhere_iff.1 whole.everywhere with ⟨built, below⟩
    refine ⟨?_, below child member⟩
    rintro inner rfl
    rcases built.insertion inner member with ⟨parts, isString⟩
    cases isString
  · exact whole_of_made (.hash pairs) nofun

/-- A class whose name is a constant, and its base as well if there is one. -/
theorem whole_classDefinition
    (name : String) (base? : Option String) {nodes : List Node}
    (whole : ∀ statement ∈ nodes, statement.Whole tokens) :
    (Node.classDefinition (.constant name) (base?.map .constant) nodes).Whole tokens := by
  refine whole_of_made (.classDefinition name base? nodes) nofun ?_
  refine List.forall_mem_cons.2 ⟨whole_constant name, List.forall_mem_append.2 ⟨?_, whole⟩⟩
  cases base? with
  | none => exact List.forall_mem_nil _
  | some word => exact List.forall_mem_singleton.2 (whole_constant word)

/-- A call of whole arguments, with or without a block behind them. -/
theorem whole_call
    {name : String} {list : List Node} {block? : Option (Block Node)}
    (made : (Node.call name list block?).Made tokens) (given : ∀ node ∈ list, node.Whole tokens)
    (trailing : ∀ node ∈ block?.toList.flatMap Block.nodes, node.Whole tokens) :
    (Node.call name list block?).Whole tokens :=
  whole_of_made made nofun (List.forall_mem_append.2 ⟨given, trailing⟩)

end Node

namespace StringParts

open Node

variable {tokens : List Token} {parts : StringParts}

theorem everywhere_nodes (whole : ∀ inner ∈ parts.inners, inner.Whole tokens) :
    ∀ node ∈ parts.nodes, node.Everywhere (Built tokens) := by
  induction parts with
  | last text => exact List.forall_mem_singleton.2 (whole_text text).everywhere
  | insertion text inner others inductionHypothesis =>
      rcases List.forall_mem_cons.1 whole with ⟨first, behind⟩
      have inserted : (Node.interpolation inner).Everywhere (Built tokens) :=
        everywhere_built (.interpolation inner) (List.forall_mem_singleton.2 first)
      exact List.forall_mem_cons.2 ⟨(whole_text text).everywhere,
        List.forall_mem_cons.2 ⟨inserted, inductionHypothesis behind⟩⟩

/-- A string is a text, or insertions stand below it. -/
theorem whole_node (whole : ∀ inner ∈ parts.inners, inner.Whole tokens) :
    parts.node.Whole tokens := by
  cases parts with
  | last text => exact whole_text text
  | insertion text inner others =>
      refine ⟨nofun, everywhere_iff.2 ⟨⟨.string text inner others, ?_⟩, everywhere_nodes whole⟩⟩
      intro deeper _
      exact ⟨_, rfl⟩

theorem whole_symbol (whole : ∀ inner ∈ parts.inners, inner.Whole tokens) :
    (Node.symbol parts.node).Whole tokens :=
  whole_of_made (.symbol parts) nofun (List.forall_mem_singleton.2 (whole_node whole))

end StringParts

/-! ## Whole trees of phrases -/

namespace Phrase

open Node

/-- What a phrase yields is whole; of a string that is not complete, the expressions inserted into
it are. -/
def Form.YieldsWhole (tokens : List Token) : (form : Form) → form.Value → Prop
  | .stringParts _, parts => ∀ inner ∈ parts.inners, inner.Whole tokens
  | form, value => ∀ node ∈ form.yielded value, node.Whole tokens

/-- Every tree that a phrase yields is whole if those it takes over are. -/
theorem Reads.whole
    {tokens : List Token} {form : Form} {cursor next : Cursor} {value : form.Value}
    (reads : Reads form cursor value next) (ordered : form.Ordered cursor)
    (within : cursor.ahead <:+ tokens) (given : ∀ node ∈ form.given, node.Whole tokens) :
    form.YieldsWhole tokens value := by
  have nothing : ∀ node ∈ ([] : List Node), node.Whole tokens := List.forall_mem_nil _
  have one {node : Node} (whole : node.Whole tokens) : ∀ other ∈ [node], other.Whole tokens :=
    List.forall_mem_singleton.2 whole
  -- Carried along is what the operators in front leave to the phrase, and that its tokens are among
  -- the given ones: the nodes of operators and definitions keep them as evidence.
  induction reads with
  -- Operators.
  | binary isLeft _ leftWhole furtherWhole =>
      have notBinary : Node.isBinary _ = false := isLeft.placed trivial
      exact furtherWhole (ordered_of_not_isBinary notBinary) (isLeft.suffix.trans within)
        (leftWhole trivial within nothing)
  | climb continues tight isRight single _ rightWhole furtherWhole =>
      have behind := continues.2.1.suffix.trans within
      have below := (isRight.placed trivial).2
      have right := List.forall_mem_singleton.1 (rightWhole trivial behind nothing)
      have left := List.forall_mem_singleton.1 given
      refine furtherWhole (ordered_binary continues.2.2 tight below single)
        (isRight.suffix.trans behind) (one ?_)
      exact whole_of_made (.binary ordered.2 continues isRight) nofun
        (List.forall_mem_cons.2 ⟨left, one right⟩)
  | unary sign isUnary isOperand operandWhole =>
      exact one (whole_of_made (.unary isUnary isOperand) nofun
        (operandWhole trivial (sign.suffix.trans within) nothing))
  -- Definitions.
  | definition areParameters _ parametersWhole bodyWhole =>
      exact List.forall_mem_append.2 ⟨parametersWhole trivial within nothing,
        bodyWhole trivial (areParameters.suffix.trans within) nothing⟩
  | block here isBlock blockWhole =>
      have behind := here.suffix.trans within
      exact one (whole_of_made (.block behind isBlock) nofun (blockWhole trivial behind nothing))
  | method arrow isBlock blockWhole =>
      have behind := arrow.suffix.trans within
      exact one (whole_of_made (.method _ behind isBlock) nofun
        (blockWhole trivial behind nothing))
  | withBlock arrow isBlock blockWhole =>
      have behind := arrow.suffix.trans within
      refine one (whole_call (.callWith _ _ behind isBlock) given ?_)
      simpa [Form.YieldsWhole, Form.yielded] using blockWhole trivial behind nothing
  | withoutBlock => exact one (whole_call (.call _ _) given nothing)
  | classDefinition names _ _ bodyWhole =>
      exact one (whole_classDefinition _ none
        (bodyWhole trivial (names.suffix.trans within) nothing))
  | derivedClass names derives namesBase _ bodyWhole =>
      have behind := namesBase.suffix.trans (derives.suffix.trans (names.suffix.trans within))
      exact one (whole_classDefinition _ (some _) (bodyWhole trivial behind nothing))
  | moduleDefinition names _ bodyWhole =>
      exact one (whole_of_made (.moduleDefinition _ _) nofun
        (List.forall_mem_cons.2 ⟨whole_constant _,
          bodyWhole trivial (names.suffix.trans within) nothing⟩))
  | lastParameter _ _ firstWhole =>
      simp only [Form.YieldsWhole, Form.yielded, Parameter.values_cons, List.filterMap_nil,
        List.append_nil]
      exact firstWhole trivial within nothing
  | moreParameters isFirst comma _ firstWhole othersWhole =>
      have behind := comma.suffix.trans (isFirst.suffix.trans within)
      simp only [Form.YieldsWhole, Form.yielded, Parameter.values_cons, List.forall_mem_append]
      exact ⟨firstWhole trivial within nothing, othersWhole trivial behind nothing⟩
  -- Strings and what they name.
  | string here _ partsWhole =>
      exact one (StringParts.whole_node (partsWhole trivial (here.suffix.trans within) nothing))
  | insertion opens isInner closes _ innerWhole othersWhole =>
      have inside := opens.suffix.trans within
      have behind := closes.suffix.trans (isInner.suffix.trans inside)
      exact List.forall_mem_cons.2
        ⟨List.forall_mem_singleton.1 (innerWhole trivial inside nothing),
          othersWhole trivial behind nothing⟩
  | symbolString _ here _ partsWhole =>
      exact one (StringParts.whole_symbol (partsWhole trivial (here.suffix.trans within) nothing))
  | symbolName => exact one (whole_symbolName _)
  | integer => exact one (whole_of_made (.integer _) nofun nothing)
  | float => exact one (whole_of_made (.float _) nofun nothing)
  | constant => exact one (whole_constant _)
  -- Lists and brackets.
  | moreStatements _ isFirst _ firstWhole othersWhole =>
      have start := (Cursor.skipNewlines_suffix _).trans within
      exact List.forall_mem_append.2 ⟨firstWhole trivial start nothing,
        othersWhole trivial (isFirst.suffix.trans start) nothing⟩
  | lastEntry _ _ firstWhole =>
      simpa [Form.YieldsWhole, Form.yielded] using firstWhole trivial within nothing
  | moreEntries isFirst comma _ firstWhole othersWhole =>
      have behind := comma.suffix.trans (isFirst.suffix.trans within)
      exact List.forall_mem_append.2
        ⟨firstWhole trivial within nothing, othersWhole trivial behind nothing⟩
  | keyed names _ valueWhole =>
      exact List.forall_mem_cons.2 ⟨whole_symbolName _,
        valueWhole trivial (names.suffix.trans within) nothing⟩
  | pair _ isKey separates _ keyWhole valueWhole =>
      have behind := separates.2.1.suffix.trans (isKey.suffix.trans within)
      exact List.forall_mem_append.2
        ⟨keyWhole trivial within nothing, valueWhole trivial behind nothing⟩
  | lastPair => simpa [Form.YieldsWhole, Form.yielded, Form.given] using given
  | morePairs comma _ othersWhole =>
      exact List.forall_mem_append.2
        ⟨given, othersWhole trivial (comma.suffix.trans within) nothing⟩
  | bareHash _ pairsWhole =>
      exact one ((whole_hash_iff _).2 (pairsWhole trivial within given))
  | emptyHash => exact one ((whole_hash_iff _).2 nothing)
  | hash _ _ _ pairsWhole => exact one ((whole_hash_iff _).2 (pairsWhole trivial within nothing))
  | array here _ elementsWhole =>
      exact one (whole_of_made (.array _) nofun
        (elementsWhole trivial (here.suffix.trans within) nothing))
  | group _ _ innerWhole =>
      exact one (whole_of_made (.group _) nofun (innerWhole trivial within nothing))
  | enclosed _ _ _ entriesWhole | larger _ _ _ entriesWhole | command _ _ _ entriesWhole =>
      exact Entry.forall_gather whole_hash_iff (entriesWhole trivial within nothing)
  -- Rules that hand on what they have read, from where they stand, behind a token, or behind
  -- another phrase.
  | noStatements | noBody | emptyEnclosed | noParameters | emptyParameters | splat | plain
  | noArguments | lastPart => exact nothing
  | single | stop => exact given
  | expression _ _ _ isWhole | operand _ _ isWhole | setter _ _ isWhole =>
      exact isWhole trivial within nothing
  | name here _ isWhole | classWord here _ isWhole | moduleWord here _ isWhole
  | colon here _ isWhole | brace here _ isWhole | paren here _ isWhole | body here _ _ isWhole
  | adjacent here _ _ _ isWhole | parameters here _ _ _ isWhole | parameter here _ isWhole
  | optional _ here _ isWhole | keyword _ here _ isWhole | parenthesized here _ _ isWhole =>
      exact isWhole trivial (here.suffix.trans within) nothing
  | statement isFirst _ _ firstWhole isWhole | pairs isFirst _ firstWhole isWhole
  | call _ isFirst _ firstWhole isWhole =>
      exact isWhole trivial (isFirst.suffix.trans within) (firstWhole trivial within nothing)

end Phrase

theorem whole_of_parseTokens {tokens : List Token} {nodes : List Node}
    (parsed : parseTokens tokens = .ok nodes) :
    ∀ statement ∈ nodes, statement.Whole (Cursor.ofTokens tokens).ahead := by
  rcases parseTokens_eq_ok_iff.1 parsed with ⟨last, reads⟩
  exact reads.whole trivial (List.suffix_refl _) (List.forall_mem_nil _)

end ScriptFront
