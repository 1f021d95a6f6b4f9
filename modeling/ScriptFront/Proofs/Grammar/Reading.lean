import ScriptFront.Proofs.Grammar.Steps

/-!
# The rules of the grammar

One rule for each way in which a phrase is read.  `Reads form cursor value next` says that the
phrase `form`, read from `cursor` on, has the given value and ends before `next`.  A phrase that
cannot be read here has no derivation.
-/

namespace ScriptFront

namespace Phrase

/-- A phrase, with what is known of it before it is read. -/
inductive Form where
  | statements (inBody : Bool)
  | statement
  | bareHash (first : Entry)
  | body
  | entry (inCommand : Bool)
  | entries (inCommand : Bool)
  | pairs
  | morePairs (first : Pair Node)
  | enclosed (closer : Mark)
  | hash
  | binary (inCommand : Bool) (level : Nat)
  | climb (inCommand : Bool) (level : Nat) (left : Node)
  | unary (inCommand : Bool)
  | primary (inCommand : Bool)
  | stringParts (text : String)
  | symbol
  | group
  | classDefinition
  | moduleDefinition
  | definition
  | parameters
  | parameterList
  | parameter
  | parameterValue (name : String)
  | named (inCommand : Bool) (name : String)
  | trailingBlock (inCommand : Bool) (name : String) (list : List Node)
  | arguments

/-- What the reading of a phrase yields. -/
abbrev Form.Value : Form → Type
  | .entry _ => Entry
  | .entries _ => List Entry
  | .pairs | .morePairs _ => List (Pair Node)
  | .stringParts _ => StringParts
  | .definition => Block Node
  | .parameters | .parameterList => List (Parameter Node)
  | .parameter | .parameterValue _ => Parameter Node
  | .statements _ | .body | .enclosed _ | .arguments => List Node
  | _ => Node

/-- An expression that is no part of an argument list without parentheses. -/
abbrev Form.expression : Form := .binary false Binding.loosest

inductive Reads : (form : Form) → Cursor → form.Value → Cursor → Prop where
  -- Statements
  | noStatements {inBody : Bool} {cursor : Cursor}
      (ends : cursor.skipNewlines.endsStatements inBody = true) :
      Reads (.statements inBody) cursor [] cursor.skipNewlines
  | moreStatements {inBody : Bool} {cursor next last : Cursor} {first : Node} {others : List Node}
      (more : cursor.skipNewlines.endsStatements inBody = false)
      (isFirst : Reads .statement cursor.skipNewlines first next)
      (areOthers : Reads (.statements inBody) next others last) :
      Reads (.statements inBody) cursor (first :: others) last
  | statement {cursor middle next last : Cursor} {first : Entry} {node : Node}
      (isFirst : Reads (.entry false) cursor first middle)
      (whole : Reads (.bareHash first) middle node next)
      (ends : next.EndsStatement last) :
      Reads .statement cursor node last
  | single {cursor : Cursor} {node : Node} :
      Reads (.bareHash (.single node)) cursor node cursor
  | bareHash {cursor next : Cursor} {first : Pair Node} {list : List (Pair Node)}
      (arePairs : Reads (.morePairs first) cursor list next) :
      Reads (.bareHash (.pair first)) cursor (.hash list) next
  | noBody {cursor : Cursor} (absent : cursor.bodyStart? = none) : Reads .body cursor [] cursor
  | body {cursor start next : Cursor} {nodes : List Node}
      (starts : cursor.StartsBody start)
      (areNodes : Reads (.statements true) start nodes next)
      (some : nodes ≠ []) :
      Reads .body cursor nodes next.skipDedent
  -- Lists
  | keyed {inCommand : Bool} {cursor next last : Cursor} {name : String} {value : Node}
      (names : cursor.NamesKey name next)
      (isValue : Reads (.binary inCommand Binding.loosest) next value last) :
      Reads (.entry inCommand) cursor (.pair ⟨.symbol (.text name), value⟩) last
  | expression {inCommand : Bool} {cursor next : Cursor} {node : Node}
      (unnamed : cursor.symbolKey? = none)
      (isNode : Reads (.binary inCommand Binding.loosest) cursor node next)
      (alone : next.separator? = none) :
      Reads (.entry inCommand) cursor (.single node) next
  | pair {inCommand : Bool} {cursor next behind last : Cursor} {key value : Node}
      (unnamed : cursor.symbolKey? = none)
      (isKey : Reads (.binary inCommand Binding.loosest) cursor key next)
      (separates : next.Separates behind)
      (isValue : Reads (.binary inCommand Binding.loosest) behind value last) :
      Reads (.entry inCommand) cursor (.pair ⟨key, value⟩) last
  | lastEntry {inCommand : Bool} {cursor next : Cursor} {first : Entry}
      (isFirst : Reads (.entry inCommand) cursor first next)
      (ends : next.peek.kind ≠ .mark .comma) :
      Reads (.entries inCommand) cursor [first] next
  | moreEntries {inCommand : Bool} {cursor next behind last : Cursor} {first : Entry}
      {others : List Entry}
      (isFirst : Reads (.entry inCommand) cursor first next)
      (comma : next.Accepts (.mark .comma) behind)
      (areOthers : Reads (.entries inCommand) behind others last) :
      Reads (.entries inCommand) cursor (first :: others) last
  | pairs {cursor next last : Cursor} {first : Pair Node} {list : List (Pair Node)}
      (isFirst : Reads (.entry false) cursor (.pair first) next)
      (arePairs : Reads (.morePairs first) next list last) :
      Reads .pairs cursor list last
  | lastPair {cursor : Cursor} {first : Pair Node}
      (ends : cursor.peek.kind ≠ .mark .comma) :
      Reads (.morePairs first) cursor [first] cursor
  | morePairs {cursor next last : Cursor} {first : Pair Node} {others : List (Pair Node)}
      (comma : cursor.Accepts (.mark .comma) next)
      (areOthers : Reads .pairs next others last) :
      Reads (.morePairs first) cursor (first :: others) last
  | emptyEnclosed {closer : Mark} {cursor next : Cursor}
      (closes : cursor.Accepts (.mark closer) next) :
      Reads (.enclosed closer) cursor [] next
  | enclosed {closer : Mark} {cursor next last : Cursor} {list : List Entry}
      (filled : cursor.peek.kind ≠ .mark closer)
      (areEntries : Reads (.entries false) cursor list next)
      (closes : next.Accepts (.mark closer) last) :
      Reads (.enclosed closer) cursor (Entry.gather list) last
  | emptyHash {cursor next : Cursor}
      (closes : cursor.Accepts (.mark .rightBrace) next) :
      Reads .hash cursor (.hash []) next
  | hash {cursor next last : Cursor} {list : List (Pair Node)}
      (filled : cursor.peek.kind ≠ .mark .rightBrace)
      (arePairs : Reads .pairs cursor list next)
      (closes : next.Accepts (.mark .rightBrace) last) :
      Reads .hash cursor (.hash list) last
  -- Operators
  | binary {inCommand : Bool} {level : Nat} {cursor next last : Cursor} {left node : Node}
      (isLeft : Reads (.unary inCommand) cursor left next)
      (further : Reads (.climb inCommand level left) next node last) :
      Reads (.binary inCommand level) cursor node last
  | stop {inCommand : Bool} {level : Nat} {cursor : Cursor} {left : Node}
      (looser : ∀ operator binding next,
        cursor.Continues operator binding next → binding.level < level) :
      Reads (.climb inCommand level left) cursor left cursor
  | climb {inCommand : Bool} {level : Nat} {cursor behind next last : Cursor}
      {operator : Operator} {binding : Binding} {left right node : Node}
      (continues : cursor.Continues operator binding behind)
      (tight : level ≤ binding.level)
      (isRight : Reads (.binary inCommand binding.operandLevel) behind right next)
      (single : next.chained? binding = none)
      (further : Reads (.climb inCommand level (.binary operator left right)) next node last) :
      Reads (.climb inCommand level left) cursor node last
  | operand {inCommand : Bool} {cursor next : Cursor} {node : Node}
      (unsigned : cursor.unary? = none)
      (isNode : Reads (.primary inCommand) cursor node next) :
      Reads (.unary inCommand) cursor node next
  | unary {inCommand : Bool} {cursor behind last : Cursor} {operator : Operator} {operand : Node}
      (sign : cursor.Accepts (.operator operator) behind)
      (isUnary : operator.isUnary)
      (isOperand : Reads (.unary inCommand) behind operand last) :
      Reads (.unary inCommand) cursor (.unary operator operand) last
  -- Expressions that are not made by operators
  | integer {inCommand : Bool} {cursor next : Cursor} {value : Int}
      (here : cursor.Accepts (.integer value) next) :
      Reads (.primary inCommand) cursor (.integer value) next
  | float {inCommand : Bool} {cursor next : Cursor} {value : Binary64}
      (here : cursor.Accepts (.float value) next) :
      Reads (.primary inCommand) cursor (.float value) next
  | constant {inCommand : Bool} {cursor next : Cursor} {name : String}
      (here : cursor.Accepts (.constant name) next) :
      Reads (.primary inCommand) cursor (.constant name) next
  | string {inCommand : Bool} {cursor next last : Cursor} {text : String} {parts : StringParts}
      (here : cursor.Accepts (.fragment text) next)
      (areParts : Reads (.stringParts text) next parts last) :
      Reads (.primary inCommand) cursor parts.node last
  | name {inCommand : Bool} {cursor next last : Cursor} {name : String} {node : Node}
      (here : cursor.Accepts (.identifier name) next)
      (isNode : Reads (.named inCommand name) next node last) :
      Reads (.primary inCommand) cursor node last
  | classWord {inCommand : Bool} {cursor next last : Cursor} {node : Node}
      (here : cursor.Accepts (.keyword .classWord) next)
      (isNode : Reads .classDefinition next node last) :
      Reads (.primary inCommand) cursor node last
  | moduleWord {inCommand : Bool} {cursor next last : Cursor} {node : Node}
      (here : cursor.Accepts (.keyword .moduleWord) next)
      (isNode : Reads .moduleDefinition next node last) :
      Reads (.primary inCommand) cursor node last
  | colon {inCommand : Bool} {cursor next last : Cursor} {node : Node}
      (here : cursor.Accepts (.mark .colon) next)
      (isNode : Reads .symbol next node last) :
      Reads (.primary inCommand) cursor node last
  | array {inCommand : Bool} {cursor next last : Cursor} {list : List Node}
      (here : cursor.Accepts (.mark .leftBracket) next)
      (areElements : Reads (.enclosed .rightBracket) next list last) :
      Reads (.primary inCommand) cursor (.array list) last
  | brace {inCommand : Bool} {cursor next last : Cursor} {node : Node}
      (here : cursor.Accepts (.mark .leftBrace) next)
      (isNode : Reads .hash next node last) :
      Reads (.primary inCommand) cursor node last
  | paren {inCommand : Bool} {cursor next last : Cursor} {node : Node}
      (here : cursor.Accepts (.mark .leftParen) next)
      (isNode : Reads .group next node last) :
      Reads (.primary inCommand) cursor node last
  | block {inCommand : Bool} {cursor next last : Cursor} {block : Block Node}
      (here : cursor.Accepts (.mark .blockArrow) next)
      (isBlock : Reads .definition next block last) :
      Reads (.primary inCommand) cursor (.block block) last
  | lastPart {text : String} {cursor : Cursor} (ends : cursor.EndsString) :
      Reads (.stringParts text) cursor (.last text) cursor
  | adjacent {text more : String} {token : Token} {cursor next last : Cursor} {parts : StringParts}
      (here : cursor.Takes token next)
      (isText : token.kind = .fragment more)
      (hugs : token.spaced = false)
      (areParts : Reads (.stringParts (text ++ more)) next parts last) :
      Reads (.stringParts text) cursor parts last
  | insertion {text : String} {cursor next closing behind last : Cursor} {inner : Node}
      {others : StringParts}
      (opens : cursor.Accepts .interpolationStart next)
      (isInner : Reads .expression next inner closing)
      (closes : closing.Accepts .interpolationEnd behind)
      (areOthers : Reads (.stringParts "") behind others last) :
      Reads (.stringParts text) cursor (.insertion text inner others) last
  | symbolString {cursor next last : Cursor} {text : String} {parts : StringParts}
      (hugs : cursor.peek.spaced = false)
      (here : cursor.Accepts (.fragment text) next)
      (areParts : Reads (.stringParts text) next parts last) :
      Reads .symbol cursor (.symbol parts.node) last
  | symbolName {cursor next : Cursor} {token : Token} {name : String}
      (hugs : cursor.peek.spaced = false)
      (here : cursor.Takes token next)
      (names : token.kind.symbolName? = some name) :
      Reads .symbol cursor (.symbol (.text name)) next
  | group {cursor next last : Cursor} {inner : Node}
      (isInner : Reads .expression cursor inner next)
      (closes : next.Accepts (.mark .rightParen) last) :
      Reads .group cursor (.group inner) last
  -- Definitions
  | classDefinition {cursor next last : Cursor} {name : String} {nodes : List Node}
      (names : cursor.Accepts (.constant name) next)
      (underived : next.peek.kind ≠ .operator .less)
      (isBody : Reads .body next nodes last) :
      Reads .classDefinition cursor (.classDefinition (.constant name) none nodes) last
  | derivedClass {cursor next behind middle last : Cursor} {name base : String}
      {nodes : List Node}
      (names : cursor.Accepts (.constant name) next)
      (derives : next.Accepts (.operator .less) behind)
      (namesBase : behind.Accepts (.constant base) middle)
      (isBody : Reads .body middle nodes last) :
      Reads .classDefinition cursor
        (.classDefinition (.constant name) (some (.constant base)) nodes) last
  | moduleDefinition {cursor next last : Cursor} {name : String} {nodes : List Node}
      (names : cursor.Accepts (.constant name) next)
      (isBody : Reads .body next nodes last) :
      Reads .moduleDefinition cursor (.moduleDefinition (.constant name) nodes) last
  | definition {cursor next last : Cursor} {list : List (Parameter Node)} {nodes : List Node}
      (areParameters : Reads .parameters cursor list next)
      (isBody : Reads .body next nodes last) :
      Reads .definition cursor ⟨list, nodes⟩ last
  | noParameters {cursor : Cursor} (absent : cursor.peek.kind ≠ .mark .leftParen) :
      Reads .parameters cursor [] cursor
  | emptyParameters {cursor next last : Cursor}
      (opens : cursor.Accepts (.mark .leftParen) next)
      (closes : next.Accepts (.mark .rightParen) last) :
      Reads .parameters cursor [] last
  | parameters {cursor next closing last : Cursor} {list : List (Parameter Node)}
      (opens : cursor.Accepts (.mark .leftParen) next)
      (filled : next.peek.kind ≠ .mark .rightParen)
      (areParameters : Reads .parameterList next list closing)
      (closes : closing.Accepts (.mark .rightParen) last) :
      Reads .parameters cursor list last
  | lastParameter {cursor next : Cursor} {first : Parameter Node}
      (isFirst : Reads .parameter cursor first next)
      (ends : next.peek.kind ≠ .mark .comma) :
      Reads .parameterList cursor [first] next
  | moreParameters {cursor next behind last : Cursor} {first : Parameter Node}
      {others : List (Parameter Node)}
      (isFirst : Reads .parameter cursor first next)
      (comma : next.Accepts (.mark .comma) behind)
      (areOthers : Reads .parameterList behind others last) :
      Reads .parameterList cursor (first :: others) last
  | splat {cursor next last : Cursor} {name : String}
      (star : cursor.Accepts (.operator .star) next)
      (names : next.Accepts (.identifier name) last) :
      Reads .parameter cursor (.splat name) last
  | parameter {cursor next last : Cursor} {name : String} {parameter : Parameter Node}
      (names : cursor.Accepts (.identifier name) next)
      (isParameter : Reads (.parameterValue name) next parameter last) :
      Reads .parameter cursor parameter last
  | setter {cursor last : Cursor} {name bare : String} {value : Node}
      (isSetter : bareName? name = some bare)
      (isValue : Reads .expression cursor value last) :
      Reads (.parameterValue name) cursor (.optional bare value) last
  | optional {cursor next last : Cursor} {name : String} {value : Node}
      (isBare : bareName? name = none)
      (assigns : cursor.Accepts (.operator .assign) next)
      (isValue : Reads .expression next value last) :
      Reads (.parameterValue name) cursor (.optional name value) last
  | keyword {cursor next last : Cursor} {name : String} {value : Node}
      (isBare : bareName? name = none)
      (colon : cursor.Accepts (.mark .colon) next)
      (isValue : Reads .expression next value last) :
      Reads (.parameterValue name) cursor (.keyword name value) last
  | plain {cursor : Cursor} {name : String}
      (isBare : bareName? name = none)
      (unassigned : cursor.peek.kind ≠ .operator .assign)
      (unnamed : cursor.peek.kind ≠ .mark .colon) :
      Reads (.parameterValue name) cursor (.plain name) cursor
  -- Names
  | method {inCommand : Bool} {cursor next last : Cursor} {name : String} {block : Block Node}
      (arrow : cursor.Accepts (.mark .arrow) next)
      (isBlock : Reads .definition next block last) :
      Reads (.named inCommand name) cursor (.method name block) last
  | call {inCommand : Bool} {cursor next last : Cursor} {name : String} {list : List Node}
      {node : Node}
      (noMethod : cursor.peek.kind ≠ .mark .arrow)
      (areArguments : Reads .arguments cursor list next)
      (isNode : Reads (.trailingBlock inCommand name list) next node last) :
      Reads (.named inCommand name) cursor node last
  | withBlock {cursor next last : Cursor} {name : String} {list : List Node} {block : Block Node}
      (arrow : cursor.Accepts (.mark .blockArrow) next)
      (isBlock : Reads .definition next block last) :
      Reads (.trailingBlock false name list) cursor (.call name list (some block)) last
  | withoutBlock {inCommand : Bool} {cursor : Cursor} {name : String} {list : List Node}
      (leaves : inCommand = true ∨ cursor.peek.kind ≠ .mark .blockArrow) :
      Reads (.trailingBlock inCommand name list) cursor (.call name list none) cursor
  | parenthesized {cursor next last : Cursor} {list : List Node}
      (opens : cursor.Accepts (.mark .leftParen) next)
      (whole : (cursor.peek.spaced && cursor.continuesBehindParens) = false)
      (areArguments : Reads (.enclosed .rightParen) next list last) :
      Reads .arguments cursor list last
  | larger {cursor last : Cursor} {list : List Entry}
      (opens : cursor.peek.kind = .mark .leftParen)
      (part : (cursor.peek.spaced && cursor.continuesBehindParens) = true)
      (areArguments : Reads (.entries true) cursor list last) :
      Reads .arguments cursor (Entry.gather list) last
  | command {cursor last : Cursor} {list : List Entry}
      (unopened : cursor.peek.kind ≠ .mark .leftParen)
      (starts : cursor.atArgument = true)
      (areArguments : Reads (.entries true) cursor list last) :
      Reads .arguments cursor (Entry.gather list) last
  | noArguments {cursor : Cursor}
      (unopened : cursor.peek.kind ≠ .mark .leftParen)
      (absent : cursor.atArgument = false) :
      Reads .arguments cursor [] cursor

end Phrase

end ScriptFront
