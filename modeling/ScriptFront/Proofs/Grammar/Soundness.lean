import ScriptFront.Proofs.Grammar.Recursion

/-!
# What is read has a derivation

One statement for each function of the grammar, in the order of the functions: if what it calls
reads only what the rules derive, so does the function itself.
-/

namespace ScriptFront

namespace Phrase

open Outcome Cursor

theorem reads_constant
    {cursor next : Cursor} {node : Node} (read : cursor.constant.result = .ok (node, next)) :
    ∃ name, node = .constant name ∧ cursor.Accepts (.constant name) next := by
  unfold Cursor.constant at read
  split at read
  · cases read
  · rename_i taken isNext
    split at read
    · rename_i name isConstant
      obtain ⟨rfl, rfl⟩ := Prod.mk.inj (Except.ok.inj read)
      exact ⟨name, rfl, taken.token, takes_of_take? isNext, isConstant⟩
    · cases read

theorem reads_splatName {cursor next : Cursor} {parameter : Parameter Node}
    (read : cursor.splatName.result = .ok (parameter, next)) :
    ∃ name, parameter = .splat name ∧ cursor.Accepts (.identifier name) next := by
  unfold Cursor.splatName at read
  split at read
  · cases read
  · rename_i taken isNext
    split at read
    · rename_i name isIdentifier
      obtain ⟨rfl, rfl⟩ := Prod.mk.inj (Except.ok.inj read)
      exact ⟨name, rfl, taken.token, takes_of_take? isNext, isIdentifier⟩
    · cases read

/-- Whatever the function of a phrase reads has a derivation. -/
def Derives (form : Form) (cursor : Cursor) : Prop :=
  ∀ value next, run form cursor = .ok (value, next) → Reads form cursor value next

section Earlier

variable {form other : Form} {cursor place next : Cursor} {value : other.Value}

theorem Earlier.later
    (earlier : Earlier Derives form cursor) (shorter : place.size < cursor.size)
    (read : run other place = .ok (value, next)) : Reads other place value next :=
  earlier.of_lt other shorter value next read

theorem Earlier.lower
    (earlier : Earlier Derives form cursor) (le : place.size ≤ cursor.size)
    (lower : other.rank.blt form.rank = true) (read : run other place = .ok (value, next)) :
    Reads other place value next :=
  earlier.of_le other le lower value next read

theorem Earlier.here
    (earlier : Earlier Derives form cursor) (lower : other.rank.blt form.rank = true)
    (read : run other cursor = .ok (value, next)) : Reads other cursor value next :=
  earlier.of_rank other lower value next read

end Earlier

theorem reads_statements
    {inBody : Bool} {cursor next : Cursor} {nodes : List Node}
    (earlier : Earlier Derives (.statements inBody) cursor)
    (read : (statements inBody cursor).result = .ok (nodes, next)) :
    Reads (.statements inBody) cursor nodes next := by
  rw [statements] at read
  split at read
  · rename_i ends
    obtain ⟨rfl, rfl⟩ := Prod.mk.inj (Except.ok.inj read)
    exact .noStatements ends
  · rename_i more
    rw [result_widen, result_andThen_eq_ok] at read
    obtain ⟨first, middle, shorter, isFirst, read⟩ := read
    obtain ⟨others, areOthers, rfl⟩ := result_map_eq_ok.1 read
    have le := cursor.size_skipNewlines_le
    exact .moreStatements (by simpa using more) (earlier.lower le rfl isFirst)
      (earlier.later (Nat.lt_of_lt_of_le shorter le) areOthers)

theorem reads_statement
    {cursor next : Cursor} {node : Node}
    (earlier : Earlier Derives .statement cursor)
    (read : (statement cursor).result = .ok (node, next)) :
    Reads .statement cursor node next := by
  rw [statement, result_andThen_eq_ok] at read
  obtain ⟨first, middle, shorter, isFirst, read⟩ := read
  rw [result_andThen_eq_ok] at read
  obtain ⟨whole, behind, _, isWhole, read⟩ := read
  obtain ⟨rfl, ends⟩ := result_statementEnd_eq_ok.1 read
  exact .statement (earlier.here rfl isFirst) (earlier.later shorter isWhole) ends

theorem reads_bareHash
    {cursor next : Cursor} {first : Entry} {node : Node}
    (earlier : Earlier Derives (.bareHash first) cursor)
    (read : (bareHash first cursor).result = .ok (node, next)) :
    Reads (.bareHash first) cursor node next := by
  cases first with
  | single =>
      rw [bareHash] at read
      obtain ⟨rfl, rfl⟩ := Prod.mk.inj (Except.ok.inj read)
      exact .single
  | pair =>
      rw [bareHash] at read
      obtain ⟨list, arePairs, rfl⟩ := result_map_eq_ok.1 read
      exact .bareHash (earlier.here rfl arePairs)

theorem reads_body
    {cursor next : Cursor} {nodes : List Node}
    (earlier : Earlier Derives .body cursor)
    (read : (body cursor).result = .ok (nodes, next)) :
    Reads .body cursor nodes next := by
  rw [body] at read
  split at read
  · rename_i absent
    obtain ⟨rfl, rfl⟩ := Prod.mk.inj (Except.ok.inj read)
    exact .noBody absent
  · rename_i start isStart
    rw [result_widen, result_andThen_eq_ok] at read
    obtain ⟨list, behind, _, areNodes, read⟩ := read
    split at read
    · cases read
    · rename_i filled
      obtain ⟨rfl, rfl⟩ := Prod.mk.inj (Except.ok.inj read)
      exact .body (startsBody_of_bodyStart? isStart) (earlier.later start.shorter areNodes)
        (by simpa using filled)

theorem reads_entry
    {inCommand : Bool} {cursor next : Cursor} {entry : Entry}
    (earlier : Earlier Derives (.entry inCommand) cursor)
    (read : (Phrase.entry inCommand cursor).result = .ok (entry, next)) :
    Reads (.entry inCommand) cursor entry next := by
  rw [Phrase.entry] at read
  split at read
  · rename_i key isKey
    rw [result_widen] at read
    obtain ⟨value, isValue, rfl⟩ := result_map_eq_ok.1 read
    exact .keyed (namesKey_of_symbolKey? isKey) (earlier.later key.shorter isValue)
  · rename_i unnamed
    rw [result_andThen_eq_ok] at read
    obtain ⟨node, behind, shorter, isNode, read⟩ := read
    split at read
    · rename_i alone
      obtain ⟨rfl, rfl⟩ := Prod.mk.inj (Except.ok.inj read)
      exact .expression unnamed (earlier.here rfl isNode) alone
    · rename_i colon isColon
      rw [result_widen] at read
      obtain ⟨value, isValue, rfl⟩ := result_map_eq_ok.1 read
      exact .pair unnamed (earlier.here rfl isNode) (separates_of_separator? isColon)
        (earlier.later (Nat.lt_trans colon.shorter shorter) isValue)

theorem reads_entries
    {inCommand : Bool} {cursor next : Cursor} {list : List Entry}
    (earlier : Earlier Derives (.entries inCommand) cursor)
    (read : (entries inCommand cursor).result = .ok (list, next)) :
    Reads (.entries inCommand) cursor list next := by
  rw [entries, result_andThen_eq_ok] at read
  obtain ⟨first, behind, shorter, isFirst, read⟩ := read
  split at read
  · rename_i absent
    obtain ⟨rfl, rfl⟩ := Prod.mk.inj (Except.ok.inj read)
    exact .lastEntry (earlier.here rfl isFirst) (peek_kind_ne_of_accept? absent (by simp))
  · rename_i comma isComma
    rw [result_widen] at read
    obtain ⟨others, areOthers, rfl⟩ := result_map_eq_ok.1 read
    exact .moreEntries (earlier.here rfl isFirst) (accepts_of_accept? isComma)
      (earlier.later (Nat.lt_trans comma.shorter shorter) areOthers)

theorem reads_pairs
    {cursor next : Cursor} {list : List (Pair Node)}
    (earlier : Earlier Derives .pairs cursor)
    (read : (pairs cursor).result = .ok (list, next)) :
    Reads .pairs cursor list next := by
  rw [pairs, result_andThen_eq_ok] at read
  obtain ⟨first, behind, shorter, isFirst, read⟩ := read
  split at read
  · cases read
  · exact .pairs (earlier.here rfl isFirst) (earlier.later shorter read)

theorem reads_morePairs
    {cursor next : Cursor} {first : Pair Node} {list : List (Pair Node)}
    (earlier : Earlier Derives (.morePairs first) cursor)
    (read : (morePairs first cursor).result = .ok (list, next)) :
    Reads (.morePairs first) cursor list next := by
  rw [morePairs] at read
  split at read
  · rename_i absent
    obtain ⟨rfl, rfl⟩ := Prod.mk.inj (Except.ok.inj read)
    exact .lastPair (peek_kind_ne_of_accept? absent (by simp))
  · rename_i comma isComma
    rw [result_widen] at read
    obtain ⟨others, areOthers, rfl⟩ := result_map_eq_ok.1 read
    exact .morePairs (accepts_of_accept? isComma) (earlier.later comma.shorter areOthers)

theorem reads_enclosed
    {cursor next : Cursor} {closer : Mark} {list : List Node}
    (earlier : Earlier Derives (.enclosed closer) cursor)
    (read : (enclosed closer cursor).result = .ok (list, next)) :
    Reads (.enclosed closer) cursor list next := by
  rw [enclosed] at read
  split at read
  · rename_i closed isClosed
    obtain ⟨rfl, rfl⟩ := Prod.mk.inj (Except.ok.inj read)
    exact .emptyEnclosed (accepts_of_accept? isClosed)
  · rename_i absent
    rw [result_andThen_eq_ok] at read
    obtain ⟨inner, behind, _, areEntries, read⟩ := read
    rw [result_relax] at read
    obtain ⟨rfl, closes⟩ := result_expect_eq_ok.1 read
    exact .enclosed (peek_kind_ne_of_accept? absent (by simp)) (earlier.here rfl areEntries) closes

theorem reads_hash
    {cursor next : Cursor} {node : Node}
    (earlier : Earlier Derives .hash cursor)
    (read : (hash cursor).result = .ok (node, next)) :
    Reads .hash cursor node next := by
  rw [hash] at read
  split at read
  · rename_i closed isClosed
    obtain ⟨rfl, rfl⟩ := Prod.mk.inj (Except.ok.inj read)
    exact .emptyHash (accepts_of_accept? isClosed)
  · rename_i absent
    rw [result_andThen_eq_ok] at read
    obtain ⟨inner, behind, _, arePairs, read⟩ := read
    rw [result_relax] at read
    obtain ⟨rfl, closes⟩ := result_expect_eq_ok.1 read
    exact .hash (peek_kind_ne_of_accept? absent (by simp)) (earlier.here rfl arePairs) closes

theorem reads_binary
    {inCommand : Bool} {cursor next : Cursor} {level : Nat} {node : Node}
    (earlier : Earlier Derives (.binary inCommand level) cursor)
    (read : (binary inCommand level cursor).result = .ok (node, next)) :
    Reads (.binary inCommand level) cursor node next := by
  rw [binary, result_andThen_eq_ok] at read
  obtain ⟨left, behind, shorter, isLeft, further⟩ := read
  exact .binary (earlier.here rfl isLeft) (earlier.later shorter further)

theorem reads_climb
    {inCommand : Bool} {cursor next : Cursor} {level : Nat} {left node : Node}
    (earlier : Earlier Derives (.climb inCommand level left) cursor)
    (read : (climb inCommand level left cursor).result = .ok (node, next)) :
    Reads (.climb inCommand level left) cursor node next := by
  rw [climb] at read
  split at read
  · rename_i absent
    obtain ⟨rfl, rfl⟩ := Prod.mk.inj (Except.ok.inj read)
    refine .stop fun operator binding after continues => ?_
    obtain ⟨sign, found, -⟩ := binary?_of_continues continues
    rw [absent] at found
    cases found
  · rename_i sign isSign
    have continues := continues_of_binary? isSign
    split at read
    · rename_i looser
      obtain ⟨rfl, rfl⟩ := Prod.mk.inj (Except.ok.inj read)
      refine .stop fun operator binding after continues' => ?_
      obtain ⟨-, rfl⟩ := continues.binding_eq continues'
      exact looser
    · rename_i tight
      rw [result_widen, result_andThen_eq_ok] at read
      obtain ⟨right, behind, shorter, isRight, further⟩ := read
      split at further
      · cases further
      · rename_i single
        exact .climb continues (Nat.le_of_not_lt tight) (earlier.later sign.shorter isRight) single
          (earlier.later (Nat.lt_trans shorter sign.shorter) further)

theorem reads_unary
    {inCommand : Bool} {cursor next : Cursor} {node : Node}
    (earlier : Earlier Derives (.unary inCommand) cursor)
    (read : (unary inCommand cursor).result = .ok (node, next)) :
    Reads (.unary inCommand) cursor node next := by
  rw [unary] at read
  split at read
  · rename_i unsigned
    exact .operand unsigned (earlier.here rfl read)
  · rename_i sign isSign
    obtain ⟨accepts, isUnary⟩ := accepts_of_unary? isSign
    rw [result_widen] at read
    obtain ⟨operand, isOperand, rfl⟩ := result_map_eq_ok.1 read
    exact .unary accepts isUnary (earlier.later sign.shorter isOperand)

theorem reads_primary
    {inCommand : Bool} {cursor next : Cursor} {node : Node}
    (earlier : Earlier Derives (.primary inCommand) cursor)
    (read : (primary inCommand cursor).result = .ok (node, next)) :
    Reads (.primary inCommand) cursor node next := by
  rw [primary] at read
  split at read
  · cases read
  · rename_i first isFirst
    have takes := takes_of_take? isFirst
    have here {kind : Kind} (isKind : first.token.kind = kind) :
        cursor.Accepts kind first.next := ⟨first.token, takes, isKind⟩
    split at read <;> try rw [result_widen] at read
    · rename_i value isKind
      obtain ⟨rfl, rfl⟩ := Prod.mk.inj (Except.ok.inj read)
      exact .integer (here isKind)
    · rename_i value isKind
      obtain ⟨rfl, rfl⟩ := Prod.mk.inj (Except.ok.inj read)
      exact .float (here isKind)
    · rename_i name isKind
      obtain ⟨rfl, rfl⟩ := Prod.mk.inj (Except.ok.inj read)
      exact .constant (here isKind)
    · rename_i text isKind
      obtain ⟨parts, areParts, rfl⟩ := result_map_eq_ok.1 read
      exact .string (here isKind) (earlier.later first.shorter areParts)
    · rename_i name isKind
      exact .name (here isKind) (earlier.later first.shorter read)
    · rename_i isKind
      exact .classWord (here isKind) (earlier.later first.shorter read)
    · rename_i isKind
      exact .moduleWord (here isKind) (earlier.later first.shorter read)
    · rename_i isKind
      exact .colon (here isKind) (earlier.later first.shorter read)
    · rename_i isKind
      obtain ⟨list, areElements, rfl⟩ := result_map_eq_ok.1 read
      exact .array (here isKind) (earlier.later first.shorter areElements)
    · rename_i isKind
      exact .brace (here isKind) (earlier.later first.shorter read)
    · rename_i isKind
      exact .paren (here isKind) (earlier.later first.shorter read)
    · rename_i isKind
      obtain ⟨block, isBlock, rfl⟩ := result_map_eq_ok.1 read
      exact .block (here isKind) (earlier.later first.shorter isBlock)
    · cases read

theorem reads_stringParts
    {cursor next : Cursor} {text : String} {parts : StringParts}
    (earlier : Earlier Derives (.stringParts text) cursor)
    (read : (stringParts text cursor).result = .ok (parts, next)) :
    Reads (.stringParts text) cursor parts next := by
  rw [stringParts] at read
  split at read
  · rename_i absent
    obtain ⟨rfl, rfl⟩ := Prod.mk.inj (Except.ok.inj read)
    refine .lastPart ⟨?_, fun text => ?_⟩ <;>
      simp [peek, peekAt, ahead_eq_nil_of_take? absent, Ending.token]
  · rename_i taken isNext
    have takes := takes_of_take? isNext
    split at read
    · rename_i more isText hugs
      rw [result_widen] at read
      exact .adjacent takes isText hugs (earlier.later taken.shorter read)
    · rename_i opens
      rw [result_widen, result_andThen_eq_ok] at read
      obtain ⟨inner, closing, shorterInner, isInner, read⟩ := read
      rw [result_relax, result_andThen_eq_ok] at read
      obtain ⟨_, behind, shorterBehind, closes, read⟩ := read
      obtain ⟨-, closes⟩ := result_expect_eq_ok.1 closes
      obtain ⟨others, areOthers, rfl⟩ := result_map_eq_ok.1 read
      have shorter := Nat.lt_trans shorterBehind (Nat.lt_trans shorterInner taken.shorter)
      exact .insertion ⟨taken.token, takes, opens⟩ (earlier.later taken.shorter isInner) closes
        (earlier.later shorter areOthers)
    · rename_i noStart noText
      obtain ⟨rfl, rfl⟩ := Prod.mk.inj (Except.ok.inj read)
      refine .lastPart ⟨?_, fun more => ?_⟩ <;> rw [takes.peek]
      · exact noStart
      · intro isText
        simpa using noText more isText

theorem reads_symbol
    {cursor next : Cursor} {node : Node}
    (earlier : Earlier Derives .symbol cursor)
    (read : (symbol cursor).result = .ok (node, next)) :
    Reads .symbol cursor node next := by
  rw [symbol] at read
  split at read
  · cases read
  · rename_i spaced
    have hugs : cursor.peek.spaced = false := by simpa using spaced
    split at read
    · cases read
    · rename_i taken isNext
      have takes := takes_of_take? isNext
      split at read
      · rename_i text isText
        rw [result_widen] at read
        obtain ⟨parts, areParts, rfl⟩ := result_map_eq_ok.1 read
        exact .symbolString hugs ⟨taken.token, takes, isText⟩ (earlier.later taken.shorter areParts)
      · split at read
        · rename_i name names
          obtain ⟨rfl, rfl⟩ := Prod.mk.inj (Except.ok.inj read)
          exact .symbolName hugs takes names
        · cases read

theorem reads_group
    {cursor next : Cursor} {node : Node}
    (earlier : Earlier Derives .group cursor)
    (read : (group cursor).result = .ok (node, next)) :
    Reads .group cursor node next := by
  rw [group, result_andThen_eq_ok] at read
  obtain ⟨inner, behind, _, isInner, read⟩ := read
  rw [result_relax] at read
  obtain ⟨rfl, closes⟩ := result_expect_eq_ok.1 read
  exact .group (earlier.here rfl isInner) closes

theorem reads_classDefinition
    {cursor next : Cursor} {node : Node}
    (earlier : Earlier Derives .classDefinition cursor)
    (read : (classDefinition cursor).result = .ok (node, next)) :
    Reads .classDefinition cursor node next := by
  rw [classDefinition, result_andThen_eq_ok] at read
  obtain ⟨constant, behind, shorter, isConstant, read⟩ := read
  obtain ⟨name, rfl, names⟩ := reads_constant isConstant
  rw [result_andThen_eq_ok] at read
  obtain ⟨base, middle, shorterBase, isBase, read⟩ := read
  obtain ⟨nodes, areNodes, rfl⟩ := result_map_eq_ok.1 read
  have shorterBody := Nat.lt_of_le_of_lt (Nat.le_of_lt_succ shorterBase) shorter
  unfold superclass at isBase
  split at isBase
  · rename_i absent
    obtain ⟨rfl, rfl⟩ := Prod.mk.inj (Except.ok.inj isBase)
    exact .classDefinition names (peek_kind_ne_of_accept? absent (by simp))
      (earlier.later shorterBody areNodes)
  · rename_i sign derives
    rw [result_widen] at isBase
    obtain ⟨constant, isConstant, rfl⟩ := result_map_eq_ok.1 isBase
    obtain ⟨base, rfl, namesBase⟩ := reads_constant isConstant
    exact .derivedClass names (accepts_of_accept? derives) namesBase
      (earlier.later shorterBody areNodes)

theorem reads_moduleDefinition
    {cursor next : Cursor} {node : Node}
    (earlier : Earlier Derives .moduleDefinition cursor)
    (read : (moduleDefinition cursor).result = .ok (node, next)) :
    Reads .moduleDefinition cursor node next := by
  rw [moduleDefinition, result_andThen_eq_ok] at read
  obtain ⟨constant, behind, shorter, isConstant, read⟩ := read
  obtain ⟨name, rfl, names⟩ := reads_constant isConstant
  obtain ⟨nodes, areNodes, rfl⟩ := result_map_eq_ok.1 read
  exact .moduleDefinition names (earlier.later shorter areNodes)

theorem reads_definition
    {cursor next : Cursor} {block : Block Node}
    (earlier : Earlier Derives .definition cursor)
    (read : (definition cursor).result = .ok (block, next)) :
    Reads .definition cursor block next := by
  rw [definition, result_andThen_eq_ok] at read
  obtain ⟨list, behind, shorter, areParameters, read⟩ := read
  obtain ⟨nodes, areNodes, rfl⟩ := result_map_eq_ok.1 read
  exact .definition (earlier.here rfl areParameters)
    (earlier.lower (Nat.le_of_lt_succ shorter) rfl areNodes)

theorem reads_parameters
    {cursor next : Cursor} {list : List (Parameter Node)}
    (earlier : Earlier Derives .parameters cursor)
    (read : (parameters cursor).result = .ok (list, next)) :
    Reads .parameters cursor list next := by
  rw [parameters] at read
  split at read
  · rename_i absent
    obtain ⟨rfl, rfl⟩ := Prod.mk.inj (Except.ok.inj read)
    exact .noParameters (peek_kind_ne_of_accept? absent (by simp))
  · rename_i opened opens
    split at read
    · rename_i closed closes
      obtain ⟨rfl, rfl⟩ := Prod.mk.inj (Except.ok.inj read)
      exact .emptyParameters (accepts_of_accept? opens) (accepts_of_accept? closes)
    · rename_i filled
      rw [result_widen, result_andThen_eq_ok] at read
      obtain ⟨inner, behind, _, areParameters, read⟩ := read
      rw [result_relax] at read
      obtain ⟨rfl, closes⟩ := result_expect_eq_ok.1 read
      exact .parameters (accepts_of_accept? opens) (peek_kind_ne_of_accept? filled (by simp))
        (earlier.later opened.shorter areParameters) closes

theorem reads_parameterList
    {cursor next : Cursor} {list : List (Parameter Node)}
    (earlier : Earlier Derives .parameterList cursor)
    (read : (parameterList cursor).result = .ok (list, next)) :
    Reads .parameterList cursor list next := by
  rw [parameterList, result_andThen_eq_ok] at read
  obtain ⟨first, behind, shorter, isFirst, read⟩ := read
  split at read
  · rename_i absent
    obtain ⟨rfl, rfl⟩ := Prod.mk.inj (Except.ok.inj read)
    exact .lastParameter (earlier.here rfl isFirst) (peek_kind_ne_of_accept? absent (by simp))
  · rename_i comma isComma
    rw [result_widen] at read
    obtain ⟨others, areOthers, rfl⟩ := result_map_eq_ok.1 read
    exact .moreParameters (earlier.here rfl isFirst) (accepts_of_accept? isComma)
      (earlier.later (Nat.lt_trans comma.shorter shorter) areOthers)

theorem reads_parameter
    {cursor next : Cursor} {parameter : Parameter Node}
    (earlier : Earlier Derives .parameter cursor)
    (read : (Phrase.parameter cursor).result = .ok (parameter, next)) :
    Reads .parameter cursor parameter next := by
  rw [Phrase.parameter] at read
  split at read
  · cases read
  · rename_i taken isNext
    have takes := takes_of_take? isNext
    split at read
    · rename_i isStar
      rw [result_widen] at read
      obtain ⟨name, rfl, names⟩ := reads_splatName read
      exact .splat ⟨taken.token, takes, isStar⟩ names
    · rename_i name isName
      rw [result_widen] at read
      exact .parameter ⟨taken.token, takes, isName⟩ (earlier.later taken.shorter read)
    · cases read

theorem reads_parameterValue
    {cursor next : Cursor} {name : String} {parameter : Parameter Node}
    (earlier : Earlier Derives (.parameterValue name) cursor)
    (read : (parameterValue name cursor).result = .ok (parameter, next)) :
    Reads (.parameterValue name) cursor parameter next := by
  rw [parameterValue] at read
  split at read
  · rename_i bare isSetter
    rw [result_relax] at read
    obtain ⟨value, isValue, rfl⟩ := result_map_eq_ok.1 read
    exact .setter isSetter (earlier.here rfl isValue)
  · rename_i isBare
    split at read
    · rename_i assign isAssign
      rw [result_widen] at read
      obtain ⟨value, isValue, rfl⟩ := result_map_eq_ok.1 read
      exact .optional isBare (accepts_of_accept? isAssign) (earlier.later assign.shorter isValue)
    · rename_i unassigned
      split at read
      · rename_i colon isColon
        rw [result_widen] at read
        obtain ⟨value, isValue, rfl⟩ := result_map_eq_ok.1 read
        exact .keyword isBare (accepts_of_accept? isColon) (earlier.later colon.shorter isValue)
      · rename_i unnamed
        obtain ⟨rfl, rfl⟩ := Prod.mk.inj (Except.ok.inj read)
        exact .plain isBare (peek_kind_ne_of_accept? unassigned (by simp))
          (peek_kind_ne_of_accept? unnamed (by simp))

theorem reads_named
    {inCommand : Bool} {cursor next : Cursor} {name : String} {node : Node}
    (earlier : Earlier Derives (.named inCommand name) cursor)
    (read : (named inCommand name cursor).result = .ok (node, next)) :
    Reads (.named inCommand name) cursor node next := by
  rw [named] at read
  split at read
  · rename_i arrow isArrow
    rw [result_widen] at read
    obtain ⟨block, isBlock, rfl⟩ := result_map_eq_ok.1 read
    exact .method (accepts_of_accept? isArrow) (earlier.later arrow.shorter isBlock)
  · rename_i noMethod
    rw [result_andThen_eq_ok] at read
    obtain ⟨list, behind, shorter, areArguments, read⟩ := read
    exact .call (peek_kind_ne_of_accept? noMethod (by simp)) (earlier.here rfl areArguments)
      (earlier.lower (Nat.le_of_lt_succ shorter) rfl read)

theorem reads_trailingBlock
    {inCommand : Bool} {cursor next : Cursor} {name : String} {list : List Node} {node : Node}
    (earlier : Earlier Derives (.trailingBlock inCommand name list) cursor)
    (read : (trailingBlock inCommand name list cursor).result = .ok (node, next)) :
    Reads (.trailingBlock inCommand name list) cursor node next := by
  rw [trailingBlock.eq_def] at read
  cases inCommand with
  | true =>
      obtain ⟨rfl, rfl⟩ := Prod.mk.inj (Except.ok.inj read)
      exact .withoutBlock (Or.inl rfl)
  | false =>
      cases found : cursor.accept? (.mark .blockArrow) with
      | none =>
          rw [found] at read
          obtain ⟨rfl, rfl⟩ := Prod.mk.inj (Except.ok.inj read)
          exact .withoutBlock (Or.inr (peek_kind_ne_of_accept? found (by simp)))
      | some arrow =>
          rw [found] at read
          rw [result_widen] at read
          obtain ⟨block, isBlock, rfl⟩ := result_map_eq_ok.1 read
          exact .withBlock (accepts_of_accept? found) (earlier.later arrow.shorter isBlock)

theorem reads_arguments
    {cursor next : Cursor} {list : List Node}
    (earlier : Earlier Derives .arguments cursor)
    (read : (arguments cursor).result = .ok (list, next)) :
    Reads .arguments cursor list next := by
  rw [arguments] at read
  split at read
  · rename_i opened opens
    split at read
    · rename_i part
      rw [result_relax] at read
      obtain ⟨inner, areEntries, rfl⟩ := result_map_eq_ok.1 read
      exact .larger (accepts_of_accept? opens).peek_kind part (earlier.here rfl areEntries)
    · rename_i whole
      rw [result_widen] at read
      exact .parenthesized (accepts_of_accept? opens) (by simpa using whole)
        (earlier.later opened.shorter read)
  · rename_i unopened
    split at read
    · rename_i starts
      rw [result_relax] at read
      obtain ⟨inner, areEntries, rfl⟩ := result_map_eq_ok.1 read
      exact .command (peek_kind_ne_of_accept? unopened (by simp)) starts
        (earlier.here rfl areEntries)
    · rename_i absent
      obtain ⟨rfl, rfl⟩ := Prod.mk.inj (Except.ok.inj read)
      exact .noArguments (peek_kind_ne_of_accept? unopened (by simp)) (by simpa using absent)

theorem derives (form : Form) (cursor : Cursor) : Derives form cursor := by
  refine forall_of_earlier ?_ form cursor
  intro form cursor earlier value next found
  cases form with
  | statements => exact reads_statements earlier found
  | statement => exact reads_statement earlier found
  | bareHash => exact reads_bareHash earlier found
  | body => exact reads_body earlier found
  | entry => exact reads_entry earlier found
  | entries => exact reads_entries earlier found
  | pairs => exact reads_pairs earlier found
  | morePairs => exact reads_morePairs earlier found
  | enclosed => exact reads_enclosed earlier found
  | hash => exact reads_hash earlier found
  | binary => exact reads_binary earlier found
  | climb => exact reads_climb earlier found
  | unary => exact reads_unary earlier found
  | primary => exact reads_primary earlier found
  | stringParts => exact reads_stringParts earlier found
  | symbol => exact reads_symbol earlier found
  | group => exact reads_group earlier found
  | classDefinition => exact reads_classDefinition earlier found
  | moduleDefinition => exact reads_moduleDefinition earlier found
  | definition => exact reads_definition earlier found
  | parameters => exact reads_parameters earlier found
  | parameterList => exact reads_parameterList earlier found
  | parameter => exact reads_parameter earlier found
  | parameterValue => exact reads_parameterValue earlier found
  | named => exact reads_named earlier found
  | trailingBlock => exact reads_trailingBlock earlier found
  | arguments => exact reads_arguments earlier found

theorem reads_of_run
    {form : Form} {cursor next : Cursor} {value : form.Value}
    (found : run form cursor = .ok (value, next)) : Reads form cursor value next :=
  derives form cursor value next found

end Phrase

end ScriptFront
