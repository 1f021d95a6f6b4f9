import ScriptFront.Proofs.Grammar.Rendering

/-!
# Expressions are read from their renderings

Whatever stands behind it, an expression is read from its rendering up to its last token, as long as
the next token cannot continue it.  Operators are read by climbing: the operands to the left are
read before it is known which operator takes them, so the claim about an expression is made for all
that can be read behind it.
-/

namespace ScriptFront

/-! ## The tokens next to an expression -/

/-- Tokens that can stand behind an expression. -/
def Kind.closes : Kind → Bool
  | .mark .comma | .mark .colon | .mark .rightBracket | .mark .rightBrace | .mark .rightParen
  | .interpolationEnd | .newline | .dedent | .endOfInput => true
  | _ => false

/-- Tokens that can stand behind an operand. -/
def Kind.endsOperand : Kind → Bool
  | .operator _ => true
  | kind => kind.closes

/-- Tokens that an expression can start with, apart from names. -/
def Kind.opens : Kind → Bool
  | .integer _ | .float _ | .fragment _ | .constant _ | .operator _
  | .mark .colon | .mark .leftBracket | .mark .leftBrace | .mark .leftParen => true
  | _ => false

/-- The rendering starts as an expression does; a name has its parenthesis behind it. -/
inductive Slot.Opens : List Slot → Prop where
  | kind {kind : Kind} {others : List Slot} (opens : kind.opens = true) :
      Opens (.of kind :: others)
  | name {name : String} {others : List Slot} :
      Opens (.of (.identifier name) :: .token (.mark .leftParen) (some false) :: others)

theorem Kind.endsOperand_of_closes {kind : Kind} (closes : kind.closes = true) :
    kind.endsOperand = true := by
  cases kind with
  | operator => rfl
  | _ => exact closes

theorem Slot.Opens.append {first : List Slot} (opens : Opens first) (second : List Slot) :
    Opens (first ++ second) := by
  cases opens with
  | kind opens => exact .kind opens
  | name => exact .name

namespace Cursor

variable {token : Token} {kind : Kind} {rest : List Token} {ending : Ending} {flag : Bool}
  {cursor : Cursor}

theorem takes_cons (inLine : token.kind ≠ .dedent) :
    (Cursor.mk (token :: rest) ending flag).Takes token ⟨rest, ending, false⟩ :=
  ⟨rfl, rfl, (decide_eq_false inLine).symm⟩

theorem accepts_cons (isKind : token.kind = kind) (inLine : kind ≠ .dedent) :
    (Cursor.mk (token :: rest) ending flag).Accepts kind ⟨rest, ending, false⟩ :=
  ⟨token, takes_cons (isKind ▸ inLine), isKind⟩

theorem peek_kind_ne_of_closes
    (closes : cursor.peek.kind.closes = true) (other : kind.closes = false) :
    cursor.peek.kind ≠ kind := by
  intro isKind
  rw [isKind, other] at closes
  cases closes

theorem peek_kind_ne_of_endsOperand
    (ends : cursor.peek.kind.endsOperand = true) (other : kind.endsOperand = false) :
    cursor.peek.kind ≠ kind := by
  intro isKind
  rw [isKind, other] at ends
  cases ends

/-- What closes an expression does not continue it. -/
theorem not_continues_of_closes (closes : cursor.peek.kind.closes = true)
    {operator : Operator} {binding : Binding} {next : Cursor} :
    ¬cursor.Continues operator binding next := by
  rintro ⟨-, accepts, -⟩
  exact peek_kind_ne_of_closes closes rfl accepts.peek_kind

theorem separator?_eq_none (differs : cursor.peek.kind ≠ .mark .colon) :
    cursor.separator? = none := by
  refine separator?_eq_none_iff.2 ?_
  intro next separates
  exact differs separates.2.1.peek_kind

/-- Only a name or a reserved word can be a key of its own. -/
theorem symbolKey?_eq_none_of_peek
    (noName : ∀ name, cursor.peek.kind ≠ .identifier name)
    (noWord : ∀ word, cursor.peek.kind ≠ .keyword word) : cursor.symbolKey? = none := by
  refine symbolKey?_eq_none_iff.2 ?_
  rintro name next ⟨word, middle, takes, isWord, -⟩
  rw [← takes.peek] at isWord
  rcases isWord with ⟨text, isName⟩ | ⟨keyword, isKeyword⟩
  · exact noName text isName
  · exact noWord keyword isKeyword

/-- A key of its own has a colon directly behind it. -/
theorem symbolKey?_eq_none_of_second
    {first second : Token} (isKind : second.kind = kind) (other : kind ≠ .mark .colon) :
    (Cursor.mk (first :: second :: rest) ending flag).symbolKey? = none := by
  refine symbolKey?_eq_none_iff.2 ?_
  rintro name next ⟨word, middle, takes, -, accepts, -⟩
  have ahead : middle.ahead = second :: rest := (List.cons.inj takes.ahead).2.symm
  refine other ?_
  rw [← isKind, ← accepts.peek_kind, peek, peekAt, ahead]
  rfl

end Cursor

theorem Slot.Opens.fits
    {slots : List Slot} {tokens : List Token} (opens : Opens slots) (fits : Fits slots tokens) :
    (∃ token others, tokens = token :: others ∧ token.kind.opens = true) ∨
      ∃ token paren others name, tokens = token :: paren :: others ∧
        token.kind = .identifier name ∧ paren.kind = .mark .leftParen := by
  cases opens with
  | kind opens =>
      rcases fits.of_cons with ⟨token, others, whole, isKind, -⟩
      exact Or.inl ⟨token, others, whole, isKind ▸ opens⟩
  | name =>
      rcases fits.of_cons with ⟨token, others, rfl, isName, fitsOthers⟩
      rcases fitsOthers.token_cons with ⟨paren, behind, rfl, isParen, -, -⟩
      exact Or.inr ⟨token, paren, behind, _, rfl, isName, isParen⟩

theorem Slot.Opens.separated {first : List Slot} (opens : Opens first) (others : List (List Slot)) :
    Opens (separated (first :: others)) := by
  cases others with
  | nil => exact opens
  | cons second others => exact opens.append _

/-- No expression starts with a key of its own. -/
theorem Slot.Opens.symbolKey?_eq_none
    {slots : List Slot} {tokens : List Token} (opens : Opens slots) (fits : Fits slots tokens)
    (rest : List Token) (ending : Ending) (flag : Bool) :
    (Cursor.mk (tokens ++ rest) ending flag).symbolKey? = none := by
  rcases opens.fits fits with ⟨token, others, rfl, opens⟩ |
    ⟨token, paren, others, name, rfl, isName, isParen⟩
  · refine Cursor.symbolKey?_eq_none_of_peek ?_ ?_
    all_goals
      intro content isContent
      have sameKind : token.kind = _ := isContent
      rw [sameKind] at opens
      cases opens
  · exact Cursor.symbolKey?_eq_none_of_second isParen (by simp)

/-- The first token of an expression is none of those that cannot start one. -/
theorem Slot.Opens.peek_kind_ne
    {slots : List Slot} {tokens : List Token} (opens : Opens slots) (fits : Fits slots tokens)
    {kind : Kind} (other : kind.opens = false) (noName : ∀ name, kind ≠ .identifier name)
    (rest : List Token) (ending : Ending) (flag : Bool) :
    (Cursor.mk (tokens ++ rest) ending flag).peek.kind ≠ kind := by
  rintro rfl
  rcases opens.fits fits with ⟨token, others, rfl, opens⟩ |
    ⟨token, paren, others, name, rfl, isName, isParen⟩
  · cases other.symm.trans opens
  · exact noName name isName

/-- Another spacing of the first token is a matter of that token alone. -/
theorem Slot.Opens.fits_respace
    {slots : List Slot} {tokens : List Token} {spaced : Bool} (opens : Opens slots)
    (fits : Fits (respace (some spaced) slots) tokens) :
    Fits slots tokens ∧ ∃ token others, tokens = token :: others ∧ token.spaced = spaced := by
  cases opens with
  | kind | name =>
      rcases fits.token_cons with ⟨token, others, rfl, isKind, isSpaced, fitsOthers⟩
      exact ⟨.token isKind (by simp) fitsOthers, token, others, rfl, isSpaced spaced rfl⟩

/-! ## Reading an expression -/

open Phrase

namespace Node

/-- The tree is read as an operand. -/
def ReadsAlone (node : Node) : Prop :=
  ∀ {tokens : List Token}, Fits node.slots tokens →
    ∀ {rest : List Token} {ending : Ending},
      (Cursor.mk rest ending false).peek.kind.endsOperand = true →
      ∀ flag, Reads (.unary false) ⟨tokens ++ rest, ending, flag⟩ node ⟨rest, ending, false⟩

/-- The tree is read as the start of whatever can be read from behind it on. -/
def ReadsOn (node : Node) : Prop :=
  ∀ {tokens : List Token}, Fits node.slots tokens →
    ∀ {rest : List Token} {ending : Ending},
      (Cursor.mk rest ending false).peek.kind.endsOperand = true →
      (Cursor.mk rest ending false).Follows node →
      ∀ {level : Nat}, node.AtLeast level →
        ∀ {whole : Node} {last : Cursor},
          Reads (.climb false level node) ⟨rest, ending, false⟩ whole last →
          ∀ flag, Reads (.binary false level) ⟨tokens ++ rest, ending, flag⟩ whole last

/-- The tree is read from its renderings. -/
structure Rereads (node : Node) : Prop where
  opens : Slot.Opens node.slots
  alone : node.isBinary = false → node.ReadsAlone
  readsOn : node.ReadsOn

variable {node : Node} {tokens rest : List Token} {ending : Ending}

theorem rereads_of_alone
    (opens : Slot.Opens node.slots) (alone : node.ReadsAlone) : node.Rereads := by
  refine ⟨opens, fun _ => alone, ?_⟩
  intro tokens fits rest ending ends _ level _ whole last further flag
  exact .binary (alone fits ends flag) further

theorem atLeast_loosest (node : Node) : node.AtLeast Binding.loosest := by
  intro top isTop
  cases node with
  | binary operator left right =>
      rcases Option.map_eq_some_iff.1 isTop with ⟨binding, isBinding, rfl⟩
      exact Operator.loosest_le_level isBinding
  | _ => cases isTop

theorem Rereads.expression
    (rereads : node.Rereads) (fits : Fits node.slots tokens)
    (closes : (Cursor.mk rest ending false).peek.kind.closes = true) (flag : Bool) :
    Reads .expression ⟨tokens ++ rest, ending, flag⟩ node ⟨rest, ending, false⟩ := by
  have follows : (Cursor.mk rest ending false).Follows node := by
    intro operator binding next continues
    exact absurd continues (Cursor.not_continues_of_closes closes)
  have stops : Reads (.climb false Binding.loosest node) ⟨rest, ending, false⟩ node
      ⟨rest, ending, false⟩ := by
    refine .stop ?_
    intro operator binding next continues
    exact absurd continues (Cursor.not_continues_of_closes closes)
  exact rereads.readsOn fits (Kind.endsOperand_of_closes closes) follows
    (atLeast_loosest node) stops flag

theorem Rereads.entry
    (rereads : node.Rereads) (fits : Fits node.slots tokens)
    (closes : (Cursor.mk rest ending false).peek.kind.closes = true)
    (noColon : (Cursor.mk rest ending false).peek.kind ≠ .mark .colon) (flag : Bool) :
    Reads (.entry false) ⟨tokens ++ rest, ending, flag⟩ (.single node) ⟨rest, ending, false⟩ :=
  .expression (rereads.opens.symbolKey?_eq_none fits rest ending flag)
    (rereads.expression fits closes flag) (Cursor.separator?_eq_none noColon)

end Node

namespace Phrase

variable {token : Token} {kind : Kind} {node : Node} {rest : List Token} {ending : Ending}
  {flag inCommand : Bool} {next : Cursor}

theorem Reads.operand_of_kind
    (isKind : token.kind = kind) (noSign : ∀ operator, kind ≠ .operator operator)
    (isNode : Reads (.primary inCommand) ⟨token :: rest, ending, flag⟩ node next) :
    Reads (.unary inCommand) ⟨token :: rest, ending, flag⟩ node next := by
  refine .operand (Cursor.unary?_eq_none_iff.2 ?_) isNode
  intro operator isOperator
  exact absurd (isKind.symm.trans isOperator) (noSign operator)

end Phrase

/-! ### Strings -/

namespace StringParts

/-- The first text. -/
def text : StringParts → String
  | .last text => text
  | .insertion text _ _ => text

/-- The tokens behind the first text. -/
def moreSlots : StringParts → List Slot
  | .last _ => []
  | .insertion _ inner others =>
    .of .interpolationStart :: inner.slots ++ .of .interpolationEnd ::
      .token (.fragment others.text) (some false) :: others.moreSlots

theorem partSlots_nodes (parts : StringParts) :
    partSlots parts.nodes = .token (.fragment parts.text) (some false) :: parts.moreSlots := by
  induction parts with
  | last text => rfl
  | insertion text inner others inductionHypothesis =>
      simp [nodes, partSlots, Node.slots, Slot.respace, Slot.of, Node.partSpacing,
        inductionHypothesis, moreSlots, StringParts.text]

theorem slots_node (parts : StringParts) :
    parts.node.slots = .of (.fragment parts.text) :: parts.moreSlots := by
  cases parts with
  | last text => rfl
  | insertion text inner others =>
      have whole := partSlots_nodes (.insertion text inner others)
      rw [node, Node.slots, whole]
      · rfl
      · simp

variable {tokens rest : List Token} {ending : Ending}

/-- The parts of a string are read behind its first text. -/
theorem reads
    {parts : StringParts} (inners : ∀ inner ∈ parts.inners, inner.Rereads)
    (fits : Fits parts.moreSlots tokens)
    (ends : (Cursor.mk rest ending false).peek.kind.endsOperand = true) :
    Reads (.stringParts parts.text) ⟨tokens ++ rest, ending, false⟩ parts
      ⟨rest, ending, false⟩ := by
  induction parts generalizing tokens with
  | last text =>
      cases fits
      refine .lastPart ⟨?_, ?_⟩
      · exact Cursor.peek_kind_ne_of_endsOperand ends rfl
      · intro more isText
        exact absurd isText (Cursor.peek_kind_ne_of_endsOperand ends rfl)
  | insertion text inner others inductionHypothesis =>
      have innerRereads : inner.Rereads := inners inner (List.mem_cons_self ..)
      rcases fits.of_cons with ⟨start, more, rfl, isStart, fitsMore⟩
      rcases fitsMore.append with ⟨innerTokens, behind, rfl, fitsInner, fitsBehind⟩
      rcases fitsBehind.of_cons with ⟨stop, further, rfl, isStop, fitsFurther⟩
      rcases fitsFurther.token_cons with ⟨fragment, others', rfl, isText, hugs, fitsOthers⟩
      have closes : (Cursor.mk (stop :: (fragment :: others' ++ rest)) ending
          false).peek.kind.closes = true := by
        change stop.kind.closes = true
        rw [isStop]
        rfl
      have isOthers := inductionHypothesis
        (fun inner member => inners inner (List.mem_cons_of_mem _ member)) fitsOthers
      have isInner := innerRereads.expression fitsInner closes false
      simp only [List.cons_append, List.append_assoc] at isInner ⊢
      refine .insertion (Cursor.accepts_cons isStart (by simp)) isInner
        (Cursor.accepts_cons isStop (by simp)) ?_
      refine .adjacent (Cursor.takes_cons (by simp [isText])) isText (hugs false rfl) ?_
      rw [String.empty_append]
      exact isOthers

theorem rereads_node
    {parts : StringParts} (inners : ∀ inner ∈ parts.inners, inner.Rereads) :
    parts.node.Rereads := by
  have slots := slots_node parts
  refine Node.rereads_of_alone ?_ ?_
  · rw [slots]
    exact .kind rfl
  · intro tokens fits rest ending ends flag
    rw [slots] at fits
    rcases fits.of_cons with ⟨token, others, rfl, isText, fitsOthers⟩
    exact .operand_of_kind isText (by simp)
      (.string (Cursor.accepts_cons isText (by simp)) (reads inners fitsOthers ends))

theorem rereads_symbol
    {parts : StringParts} (inners : ∀ inner ∈ parts.inners, inner.Rereads) :
    (Node.symbol parts.node).Rereads := by
  refine Node.rereads_of_alone (.kind rfl) ?_
  intro tokens fits rest ending ends flag
  rw [Node.slots, slots_node parts] at fits
  rcases fits.of_cons with ⟨colon, others, rfl, isColon, fitsName⟩
  rcases fitsName.token_cons with ⟨token, others, rfl, isText, hugs, fitsOthers⟩
  refine .operand_of_kind isColon (by simp) (.colon (Cursor.accepts_cons isColon (by simp)) ?_)
  exact .symbolString (hugs false rfl) (Cursor.accepts_cons isText (by simp))
    (reads inners fitsOthers ends)

end StringParts

/-! ### Lists -/

theorem Fits.separated_cons
    {first : List Slot} {others : List (List Slot)} {tokens : List Token}
    (fits : Fits (Slot.separated (first :: others)) tokens) :
    others = [] ∧ Fits first tokens ∨
      ∃ left comma right, tokens = left ++ comma :: right ∧ Fits first left ∧
        comma.kind = .mark .comma ∧ Fits (Slot.separated others) right ∧ others ≠ [] := by
  cases others with
  | nil => exact Or.inl ⟨rfl, fits⟩
  | cons second others =>
      rw [Slot.separated] at fits
      · rcases fits.append with ⟨left, behind, rfl, fitsLeft, fitsBehind⟩
        rcases fitsBehind.of_cons with ⟨comma, right, rfl, isComma, fitsRight⟩
        exact Or.inr ⟨left, comma, right, rfl, fitsLeft, isComma, fitsRight, by simp⟩
      · simp

theorem Entry.gather_singles (nodes : List Node) : gather (nodes.map .single) = nodes := by
  induction nodes with
  | nil => rfl
  | cons head tail inductionHypothesis =>
      rw [List.map_cons, gather, inductionHypothesis]

section Lists

variable {tokens rest : List Token} {ending : Ending}

/-- Elements are read up to what closes their list. -/
theorem reads_entries
    {first : Node} {others : List Node} (rereads : ∀ node ∈ first :: others, node.Rereads)
    (fits : Fits (Slot.separated (elementSlots (first :: others))) tokens)
    (closes : (Cursor.mk rest ending false).peek.kind.closes = true)
    (noColon : (Cursor.mk rest ending false).peek.kind ≠ .mark .colon)
    (noComma : (Cursor.mk rest ending false).peek.kind ≠ .mark .comma) (flag : Bool) :
    Reads (.entries false) ⟨tokens ++ rest, ending, flag⟩ ((first :: others).map .single)
      ⟨rest, ending, false⟩ := by
  induction others generalizing first tokens flag with
  | nil =>
      have isFirst : first.Rereads := rereads first (List.mem_cons_self ..)
      exact .lastEntry (isFirst.entry fits closes noColon flag) noComma
  | cons second others inductionHypothesis =>
      have isFirst : first.Rereads := rereads first (List.mem_cons_self ..)
      rcases fits.separated_cons with ⟨isNil, -⟩ |
        ⟨left, comma, right, rfl, fitsLeft, isComma, fitsRight, -⟩
      · cases isNil
      · have areOthers := inductionHypothesis
          (fun node member => rereads node (List.mem_cons_of_mem _ member)) fitsRight false
        rw [List.append_assoc]
        refine .moreEntries (isFirst.entry fitsLeft ?_ ?_ flag)
          (Cursor.accepts_cons isComma (by simp)) areOthers
        · change comma.kind.closes = true
          rw [isComma]
          rfl
        · change comma.kind ≠ _
          rw [isComma]
          simp

/-- A list between its marks. -/
theorem reads_enclosed
    {closer : Mark} (isCloser : closer = .rightBracket ∨ closer = .rightParen)
    {elements : List Node} (rereads : ∀ node ∈ elements, node.Rereads)
    (fits : Fits (Slot.separated (elementSlots elements)) tokens)
    {closing : Token} (isClosing : closing.kind = .mark closer) (flag : Bool) :
    Reads (.enclosed closer) ⟨tokens ++ closing :: rest, ending, flag⟩ elements
      ⟨rest, ending, false⟩ := by
  cases elements with
  | nil =>
      cases fits
      exact .emptyEnclosed (Cursor.accepts_cons isClosing (by simp))
  | cons first others =>
      have closes : (Cursor.mk (closing :: rest) ending false).peek.kind.closes = true ∧
          (Cursor.mk (closing :: rest) ending false).peek.kind ≠ .mark .colon ∧
          (Cursor.mk (closing :: rest) ending false).peek.kind ≠ .mark .comma := by
        change closing.kind.closes = true ∧ closing.kind ≠ _ ∧ closing.kind ≠ _
        rw [isClosing]
        rcases isCloser with rfl | rfl
        · exact ⟨rfl, by simp, by simp⟩
        · exact ⟨rfl, by simp, by simp⟩
      have areEntries := reads_entries rereads fits closes.1 closes.2.1 closes.2.2 flag
      have opens : Slot.Opens (Slot.separated (elementSlots (first :: others))) :=
        (rereads first (List.mem_cons_self ..)).opens.separated _
      have unopened : (Kind.mark closer).opens = false := by
        rcases isCloser with rfl | rfl <;> rfl
      have filled := opens.peek_kind_ne fits unopened (by simp) (closing :: rest) ending flag
      rw [← Entry.gather_singles (first :: others)]
      exact .enclosed filled areEntries (Cursor.accepts_cons isClosing (by simp))

end Lists

/-! ### Hashes -/

section Hashes

variable {tokens rest : List Token} {ending : Ending}

/-- A key is read up to its colon, and its value behind it. -/
theorem reads_pair
    {pair : Pair Node} (key : pair.key.Rereads) (value : pair.value.Rereads)
    (fits : Fits (pair.key.slots ++
      .of (.mark .colon) :: Slot.respace (some true) pair.value.slots) tokens)
    (closes : (Cursor.mk rest ending false).peek.kind.closes = true) (flag : Bool) :
    Reads (.entry false) ⟨tokens ++ rest, ending, flag⟩ (.pair pair) ⟨rest, ending, false⟩ := by
  rcases fits.append with ⟨left, behind, rfl, fitsKey, fitsBehind⟩
  rcases fitsBehind.of_cons with ⟨colon, right, rfl, isColon, fitsRight⟩
  rcases value.opens.fits_respace fitsRight with ⟨fitsValue, token, others, rfl, isSpaced⟩
  have colonCloses : (Cursor.mk (colon :: (token :: others ++ rest)) ending false).peek.kind.closes
      = true := by
    change colon.kind.closes = true
    rw [isColon]
    rfl
  have isKey := key.expression fitsKey colonCloses flag
  have isValue := value.expression fitsValue closes false
  rw [List.append_assoc]
  refine .pair (key.opens.symbolKey?_eq_none fitsKey _ ending flag) isKey ?_ isValue
  exact ⟨rfl, Cursor.accepts_cons isColon (by simp), isSpaced⟩

theorem reads_pairs
    {first : Pair Node} {others : List (Pair Node)}
    (keys : ∀ pair ∈ first :: others, pair.key.Rereads)
    (values : ∀ pair ∈ first :: others, pair.value.Rereads)
    (fits : Fits (Slot.separated (pairSlots (first :: others))) tokens)
    (closes : (Cursor.mk rest ending false).peek.kind.closes = true)
    (noComma : (Cursor.mk rest ending false).peek.kind ≠ .mark .comma) (flag : Bool) :
    Reads .pairs ⟨tokens ++ rest, ending, flag⟩ (first :: others) ⟨rest, ending, false⟩ := by
  induction others generalizing first tokens flag with
  | nil =>
      have isFirst := reads_pair (keys first (List.mem_cons_self ..))
        (values first (List.mem_cons_self ..)) fits closes flag
      exact .pairs isFirst (.lastPair noComma)
  | cons second others inductionHypothesis =>
      rcases fits.separated_cons with ⟨isNil, -⟩ |
        ⟨left, comma, right, rfl, fitsLeft, isComma, fitsRight, -⟩
      · cases isNil
      · have areOthers := inductionHypothesis
          (fun pair member => keys pair (List.mem_cons_of_mem _ member))
          (fun pair member => values pair (List.mem_cons_of_mem _ member)) fitsRight false
        have commaCloses : (Cursor.mk (comma :: (right ++ rest)) ending false).peek.kind.closes
            = true := by
          change comma.kind.closes = true
          rw [isComma]
          rfl
        have isFirst := reads_pair (keys first (List.mem_cons_self ..))
          (values first (List.mem_cons_self ..)) fitsLeft commaCloses flag
        rw [List.append_assoc]
        exact .pairs isFirst (.morePairs (Cursor.accepts_cons isComma (by simp)) areOthers)

theorem reads_hash
    {pairs : List (Pair Node)}
    (keys : ∀ pair ∈ pairs, pair.key.Rereads) (values : ∀ pair ∈ pairs, pair.value.Rereads)
    (fits : Fits (Slot.separated (pairSlots pairs)) tokens)
    {closing : Token} (isClosing : closing.kind = .mark .rightBrace) :
    Reads .hash ⟨tokens ++ closing :: rest, ending, false⟩ (.hash pairs)
      ⟨rest, ending, false⟩ := by
  cases pairs with
  | nil =>
      cases fits
      exact .emptyHash (Cursor.accepts_cons isClosing (by simp))
  | cons first others =>
      have closes : (Cursor.mk (closing :: rest) ending false).peek.kind.closes = true ∧
          (Cursor.mk (closing :: rest) ending false).peek.kind ≠ .mark .comma := by
        change closing.kind.closes = true ∧ closing.kind ≠ _
        rw [isClosing]
        exact ⟨rfl, by simp⟩
      have opens : Slot.Opens (Slot.separated (pairSlots (first :: others))) :=
        ((keys first (List.mem_cons_self ..)).opens.append _).separated _
      have unopened : (Kind.mark .rightBrace).opens = false := rfl
      have filled := opens.peek_kind_ne fits unopened (by simp) (closing :: rest) ending false
      exact .hash filled (reads_pairs keys values fits closes.1 closes.2 false)
        (Cursor.accepts_cons isClosing (by simp))

end Hashes

/-- The arguments of a call in their parentheses. -/
theorem reads_arguments
    {arguments : List Node} (rereads : ∀ argument ∈ arguments, argument.Rereads)
    {more : List Slot} {tokens : List Token}
    (fits : Fits (.token (.mark .leftParen) (some false) ::
      Slot.separated (elementSlots arguments) ++ .of (.mark .rightParen) :: more) tokens) :
    ∃ paren front behind, tokens = paren :: front ++ behind ∧ paren.kind = .mark .leftParen ∧
      Fits more behind ∧ ∀ rest ending flag,
        Reads .arguments ⟨tokens ++ rest, ending, flag⟩ arguments
          ⟨behind ++ rest, ending, false⟩ := by
  rcases fits.token_cons with ⟨paren, others, rfl, isParen, hugs, fitsOthers⟩
  rcases fitsOthers.append with ⟨listTokens, closingTokens, rfl, fitsList, fitsClosing⟩
  rcases fitsClosing.of_cons with ⟨closing, behind, rfl, isClosing, fitsMore⟩
  refine ⟨paren, listTokens ++ [closing], behind, by simp, isParen, fitsMore, ?_⟩
  intro rest ending flag
  rw [List.cons_append, List.append_assoc]
  refine .parenthesized (Cursor.accepts_cons isParen (by simp)) ?_
    (reads_enclosed (Or.inr rfl) rereads fitsList isClosing false)
  have unspaced : (Cursor.mk (paren :: (listTokens ++ (closing :: behind ++ rest))) ending
      flag).peek.spaced = false := hugs false rfl
  rw [unspaced, Bool.false_and]

/-! ### Operators -/

namespace Binding

/-- What may take a tree as its left operand may stand behind the right operand in it. -/
theorem admitsLeft_right
    {operator outer : Operator} {binding further : Binding} {left right : Node}
    (isBinding : operator.binding? = some binding) (isFurther : outer.binding? = some further)
    (admitsRight : binding.AdmitsRight right)
    (admitsWhole : further.AdmitsLeft (.binary operator left right)) :
    further.AdmitsLeft right := by
  have isLevel : (Node.binary operator left right).level? = some binding.level := by
    simp [Node.level?, isBinding]
  intro level isRight
  rcases admitsRight level isRight with tighter | ⟨sameLevel, isRightGrouping⟩
  · rcases admitsWhole binding.level isLevel with looser | ⟨same, -⟩
    · exact Or.inl (Nat.lt_trans looser tighter)
    · exact Or.inl (same ▸ tighter)
  · rcases admitsWhole binding.level isLevel with looser | ⟨same, isLeftGrouping⟩
    · exact Or.inl (sameLevel ▸ looser)
    · have sameGrouping := Operator.associativity_eq isBinding isFurther same
      rw [isRightGrouping, isLeftGrouping] at sameGrouping
      cases sameGrouping

/-- The right operand is read at the level at which it may stand there. -/
theorem atLeast_of_admitsRight
    {binding : Binding} {right : Node} (admitsRight : binding.AdmitsRight right) :
    right.AtLeast binding.operandLevel := by
  intro level isLevel
  rcases admitsRight level isLevel with tighter | ⟨same, grouping⟩
  · unfold operandLevel
    split
    · exact Nat.le_of_lt tighter
    · exact tighter
    · exact tighter
  · simp only [operandLevel, grouping, same]
    exact Nat.le_refl _

end Binding

namespace Cursor

variable {cursor : Cursor} {operator : Operator} {binding : Binding} {left right : Node}

/-- What may take a tree as its left operand leaves the right operand in it alone. -/
theorem Follows.below
    (isBinding : operator.binding? = some binding)
    (follows : cursor.Follows (.binary operator left right)) :
    cursor.Below binding.operandLevel := by
  have isLevel : (Node.binary operator left right).level? = some binding.level := by
    simp [Node.level?, isBinding]
  intro outer further next continues
  rcases follows outer further next continues binding.level isLevel with looser | ⟨same, grouping⟩
  · unfold Binding.operandLevel
    split
    · exact looser
    · exact Nat.lt_succ_of_lt looser
    · exact Nat.lt_succ_of_lt looser
  · have sameGrouping := Operator.associativity_eq isBinding continues.2.2 same
    rw [grouping] at sameGrouping
    simp only [Binding.operandLevel, sameGrouping, same]
    exact Nat.lt_succ_self _

theorem Follows.chained?_eq_none
    (isBinding : operator.binding? = some binding)
    (follows : cursor.Follows (.binary operator left right)) :
    cursor.chained? binding = none := by
  have isLevel : (Node.binary operator left right).level? = some binding.level := by
    simp [Node.level?, isBinding]
  refine chained?_eq_none_iff.2 ?_
  intro isNone operator other next continues same
  rcases follows operator other next continues binding.level isLevel with looser | ⟨-, grouping⟩
  · exact absurd same (Nat.ne_of_lt looser)
  · have sameGrouping := Operator.associativity_eq isBinding continues.2.2 same.symm
    rw [isNone, grouping] at sameGrouping
    cases sameGrouping

end Cursor

namespace Node

theorem rereads_binary
    {operator : Operator} {binding : Binding} {left right : Node}
    (isBinding : operator.binding? = some binding)
    (admitsLeft : binding.AdmitsLeft left) (admitsRight : binding.AdmitsRight right)
    (isLeft : left.Rereads) (isRight : right.Rereads) :
    (Node.binary operator left right).Rereads := by
  refine ⟨isLeft.opens.append _, fun notBinary => absurd notBinary (by simp [isBinary]), ?_⟩
  intro tokens fits rest ending ends follows level tight whole last further flag
  rcases fits.append with ⟨leftTokens, behind, rfl, fitsLeft, fitsBehind⟩
  rcases fitsBehind.of_cons with ⟨sign, rightTokens, rfl, isSign, fitsRight⟩
  have tightTop : level ≤ binding.level := by
    refine tight binding.level ?_
    simp [Node.level?, isBinding]
  have continues : (Cursor.mk (sign :: (rightTokens ++ rest)) ending false).Continues operator
      binding ⟨rightTokens ++ rest, ending, false⟩ :=
    ⟨rfl, Cursor.accepts_cons isSign (by simp), isBinding⟩
  have followsRight : (Cursor.mk rest ending false).Follows right := by
    intro outer other next isOuter
    exact Binding.admitsLeft_right isBinding isOuter.2.2 admitsRight
      (follows outer other next isOuter)
  have readsRight : Reads (.binary false binding.operandLevel) ⟨rightTokens ++ rest, ending, false⟩
      right ⟨rest, ending, false⟩ :=
    isRight.readsOn fitsRight ends followsRight (Binding.atLeast_of_admitsRight admitsRight)
      (.stop (follows.below isBinding)) false
  -- Nothing is known yet of what stands behind the left operand, so it is read last.
  have readsOperator : Reads (.climb false level left)
      ⟨sign :: (rightTokens ++ rest), ending, false⟩ whole last :=
    .climb continues tightTop readsRight (follows.chained?_eq_none isBinding) further
  rw [List.append_assoc]
  refine isLeft.readsOn fitsLeft ?_ ?_ ?_ readsOperator flag
  · change sign.kind.endsOperand = true
    rw [isSign]
    rfl
  · intro outer other next isOuter
    rcases isOuter.binding_eq continues with ⟨-, rfl⟩
    exact admitsLeft
  · intro level' isLevel
    rcases admitsLeft level' isLevel with tighter | ⟨same, -⟩
    · exact Nat.le_trans tightTop (Nat.le_of_lt tighter)
    · exact same ▸ tightTop

/-- Every expression is read from its renderings. -/
theorem IsExpression.rereads {node : Node} (isExpression : node.IsExpression) :
    node.Rereads := by
  induction isExpression with
  | integer value =>
      refine rereads_of_alone (.kind rfl) ?_
      intro tokens fits rest ending ends flag
      rcases fits.of_singleton with ⟨token, rfl, isValue⟩
      exact .operand_of_kind isValue (by simp) (.integer (Cursor.accepts_cons isValue (by simp)))
  | float value =>
      refine rereads_of_alone (.kind rfl) ?_
      intro tokens fits rest ending ends flag
      rcases fits.of_singleton with ⟨token, rfl, isValue⟩
      exact .operand_of_kind isValue (by simp) (.float (Cursor.accepts_cons isValue (by simp)))
  | constant name =>
      refine rereads_of_alone (.kind rfl) ?_
      intro tokens fits rest ending ends flag
      rcases fits.of_singleton with ⟨token, rfl, isName⟩
      exact .operand_of_kind isName (by simp) (.constant (Cursor.accepts_cons isName (by simp)))
  | string _ innersReread => exact StringParts.rereads_node innersReread
  | symbol _ innersReread => exact StringParts.rereads_symbol innersReread
  | array _ elementsReread =>
      refine rereads_of_alone (.kind rfl) ?_
      intro tokens fits rest ending ends flag
      rcases fits.of_cons with ⟨opening, behind, rfl, isOpening, fitsBehind⟩
      rcases fitsBehind.append with ⟨listTokens, closingTokens, rfl, fitsList, fitsClosing⟩
      rcases fitsClosing.of_singleton with ⟨closing, rfl, isClosing⟩
      rw [List.cons_append, List.append_assoc]
      exact .operand_of_kind isOpening (by simp) (.array (Cursor.accepts_cons isOpening (by simp))
        (reads_enclosed (Or.inl rfl) elementsReread fitsList isClosing false))
  | @hash pairs _ _ keysReread valuesReread =>
      refine rereads_of_alone (.kind rfl) ?_
      intro tokens fits rest ending ends flag
      rcases fits.of_cons with ⟨opening, behind, rfl, isOpening, fitsBehind⟩
      rcases fitsBehind.append with ⟨listTokens, closingTokens, rfl, fitsList, fitsClosing⟩
      rcases fitsClosing.of_singleton with ⟨closing, rfl, isClosing⟩
      rw [List.cons_append, List.append_assoc]
      exact .operand_of_kind isOpening (by simp) (.brace (Cursor.accepts_cons isOpening (by simp))
        (reads_hash keysReread valuesReread fitsList isClosing))
  | @call name arguments _ argumentsReread =>
      refine rereads_of_alone .name ?_
      intro tokens fits rest ending ends flag
      rcases fits.of_cons with ⟨word, behind, rfl, isName, fitsBehind⟩
      rcases reads_arguments argumentsReread fitsBehind with
        ⟨paren, front, behind, rfl, isParen, nothing, areArguments⟩
      cases nothing
      refine .operand_of_kind isName (by simp) (.name (Cursor.accepts_cons isName (by simp)) ?_)
      refine .call ?_ (areArguments rest ending false) (.withoutBlock (Or.inr ?_))
      · change paren.kind ≠ _
        rw [isParen]
        simp
      · exact Cursor.peek_kind_ne_of_endsOperand ends rfl
  | group _ innerRereads =>
      refine rereads_of_alone (.kind rfl) ?_
      intro tokens fits rest ending ends flag
      rcases fits.of_cons with ⟨opening, behind, rfl, isOpening, fitsBehind⟩
      rcases fitsBehind.append with ⟨innerTokens, closingTokens, rfl, fitsInner, fitsClosing⟩
      rcases fitsClosing.of_singleton with ⟨closing, rfl, isClosing⟩
      have closes : (Cursor.mk (closing :: rest) ending false).peek.kind.closes = true := by
        change closing.kind.closes = true
        rw [isClosing]
        rfl
      rw [List.cons_append, List.append_assoc]
      refine .operand_of_kind isOpening (by simp) ?_
      refine .paren (Cursor.accepts_cons isOpening (by simp)) ?_
      exact .group (innerRereads.expression fitsInner closes false)
        (Cursor.accepts_cons isClosing (by simp))
  | unary isUnary notBinary _ operandRereads =>
      refine rereads_of_alone (.kind rfl) ?_
      intro tokens fits rest ending ends flag
      rcases fits.of_cons with ⟨sign, behind, rfl, isSign, fitsOperand⟩
      exact .unary (Cursor.accepts_cons isSign (by simp)) isUnary
        (operandRereads.alone notBinary fitsOperand ends false)
  | binary isBinding admitsLeft admitsRight _ _ leftRereads rightRereads =>
      exact rereads_binary isBinding admitsLeft admitsRight leftRereads rightRereads

end Node

end ScriptFront