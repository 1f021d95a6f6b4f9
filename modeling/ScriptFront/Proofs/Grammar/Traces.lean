import ScriptFront.Proofs.Grammar.Nodes
import ScriptFront.Proofs.Grammar.WellBracketed
import ScriptFront.Tree.Outline

/-!
# What tokens leave in the tree

A number and the start of an inserted expression each leave a trace: a node of the tree stands for
the token, and for no other one.  What a phrase takes over from before it counts with the tokens
ahead, so that operands, keys and arguments are followed from the place where they are read to the
node that keeps them.
-/

namespace ScriptFront

/-- What of a token is found again in the tree. -/
inductive Trace where
  | integer (value : Int)
  | float (value : Binary64)
  /-- The start of an expression inserted into a string. -/
  | insertion
deriving DecidableEq, Repr

def Kind.trace? : Kind → Option Trace
  | .integer value => some (.integer value)
  | .float value => some (.float value)
  | .interpolationStart => some .insertion
  | _ => none

def Label.trace? : Label → Option Trace
  | .integer value => some (.integer value)
  | .float value => some (.float value)
  | .interpolation => some .insertion
  | _ => none

namespace Node

/-- The traces in an outline. -/
def tracesOf (outline : List (Nat × Label)) : List Trace :=
  outline.filterMap (·.2.trace?)

theorem tracesOf_append (first second : List (Nat × Label)) :
    tracesOf (first ++ second) = tracesOf first ++ tracesOf second :=
  List.filterMap_append

theorem tracesOf_flatMap (nodes : List Node) (depth : Nat) :
    tracesOf (nodes.flatMap (outline depth)) =
      nodes.flatMap fun node => tracesOf (node.outline depth) := by
  induction nodes with
  | nil => rfl
  | cons first others inductionHypothesis =>
      rw [List.flatMap_cons, tracesOf_append, inductionHypothesis]
      rfl

theorem tracesOf_outline (depth : Nat) (node : Node) :
    tracesOf (node.outline depth) = node.label.trace?.toList ++
      node.children.flatMap fun child => tracesOf (child.outline (depth + 1)) := by
  rw [outline_eq, ← tracesOf_flatMap, ← List.singleton_append, tracesOf_append]
  cases isTrace : node.label.trace? <;> simp [tracesOf, isTrace]

/-- At whatever depth a node stands, its traces are the same. -/
theorem tracesOf_outline_eq (node : Node) (depth other : Nat) :
    tracesOf (node.outline depth) = tracesOf (node.outline other) := by
  rw [tracesOf_outline, tracesOf_outline other]
  rw [List.flatMap_def, List.flatMap_def]
  congr 2
  refine List.map_congr_left ?_
  intro child member
  have smaller := sizeOf_lt_of_mem_children member
  exact child.tracesOf_outline_eq (depth + 1) (other + 1)
termination_by sizeOf node

/-- The traces of a tree, a node before its children and these in order. -/
def traces (node : Node) : List Trace := tracesOf (node.outline 0)

theorem traces_eq (node : Node) :
    node.traces = node.label.trace?.toList ++ node.children.flatMap traces := by
  have sameDepth (child : Node) : tracesOf (child.outline 1) = child.traces :=
    child.tracesOf_outline_eq 1 0
  unfold traces
  rw [tracesOf_outline]
  simp only [Nat.zero_add, sameDepth]
  rfl

theorem tracesOf_outlineAll (nodes : List Node) :
    tracesOf (outlineAll nodes) = nodes.flatMap traces :=
  tracesOf_flatMap nodes 0

/-! ## The traces of each sort of node -/

@[simp]
theorem traces_integer (value : Int) : (integer value).traces = [.integer value] := by
  rw [traces_eq]
  rfl

@[simp]
theorem traces_float (value : Binary64) : (float value).traces = [.float value] := by
  rw [traces_eq]
  rfl

@[simp]
theorem traces_text (value : String) : (text value).traces = [] := by
  rw [traces_eq]
  rfl

@[simp]
theorem traces_constant (name : String) : (constant name).traces = [] := by
  rw [traces_eq]
  rfl

/-- A node that leaves no trace has the traces of its children. -/
theorem traces_of_label {node : Node} (isNone : node.label.trace? = none) :
    node.traces = node.children.flatMap traces := by
  rw [traces_eq, isNone]
  rfl

@[simp]
theorem traces_interpolation (inner : Node) :
    (interpolation inner).traces = .insertion :: inner.traces := by
  rw [traces_eq]
  simp [label, Label.trace?, children]

@[simp]
theorem traces_interpolated (parts : List Node) :
    (interpolated parts).traces = parts.flatMap traces :=
  traces_of_label rfl

@[simp]
theorem traces_symbol (name : Node) : (symbol name).traces = name.traces := by
  rw [traces_of_label rfl]
  simp [children]

@[simp]
theorem traces_group (inner : Node) : (group inner).traces = inner.traces := by
  rw [traces_of_label rfl]
  simp [children]

@[simp]
theorem traces_array (elements : List Node) :
    (array elements).traces = elements.flatMap traces :=
  traces_of_label rfl

@[simp]
theorem traces_hash (pairs : List (Pair Node)) :
    (hash pairs).traces = (pairs.flatMap Pair.nodes).flatMap traces :=
  traces_of_label rfl

@[simp]
theorem traces_call (name : String) (list : List Node) (trailing : Option (Block Node)) :
    (call name list trailing).traces =
      list.flatMap traces ++ (trailing.toList.flatMap Block.nodes).flatMap traces := by
  rw [traces_of_label rfl, children, List.flatMap_append]

@[simp]
theorem traces_block (inner : Block Node) :
    (Node.block inner).traces = inner.nodes.flatMap traces :=
  traces_of_label rfl

@[simp]
theorem traces_method (name : String) (inner : Block Node) :
    (method name inner).traces = inner.nodes.flatMap traces :=
  traces_of_label rfl

@[simp]
theorem traces_classDefinition (name : Node) (superclass : Option Node) (body : List Node) :
    (classDefinition name superclass body).traces =
      name.traces ++ superclass.toList.flatMap traces ++ body.flatMap traces := by
  rw [traces_of_label rfl]
  simp [children]

@[simp]
theorem traces_moduleDefinition (name : Node) (body : List Node) :
    (moduleDefinition name body).traces = name.traces ++ body.flatMap traces := by
  rw [traces_of_label rfl, children, List.flatMap_cons]

@[simp]
theorem traces_unary (operator : Operator) (operand : Node) :
    (unary operator operand).traces = operand.traces := by
  rw [traces_of_label rfl]
  simp [children]

@[simp]
theorem traces_binary (operator : Operator) (left right : Node) :
    (binary operator left right).traces = left.traces ++ right.traces := by
  rw [traces_of_label rfl]
  simp [children]

end Node

open Node in
/-- Pairs that are gathered into a hash keep their traces and their order. -/
theorem Entry.traces_gather (list : List Entry) :
    (Entry.gather list).flatMap traces = (list.flatMap Entry.nodes).flatMap traces := by
  have entries_cons (first : Entry) (others : List Entry) :
      ((first :: others).flatMap Entry.nodes).flatMap traces =
        first.nodes.flatMap traces ++ (others.flatMap Entry.nodes).flatMap traces := by
    rw [List.flatMap_cons, List.flatMap_append]
  fun_induction Entry.gather list with
  | case1 => rfl
  | case2 node entries inductionHypothesis =>
      simp [Entry.nodes, inductionHypothesis]
  | case3 first second entries pairs nodes isHash inductionHypothesis =>
      rw [isHash] at inductionHypothesis
      rw [entries_cons, ← inductionHypothesis]
      simp [Entry.nodes]
  | case4 first second entries notHash inductionHypothesis =>
      rw [entries_cons, ← inductionHypothesis]
      simp [Entry.nodes]
  | case5 last entries notPair inductionHypothesis =>
      simp [Entry.nodes, inductionHypothesis]

open Node in
theorem StringParts.traces_node (parts : StringParts) :
    parts.node.traces = parts.nodes.flatMap traces := by
  cases parts <;> simp [StringParts.node, StringParts.nodes]

namespace Cursor

variable {cursor next : Cursor} {token : Token} {kind : Kind}

/-- The traces among the tokens ahead. -/
def traces (cursor : Cursor) : List Trace := cursor.ahead.filterMap (·.kind.trace?)

theorem Takes.traces (takes : cursor.Takes token next) :
    cursor.traces = token.kind.trace?.toList ++ next.traces := by
  rw [Cursor.traces, takes.ahead, ← List.singleton_append, List.filterMap_append]
  cases isTrace : token.kind.trace? <;> simp [Cursor.traces, isTrace]

theorem Accepts.traces (accepts : cursor.Accepts kind next) :
    cursor.traces = kind.trace?.toList ++ next.traces := by
  rcases accepts with ⟨token, takes, rfl⟩
  exact takes.traces

/-- Taking a token that leaves no trace. -/
theorem Accepts.sameTraces (accepts : cursor.Accepts kind next) (isNone : kind.trace? = none) :
    cursor.traces = next.traces := by
  rw [accepts.traces, isNone]
  rfl

@[simp]
theorem traces_skipNewlines (cursor : Cursor) : cursor.skipNewlines.traces = cursor.traces :=
  related_skipNewlines (fun cursor next => next.traces = cursor.traces) (fun _ => rfl)
    (fun line further => further.trans (line.sameTraces rfl).symm) cursor

@[simp]
theorem traces_skipDedent (cursor : Cursor) : cursor.skipDedent.traces = cursor.traces := by
  unfold skipDedent
  split
  · rfl
  · rename_i dedent present
    exact ((accepts_of_accept? present).sameTraces rfl).symm

theorem StartsBody.sameTraces (starts : cursor.StartsBody next) :
    cursor.traces = next.traces := by
  rcases starts with ⟨line, isLine, isIndent⟩
  rw [isLine.sameTraces rfl, ← line.traces_skipNewlines]
  exact isIndent.sameTraces rfl

theorem NamesKey.sameTraces {name : String} (names : cursor.NamesKey name next) :
    cursor.traces = next.traces := by
  rcases names with ⟨word, colon, takes, isWord, isColon, -⟩
  have noTrace : word.kind.trace? = none := by
    rcases isWord with ⟨text, isText⟩ | ⟨keyword, isKeyword⟩
    · rw [isText]
      rfl
    · rw [isKeyword]
      rfl
  rw [takes.traces, noTrace, ← isColon.sameTraces rfl]
  rfl

theorem EndsStatement.sameTraces (ends : cursor.EndsStatement next) :
    cursor.traces = next.traces := by
  rcases ends with accepts | ⟨-, -, rfl⟩
  · exact accepts.sameTraces rfl
  · rfl

end Cursor

theorem Kind.trace?_of_symbolName?
    {kind : Kind} {name : String} (names : kind.symbolName? = some name) :
    kind.trace? = none := by
  cases kind with
  | integer | float | interpolationStart => cases names
  | _ => rfl

namespace Phrase

/-- The traces that a phrase is given and those ahead of it are the traces that it yields and
those behind it. -/
theorem Reads.traces
    {form : Form} {cursor next : Cursor} {value : form.Value}
    (reads : Reads form cursor value next) :
    form.given.flatMap Node.traces ++ cursor.traces =
      (form.yielded value).flatMap Node.traces ++ next.traces := by
  induction reads with
  -- Rules that end a list or leave out a part pass over newlines and a closing mark at most.
  | noStatements | single | bareHash | noBody | lastPair | stop | lastPart | noParameters
  | withoutBlock | noArguments => simp_all [Form.given, Form.yielded, Entry.nodes, StringParts.nodes]
  | plain => simp [Form.given, Form.yielded, Parameter.value?]
  | emptyEnclosed closes | emptyHash closes =>
      simp [Form.given, Form.yielded, closes.sameTraces rfl]
  | emptyParameters opens closes =>
      simp [Form.given, Form.yielded, opens.sameTraces rfl, closes.sameTraces rfl]
  | splat star names =>
      simp [Form.given, Form.yielded, Parameter.value?, star.sameTraces rfl, names.sameTraces rfl]
  -- Numbers are kept as they are written; words leave no trace.
  | integer here | float here | constant here =>
      simp [Form.given, Form.yielded, here.traces, Kind.trace?]
  | symbolName _ here names =>
      have noTrace := Kind.trace?_of_symbolName? names
      simp [Form.given, Form.yielded, here.traces, noTrace]
  -- Rules with one part yield the traces of that.
  | statement _ _ ends isFirst whole =>
      simp_all [Form.given, Form.yielded, ends.sameTraces]
  | body starts _ _ areNodes =>
      simpa [Form.given, Form.yielded, starts.sameTraces] using areNodes
  | keyed names _ isValue =>
      simpa [Form.given, Form.yielded, Entry.nodes, Pair.nodes, names.sameTraces] using isValue
  | expression _ _ _ isNode => simpa [Form.given, Form.yielded, Entry.nodes] using isNode
  | lastEntry _ _ isFirst => simpa [Form.given, Form.yielded] using isFirst
  | lastParameter _ _ isFirst =>
      simpa [Form.given, Form.yielded, Parameter.values_cons] using isFirst
  | enclosed _ _ closes inner | hash _ _ closes inner | group _ closes inner =>
      simpa [Form.given, Form.yielded, Entry.traces_gather, closes.sameTraces rfl] using inner
  | larger _ _ _ areArguments | command _ _ _ areArguments =>
      simpa [Form.given, Form.yielded, Entry.traces_gather] using areArguments
  | operand _ _ isNode => simpa [Form.given, Form.yielded] using isNode
  | unary sign _ _ inner | name sign _ inner | classWord sign _ inner | moduleWord sign _ inner
  | block sign _ inner | colon sign _ inner | brace sign _ inner | array sign _ inner
  | paren sign _ inner | classDefinition sign _ _ inner | moduleDefinition sign _ inner
  | method sign _ inner | parenthesized sign _ _ inner | parameter sign _ inner =>
      simpa [Form.given, Form.yielded, sign.sameTraces rfl] using inner
  | withBlock arrow _ isBlock =>
      simpa [Form.given, Form.yielded, arrow.sameTraces rfl] using isBlock
  | string here _ areParts | symbolString _ here _ areParts =>
      simpa [Form.given, Form.yielded, StringParts.traces_node, here.sameTraces rfl] using areParts
  | adjacent here isText _ _ areParts =>
      simpa [Form.given, Form.yielded, here.traces, isText, Kind.trace?] using areParts
  | derivedClass names derives namesBase _ isBody =>
      simpa [Form.given, Form.yielded, names.sameTraces rfl, derives.sameTraces rfl,
        namesBase.sameTraces rfl] using isBody
  | parameters opens _ _ closes inner =>
      simpa [Form.given, Form.yielded, opens.sameTraces rfl, closes.sameTraces rfl] using inner
  | setter _ _ isValue => simpa [Form.given, Form.yielded, Parameter.value?] using isValue
  | optional _ sign _ isValue | keyword _ sign _ isValue =>
      simpa [Form.given, Form.yielded, Parameter.value?, sign.sameTraces rfl] using isValue
  -- Rules with two parts hand the traces of the first on to the second, or put them in front.
  | moreStatements _ _ _ first second | binary _ _ first second | call _ _ _ first second =>
      simp_all [Form.given, Form.yielded]
  | pairs _ _ first second => simp_all [Form.given, Form.yielded, Entry.nodes]
  | pair _ _ separates _ isKey isValue =>
      simp_all [Form.given, Form.yielded, Entry.nodes, Pair.nodes, separates.2.1.sameTraces rfl]
  | moreEntries _ comma _ isFirst areOthers =>
      simp_all [Form.given, Form.yielded, comma.sameTraces rfl]
  | morePairs comma _ areOthers =>
      simp_all [Form.given, Form.yielded, comma.sameTraces rfl]
  | moreParameters _ comma _ isFirst areOthers =>
      simp_all [Form.given, Form.yielded, Parameter.values_cons, comma.sameTraces rfl]
  | climb continues _ _ _ _ isRight further =>
      simp_all [Form.given, Form.yielded, continues.2.1.sameTraces rfl]
  | insertion opens _ closes _ isInner areOthers =>
      simp_all [Form.given, Form.yielded, StringParts.nodes, opens.traces, Kind.trace?,
        closes.sameTraces rfl]
  | definition _ _ areParameters isBody =>
      simp_all [Form.given, Form.yielded, Block.nodes]

end Phrase

theorem Kind.trace?_of_isTrivia {kind : Kind} (isTrivia : kind.isTrivia = true) :
    kind.trace? = none := by
  cases kind with
  | whitespace | comment => rfl
  | _ => cases isTrivia

/-- The traces before the end of input are carried by tokens with a meaning of their own. -/
theorem Cursor.traces_ofTokens (tokens : List Token) :
    (Cursor.ofTokens tokens).traces =
      (tokens.takeWhile (·.kind ≠ .endOfInput)).filterMap (·.kind.trace?) := by
  rw [Cursor.traces, Cursor.ahead_ofTokens, Token.meaningful, Token.significant]
  induction tokens with
  | nil => rfl
  | cons token others inductionHypothesis =>
      by_cases isTrivia : token.isTrivia = true
      · have differs : token.kind ≠ .endOfInput := by
          intro isEnd
          rw [Token.isTrivia, isEnd] at isTrivia
          cases isTrivia
        have noTrace := Kind.trace?_of_isTrivia isTrivia
        rw [List.filter_cons_of_neg (by simp [isTrivia]), inductionHypothesis]
        simp [differs, noTrace]
      · rw [List.filter_cons_of_pos (by simp [isTrivia])]
        by_cases isEnd : token.kind = .endOfInput
        · simp [isEnd]
        · rw [List.takeWhile_cons_of_pos (by simpa using isEnd),
            List.takeWhile_cons_of_pos (by simpa using isEnd), List.filterMap_cons,
            List.filterMap_cons, inductionHypothesis]

/-- The traces that the tokens of a program leave are those in its tree, in the same order. -/
theorem traces_of_reads
    {tokens : List Token} {nodes : List Node} {last : Cursor}
    (reads : Phrase.Reads (.statements false) (Cursor.ofTokens tokens) nodes last) :
    (tokens.takeWhile (·.kind ≠ .endOfInput)).filterMap (·.kind.trace?) =
      Node.tracesOf (outlineAll nodes) := by
  have atEnd : last.ahead = [] := Cursor.ahead_eq_nil_of_program reads
  have carried := reads.traces
  have allKept : (Cursor.ofTokens tokens).traces = nodes.flatMap Node.traces := by
    simpa [Phrase.Form.given, Phrase.Form.yielded, Cursor.traces, atEnd] using carried
  rw [← Cursor.traces_ofTokens, allKept, Node.tracesOf_outlineAll]

end ScriptFront
