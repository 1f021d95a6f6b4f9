import ScriptFront.Proofs.Grammar.Simulation

/-!
# Phrases at related places

A phrase that is read at the first of two related places is read at the second, and the places
behind it are related again.  Only a call at the very end, without a block, could still take one
from what follows at the second place.
-/

namespace ScriptFront

/-- The node of an entry that stands last, unless arguments without parentheses leave a block behind
it to their call. -/
def Entry.final? (inCommand : Bool) : Entry → Option Node
  | .single node => if inCommand then none else some node
  | .pair both => if inCommand then none else some both.value

theorem Kind.isLayout_of_symbolName?
    {kind : Kind} {name : String} (names : kind.symbolName? = some name) :
    kind.isLayout = false := by
  cases kind with
  | newline | indent | dedent | endOfInput => cases names
  | _ => rfl

namespace Phrase

open Cursor

namespace Form

/-- The phrase stands where it may: statements in bodies, and what goes on with a line directly
behind a token of it. -/
def Stands : Form → Nat → Cursor → Prop
  | .statements inBody, depth, _ => inBody = true ∧ depth ≠ 0
  | .statement, depth, _ => depth ≠ 0
  | .body, _, cursor | .definition, _, cursor | .parameters, _, cursor
  | .parameterValue _, _, cursor | .stringParts _, _, cursor | .named _ _, _, cursor
  | .arguments, _, cursor => cursor.afterBody = false
  | _, _, _ => True

/-- The node at the end of a phrase behind which a block may be read. -/
def final? : (form : Form) → form.Value → Option Node
  | .statement, node | .bareHash _, node => some node
  | .entry inCommand, first => first.final? inCommand
  | .entries inCommand, list => list.getLast?.bind (Entry.final? inCommand)
  | .pairs, list | .morePairs _, list => list.getLast?.bind fun last => some last.value
  | .binary inCommand _, node | .climb inCommand _ _, node | .unary inCommand, node
  | .primary inCommand, node | .named inCommand _, node
  | .trailingBlock inCommand _ _, node => if inCommand then none else some node
  | .parameterList, list => list.getLast?.bind Parameter.value?
  | .parameter, first | .parameterValue _, first => first.value?
  | _, _ => none

end Form

/-- The node takes no block from behind the place where it ends, if a block follows there, and no
body follows there either. -/
structure Closed
    (blockFollows bodyFollows : Prop) (depth : Nat) (node? : Option Node) (next : Cursor) :
    Prop where
  block : blockFollows → depth = 0 → next.ahead = [] → ∀ node ∈ node?, ¬node.EndsInCall
  further : bodyFollows → next.HasFurther

variable {blockFollows bodyFollows : Prop} {depth : Nat} {node? : Option Node}
  {cursor next : Cursor}

theorem Reads.hasFurther
    {form : Form} {value : form.Value} (reads : Reads form cursor value next)
    (further : next.HasFurther) : cursor.HasFurther := by
  rcases reads.passed with ⟨passed, isPassed, -⟩
  exact further.of_passed isPassed

theorem closed_of_accepts
    {kind : Kind} {last : Cursor} (accepts : next.Accepts kind last)
    (noNewline : kind ≠ .newline) : Closed blockFollows bodyFollows depth node? next where
  block := fun _ _ isEnd => absurd isEnd accepts.ahead_ne_nil
  further := fun _ => accepts.hasFurther noNewline

theorem closed_in_body (inside : depth ≠ 0) (further : bodyFollows → next.HasFurther) :
    Closed blockFollows bodyFollows depth node? next where
  block := fun _ atTop => absurd atTop inside
  further := further

theorem closed_none (further : bodyFollows → next.HasFurther) :
    Closed blockFollows bodyFollows depth none next where
  block := by
    intro _ _ _ node member
    cases member
  further := further

/-- Neither a block nor a body follows. -/
theorem closed_of_nothing : Closed False False depth node? next where
  block := False.elim
  further := False.elim

theorem Closed.of_imp
    {other? : Option Node} (closed : Closed blockFollows bodyFollows depth node? next)
    (imp : ∀ other ∈ other?, other.EndsInCall → ∃ node ∈ node?, node.EndsInCall) :
    Closed blockFollows bodyFollows depth other? next where
  block := by
    intro follows atTop isEnd other member ends
    rcases imp other member ends with ⟨node, isNode, nodeEnds⟩
    exact closed.block follows atTop isEnd node isNode nodeEnds
  further := closed.further

/-- The last member of a list is the last one of what follows its first. -/
theorem Closed.tail
    {α : Type} {pick : α → Option Node} {first : α} {others : List α}
    (closed : Closed blockFollows bodyFollows depth ((first :: others).getLast?.bind pick) next) :
    Closed blockFollows bodyFollows depth (others.getLast?.bind pick) next := by
  refine closed.of_imp ?_
  intro other member ends
  rcases Option.bind_eq_some_iff.1 member with ⟨last, isLast, isPicked⟩
  refine ⟨other, Option.bind_eq_some_iff.2 ⟨last, ?_, isPicked⟩, ends⟩
  rw [List.getLast?_cons, isLast]
  rfl

theorem Closed.hash
    {pairs : List (Pair Node)}
    (closed : Closed blockFollows bodyFollows depth (some (.hash pairs)) next) :
    Closed blockFollows bodyFollows depth (pairs.getLast?.bind fun last => some last.value)
      next := by
  refine closed.of_imp ?_
  intro other member ends
  rcases Option.bind_eq_some_iff.1 member with ⟨last, isLast, isValue⟩
  obtain rfl := Option.some.inj isValue
  exact ⟨_, rfl, .hash isLast ends⟩

/-- A node that ends in a part of it. -/
theorem Closed.part
    {inCommand : Bool} {whole part : Node}
    (closed : Closed blockFollows bodyFollows depth (if inCommand then none else some whole) next)
    (ends : part.EndsInCall → whole.EndsInCall) :
    Closed blockFollows bodyFollows depth (if inCommand then none else some part) next := by
  refine closed.of_imp ?_
  intro other member isCall
  cases inCommand with
  | true => cases member
  | false =>
      obtain rfl := Option.some.inj member
      exact ⟨whole, rfl, ends isCall⟩

theorem closed_inCommand (list : List Entry) (further : bodyFollows → next.HasFurther) :
    Closed blockFollows bodyFollows depth (list.getLast?.bind (Entry.final? true)) next := by
  refine (closed_none further).of_imp ?_
  intro other member
  rcases Option.bind_eq_some_iff.1 member with ⟨last, -, isPicked⟩
  cases last <;> cases isPicked

/-- A node is closed if it is so where nothing more is read behind it. -/
theorem closed_of_end
    (closed : next.ahead = [] → Closed blockFollows bodyFollows depth node? next)
    (further : bodyFollows → next.HasFurther) :
    Closed blockFollows bodyFollows depth node? next where
  block := fun follows atTop isEnd => (closed isEnd).block follows atTop isEnd
  further := further

/-! ## Where phrases stop -/

/-- Where nothing is ahead no operator goes on. -/
theorem Reads.climb_of_end
    {inCommand : Bool} {level : Nat} {left node : Node}
    (reads : Reads (.climb inCommand level left) cursor node next) (isEnd : cursor.ahead = []) :
    node = left ∧ next = cursor := by
  cases reads with
  | stop => exact ⟨rfl, rfl⟩
  | climb continues => exact absurd isEnd continues.2.1.ahead_ne_nil

theorem Reads.morePairs_of_end
    {first : Pair Node} {list : List (Pair Node)}
    (reads : Reads (.morePairs first) cursor list next) (isEnd : cursor.ahead = []) :
    list = [first] ∧ next = cursor := by
  cases reads with
  | lastPair => exact ⟨rfl, rfl⟩
  | morePairs comma => exact absurd isEnd comma.ahead_ne_nil

/-- Parameters end in the line of their definition. -/
theorem Reads.parameters_inLine
    {list : List (Parameter Node)} (reads : Reads .parameters cursor list next)
    (inLine : cursor.afterBody = false) : next.afterBody = false := by
  cases reads with
  | noParameters => exact inLine
  | emptyParameters _ closes => exact closes.inLine (by simp)
  | parameters _ _ _ closes => exact closes.inLine (by simp)

/-! ## Readings at related places -/

variable {Related : Nat → Cursor → Cursor → Prop}

/-- Only at the end, outside of bodies, could a block follow a call at the second place that does
not follow it at the first. -/
theorem peek_kind_ne_blockArrow
    {other : Cursor} {name : String} {list : List Node}
    (simulation : Simulation Related blockFollows bodyFollows)
    (related : Related depth cursor other)
    (differs : cursor.peek.kind ≠ .mark .blockArrow)
    (closed : Closed blockFollows bodyFollows depth (some (.call name list none)) cursor) :
    other.peek.kind ≠ .mark .blockArrow := by
  cases inLine : cursor.afterBody with
  | false => exact simulation.peek_kind_ne related inLine differs rfl
  | true =>
      cases isLayout : cursor.peek.kind.isLayout with
      | false =>
          rw [simulation.peek_eq related isLayout]
          exact differs
      | true =>
          intro isArrow
          rcases simulation.block related isLayout inLine isArrow with ⟨follows, atTop, isEnd⟩
          exact closed.block follows atTop isEnd _ rfl (.call name list)

/-- A token, and a phrase behind it. -/
theorem simulated_behind
    {kind : Kind} {form whole : Form} {value : form.Value} {result : whole.Value}
    {other behind start : Cursor} (simulation : Simulation Related blockFollows bodyFollows)
    (related : Related depth cursor other) (here : cursor.Accepts kind behind)
    (inLine : kind.isLayout = false)
    (isPart : ∀ {place}, Related depth behind place →
      ∃ last, Reads form place value last ∧ Related depth next last)
    (isWhole : ∀ {place last}, other.Accepts kind place → Reads form place value last →
      Reads whole start result last) :
    ∃ last, Reads whole start result last ∧ Related depth next last := by
  rcases simulation.accepts related here inLine with ⟨place, hereOther, relatedBehind⟩
  rcases isPart relatedBehind with ⟨last, readsPart, relatedLast⟩
  exact ⟨last, isWhole hereOther readsPart, relatedLast⟩

/-- A phrase that is read at the first of two related places is read at the second. -/
theorem Reads.simulated
    {form : Form} {other : Cursor} {value : form.Value}
    (simulation : Simulation Related blockFollows bodyFollows)
    (reads : Reads form cursor value next)
    (related : Related depth cursor other) (stands : form.Stands depth cursor)
    (closed : Closed blockFollows bodyFollows depth (form.final? value) next) :
    ∃ last, Reads form other value last ∧ Related depth next last := by
  induction reads generalizing depth other with
  | noStatements ends =>
      rcases stands with ⟨rfl, inside⟩
      obtain ⟨outer, rfl⟩ := Nat.exists_eq_succ_of_ne_zero inside
      have further := closed.further
      have behind := simulation.skipNewlines related fun follows =>
        hasFurther_of_skipNewlines (further follows)
      exact ⟨_, .noStatements ((simulation.endsStatements behind further).trans ends), behind⟩
  | @moreStatements _ cursor middle _ _ _ more readsHere readsRest isFirst areOthers =>
      rcases stands with ⟨rfl, inside⟩
      obtain ⟨outer, rfl⟩ := Nat.exists_eq_succ_of_ne_zero inside
      have furtherMiddle (follows : bodyFollows) : middle.HasFurther :=
        readsRest.hasFurther (closed.further follows)
      have furtherHere (follows : bodyFollows) : cursor.skipNewlines.HasFurther :=
        readsHere.hasFurther (furtherMiddle follows)
      have behind := simulation.skipNewlines related fun follows =>
        hasFurther_of_skipNewlines (furtherHere follows)
      rcases isFirst behind inside (closed_in_body inside furtherMiddle) with
        ⟨place, readsFirst, relatedNext⟩
      rcases areOthers relatedNext ⟨rfl, inside⟩ (closed_in_body inside closed.further) with
        ⟨last, readsOthers, relatedLast⟩
      have moreOther := (simulation.endsStatements behind furtherHere).trans more
      exact ⟨last, .moreStatements moreOther readsFirst readsOthers, relatedLast⟩
  | @statement _ middle next _ _ _ _ readsRest ends isFirst whole =>
      obtain ⟨outer, rfl⟩ := Nat.exists_eq_succ_of_ne_zero stands
      have furtherNext (follows : bodyFollows) : next.HasFurther :=
        ends.hasFurther (closed.further follows)
      have furtherMiddle (follows : bodyFollows) : middle.HasFurther :=
        readsRest.hasFurther (furtherNext follows)
      rcases isFirst related trivial (closed_in_body stands furtherMiddle) with
        ⟨place, readsFirst, relatedMiddle⟩
      rcases whole relatedMiddle trivial (closed_in_body stands furtherNext) with
        ⟨behind, readsWhole, relatedNext⟩
      rcases simulation.endsStatement relatedNext furtherNext ends with
        ⟨last, endsOther, relatedLast⟩
      exact ⟨last, .statement readsFirst readsWhole endsOther, relatedLast⟩
  | single => exact ⟨other, .single, related⟩
  | bareHash _ arePairs =>
      rcases arePairs related trivial closed.hash with ⟨last, readsPairs, relatedLast⟩
      exact ⟨last, .bareHash readsPairs, relatedLast⟩
  | noBody absent =>
      have absentOther := simulation.noBody related closed.further stands absent
      exact ⟨other, .noBody absentOther, related⟩
  | @body _ _ next _ starts readsNodes some areNodes =>
      rcases simulation.body related starts with ⟨start, startsOther, relatedStart⟩
      have inside : depth + 1 ≠ 0 := Nat.succ_ne_zero depth
      have further (follows : bodyFollows) : next.HasFurther :=
        hasFurther_of_skipDedent (closed.further follows)
      rcases areNodes relatedStart ⟨rfl, inside⟩ (closed_in_body inside further) with
        ⟨last, readsOther, relatedLast⟩
      exact ⟨_, .body startsOther readsOther some,
        simulation.skipDedent relatedLast further readsNodes.endsStatements⟩
  -- Lists
  | keyed names _ isValue =>
      rcases simulation.namesKey related names with ⟨place, namesOther, relatedNext⟩
      rcases isValue relatedNext trivial closed with ⟨last, readsValue, relatedLast⟩
      exact ⟨last, .keyed namesOther readsValue, relatedLast⟩
  | expression unnamed readsNode alone isNode =>
      rcases isNode related trivial closed with ⟨last, readsOther, relatedLast⟩
      have unnamedOther := simulation.symbolKey? related
        (Kind.isLayout_of_startsPhrase readsNode.binary_starts) unnamed
      exact ⟨last, .expression unnamedOther readsOther (simulation.separator? relatedLast alone),
        relatedLast⟩
  | pair unnamed readsKey separates _ isKey isValue =>
      rcases isKey related trivial (closed_of_accepts separates.2.1 (by simp)) with
        ⟨place, readsOther, relatedNext⟩
      rcases simulation.separates relatedNext separates with ⟨behind, separatesOther, relatedBehind⟩
      rcases isValue relatedBehind trivial closed with ⟨last, readsValue, relatedLast⟩
      have unnamedOther := simulation.symbolKey? related
        (Kind.isLayout_of_startsPhrase readsKey.binary_starts) unnamed
      exact ⟨last, .pair unnamedOther readsOther separatesOther readsValue, relatedLast⟩
  | lastEntry _ ends isFirst =>
      rcases isFirst related trivial closed with ⟨last, readsFirst, relatedLast⟩
      exact ⟨last, .lastEntry readsFirst (simulation.peek_kind_ne_comma relatedLast ends),
        relatedLast⟩
  | moreEntries _ comma _ isFirst areOthers =>
      rcases isFirst related trivial (closed_of_accepts comma (by simp)) with
        ⟨place, readsFirst, relatedNext⟩
      exact simulated_behind simulation relatedNext comma rfl (areOthers · trivial closed.tail)
        (.moreEntries readsFirst)
  | @pairs _ next last first list _ readsPairs isFirst arePairs =>
      have closedFirst : Closed blockFollows bodyFollows depth (some first.value) next := by
        refine closed_of_end ?_ fun follows => readsPairs.hasFurther (closed.further follows)
        intro isEnd
        rcases readsPairs.morePairs_of_end isEnd with ⟨rfl, rfl⟩
        exact closed
      rcases isFirst related trivial closedFirst with ⟨place, readsFirst, relatedNext⟩
      rcases arePairs relatedNext trivial closed with ⟨last, readsOthers, relatedLast⟩
      exact ⟨last, .pairs readsFirst readsOthers, relatedLast⟩
  | lastPair ends =>
      exact ⟨other, .lastPair (simulation.peek_kind_ne_comma related ends), related⟩
  | morePairs comma _ areOthers =>
      exact simulated_behind simulation related comma rfl (areOthers · trivial closed.tail) .morePairs
  | emptyEnclosed closes =>
      rcases simulation.accepts related closes rfl with ⟨last, closesOther, relatedLast⟩
      exact ⟨last, .emptyEnclosed closesOther, relatedLast⟩
  | enclosed filled readsEntries closes areEntries =>
      rcases areEntries related trivial (closed_of_accepts closes (by simp)) with
        ⟨place, readsOther, relatedNext⟩
      rcases simulation.accepts relatedNext closes rfl with ⟨last, closesOther, relatedLast⟩
      have inLine := Kind.isLayout_of_startsPhrase readsEntries.entries_starts
      have filledOther := simulation.peek_eq related inLine ▸ filled
      exact ⟨last, .enclosed filledOther readsOther closesOther, relatedLast⟩
  | emptyHash closes =>
      rcases simulation.accepts related closes rfl with ⟨last, closesOther, relatedLast⟩
      exact ⟨last, .emptyHash closesOther, relatedLast⟩
  | hash filled readsPairs closes arePairs =>
      rcases arePairs related trivial (closed_of_accepts closes (by simp)) with
        ⟨place, readsOther, relatedNext⟩
      rcases simulation.accepts relatedNext closes rfl with ⟨last, closesOther, relatedLast⟩
      have inLine := Kind.isLayout_of_startsPhrase readsPairs.pairs_starts
      have filledOther := simulation.peek_eq related inLine ▸ filled
      exact ⟨last, .hash filledOther readsOther closesOther, relatedLast⟩
  -- Operators
  | @binary inCommand _ _ middle _ left _ _ readsFurther isLeft further =>
      have closedLeft :
          Closed blockFollows bodyFollows depth (if inCommand then none else some left) middle := by
        refine closed_of_end ?_ fun follows => readsFurther.hasFurther (closed.further follows)
        intro isEnd
        rcases readsFurther.climb_of_end isEnd with ⟨rfl, rfl⟩
        exact closed
      rcases isLeft related trivial closedLeft with ⟨place, readsLeft, relatedNext⟩
      rcases further relatedNext trivial closed with ⟨last, readsOther, relatedLast⟩
      exact ⟨last, .binary readsLeft readsOther, relatedLast⟩
  | stop looser =>
      refine ⟨other, .stop ?_, related⟩
      intro operator binding last continues
      rcases simulation.continues_back related continues with ⟨next, continuesHere⟩
      exact looser operator binding next continuesHere
  | @climb inCommand _ _ _ middle _ _ _ _ right _ continues tight _ single readsFurther isRight
      further =>
      have closedRight :
          Closed blockFollows bodyFollows depth (if inCommand then none else some right) middle := by
        refine closed_of_end ?_ fun follows => readsFurther.hasFurther (closed.further follows)
        intro isEnd
        rcases readsFurther.climb_of_end isEnd with ⟨rfl, rfl⟩
        exact closed.part (.binary _ _)
      rcases simulation.continues related continues with ⟨behind, continuesOther, relatedBehind⟩
      rcases isRight relatedBehind trivial closedRight with ⟨place, readsRight, relatedNext⟩
      rcases further relatedNext trivial closed with ⟨last, readsOther, relatedLast⟩
      have singleOther := simulation.chained? relatedNext single
      exact ⟨last, .climb continuesOther tight readsRight singleOther readsOther, relatedLast⟩
  | operand unsigned readsNode isNode =>
      rcases isNode related trivial closed with ⟨last, readsOther, relatedLast⟩
      have unsignedOther := simulation.unary? related
        (Kind.isLayout_of_startsPhrase readsNode.primary_starts) unsigned
      exact ⟨last, .operand unsignedOther readsOther, relatedLast⟩
  | unary sign isUnary _ isOperand =>
      have closedOperand := closed.part (.unary _)
      exact simulated_behind simulation related sign rfl (isOperand · trivial closedOperand)
        (fun signOther => .unary signOther isUnary)
  -- Expressions that are not made by operators
  | integer here =>
      rcases simulation.accepts related here rfl with ⟨last, hereOther, relatedLast⟩
      exact ⟨last, .integer hereOther, relatedLast⟩
  | float here =>
      rcases simulation.accepts related here rfl with ⟨last, hereOther, relatedLast⟩
      exact ⟨last, .float hereOther, relatedLast⟩
  | constant here =>
      rcases simulation.accepts related here rfl with ⟨last, hereOther, relatedLast⟩
      exact ⟨last, .constant hereOther, relatedLast⟩
  | string here _ areParts =>
      exact simulated_behind simulation related here rfl
        (areParts · (here.inLine (by simp)) (closed_none closed.further)) .string
  | name here _ isNode =>
      exact simulated_behind simulation related here rfl (isNode · (here.inLine (by simp)) closed)
        .name
  | classWord here _ isNode =>
      exact simulated_behind simulation related here rfl
        (isNode · trivial (closed_none closed.further)) .classWord
  | moduleWord here _ isNode =>
      exact simulated_behind simulation related here rfl
        (isNode · trivial (closed_none closed.further)) .moduleWord
  | colon here _ isNode =>
      exact simulated_behind simulation related here rfl
        (isNode · trivial (closed_none closed.further)) .colon
  | array here _ areElements =>
      exact simulated_behind simulation related here rfl
        (areElements · trivial (closed_none closed.further)) .array
  | brace here _ isNode =>
      exact simulated_behind simulation related here rfl
        (isNode · trivial (closed_none closed.further)) .brace
  | paren here _ isNode =>
      exact simulated_behind simulation related here rfl
        (isNode · trivial (closed_none closed.further)) .paren
  | block here _ isBlock =>
      exact simulated_behind simulation related here rfl
        (isBlock · (here.inLine (by simp)) (closed_none closed.further)) .block
  | lastPart ends => exact ⟨other, .lastPart (simulation.endsString related stands ends), related⟩
  | adjacent here isText hugs _ areParts =>
      rcases simulation.takes related here (by rw [isText]; rfl) with
        ⟨behind, hereOther, relatedBehind⟩
      have inLine := here.inLine (by simp [isText])
      rcases areParts relatedBehind inLine (closed_none closed.further) with
        ⟨last, readsParts, relatedLast⟩
      exact ⟨last, .adjacent hereOther isText hugs readsParts, relatedLast⟩
  | insertion opens _ closes _ isInner areOthers =>
      rcases simulation.accepts related opens rfl with ⟨inside, opensOther, relatedInside⟩
      rcases isInner relatedInside trivial (closed_of_accepts closes (by simp)) with
        ⟨closing, readsInner, relatedClosing⟩
      rcases simulation.accepts relatedClosing closes rfl with ⟨behind, closesOther, relatedBehind⟩
      rcases areOthers relatedBehind (closes.inLine (by simp)) (closed_none closed.further) with
        ⟨last, readsOthers, relatedLast⟩
      exact ⟨last, .insertion opensOther readsInner closesOther readsOthers, relatedLast⟩
  | symbolString hugs here _ areParts =>
      have samePeek := simulation.peek_eq related (by rw [here.peek_kind]; rfl)
      exact simulated_behind simulation related here rfl
        (areParts · (here.inLine (by simp)) (closed_none closed.further))
        (.symbolString (samePeek ▸ hugs))
  | symbolName hugs here names =>
      have inLine := Kind.isLayout_of_symbolName? names
      have samePeek := simulation.peek_eq related (here.peek ▸ inLine)
      rcases simulation.takes related here inLine with ⟨last, hereOther, relatedLast⟩
      exact ⟨last, .symbolName (samePeek ▸ hugs) hereOther names, relatedLast⟩
  | group _ closes isInner =>
      rcases isInner related trivial (closed_of_accepts closes (by simp)) with
        ⟨closing, readsInner, relatedClosing⟩
      rcases simulation.accepts relatedClosing closes rfl with ⟨last, closesOther, relatedLast⟩
      exact ⟨last, .group readsInner closesOther, relatedLast⟩
  -- Definitions
  | classDefinition names underived _ isBody =>
      have inLine := names.inLine (by simp)
      rcases simulation.accepts related names rfl with ⟨behind, namesOther, relatedBehind⟩
      rcases isBody relatedBehind inLine (closed_none closed.further) with
        ⟨last, readsBody, relatedLast⟩
      have underivedOther := simulation.peek_kind_ne relatedBehind inLine underived rfl
      exact ⟨last, .classDefinition namesOther underivedOther readsBody, relatedLast⟩
  | derivedClass names derives namesBase _ isBody =>
      rcases simulation.accepts related names rfl with ⟨place, namesOther, relatedPlace⟩
      rcases simulation.accepts relatedPlace derives rfl with ⟨behind, derivesOther, relatedBehind⟩
      rcases simulation.accepts relatedBehind namesBase rfl with ⟨base, baseOther, relatedBase⟩
      rcases isBody relatedBase (namesBase.inLine (by simp)) (closed_none closed.further) with
        ⟨last, readsBody, relatedLast⟩
      exact ⟨last, .derivedClass namesOther derivesOther baseOther readsBody, relatedLast⟩
  | moduleDefinition names _ isBody =>
      exact simulated_behind simulation related names rfl
        (isBody · (names.inLine (by simp)) (closed_none closed.further)) .moduleDefinition
  | @definition _ next _ _ _ readsParameters readsNodes areParameters isBody =>
      have inLine := readsParameters.parameters_inLine stands
      have further (follows : bodyFollows) : next.HasFurther :=
        readsNodes.hasFurther (closed.further follows)
      rcases areParameters related stands (closed_none further) with
        ⟨place, readsOther, relatedNext⟩
      rcases isBody relatedNext inLine (closed_none closed.further) with
        ⟨last, readsBody, relatedLast⟩
      exact ⟨last, .definition readsOther readsBody, relatedLast⟩
  | noParameters absent =>
      exact ⟨other, .noParameters (simulation.peek_kind_ne related stands absent rfl), related⟩
  | emptyParameters opens closes =>
      rcases simulation.accepts related opens rfl with ⟨place, opensOther, relatedNext⟩
      rcases simulation.accepts relatedNext closes rfl with ⟨last, closesOther, relatedLast⟩
      exact ⟨last, .emptyParameters opensOther closesOther, relatedLast⟩
  | parameters opens filled readsParameters closes areParameters =>
      rcases simulation.accepts related opens rfl with ⟨inside, opensOther, relatedInside⟩
      rcases areParameters relatedInside trivial (closed_of_accepts closes (by simp)) with
        ⟨closing, readsOther, relatedClosing⟩
      rcases simulation.accepts relatedClosing closes rfl with ⟨last, closesOther, relatedLast⟩
      have inLine := Kind.isLayout_of_startsPhrase readsParameters.parameterList_starts
      have filledOther := simulation.peek_eq relatedInside inLine ▸ filled
      exact ⟨last, .parameters opensOther filledOther readsOther closesOther, relatedLast⟩
  | lastParameter _ ends isFirst =>
      rcases isFirst related trivial closed with ⟨last, readsFirst, relatedLast⟩
      exact ⟨last, .lastParameter readsFirst (simulation.peek_kind_ne_comma relatedLast ends),
        relatedLast⟩
  | moreParameters _ comma _ isFirst areOthers =>
      rcases isFirst related trivial (closed_of_accepts comma (by simp)) with
        ⟨place, readsFirst, relatedNext⟩
      exact simulated_behind simulation relatedNext comma rfl (areOthers · trivial closed.tail)
        (.moreParameters readsFirst)
  | splat star names =>
      rcases simulation.accepts related star rfl with ⟨place, starOther, relatedNext⟩
      rcases simulation.accepts relatedNext names rfl with ⟨last, namesOther, relatedLast⟩
      exact ⟨last, .splat starOther namesOther, relatedLast⟩
  | parameter names _ isParameter =>
      exact simulated_behind simulation related names rfl
        (isParameter · (names.inLine (by simp)) closed) .parameter
  | setter isSetter _ isValue =>
      rcases isValue related trivial closed with ⟨last, readsValue, relatedLast⟩
      exact ⟨last, .setter isSetter readsValue, relatedLast⟩
  | optional isBare assigns _ isValue =>
      exact simulated_behind simulation related assigns rfl (isValue · trivial closed)
        (.optional isBare)
  | keyword isBare colon _ isValue =>
      exact simulated_behind simulation related colon rfl (isValue · trivial closed)
        (.keyword isBare)
  | plain isBare unassigned unnamed =>
      have unassignedOther := simulation.peek_kind_ne related stands unassigned rfl
      have unnamedOther := simulation.peek_kind_ne related stands unnamed rfl
      exact ⟨other, .plain isBare unassignedOther unnamedOther, related⟩
  -- Names
  | method arrow _ isBlock =>
      exact simulated_behind simulation related arrow rfl
        (isBlock · (arrow.inLine (by simp)) (closed_none closed.further)) .method
  | @call _ _ next _ _ _ _ noMethod _ readsRest areArguments isNode =>
      have noMethodOther := simulation.peek_kind_ne related stands noMethod rfl
      have further (follows : bodyFollows) : next.HasFurther :=
        readsRest.hasFurther (closed.further follows)
      rcases areArguments related stands (closed_none further) with
        ⟨place, readsArguments, relatedNext⟩
      rcases isNode relatedNext trivial closed with ⟨last, readsNode, relatedLast⟩
      exact ⟨last, .call noMethodOther readsArguments readsNode, relatedLast⟩
  | withBlock arrow _ isBlock =>
      exact simulated_behind simulation related arrow rfl
        (isBlock · (arrow.inLine (by simp)) (closed_none closed.further)) .withBlock
  | @withoutBlock inCommand _ _ _ leaves =>
      cases inCommand with
      | true => exact ⟨other, .withoutBlock (Or.inl rfl), related⟩
      | false =>
          have differs := leaves.resolve_left Bool.false_ne_true
          have differsOther := peek_kind_ne_blockArrow simulation related differs closed
          exact ⟨other, .withoutBlock (Or.inr differsOther), related⟩
  | @parenthesized cursor _ last _ opens whole readsArguments areArguments =>
      -- The search for the closing parenthesis ends inside the phrase, as the arguments are balanced.
      rcases readsArguments.spans with ⟨closing, inner, closes⟩
      rcases behindParens?_of_parens opens inner closes with ⟨passed, isPassed, -, pass⟩
      have found : behindParens? 0 cursor.ahead = some last.ahead := by
        rw [isPassed]
        exact pass 0 last.ahead
      have samePeek := simulation.peek_eq related (by rw [opens.peek_kind]; rfl)
      rcases simulation.accepts related opens rfl with ⟨inside, opensOther, relatedInside⟩
      rcases areArguments relatedInside trivial (closed_none closed.further) with
        ⟨last, readsOther, relatedLast⟩
      refine ⟨last, .parenthesized opensOther ?_ readsOther, relatedLast⟩
      rw [samePeek, simulation.parens related found]
      exact whole
  | larger opens part _ areArguments =>
      rcases closed_of_continuesBehindParens (Bool.and_eq_true_iff.1 part).2 with ⟨rest, found⟩
      have samePeek := simulation.peek_eq related (by rw [opens]; rfl)
      rcases areArguments related trivial (closed_inCommand _ closed.further) with
        ⟨last, readsOther, relatedLast⟩
      refine ⟨last, .larger (samePeek ▸ opens) ?_ readsOther, relatedLast⟩
      rw [samePeek, simulation.parens related found]
      exact part
  | command unopened starts _ areArguments =>
      have unopenedOther := simulation.peek_kind_ne related stands unopened rfl
      rcases areArguments related trivial (closed_inCommand _ closed.further) with
        ⟨last, readsArguments, relatedLast⟩
      have startsOther := (simulation.atArgument related stands).trans starts
      exact ⟨last, .command unopenedOther startsOther readsArguments, relatedLast⟩
  | noArguments unopened absent =>
      have unopenedOther := simulation.peek_kind_ne related stands unopened rfl
      have absentOther := (simulation.atArgument related stands).trans absent
      exact ⟨other, .noArguments unopenedOther absentOther, related⟩

end Phrase

end ScriptFront
