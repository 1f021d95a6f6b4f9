import ScriptFront.Proofs.Grammar.ClosedPrograms
import ScriptFront.Proofs.Grammar.Delimiters

/-!
# Chains of operators

A chain is a number with operators and further numbers behind it.  Every chain is read as one
expression that has its numbers and operators in their order, unless a range operator follows
another one without a looser operator between them: reading stops at the first that does.
-/

namespace ScriptFront

/-- The node of a token that is a number. -/
def Kind.literal? : Kind → Option Node
  | .integer value => some (.integer value)
  | .float value => some (.float value)
  | _ => none

/-- A number in a chain. -/
structure Operand where
  token : Token
  node : Node
  isNumber : token.kind.literal? = some node

/-- An operator in a chain and the number behind it. -/
structure Link where
  sign : Token
  operator : Operator
  binding : Binding
  operand : Operand
  isSign : sign.kind = .operator operator
  isBinding : operator.binding? = some binding

/-- The binding of the operators that make ranges. -/
def Binding.ofRanges : Binding := ⟨5, .none⟩

namespace Link

def tokens (link : Link) : List Token := [link.sign, link.operand.token]

def IsRange (link : Link) : Prop := link.operator.family = .range

/-- The operator binds looser than those that make ranges. -/
def IsLooser (link : Link) : Prop := link.binding.level < Binding.ofRanges.level

end Link

/-- The tokens of a chain. -/
def chain (first : Operand) (links : List Link) : List Token :=
  first.token :: links.flatMap Link.tokens

/-- A range is still open behind the links: nothing looser follows the operator that makes it. -/
def LeavesRange (links : List Link) : Prop :=
  ∃ front range between, links = front ++ range :: between ∧ range.IsRange ∧
    ∀ link ∈ between, ¬link.IsLooser

/-- Between any two operators that make ranges there is a looser one. -/
def RangesApart (links : List Link) : Prop :=
  ∀ front first between second behind,
    links = front ++ first :: (between ++ second :: behind) → first.IsRange → second.IsRange →
      ∃ link ∈ between, link.IsLooser

/-- The numbers and the operators of a tree from left to right, if it is made of nothing else. -/
inductive Node.InOrder : Node → List Kind → Prop where
  | integer (value : Int) : InOrder (.integer value) [.integer value]
  | float (value : Binary64) : InOrder (.float value) [.float value]
  | binary (operator : Operator) {left right : Node} {before behind : List Kind}
      (isLeft : InOrder left before) (isRight : InOrder right behind) :
      InOrder (.binary operator left right) (before ++ .operator operator :: behind)

/-! ## Ranges in chains -/

/-- The operators that make ranges have a level of their own, the one that groups to no side. -/
theorem Operator.isRange_iff
    {operator : Operator} {binding : Binding} (bound : operator.binding? = some binding) :
    (operator.family = .range ↔ binding.level = Binding.ofRanges.level) ∧
      (operator.family = .range ↔ binding.associativity = Binding.ofRanges.associativity) := by
  cases operator <;> cases bound <;> decide

namespace Link

variable {link : Link}

theorem isRange_iff_level : link.IsRange ↔ link.binding.level = Binding.ofRanges.level :=
  (Operator.isRange_iff link.isBinding).1

theorem isRange_iff_associativity : link.IsRange ↔ link.binding.associativity = .none :=
  (Operator.isRange_iff link.isBinding).2

theorem not_isRange_of_lt (tighter : Binding.ofRanges.level < link.binding.level) :
    ¬link.IsRange := by
  intro isRange
  exact Nat.ne_of_gt tighter (isRange_iff_level.1 isRange)

theorem IsLooser.not_isRange (isLooser : link.IsLooser) : ¬link.IsRange := by
  intro isRange
  exact Nat.ne_of_lt isLooser (isRange_iff_level.1 isRange)

/-- The right operand of a range operator holds no range operator of its own. -/
theorem IsRange.operandLevel (isRange : link.IsRange) :
    link.binding.operandLevel = Binding.ofRanges.level + 1 := by
  rw [Binding.operandLevel, isRange_iff_associativity.1 isRange, isRange_iff_level.1 isRange]

theorem level_le_operandLevel (link : Link) : link.binding.level ≤ link.binding.operandLevel := by
  unfold Binding.operandLevel
  split
  · exact Nat.le_refl _
  · exact Nat.le_succ _
  · exact Nat.le_succ _

theorem operandLevel_le (link : Link) : link.binding.operandLevel ≤ link.binding.level + 1 := by
  unfold Binding.operandLevel
  split
  · exact Nat.le_succ _
  · exact Nat.le_refl _
  · exact Nat.le_refl _

end Link

/-- The first operator that makes a range, if there is one, stands behind a looser one. -/
def GuardsRanges (links : List Link) : Prop :=
  ∀ between second behind, links = between ++ second :: behind → second.IsRange →
    ∃ link ∈ between, link.IsLooser

variable {link : Link} {links others : List Link}

theorem guardsRanges_cons_iff :
    GuardsRanges (link :: links) ↔ ¬link.IsRange ∧ (link.IsLooser ∨ GuardsRanges links) := by
  constructor
  · intro guards
    refine ⟨?_, ?_⟩
    · intro isRange
      rcases guards [] link links rfl isRange with ⟨looser, member, -⟩
      cases member
    · by_cases isLooser : link.IsLooser
      · exact Or.inl isLooser
      · refine Or.inr ?_
        rintro between second behind rfl isRange
        rcases guards (link :: between) second behind rfl isRange with ⟨looser, member, isFound⟩
        rcases List.mem_cons.1 member with rfl | inside
        · exact absurd isFound isLooser
        · exact ⟨looser, inside, isFound⟩
  · rintro ⟨noRange, guards⟩ between second behind whole isRange
    cases between with
    | nil =>
        obtain ⟨rfl, -⟩ := List.cons.inj whole
        exact absurd isRange noRange
    | cons first between =>
        obtain ⟨rfl, rfl⟩ := List.cons.inj whole
        rcases guards with isLooser | guards
        · exact ⟨link, List.mem_cons_self, isLooser⟩
        · rcases guards between second behind rfl isRange with ⟨looser, member, isFound⟩
          exact ⟨looser, List.mem_cons_of_mem link member, isFound⟩

theorem guardsRanges_of_noRange (noRange : ∀ link ∈ links, ¬link.IsRange) :
    GuardsRanges links := by
  rintro between second behind rfl isRange
  exact absurd isRange (noRange second (by simp))

theorem GuardsRanges.append (guards : GuardsRanges links) (guardsOthers : GuardsRanges others) :
    GuardsRanges (links ++ others) := by
  induction links with
  | nil => exact guardsOthers
  | cons first rest inductionHypothesis =>
      rcases guardsRanges_cons_iff.1 guards with ⟨noRange, further⟩
      exact guardsRanges_cons_iff.2 ⟨noRange, further.imp_right inductionHypothesis⟩

theorem GuardsRanges.of_append (guards : GuardsRanges (links ++ others)) : GuardsRanges links := by
  rintro between second behind rfl
  have whole : between ++ second :: behind ++ others = between ++ second :: (behind ++ others) :=
    List.append_assoc between (second :: behind) others
  exact guards between second (behind ++ others) whole

theorem rangesApart_cons_iff :
    RangesApart (link :: links) ↔
      RangesApart links ∧ (link.IsRange → GuardsRanges links) := by
  constructor
  · intro apart
    refine ⟨?_, ?_⟩
    · rintro front first between second behind rfl
      exact apart (link :: front) first between second behind rfl
    · rintro isFirst between second behind rfl
      exact apart [] link between second behind rfl isFirst
  · rintro ⟨apart, guards⟩ front first between second behind whole isFirst isSecond
    cases front with
    | nil =>
        obtain ⟨rfl, rfl⟩ := List.cons.inj whole
        exact guards isFirst between second behind rfl isSecond
    | cons head front =>
        obtain ⟨rfl, rfl⟩ := List.cons.inj whole
        exact apart front first between second behind rfl isFirst isSecond

theorem rangesApart_of_noRange (noRange : ∀ link ∈ links, ¬link.IsRange) : RangesApart links := by
  rintro front first between second behind rfl isRange
  exact absurd isRange (noRange first (by simp))

/-- No range is open where the two runs meet. -/
theorem RangesApart.append
    (apart : RangesApart links) (apartOthers : RangesApart others)
    (meets : GuardsRanges others ∨ ∀ link ∈ links, ¬link.IsRange) :
    RangesApart (links ++ others) := by
  induction links with
  | nil => exact apartOthers
  | cons first rest inductionHypothesis =>
      rcases rangesApart_cons_iff.1 apart with ⟨apartRest, guards⟩
      rcases meets with guardsOthers | noRange
      · refine rangesApart_cons_iff.2 ⟨inductionHypothesis apartRest (Or.inl guardsOthers), ?_⟩
        intro isRange
        exact (guards isRange).append guardsOthers
      · rcases List.forall_mem_cons.1 noRange with ⟨noFirst, noRest⟩
        refine rangesApart_cons_iff.2 ⟨inductionHypothesis apartRest (Or.inr noRest), ?_⟩
        intro isRange
        exact absurd isRange noFirst

theorem LeavesRange.append (leaves : LeavesRange links) (front : List Link) :
    LeavesRange (front ++ links) := by
  rcases leaves with ⟨before, range, between, rfl, isRange, noLooser⟩
  exact ⟨front ++ before, range, between, (List.append_assoc ..).symm, isRange, noLooser⟩

/-- The next operator that makes a range, with nothing looser in front of it, clashes. -/
theorem not_rangesApart
    {again : Link} {behind : List Link} (leaves : LeavesRange links) (isRange : again.IsRange) :
    ¬RangesApart (links ++ again :: behind) := by
  rcases leaves with ⟨front, range, between, rfl, isFirst, noLooser⟩
  intro apart
  have whole : front ++ range :: between ++ again :: behind =
      front ++ range :: (between ++ again :: behind) := by simp
  rcases apart front range between again behind whole isFirst isRange with
    ⟨looser, member, isLooser⟩
  exact noLooser looser member isLooser

/-! ## Reading a chain -/

/-- The place behind a number, with the links of a chain ahead. -/
def Cursor.atLinks (ending : Ending) (links : List Link) : Cursor :=
  ⟨links.flatMap Link.tokens, ending, false⟩

namespace Cursor

variable {ending : Ending} {operator : Operator} {binding : Binding} {next : Cursor}

theorem atLinks_continues (ending : Ending) (link : Link) (links : List Link) :
    (atLinks ending (link :: links)).Continues link.operator link.binding
      ⟨link.operand.token :: links.flatMap Link.tokens, ending, false⟩ :=
  ⟨rfl, accepts_cons link.isSign (by simp), link.isBinding⟩

theorem not_continues_atLinks_nil :
    ¬(atLinks ending []).Continues operator binding next := by
  rintro ⟨-, ⟨token, takes, -⟩, -⟩
  cases takes.ahead

theorem chained?_of_apart
    (apart : link.IsRange → ∀ second ∈ links.head?, ¬second.IsRange) :
    (atLinks ending links).chained? link.binding = none := by
  refine chained?_eq_none_iff.2 ?_
  intro isNone operator other next continues sameLevel
  have isRange := Link.isRange_iff_associativity.2 isNone
  cases links with
  | nil => exact not_continues_atLinks_nil continues
  | cons second links =>
      obtain ⟨-, rfl⟩ := continues.binding_eq (atLinks_continues ending second links)
      refine apart isRange second rfl ?_
      rw [Link.isRange_iff_level, sameLevel, ← Link.isRange_iff_level]
      exact isRange

theorem chained?_of_ranges
    {second : Link} (isRange : link.IsRange) (again : second.IsRange) :
    (atLinks ending (second :: links)).chained? link.binding = some second.operator := by
  rcases binary?_of_continues (atLinks_continues ending second links) with
    ⟨sign, found, sameOperator, sameBinding, -⟩
  have sameLevel : second.binding.level = link.binding.level :=
    (Link.isRange_iff_level.1 again).trans (Link.isRange_iff_level.1 isRange).symm
  rw [chained?, Link.isRange_iff_associativity.1 isRange, found]
  simp only [sameOperator, sameBinding, if_pos sameLevel]

end Cursor

namespace Operand

variable {operand : Operand}

theorem token_kind_cases (operand : Operand) :
    (∃ value, operand.token.kind = .integer value ∧ operand.node = .integer value) ∨
      ∃ value, operand.token.kind = .float value ∧ operand.node = .float value := by
  have isNumber := operand.isNumber
  unfold Kind.literal? at isNumber
  split at isNumber
  · rename_i value isKind
    exact Or.inl ⟨value, isKind, (Option.some.inj isNumber).symm⟩
  · rename_i value isKind
    exact Or.inr ⟨value, isKind, (Option.some.inj isNumber).symm⟩
  · cases isNumber

theorem inOrder (operand : Operand) : operand.node.InOrder [operand.token.kind] := by
  rcases operand.token_kind_cases with ⟨value, isKind, isNode⟩ | ⟨value, isKind, isNode⟩
  · rw [isKind, isNode]
    exact .integer value
  · rw [isKind, isNode]
    exact .float value

open Phrase in
theorem reads
    (operand : Operand) (inCommand : Bool) (rest : List Token) (ending : Ending) (flag : Bool) :
    Reads (.unary inCommand) ⟨operand.token :: rest, ending, flag⟩ operand.node
      ⟨rest, ending, false⟩ := by
  rcases operand.token_kind_cases with ⟨value, isKind, isNode⟩ | ⟨value, isKind, isNode⟩
  · rw [isNode]
    exact .operand_of_kind isKind (by simp) (.integer (Cursor.accepts_cons isKind (by simp)))
  · rw [isNode]
    exact .operand_of_kind isKind (by simp) (.float (Cursor.accepts_cons isKind (by simp)))

end Operand

namespace Phrase

open Cursor Outcome

variable {ending : Ending} {level : Nat} {left : Node}

theorem result_binary_operand (operand : Operand) (flag : Bool) :
    (binary false level ⟨operand.token :: links.flatMap Link.tokens, ending, flag⟩).result =
      (climb false level operand.node (atLinks ending links)).result := by
  have isOperand := run_of_reads (operand.reads false (links.flatMap Link.tokens) ending flag)
  rw [run] at isOperand
  rw [binary, result_andThen_of_ok isOperand]
  rfl

/-- No operator of the level stands behind the left operand. -/
theorem result_climb_of_looser (looser : ∀ link ∈ links.head?, link.binding.level < level) :
    (climb false level left (atLinks ending links)).result =
      .ok (left, atLinks ending links) := by
  have stops : Reads (.climb false level left) (atLinks ending links) left
      (atLinks ending links) := by
    refine .stop ?_
    intro operator binding next continues
    cases links with
    | nil => exact absurd continues not_continues_atLinks_nil
    | cons link links =>
        obtain ⟨-, rfl⟩ := continues.binding_eq (atLinks_continues ending link links)
        exact looser link rfl
  exact run_of_reads stops

/-- The right operand is read at the level that the operator leaves to it. -/
theorem result_climb_link (tight : level ≤ link.binding.level) :
    (climb false level left (atLinks ending (link :: links))).result =
      ((binary false link.binding.operandLevel
        ⟨link.operand.token :: links.flatMap Link.tokens, ending, false⟩).andThen
          fun right next _ =>
            match next.chained? link.binding with
            | some again => .stuck (.chained again) next
            | none => climb false level (.binary link.operator left right) next).result := by
  rcases binary?_of_continues (atLinks_continues ending link links) with
    ⟨sign, found, isOperator, isBinding, isNext⟩
  rw [climb, found]
  simp only [result_widen, isOperator, isBinding, if_neg (Nat.not_lt_of_le tight)]
  rcases sign with ⟨⟨next, shorter⟩, operator, binding⟩
  obtain rfl : next = _ := isNext
  rfl

end Phrase

/-- What reading the operators of a level and of tighter ones behind a left operand comes to. -/
inductive ClimbsTo (level : Nat) (left : Node) :
    List Link → Except (Operator × List Link) (Node × List Link) → Prop where
  /-- All such operators are taken, up to a looser one. -/
  | done {node : Node} {front back : List Link}
      (tight : ∀ link ∈ front, level ≤ link.binding.level)
      (looser : ∀ link ∈ back.head?, link.binding.level < level)
      (apart : RangesApart front)
      (inOrder : ∀ kinds, left.InOrder kinds →
        node.InOrder (kinds ++ (front.flatMap Link.tokens).map Token.kind)) :
      ClimbsTo level left (front ++ back) (.ok (node, back))
  /-- An operator that makes a range meets an open one. -/
  | clash {again : Link} {before behind : List Link}
      (tight : ∀ link ∈ before ++ [again], level ≤ link.binding.level)
      (isRange : again.IsRange) (leaves : LeavesRange before) (apart : RangesApart before) :
      ClimbsTo level left (before ++ again :: behind) (.error (again.operator, again :: behind))

/-- The result with its place among the tokens. -/
def Cursor.placed (ending : Ending) :
    Except (Operator × List Link) (Node × List Link) → Except (Refusal × Cursor) (Node × Cursor)
  | .ok (node, back) => .ok (node, atLinks ending back)
  | .error (again, behind) => .error (.chained again, atLinks ending behind)

section RightOperand

variable {level : Nat} {left node : Node} {front back : List Link}
  {outcome : Except (Operator × List Link) (Node × List Link)}

/-- The right operand of an operator that makes a range has only tighter ones. -/
theorem Link.IsRange.tighter
    (isRange : link.IsRange)
    (tight : ∀ inner ∈ front, link.binding.operandLevel ≤ inner.binding.level) :
    ∀ inner ∈ front, Binding.ofRanges.level < inner.binding.level := by
  intro inner member
  have bound := tight inner member
  rw [isRange.operandLevel] at bound
  exact bound

/-- The operators in the right operand are of the level that is read, too. -/
theorem Link.level_le_of_tight
    (tight : level ≤ link.binding.level)
    (inner : ∀ inner ∈ front, link.binding.operandLevel ≤ inner.binding.level) :
    ∀ other ∈ link :: front, level ≤ other.binding.level := by
  refine List.forall_mem_cons.2 ⟨tight, ?_⟩
  intro other member
  calc
    level ≤ link.binding.level := tight
    _ ≤ link.binding.operandLevel := link.level_le_operandLevel
    _ ≤ other.binding.level := inner other member

theorem rangesApart_cons_of_tight
    (tight : ∀ inner ∈ front, link.binding.operandLevel ≤ inner.binding.level)
    (apart : RangesApart front) : RangesApart (link :: front) := by
  refine rangesApart_cons_iff.2 ⟨apart, ?_⟩
  intro isRange
  refine guardsRanges_of_noRange ?_
  intro inner member
  exact Link.not_isRange_of_lt (isRange.tighter tight inner member)

/-- Behind a right operand stands nothing, or an operator that is looser than those that make
ranges, or one in front of which no range is open. -/
theorem guardsRanges_or_noRange
    (tight : ∀ inner ∈ front, link.binding.operandLevel ≤ inner.binding.level)
    (looser : ∀ second ∈ back.head?, second.binding.level < link.binding.operandLevel)
    (single : link.IsRange → ∀ second ∈ back.head?, ¬second.IsRange) :
    GuardsRanges back ∨ ∀ inner ∈ link :: front, ¬inner.IsRange := by
  cases back with
  | nil => exact Or.inl (guardsRanges_of_noRange (List.forall_mem_nil _))
  | cons second back =>
      have bound : second.binding.level < link.binding.operandLevel := looser second rfl
      have atMost : second.binding.level ≤ link.binding.level :=
        Nat.le_of_lt_succ (Nat.lt_of_lt_of_le bound link.operandLevel_le)
      by_cases isLooser : second.IsLooser
      · by_cases isRange : second.IsRange
        · exact absurd isRange isLooser.not_isRange
        · exact Or.inl (guardsRanges_cons_iff.2 ⟨isRange, Or.inl isLooser⟩)
      · have enough : Binding.ofRanges.level ≤ second.binding.level := Nat.le_of_not_lt isLooser
        have linkNoRange : ¬link.IsRange := by
          intro isRange
          have sameLevel : second.binding.level = Binding.ofRanges.level :=
            Nat.le_antisymm (Link.isRange_iff_level.1 isRange ▸ atMost) enough
          exact single isRange second rfl (Link.isRange_iff_level.2 sameLevel)
        refine Or.inr (List.forall_mem_cons.2 ⟨linkNoRange, ?_⟩)
        intro inner member
        exact Link.not_isRange_of_lt
          (Nat.lt_of_le_of_lt enough (Nat.lt_of_lt_of_le bound (tight inner member)))

namespace ClimbsTo

theorem of_looser (looser : ∀ link ∈ links.head?, link.binding.level < level) :
    ClimbsTo level left links (.ok (left, links)) := by
  have none : ∀ link ∈ ([] : List Link), level ≤ link.binding.level := List.forall_mem_nil _
  refine .done none looser (rangesApart_of_noRange (List.forall_mem_nil _)) ?_
  intro kinds inOrder
  simpa using inOrder

theorem of_inner_clash
    {stuck : Operator × List Link} (tight : level ≤ link.binding.level)
    (inner : ClimbsTo link.binding.operandLevel node links (.error stuck)) :
    ClimbsTo level left (link :: links) (.error stuck) := by
  cases inner with
  | @clash again before behind innerTight isRange leaves apart =>
      have apartHere : RangesApart (link :: before) :=
        rangesApart_cons_of_tight (List.forall_mem_append.1 innerTight).1 apart
      have tightHere : ∀ other ∈ link :: before ++ [again], level ≤ other.binding.level :=
        Link.level_le_of_tight tight innerTight
      exact .clash tightHere isRange (leaves.append [link]) apartHere

theorem of_second_range
    {second : Link} (tight : level ≤ link.binding.level)
    (inner : ∀ inner ∈ front, link.binding.operandLevel ≤ inner.binding.level)
    (apart : RangesApart front) (isRange : link.IsRange) (again : second.IsRange) :
    ClimbsTo level left (link :: front ++ second :: back)
      (.error (second.operator, second :: back)) := by
  refine .clash ?_ again ⟨[], link, front, rfl, isRange, ?_⟩ (rangesApart_cons_of_tight inner apart)
  · have sameLevel : second.binding.level = link.binding.level :=
      (Link.isRange_iff_level.1 again).trans (Link.isRange_iff_level.1 isRange).symm
    refine List.forall_mem_append.2 ⟨Link.level_le_of_tight tight inner, ?_⟩
    exact List.forall_mem_singleton.2 (sameLevel ▸ tight)
  · intro other member
    exact Nat.not_lt_of_lt (isRange.tighter inner other member)

theorem further
    (tight : level ≤ link.binding.level)
    (inner : ∀ inner ∈ front, link.binding.operandLevel ≤ inner.binding.level)
    (looser : ∀ second ∈ back.head?, second.binding.level < link.binding.operandLevel)
    (apart : RangesApart front)
    (inOrder : node.InOrder (link.operand.token.kind :: (front.flatMap Link.tokens).map Token.kind))
    (single : link.IsRange → ∀ second ∈ back.head?, ¬second.IsRange)
    (outer : ClimbsTo level (.binary link.operator left node) back outcome) :
    ClimbsTo level left (link :: front ++ back) outcome := by
  have apartHere : RangesApart (link :: front) := rangesApart_cons_of_tight inner apart
  have tightHere : ∀ other ∈ link :: front, level ≤ other.binding.level :=
    Link.level_le_of_tight tight inner
  have meets := guardsRanges_or_noRange inner looser single
  cases outer with
  | @done whole middle rest outerTight outerLooser outerApart outerInOrder =>
      rw [← List.append_assoc]
      refine .done (List.forall_mem_append.2 ⟨tightHere, outerTight⟩) outerLooser ?_ ?_
      · exact apartHere.append outerApart (meets.imp_left GuardsRanges.of_append)
      · intro kinds leftInOrder
        have signKind : link.sign.kind = .operator link.operator := link.isSign
        have joined := outerInOrder _ (.binary link.operator leftInOrder inOrder)
        simpa [Link.tokens, signKind] using joined
  | @clash again before behind outerTight isRange leaves outerApart =>
      rw [← List.append_assoc]
      refine .clash ?_ isRange (leaves.append (link :: front)) ?_
      · rw [List.append_assoc]
        exact List.forall_mem_append.2 ⟨tightHere, outerTight⟩
      · exact apartHere.append outerApart (meets.imp_left GuardsRanges.of_append)

end ClimbsTo

end RightOperand

open Phrase Cursor Outcome in
/-- Climbing takes the operators of the level and the tighter ones, or it stops at a second operator
that makes a range. -/
theorem exists_climbsTo (ending : Ending) (links : List Link) (level : Nat) (left : Node) :
    ∃ outcome, ClimbsTo level left links outcome ∧
      (climb false level left (atLinks ending links)).result = placed ending outcome := by
  cases links with
  | nil =>
      have nothing : ∀ link ∈ ([] : List Link).head?, link.binding.level < level := by simp
      exact ⟨.ok (left, []), .of_looser nothing, result_climb_of_looser nothing⟩
  | cons link links =>
      by_cases tight : level ≤ link.binding.level
      · -- The right operand is read by climbing, too, and so is what follows it.
        rcases exists_climbsTo ending links link.binding.operandLevel link.operand.node with
          ⟨inner, isInner, readsInner⟩
        rw [← result_binary_operand link.operand false] at readsInner
        rw [result_climb_link tight]
        cases inner with
        | error stuck =>
            exact ⟨.error stuck, isInner.of_inner_clash tight, result_andThen_of_error readsInner⟩
        | ok operand =>
            cases isInner with
            | @done node front back innerTight looser apart inOrder =>
                rw [result_andThen_of_ok readsInner]
                by_cases single : link.IsRange → ∀ second ∈ back.head?, ¬second.IsRange
                · rcases exists_climbsTo ending back level (.binary link.operator left node) with
                    ⟨outcome, isOuter, readsOuter⟩
                  refine ⟨outcome, ?_, ?_⟩
                  · exact isOuter.further tight innerTight looser apart
                      (inOrder _ link.operand.inOrder) single
                  · rw [chained?_of_apart single]
                    exact readsOuter
                · rcases Classical.not_imp.1 single with ⟨isRange, met⟩
                  cases back with
                  | nil => exact absurd (by simp) met
                  | cons second back =>
                      have again : second.IsRange := by simpa using met
                      refine ⟨.error (second.operator, second :: back), ?_, ?_⟩
                      · exact .of_second_range tight innerTight apart isRange again
                      · rw [chained?_of_ranges isRange again]
                        rfl
      · have looser : ∀ first ∈ (link :: links).head?, first.binding.level < level := by
          simpa using tight
        exact ⟨.ok (left, link :: links), .of_looser looser, result_climb_of_looser looser⟩
termination_by links.length
decreasing_by
  · simp
  · simp only [List.length_cons, List.length_append]
    omega

/-! ## Chains as programs -/

namespace Phrase

open Outcome Cursor

/-- A program whose first expression cannot be read. -/
theorem result_statements_of_error
    {cursor : Cursor} {stuck : Refusal × Cursor}
    (read : (binary false Binding.loosest cursor).result = .error stuck)
    (unnamed : cursor.symbolKey? = none) (noNewline : cursor.peek.kind ≠ .newline)
    (filled : cursor.ahead ≠ []) : (statements false cursor).result = .error stuck := by
  have skips : cursor.skipNewlines = cursor := skipNewlines_of_none (accept?_eq_none noNewline)
  have isEntry : (entry false cursor).result = .error stuck := by
    rw [entry, unnamed]
    exact result_andThen_of_error read
  have isStatement : (statement cursor.skipNewlines).result = .error stuck := by
    rw [skips, statement]
    exact result_andThen_of_error isEntry
  have more : cursor.skipNewlines.endsStatements false = false := by
    rw [skips, endsStatements, atEnd_of_filled filled]
    rfl
  rw [statements, if_neg (by simp [more]), result_widen]
  exact result_andThen_of_error isStatement

end Phrase

/-- Every token of a chain is a number or an operator. -/
theorem kind_of_mem_chain
    {first : Operand} {token : Token} (member : token ∈ chain first links) :
    token.kind.isTrivia = false ∧ token.kind ≠ .endOfInput := by
  have number (operand : Operand) :
      operand.token.kind.isTrivia = false ∧ operand.token.kind ≠ .endOfInput := by
    rcases operand.token_kind_cases with ⟨value, isKind, -⟩ | ⟨value, isKind, -⟩
    · simp [isKind, Kind.isTrivia]
    · simp [isKind, Kind.isTrivia]
  rcases List.mem_cons.1 member with rfl | member
  · exact number first
  · rcases List.mem_flatMap.1 member with ⟨link, -, isHere⟩
    rcases List.mem_cons.1 isHere with rfl | isHere
    · simp [link.isSign, Kind.isTrivia]
    · obtain rfl := List.mem_singleton.1 isHere
      exact number link.operand

theorem ofTokens_chain (first : Operand) (links : List Link) :
    ∃ ending, Cursor.ofTokens (chain first links) = ⟨chain first links, ending, false⟩ :=
  ⟨_, Cursor.ofTokens_of_plain (fun _ member => (kind_of_mem_chain member).1)
    fun _ member => (kind_of_mem_chain member).2⟩

section Programs

open Phrase Cursor

variable {ending : Ending} {first : Operand}

/-- A chain starts with a number. -/
theorem Cursor.peek_kind_chain_ne
    {kind : Kind} (other : kind.literal? = none) :
    (Cursor.mk (chain first links) ending false).peek.kind ≠ kind := by
  rintro rfl
  cases other.symm.trans first.isNumber

theorem symbolKey?_chain : (Cursor.mk (chain first links) ending false).symbolKey? = none :=
  symbolKey?_eq_none_of_peek (fun _ => peek_kind_chain_ne rfl) fun _ => peek_kind_chain_ne rfl

/-- A chain is an expression, or a second operator makes a range where one is open. -/
theorem readProgram_chain (first : Operand) (links : List Link) (ending : Ending) :
    (RangesApart links ∧ ∃ node, node.InOrder ((chain first links).map Token.kind) ∧
      (Cursor.mk (chain first links) ending false).readProgram.1 = .ok [node]) ∨
    ∃ before again behind, links = before ++ again :: behind ∧ again.IsRange ∧
      LeavesRange before ∧ RangesApart before ∧
      (Cursor.mk (chain first links) ending false).readProgram.1 =
        .error ((Refusal.chained again.operator).fault again.sign) := by
  rcases exists_climbsTo ending links Binding.loosest first.node with ⟨outcome, climbs, reads⟩
  rw [← result_binary_operand first false] at reads
  have noNewline : (Cursor.mk (chain first links) ending false).peek.kind ≠ .newline :=
    peek_kind_chain_ne rfl
  cases climbs with
  | @done node front back tight looser apart inOrder =>
      cases back with
      | cons link back =>
          -- Every operator is of the loosest level or tighter.
          have tooLoose : link.binding.level < Binding.loosest := looser link rfl
          exact absurd (Operator.loosest_le_level link.isBinding) (Nat.not_le_of_lt tooLoose)
      | nil =>
          rw [List.append_nil] at reads ⊢
          have isExpression : Reads .expression ⟨chain first front, ending, false⟩ node
              (atLinks ending []) := reads_of_run reads
          have isEntry : Reads (.entry false) ⟨chain first front, ending, false⟩ (.single node)
              (atLinks ending []) :=
            .expression symbolKey?_chain isExpression (separator?_eq_none Kind.noConfusion)
          have isProgram := reads_program_of_entry isEntry rfl noNewline
          refine Or.inl ⟨apart, node, ?_, readProgram_eq_ok_iff.2 ⟨_, isProgram⟩⟩
          exact inOrder _ first.inOrder
  | @clash again before behind _ isRange leaves apart =>
      have isStuck :
          (statements false ⟨chain first (before ++ again :: behind), ending, false⟩).result =
            .error (.chained again.operator, atLinks ending (again :: behind)) :=
        result_statements_of_error reads symbolKey?_chain noNewline (List.cons_ne_nil _ _)
      refine Or.inr ⟨before, again, behind, rfl, isRange, leaves, apart, ?_⟩
      rw [readProgram_eq, isStuck]
      rfl

end Programs

/-- A chain of numbers and operators is a program exactly if a looser operator stands between any
two that make ranges.  It is then one expression with its numbers and operators in their order;
otherwise the first operator that makes a range while one is open is refused. -/
theorem parseTokens_chain (first : Operand) (links : List Link) :
    ((∃ nodes, parseTokens (chain first links) = .ok nodes) ↔ RangesApart links) ∧
      (RangesApart links → ∃ node, parseTokens (chain first links) = .ok [node] ∧
        node.InOrder ((chain first links).map Token.kind)) ∧
      (¬RangesApart links → ∃ before again behind, links = before ++ again :: behind ∧
        again.IsRange ∧ LeavesRange before ∧ RangesApart before ∧
        parseTokens (chain first links) =
          .error (.syntactic
            ("Range operators do not chain; parenthesize before '" ++ again.operator.sign ++ "'")
            again.sign.location ("'" ++ again.sign.lexeme ++ "'") ["newline", "end of input"])) := by
  rcases ofTokens_chain first links with ⟨ending, isChain⟩
  rw [parseTokens, isChain]
  rcases readProgram_chain first links ending with
    ⟨apart, node, inOrder, read⟩ | ⟨before, again, behind, rfl, isRange, leaves, apart, refused⟩
  · refine ⟨iff_of_true ⟨[node], read⟩ apart, fun _ => ⟨node, read, inOrder⟩, ?_⟩
    intro clash
    exact absurd apart clash
  · have clash : ¬RangesApart (before ++ again :: behind) := not_rangesApart leaves isRange
    refine ⟨iff_of_false ?_ clash, fun apart => absurd apart clash, ?_⟩
    · rintro ⟨nodes, read⟩
      cases refused.symm.trans read
    · intro _
      have shown : again.sign.describe = "'" ++ again.sign.lexeme ++ "'" := by
        rw [Token.describe, again.isSign]
      exact ⟨before, again, behind, rfl, isRange, leaves, apart, shown ▸ refused⟩

end ScriptFront
