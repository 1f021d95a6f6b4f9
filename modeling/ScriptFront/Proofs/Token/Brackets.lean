import ScriptFront.Token.Basic

/-!
# Brackets

Tokens of some kinds open a bracket and others close one.  A run of tokens is nested if every
bracket that it closes is the last one it opened, and it leaves none open.
-/

namespace ScriptFront

/-- The pairs of tokens that enclose others. -/
inductive Bracket where
  | paren
  | square
  | brace
  /-- Around an expression inserted into a string. -/
  | insertion
  /-- Around an indented body. -/
  | body
deriving DecidableEq, Repr

namespace Kind

def opens? : Kind → Option Bracket
  | .mark .leftParen => some .paren
  | .mark .leftBracket => some .square
  | .mark .leftBrace => some .brace
  | .interpolationStart => some .insertion
  | .indent => some .body
  | _ => none

def closes? : Kind → Option Bracket
  | .mark .rightParen => some .paren
  | .mark .rightBracket => some .square
  | .mark .rightBrace => some .brace
  | .interpolationEnd => some .insertion
  | .dedent => some .body
  | _ => none

/-- The token opens or closes a bracket of those that are kept. -/
def isOf (kept : Bracket → Bool) (kind : Kind) : Bool :=
  (kind.opens?.or kind.closes?).any kept

theorem closes?_of_opens?
    {kind : Kind} {bracket : Bracket} (opens : kind.opens? = some bracket) :
    kind.closes? = none := by
  cases kind with
  | mark sign => cases sign <;> first | rfl | cases opens
  | interpolationStart | indent => rfl
  | _ => cases opens

theorem opens?_of_closes?
    {kind : Kind} {bracket : Bracket} (closes : kind.closes? = some bracket) :
    kind.opens? = none := by
  cases opens : kind.opens? with
  | none => rfl
  | some _ => cases closes.symm.trans (closes?_of_opens? opens)

end Kind

namespace Bracket

/-- The brackets that are open behind a token, the last one first; a bracket can be closed only if
it is the last one. -/
def behind (stack : List Bracket) (kind : Kind) : Option (List Bracket) :=
  match kind.opens?, kind.closes?, stack with
  | some opened, _, _ => some (opened :: stack)
  | none, none, _ => some stack
  | none, some _, [] => none
  | none, some closed, last :: outer => if last = closed then some outer else none

/-- The brackets that are open behind a run of tokens. -/
def unclosed (stack : List Bracket) (kinds : List Kind) : Option (List Bracket) :=
  kinds.foldlM behind stack

/-- The brackets of a run of tokens enclose one another, and none is left open. -/
def Nested (kinds : List Kind) : Prop := unclosed [] kinds = some []

instance (kinds : List Kind) : Decidable (Nested kinds) :=
  inferInstanceAs (Decidable (unclosed [] kinds = some []))

/-- The tokens of a run that open or close a bracket of those that are kept. -/
def only (kept : Bracket → Bool) (kinds : List Kind) : List Kind :=
  kinds.filter (Kind.isOf kept)

variable {stack middle last base : List Bracket} {kind : Kind} {kinds others : List Kind}

@[simp]
theorem unclosed_nil (stack : List Bracket) : unclosed stack [] = some stack := rfl

theorem unclosed_cons (stack : List Bracket) (kind : Kind) (kinds : List Kind) :
    unclosed stack (kind :: kinds) = (behind stack kind).bind (unclosed · kinds) := rfl

@[simp]
theorem unclosed_singleton (stack : List Bracket) (kind : Kind) :
    unclosed stack [kind] = behind stack kind := by
  rw [unclosed_cons]
  cases behind stack kind <;> rfl

theorem unclosed_append (stack : List Bracket) (kinds others : List Kind) :
    unclosed stack (kinds ++ others) = (unclosed stack kinds).bind (unclosed · others) :=
  List.foldlM_append

theorem only_append (kept : Bracket → Bool) (kinds others : List Kind) :
    only kept (kinds ++ others) = only kept kinds ++ only kept others :=
  List.filter_append kinds others

theorem only_cons (kept : Bracket → Bool) (kind : Kind) (kinds : List Kind) :
    only kept (kind :: kinds) = only kept [kind] ++ only kept kinds :=
  only_append kept [kind] kinds

/-! ## One token -/

/-- A token opens a bracket, closes the last one, or leaves the brackets as they are. -/
theorem behind_eq_some_iff :
    behind stack kind = some last ↔
      (∃ bracket, kind.opens? = some bracket ∧ last = bracket :: stack) ∨
        (∃ bracket, kind.closes? = some bracket ∧ stack = bracket :: last) ∨
          (kind.opens? = none ∧ kind.closes? = none ∧ last = stack) := by
  unfold behind
  cases opens : kind.opens? with
  | some opened => simp [Kind.closes?_of_opens? opens, eq_comm]
  | none =>
      cases closes : kind.closes? with
      | none => simp [eq_comm]
      | some closed =>
          cases stack with
          | nil => simp
          | cons top outer =>
              by_cases isLast : top = closed
              · simp [isLast, eq_comm]
              · simp [isLast, eq_comm]

/-- Brackets below those that a token sees play no part. -/
theorem behind_append (isBehind : behind stack kind = some last) (base : List Bracket) :
    behind (stack ++ base) kind = some (last ++ base) := by
  rcases behind_eq_some_iff.1 isBehind with
    ⟨bracket, opens, rfl⟩ | ⟨bracket, closes, rfl⟩ | ⟨noOpen, noClose, rfl⟩
  · exact behind_eq_some_iff.2 (Or.inl ⟨bracket, opens, rfl⟩)
  · exact behind_eq_some_iff.2 (Or.inr (Or.inl ⟨bracket, closes, rfl⟩))
  · exact behind_eq_some_iff.2 (Or.inr (Or.inr ⟨noOpen, noClose, rfl⟩))

/-- A token that does not close the bracket below those it sees changes only these. -/
theorem behind_within
    {bracket : Bracket} (isBehind : behind (stack ++ bracket :: base) kind = some last)
    (stays : stack = [] → kind.closes? ≠ some bracket) :
    ∃ next, last = next ++ bracket :: base ∧ behind stack kind = some next := by
  rcases behind_eq_some_iff.1 isBehind with
    ⟨opened, opens, rfl⟩ | ⟨closed, closes, whole⟩ | ⟨noOpen, noClose, rfl⟩
  · exact ⟨opened :: stack, rfl, behind_eq_some_iff.2 (Or.inl ⟨opened, opens, rfl⟩)⟩
  · cases stack with
    | nil =>
        obtain ⟨rfl, -⟩ := List.cons.inj whole
        exact absurd closes (stays rfl)
    | cons top outer =>
        obtain ⟨rfl, rfl⟩ := List.cons.inj whole
        exact ⟨outer, rfl, behind_eq_some_iff.2 (Or.inr (Or.inl ⟨top, closes, rfl⟩))⟩
  · exact ⟨stack, rfl, behind_eq_some_iff.2 (Or.inr (Or.inr ⟨noOpen, noClose, rfl⟩))⟩

theorem behind_nil_of_closes
    {bracket : Bracket} (closes : kind.closes? = some bracket) : behind [] kind = none := by
  simp [behind, Kind.opens?_of_closes? closes, closes]

/-! ## Some sorts of brackets -/

variable {bracket : Bracket} {kept : Bracket → Bool}

theorem unclosed_only_of_opens
    (opens : kind.opens? = some bracket) (isKept : kept bracket = true) (stack : List Bracket) :
    unclosed stack (only kept [kind]) = some (bracket :: stack) := by
  simp [only, Kind.isOf, behind, opens, isKept]

theorem unclosed_only_of_closes
    (closes : kind.closes? = some bracket) (isKept : kept bracket = true) (stack : List Bracket) :
    unclosed (bracket :: stack) (only kept [kind]) = some stack := by
  have noOpen := Kind.opens?_of_closes? closes
  simp [only, Kind.isOf, behind, noOpen, closes, isKept]

theorem only_eq_nil (notKept : kind.isOf kept = false) : only kept [kind] = [] := by
  simp [only, notKept]

theorem only_eq_singleton (isKept : kind.isOf kept = true) : only kept [kind] = [kind] := by
  simp [only, isKept]

/-- The token is seen by the brackets of the kept sorts alone, if it is one of them. -/
theorem unclosed_only_filter
    (kept : Bracket → Bool) (isBehind : behind stack kind = some last) :
    unclosed (stack.filter kept) (only kept [kind]) = some (last.filter kept) := by
  rcases behind_eq_some_iff.1 isBehind with
    ⟨bracket, opens, rfl⟩ | ⟨bracket, closes, rfl⟩ | ⟨noOpen, noClose, rfl⟩
  · cases isKept : kept bracket with
    | true =>
        rw [List.filter_cons_of_pos isKept]
        exact unclosed_only_of_opens opens isKept _
    | false =>
        rw [only_eq_nil (by simp [Kind.isOf, opens, isKept])]
        simp [isKept]
  · cases isKept : kept bracket with
    | true =>
        rw [List.filter_cons_of_pos isKept]
        exact unclosed_only_of_closes closes isKept _
    | false =>
        have noOpen := Kind.opens?_of_closes? closes
        rw [only_eq_nil (by simp [Kind.isOf, noOpen, closes, isKept])]
        simp [isKept]
  · rw [only_eq_nil (by simp [Kind.isOf, noOpen, noClose])]
    rfl

theorem only_only
    {few many : Bracket → Bool} (included : ∀ bracket, few bracket = true → many bracket = true)
    (kinds : List Kind) : only few (only many kinds) = only few kinds := by
  rw [only, only, List.filter_filter]
  refine List.filter_congr ?_
  intro kind _
  unfold Kind.isOf
  cases kind.opens?.or kind.closes? with
  | none => rfl
  | some bracket =>
      have bracketIncluded := included bracket
      cases isFew : few bracket with
      | true => simpa [isFew] using bracketIncluded
      | false => simp [isFew]

/-! ## Runs of tokens -/

theorem unclosed_only_cons_eq_none
    (first : unclosed stack (only kept [kind]) = none) (kinds : List Kind) :
    unclosed stack (only kept (kind :: kinds)) = none := by
  rw [only_cons, unclosed_append, first]
  rfl

theorem unclosed_only_cons
    (first : unclosed stack (only kept [kind]) = some middle) (kinds : List Kind) :
    unclosed stack (only kept (kind :: kinds)) = unclosed middle (only kept kinds) := by
  rw [only_cons, unclosed_append, first]
  rfl

/-- Brackets below those that a run sees play no part. -/
theorem unclosed_above
    (isLast : unclosed stack kinds = some last) (base : List Bracket) :
    unclosed (stack ++ base) kinds = some (last ++ base) := by
  induction kinds generalizing stack with
  | nil =>
      obtain rfl := Option.some.inj isLast
      rfl
  | cons kind others inductionHypothesis =>
      obtain ⟨middle, isMiddle, further⟩ := Option.bind_eq_some_iff.1 isLast
      rw [unclosed_cons, behind_append isMiddle]
      exact inductionHypothesis further

/-- Partners around a run that closes what it opens. -/
theorem unclosed_enclosed
    {opener closer : Kind} {bracket : Bracket} (opens : opener.opens? = some bracket)
    (nested : Nested kinds) (closes : closer.closes? = some bracket) :
    Nested (opener :: kinds ++ [closer]) := by
  have isOpen : behind [] opener = some [bracket] :=
    behind_eq_some_iff.2 (Or.inl ⟨bracket, opens, rfl⟩)
  have isClosed : behind [bracket] closer = some [] :=
    behind_eq_some_iff.2 (Or.inr (Or.inl ⟨bracket, closes, rfl⟩))
  have inside : unclosed [bracket] kinds = some [bracket] := unclosed_above nested [bracket]
  rw [Nested, List.cons_append, unclosed_cons, isOpen, Option.bind_some, unclosed_append, inside,
    Option.bind_some, unclosed_singleton, isClosed]

/-- Of a run that can be read, the brackets of some sorts can be read alone. -/
theorem unclosed_filter
    (kept : Bracket → Bool) (isLast : unclosed stack kinds = some last) :
    unclosed (stack.filter kept) (only kept kinds) = some (last.filter kept) := by
  induction kinds generalizing stack with
  | nil =>
      obtain rfl := Option.some.inj isLast
      rfl
  | cons kind others inductionHypothesis =>
      obtain ⟨middle, isMiddle, further⟩ := Option.bind_eq_some_iff.1 isLast
      rw [unclosed_only_cons (unclosed_only_filter kept isMiddle)]
      exact inductionHypothesis further

end Bracket

end ScriptFront
