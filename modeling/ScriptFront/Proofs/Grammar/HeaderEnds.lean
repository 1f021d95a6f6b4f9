import ScriptFront.Proofs.Grammar.IndentedBodies

/-!
# The ends of headers

A header without a body ends with a name or an arrow, or with the parameters behind an arrow.  As a
closing parenthesis has only one partner, no call ends with its parentheses where a header ends.
-/

namespace ScriptFront

/-! ## Matching parentheses -/

namespace Token

open Cursor

/-- Each parenthesis among the tokens has its partner. -/
def Paired (tokens : List Token) : Prop :=
  ∀ depth rest, behindParens? (depth + 1) (tokens ++ rest) = behindParens? (depth + 1) rest

variable {front behind inner others lines : List Token} {opener closer first second : Token}

/-- A search for the closing parenthesis either goes on behind some tokens or ends among them. -/
theorem behindParens?_front (depth : Nat) (front : List Token) :
    (∃ deeper, ∀ rest, behindParens? (depth + 1) (front ++ rest) =
      behindParens? (deeper + 1) rest) ∨
    ∃ left, ∀ rest, behindParens? (depth + 1) (front ++ rest) = some (left ++ rest) := by
  induction front generalizing depth with
  | nil => exact Or.inl ⟨depth, fun _ => rfl⟩
  | cons token tail inductionHypothesis =>
      simp only [List.cons_append, behindParens?]
      split
      · exact inductionHypothesis (depth + 1)
      · split
        · cases depth with
          | zero => exact Or.inr ⟨tail, fun rest => rfl⟩
          | succ outer => simpa using inductionHypothesis outer
        · exact inductionHypothesis depth

/-- The parenthesis that opens a paired run has its partner behind the run. -/
theorem not_paired_of_opener
    (paired : Paired inner) (isOpener : opener.kind = .mark .leftParen) :
    ¬Paired (front ++ opener :: inner) := by
  intro pairedWhole
  let closer : Token := { opener with kind := .mark .rightParen }
  have atOnce (depth : Nat) :
      behindParens? (depth + 1) [closer] = if depth = 0 then some [] else none := by
    cases depth <;> rfl
  have whole := pairedWhole 0 [closer]
  rw [atOnce, List.append_assoc, List.cons_append] at whole
  have reopened (depth : Nat) :
      behindParens? (depth + 1) (opener :: (inner ++ [closer])) = none := by
    rw [behindParens?, if_pos isOpener, paired, atOnce]
    rfl
  rcases behindParens?_front 0 front with ⟨deeper, goesOn⟩ | ⟨left, ends⟩
  · rw [goesOn, reopened] at whole
    cases whole
  · rw [ends] at whole
    simp at whole

/-- The partner of a closing parenthesis is unique. -/
theorem opener_unique
    {again : Token} (paired : Paired inner) (pairedOthers : Paired others)
    (isOpener : opener.kind = .mark .leftParen) (isAgain : again.kind = .mark .leftParen)
    (same : front ++ opener :: inner = behind ++ again :: others) : front = behind := by
  rcases List.append_eq_append_iff.1 same with
    ⟨middle, isBehind, isInner⟩ | ⟨middle, isFront, isOthers⟩
  · cases middle with
    | nil => rw [isBehind, List.append_nil]
    | cons top below =>
        obtain ⟨-, isWhole⟩ := List.cons.inj isInner
        rw [isWhole] at paired
        exact absurd paired (not_paired_of_opener pairedOthers isAgain)
  · cases middle with
    | nil => rw [isFront, List.append_nil]
    | cons top below =>
        obtain ⟨-, isWhole⟩ := List.cons.inj isOthers
        rw [isWhole] at pairedOthers
        exact absurd pairedOthers (not_paired_of_opener paired isOpener)

/-- What stands in front of the newlines at the end is unique. -/
theorem last_unique
    (areLines : AreNewlines lines) (areOthers : AreNewlines others)
    (noLine : first.kind ≠ .newline) (alsoNone : second.kind ≠ .newline)
    (same : front ++ first :: lines = behind ++ second :: others) :
    front = behind ∧ first = second := by
  rcases List.append_eq_append_iff.1 same with
    ⟨middle, isBehind, isLines⟩ | ⟨middle, isFront, isOthers⟩
  · cases middle with
    | nil => exact ⟨by rw [isBehind, List.append_nil], (List.cons.inj isLines).1⟩
    | cons top below =>
        obtain ⟨-, isLines⟩ := List.cons.inj isLines
        have isLine := areLines second (isLines ▸ by simp)
        exact absurd isLine alsoNone
  · cases middle with
    | nil => exact ⟨by rw [isFront, List.append_nil], (List.cons.inj isOthers).1.symm⟩
    | cons top below =>
        obtain ⟨-, isOthers⟩ := List.cons.inj isOthers
        have isLine := areOthers first (isOthers ▸ by simp)
        exact absurd isLine noLine

end Token

/-- A header ends with this token, or with parameters behind it. -/
def Kind.endsHeader : Kind → Bool
  | .constant _ | .mark .arrow | .mark .blockArrow => true
  | _ => false

theorem Kind.ne_newline_of_endsHeader {kind : Kind} (ends : kind.endsHeader = true) :
    kind ≠ .newline := by
  rintro rfl
  cases ends

/-- The tokens in front of the newlines at their end are the end of a header. -/
inductive EndsInHeader : List Token → Prop where
  | word {front lines : List Token} {word : Token} (ends : word.kind.endsHeader = true)
      (areLines : Token.AreNewlines lines) : EndsInHeader (front ++ word :: lines)
  | parameters {front inner lines : List Token} {arrow opener closer : Token}
      (ends : arrow.kind.endsHeader = true) (isOpener : opener.kind = .mark .leftParen)
      (paired : Token.Paired inner) (isCloser : closer.kind = .mark .rightParen)
      (areLines : Token.AreNewlines lines) :
      EndsInHeader (front ++ arrow :: opener :: (inner ++ closer :: lines))

namespace EndsInHeader

variable {tokens front inner lines : List Token} {word opener closer : Token}

theorem append (ends : EndsInHeader tokens) (front : List Token) :
    EndsInHeader (front ++ tokens) := by
  cases ends with
  | word ends areLines =>
      rw [← List.append_assoc]
      exact .word ends areLines
  | parameters ends isOpener paired isCloser areLines =>
      rw [← List.append_assoc]
      exact .parameters ends isOpener paired isCloser areLines

/-- The parentheses at the end of a header do not belong to a call. -/
theorem word_of_parens
    (isHeader : EndsInHeader (front ++ word :: opener :: (inner ++ closer :: lines)))
    (isOpener : opener.kind = .mark .leftParen) (paired : Token.Paired inner)
    (isCloser : closer.kind = .mark .rightParen) (areLines : Token.AreNewlines lines) :
    word.kind.endsHeader = true := by
  have noLine : closer.kind ≠ .newline := by simp [isCloser]
  generalize isWhole : front ++ word :: opener :: (inner ++ closer :: lines) = tokens at isHeader
  cases isHeader with
  | @word behind others last ends areOthers =>
      have same : (front ++ word :: opener :: inner) ++ closer :: lines =
          behind ++ last :: others := by
        simpa using isWhole
      have alsoNone := Kind.ne_newline_of_endsHeader ends
      obtain rfl := (Token.last_unique areLines areOthers noLine alsoNone same).2
      rw [isCloser] at ends
      cases ends
  | @parameters behind others linesBehind arrow first last ends alsoOpener pairedOthers alsoCloser
      areOthers =>
      have alsoNone : last.kind ≠ .newline := by simp [alsoCloser]
      have same : ((front ++ [word]) ++ opener :: inner) ++ closer :: lines =
          ((behind ++ [arrow]) ++ first :: others) ++ last :: linesBehind := by
        simpa using isWhole
      have sameFront := (Token.last_unique areLines areOthers noLine alsoNone same).1
      have sameWord := Token.opener_unique paired pairedOthers isOpener alsoOpener sameFront
      have isArrow : word = arrow := by simpa using (List.append_inj_right' sameWord rfl)
      rw [isArrow]
      exact ends

end EndsInHeader

namespace Phrase

open Cursor

variable {cursor next more final : Cursor} {node other : Node} {nodes : List Node}
  {inCommand : Bool}

/-! ## The end of a header -/

theorem Reads.parameters_end
    {kind : Kind} {list : List (Parameter Node)} {behind : Cursor}
    (here : cursor.Accepts kind behind) (ends : kind.endsHeader = true)
    (reads : Reads .parameters behind list next) (newlines : next.OnlyNewlines) :
    EndsInHeader cursor.ahead := by
  rcases here.ahead with ⟨arrow, isAhead, rfl⟩
  rw [isAhead]
  cases reads with
  | noParameters =>
      have isWord : EndsInHeader ([] ++ arrow :: next.ahead) := .word ends newlines
      exact isWord
  | emptyParameters opens closes =>
      rcases opens.ahead with ⟨opener, isOpening, isOpener⟩
      rcases closes.ahead with ⟨closer, isClosing, isCloser⟩
      have isWhole : EndsInHeader ([] ++ arrow :: opener :: ([] ++ closer :: next.ahead)) :=
        .parameters ends isOpener (fun _ _ => rfl) isCloser newlines
      rw [isOpening, isClosing]
      exact isWhole
  | parameters opens _ areParameters closes =>
      rcases opens.ahead with ⟨opener, isOpening, isOpener⟩
      rcases closes.ahead with ⟨closer, isClosing, isCloser⟩
      rcases areParameters.spans with ⟨inner, isInner, -, paired⟩
      have isWhole : EndsInHeader ([] ++ arrow :: opener :: (inner ++ closer :: next.ahead)) :=
        .parameters ends isOpener paired isCloser newlines
      rw [isOpening, isInner, isClosing]
      exact isWhole

theorem Reads.definition_ends
    {kind : Kind} {list : List (Parameter Node)} {behind : Cursor}
    (here : cursor.Accepts kind behind) (ends : kind.endsHeader = true)
    (reads : Reads .definition behind ⟨list, []⟩ next) (newlines : next.OnlyNewlines) :
    EndsInHeader cursor.ahead := by
  cases reads with
  | definition areParameters isBody =>
      have same := isBody.eq_of_emptyBody
      exact areParameters.parameters_end here ends (same ▸ newlines)

theorem endsInHeader_of_name
    {name : String} (names : cursor.Accepts (.constant name) next)
    (isBody : Reads .body next [] final) (newlines : final.OnlyNewlines) :
    EndsInHeader cursor.ahead := by
  rcases names.ahead with ⟨word, isAhead, isName⟩
  rw [isBody.eq_of_emptyBody] at newlines
  have isWord : EndsInHeader ([] ++ word :: next.ahead) := .word (by rw [isName]; rfl) newlines
  rw [isAhead]
  exact isWord

theorem Reads.header_ends
    {header : Header} (reads : Reads (.primary inCommand) cursor (header.node []) next)
    (newlines : next.OnlyNewlines) : EndsInHeader cursor.ahead := by
  rcases reads.primary_bodied (header.node_takesBody []) with
    ⟨behind, here, isClass⟩ | ⟨behind, here, isModule⟩ | ⟨name, behind, here, isNamed⟩ |
    ⟨block, behind, here, isBlock, isNode⟩
  · rcases here.ahead with ⟨token, isAhead, -⟩
    rw [isAhead]
    cases header with
    | classWord =>
        cases isClass with
        | classDefinition names _ isBody =>
            exact (endsInHeader_of_name names isBody newlines).append [token]
        | derivedClass names derives namesBase isBody =>
            rcases names.ahead with ⟨name, isName, -⟩
            rcases derives.ahead with ⟨less, isLess, -⟩
            rw [isName, isLess]
            exact (endsInHeader_of_name namesBase isBody newlines).append [token, name, less]
    | _ => cases isClass
  · rcases here.ahead with ⟨token, isAhead, -⟩
    rw [isAhead]
    cases header with
    | moduleWord =>
        cases isModule with
        | moduleDefinition names isBody =>
            exact (endsInHeader_of_name names isBody newlines).append [token]
    | _ => cases isModule
  · rcases here.ahead with ⟨token, isAhead, -⟩
    rw [isAhead]
    cases header with
    | method =>
        cases isNamed with
        | method arrow isBlock =>
            exact (isBlock.definition_ends arrow rfl newlines).append [token]
        | call _ _ isNode => cases isNode
    | call =>
        cases isNamed with
        | call _ areArguments isNode =>
            cases isNode with
            | withBlock arrow isBlock =>
                rcases areArguments.passed with ⟨passed, isPassed, -⟩
                rw [isPassed]
                exact (isBlock.definition_ends arrow rfl newlines).append (token :: passed)
    | _ =>
        cases isNamed with
        | call _ _ isNode => cases isNode
  · cases header with
    | block =>
        obtain rfl := Node.block.inj isNode
        exact isBlock.definition_ends here rfl newlines
    | _ => cases isNode

/-- No parentheses around the arguments of a call end in front of the newlines behind a header. -/
theorem Reads.not_parenthesized
    {name : String} {before : List Token} {word opened : Cursor} {list : List Node}
    (here : word.Accepts (.identifier name) cursor)
    (opens : cursor.Accepts (.mark .leftParen) opened)
    (areArguments : Reads (.enclosed .rightParen) opened list next) (newlines : next.OnlyNewlines) :
    ¬EndsInHeader (before ++ word.ahead) := by
  intro ends
  rcases here.ahead with ⟨token, isToken, isName⟩
  rcases opens.ahead with ⟨opener, isOpening, isOpener⟩
  rcases areArguments.spans with ⟨closing, ⟨inner, isInner, -, paired⟩, closes⟩
  rcases closes.ahead with ⟨closer, isClosing, isCloser⟩
  rw [isToken, isOpening, isInner, isClosing] at ends
  have endsHeader := ends.word_of_parens isOpener paired isCloser newlines
  rw [isName] at endsHeader
  cases endsHeader

end Phrase

end ScriptFront
