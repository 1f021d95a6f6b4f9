import ScriptFront.Proofs.Grammar.Traces

/-!
# The numbers of a program

Every number among the tokens of a program stands in its tree, once and in the same order.  Of the
traces that its tokens leave there, the numbers are kept.
-/

namespace ScriptFront

/-- The value of a number as it is written, with a point or without. -/
inductive Number where
  | integer (value : Int)
  | float (value : Binary64)
deriving DecidableEq, Repr

def Kind.number? : Kind → Option Number
  | .integer value => some (.integer value)
  | .float value => some (.float value)
  | _ => none

def Label.number? : Label → Option Number
  | .integer value => some (.integer value)
  | .float value => some (.float value)
  | _ => none

/-- The number that a trace stands for, if it is one. -/
def Trace.number? : Trace → Option Number
  | .integer value => some (.integer value)
  | .float value => some (.float value)
  | .insertion => none

theorem Kind.number?_eq (kind : Kind) : kind.number? = kind.trace?.bind Trace.number? := by
  cases kind <;> rfl

theorem Label.number?_eq (label : Label) : label.number? = label.trace?.bind Trace.number? := by
  cases label <;> rfl

namespace Node

/-- The numbers in an outline. -/
def numbersOf (outline : List (Nat × Label)) : List Number :=
  outline.filterMap (·.2.number?)

theorem numbersOf_eq (outline : List (Nat × Label)) :
    numbersOf outline = (tracesOf outline).filterMap Trace.number? := by
  simp only [numbersOf, tracesOf, List.filterMap_filterMap, Label.number?_eq]

/-- The numbers of a tree, a node before its children and these in order. -/
def numbers (node : Node) : List Number := numbersOf (node.outline 0)

theorem numbersOf_outlineAll (nodes : List Node) :
    numbersOf (outlineAll nodes) = nodes.flatMap numbers := by
  have ofTraces : numbers = fun node => node.traces.filterMap Trace.number? := by
    funext node
    exact numbersOf_eq (node.outline 0)
  rw [numbersOf_eq, tracesOf_outlineAll, List.filterMap_flatMap, ofTraces]

end Node

namespace Cursor

/-- The numbers among the tokens ahead. -/
def numbers (cursor : Cursor) : List Number := cursor.ahead.filterMap (·.kind.number?)

theorem numbers_eq (cursor : Cursor) :
    cursor.numbers = cursor.traces.filterMap Trace.number? := by
  simp only [numbers, traces, List.filterMap_filterMap, Kind.number?_eq]

end Cursor

namespace Phrase

/-- The numbers that a phrase is given and those ahead of it are the numbers that it yields and
those behind it. -/
theorem Reads.numbers
    {form : Form} {cursor next : Cursor} {value : form.Value}
    (reads : Reads form cursor value next) :
    form.given.flatMap Node.numbers ++ cursor.numbers =
      (form.yielded value).flatMap Node.numbers ++ next.numbers := by
  have ofNodes (nodes : List Node) :
      nodes.flatMap Node.numbers = (nodes.flatMap Node.traces).filterMap Trace.number? := by
    rw [← Node.numbersOf_outlineAll, Node.numbersOf_eq, Node.tracesOf_outlineAll]
  rw [ofNodes, ofNodes, cursor.numbers_eq, next.numbers_eq, ← List.filterMap_append,
    ← List.filterMap_append, reads.traces]

end Phrase

/-- The numbers before the end of input are carried by tokens with a meaning of their own. -/
theorem Cursor.numbers_ofTokens (tokens : List Token) :
    (Cursor.ofTokens tokens).numbers =
      (tokens.takeWhile (·.kind ≠ .endOfInput)).filterMap (·.kind.number?) := by
  simp only [Cursor.numbers_eq, Cursor.traces_ofTokens, List.filterMap_filterMap, Kind.number?_eq]

/-- The numbers among the tokens of a program are those in its tree, each of them once and in the
same order. -/
theorem numbers_of_parseTokens
    {tokens : List Token} {nodes : List Node} (parsed : parseTokens tokens = .ok nodes) :
    (tokens.takeWhile (·.kind ≠ .endOfInput)).filterMap (·.kind.number?) =
      (outlineAll nodes).filterMap (·.2.number?) := by
  rcases parseTokens_eq_ok_iff.1 parsed with ⟨last, reads⟩
  have atEnd : last.ahead = [] := Cursor.ahead_eq_nil_of_program reads
  have carried := reads.numbers
  have allKept : (Cursor.ofTokens tokens).numbers = nodes.flatMap Node.numbers := by
    simpa [Phrase.Form.given, Phrase.Form.yielded, Cursor.numbers, atEnd] using carried
  calc
    (tokens.takeWhile (·.kind ≠ .endOfInput)).filterMap (·.kind.number?)
    _ = (Cursor.ofTokens tokens).numbers := (Cursor.numbers_ofTokens tokens).symm
    _ = nodes.flatMap Node.numbers := allKept
    _ = (outlineAll nodes).filterMap (·.2.number?) := (Node.numbersOf_outlineAll nodes).symm

/-- A call whose arguments end with pairs that make up a hash, one of them with a string for a key,
and whose block has a parameter with a default. -/
theorem numbers_call_with_block :
    ∃ tokens : List Token,
      tokens.map Token.kind =
        [.identifier "f", .mark .leftParen, .integer 1, .mark .comma, .integer 2, .mark .colon,
          .operator .minus, .float ⟨4615063718147915776⟩, .mark .comma, .fragment "a",
          .interpolationStart, .integer 4, .interpolationEnd, .mark .colon, .integer 5,
          .mark .rightParen, .mark .blockArrow, .mark .leftParen, .identifier "x",
          .operator .assign, .integer 6, .mark .rightParen] ∧
      parseTokens tokens = .ok [.call "f"
        [.integer 1, .hash [⟨.integer 2, .unary .minus (.float ⟨4615063718147915776⟩)⟩,
          ⟨.interpolated [.text "a", .interpolation (.integer 4), .text ""], .integer 5⟩]]
        (some ⟨[.optional "x" (.integer 6)], []⟩)] ∧
      (outlineAll [.call "f"
          [.integer 1, .hash [⟨.integer 2, .unary .minus (.float ⟨4615063718147915776⟩)⟩,
            ⟨.interpolated [.text "a", .interpolation (.integer 4), .text ""], .integer 5⟩]]
          (some ⟨[.optional "x" (.integer 6)], []⟩)]).filterMap (·.2.number?) =
        [.integer 1, .integer 2, .float ⟨4615063718147915776⟩, .integer 4, .integer 5,
          .integer 6] := by
  let tokens : List Token :=
    [(Kind.identifier "f", false), (.mark .leftParen, false), (.integer 1, false),
      (.mark .comma, false), (.integer 2, true), (.mark .colon, false), (.operator .minus, true),
      (.float ⟨4615063718147915776⟩, false), (.mark .comma, false), (.fragment "a", true),
      (.interpolationStart, false), (.integer 4, false), (.interpolationEnd, false),
      (.mark .colon, false), (.integer 5, true), (.mark .rightParen, false),
      (.mark .blockArrow, true), (.mark .leftParen, true), (.identifier "x", false),
      (.operator .assign, true), (.integer 6, true), (.mark .rightParen, false)].map
        fun (kind, spaced) => ⟨kind, "", ⟨1, 1, none⟩, spaced⟩
  have parsed : parseTokens tokens = .ok [.call "f"
      [.integer 1, .hash [⟨.integer 2, .unary .minus (.float ⟨4615063718147915776⟩)⟩,
        ⟨.interpolated [.text "a", .interpolation (.integer 4), .text ""], .integer 5⟩]]
      (some ⟨[.optional "x" (.integer 6)], []⟩)] := by
    with_unfolding_all rfl
  exact ⟨tokens, rfl, parsed, (numbers_of_parseTokens parsed).symm.trans (by decide)⟩

end ScriptFront
