import ScriptFront.Proofs.Grammar.Building
import ScriptFront.Proofs.Grammar.Traces

/-!
# Strings, symbols and definitions in trees

A string with inserted expressions alternates between texts and insertions, and an insertion stands
nowhere else.  A symbol is named by a string, a class and a module by a constant.  A tree that was
read is built like this at every node, and it holds one insertion for each that the tokens start.
-/

namespace ScriptFront

namespace Node

/-- Texts at the even places and insertions at the odd ones, with a text at both ends. -/
structure Alternates (parts : List Node) : Prop where
  odd : parts.length % 2 = 1
  text : ∀ place, ∀ inside : place < parts.length, place % 2 = 0 →
    ∃ value, parts[place] = .text value
  insertion : ∀ place, ∀ inside : place < parts.length, place % 2 = 1 →
    ∃ inner, parts[place] = .interpolation inner

/-- What the children of a node may be. -/
structure WellFormed (node : Node) : Prop where
  string : ∀ parts, node = .interpolated parts → 3 ≤ parts.length ∧ Alternates parts
  /-- An insertion is a part of a string. -/
  insertion : ∀ inner, .interpolation inner ∈ node.children → ∃ parts, node = .interpolated parts
  symbol : ∀ name, node = .symbol name →
    (∃ value, name = .text value) ∨ ∃ parts, name = .interpolated parts
  className : ∀ name superclass body, node = .classDefinition name superclass body →
    (∃ word, name = .constant word) ∧ ∀ base ∈ superclass, ∃ word, base = .constant word
  moduleName : ∀ name body, node = .moduleDefinition name body → ∃ word, name = .constant word

end Node

namespace StringParts

open Node

theorem length_nodes (parts : StringParts) :
    parts.nodes.length = 2 * parts.inners.length + 1 := by
  induction parts with
  | last => rfl
  | insertion text inner others inductionHypothesis =>
      simp only [nodes, inners, List.length_cons, inductionHypothesis]
      omega

theorem alternates_nodes (parts : StringParts) : Alternates parts.nodes := by
  induction parts with
  | last text =>
      refine ⟨rfl, ?_, ?_⟩
      · intro place inside _
        obtain rfl : place = 0 := by simpa [nodes] using inside
        exact ⟨text, rfl⟩
      · intro place inside odd
        obtain rfl : place = 0 := by simpa [nodes] using inside
        cases odd
  | insertion text inner others inductionHypothesis =>
      refine ⟨?_, ?_, ?_⟩
      · rw [length_nodes]
        omega
      · intro place inside even
        rcases place with _ | _ | behind
        · exact ⟨text, rfl⟩
        · omega
        · have insideOthers : behind < others.nodes.length := by simpa [nodes] using inside
          exact inductionHypothesis.text behind insideOthers (by omega)
      · intro place inside odd
        rcases place with _ | _ | behind
        · omega
        · exact ⟨inner, rfl⟩
        · have insideOthers : behind < others.nodes.length := by simpa [nodes] using inside
          exact inductionHypothesis.insertion behind insideOthers (by omega)

theorem node_isString (parts : StringParts) :
    (∃ value, parts.node = .text value) ∨ ∃ others, parts.node = .interpolated others := by
  cases parts with
  | last text => exact Or.inl ⟨text, rfl⟩
  | insertion => exact Or.inr ⟨_, rfl⟩

end StringParts

namespace Node

theorem Built.wellFormed {tokens : List Token} {node : Node} (built : node.Built tokens) :
    node.WellFormed where
  string := by
    rintro parts rfl
    cases built.made with
    | string text inner others =>
        refine ⟨?_, StringParts.alternates_nodes _⟩
        rw [StringParts.length_nodes, StringParts.inners, List.length_cons]
        omega
  insertion := built.insertion
  symbol := by
    rintro name rfl
    cases built.made with
    | symbol name => exact name.node_isString
  className := by
    rintro name superclass body rfl
    cases built.made with
    | classDefinition name base? =>
        refine ⟨⟨name, rfl⟩, ?_⟩
        intro constant isBase
        rcases Option.map_eq_some_iff.1 isBase with ⟨word, -, rfl⟩
        exact ⟨word, rfl⟩
  moduleName := by
    rintro name body rfl
    cases built.made with
    | moduleDefinition name => exact ⟨name, rfl⟩

end Node

theorem Label.isInsertion_eq (label : Label) :
    (label.trace? == some .insertion) = decide (label = .interpolation) := by
  cases label <;> simp [trace?]

theorem Kind.isInsertion_eq (kind : Kind) :
    (kind.trace? == some .insertion) = decide (kind = .interpolationStart) := by
  cases kind <;> simp [trace?]

/-- The nodes of a program are well formed, and its trees hold an insertion for each token that
starts one. -/
theorem wellFormed_of_parseTokens {tokens : List Token} {nodes : List Node}
    (parsed : parseTokens tokens = .ok nodes) :
    (∀ statement ∈ nodes, (∀ inner, statement ≠ .interpolation inner) ∧
      ∀ part, Node.Occurs part statement → part.WellFormed) ∧
    (outlineAll nodes).countP (·.2 = .interpolation) =
      (tokens.takeWhile (·.kind ≠ .endOfInput)).countP (·.kind = .interpolationStart) := by
  rcases parseTokens_eq_ok_iff.1 parsed with ⟨last, reads⟩
  refine ⟨?_, ?_⟩
  · intro statement member
    have whole := whole_of_parseTokens parsed statement member
    exact ⟨whole.notInserted, fun part occurs => (whole.everywhere part occurs).wellFormed⟩
  · have counted := congrArg (List.count Trace.insertion) (traces_of_reads reads)
    simp only [Node.tracesOf, List.count_filterMap, Label.isInsertion_eq,
      Kind.isInsertion_eq] at counted
    exact counted.symm

/-- A class whose body holds a hash with a string in a string for a key, and a symbol that is named
by a string with an insertion. -/
theorem wellFormed_nested_strings :
    ∃ (tokens : List Token) (nodes : List Node),
      tokens.map Token.kind = [.keyword .classWord, .constant "A", .operator .less, .constant "B",
        .newline, .indent, .mark .leftBrace, .fragment "a", .interpolationStart, .fragment "b",
        .interpolationStart, .integer 1, .interpolationEnd, .fragment "", .interpolationEnd,
        .fragment "c", .mark .colon, .mark .colon, .fragment "d", .interpolationStart,
        .identifier "x", .interpolationEnd, .fragment "", .mark .rightBrace, .dedent] ∧
      parseTokens tokens = .ok nodes ∧
      (∀ statement ∈ nodes, (∀ inner, statement ≠ .interpolation inner) ∧
        ∀ part, Node.Occurs part statement → part.WellFormed) ∧
      (outlineAll nodes).countP (·.2 = .interpolation) = 3 := by
  let token (kind : Kind) (spaced : Bool) : Token := ⟨kind, "", ⟨1, 1, none⟩, spaced⟩
  let tokens : List Token :=
    [token (.keyword .classWord) false, token (.constant "A") true, token (.operator .less) true,
      token (.constant "B") true, token .newline false, token .indent false,
      token (.mark .leftBrace) false, token (.fragment "a") false,
      token .interpolationStart false, token (.fragment "b") false,
      token .interpolationStart false, token (.integer 1) false, token .interpolationEnd false,
      token (.fragment "") false, token .interpolationEnd false, token (.fragment "c") false,
      token (.mark .colon) false, token (.mark .colon) true, token (.fragment "d") false,
      token .interpolationStart false, token (.identifier "x") false,
      token .interpolationEnd false, token (.fragment "") false, token (.mark .rightBrace) false,
      token .dedent false]
  have parsed : parseTokens tokens = .ok [.classDefinition (.constant "A") (some (.constant "B"))
      [.hash [⟨.interpolated [.text "a", .interpolation
          (.interpolated [.text "b", .interpolation (.integer 1), .text ""]), .text "c"],
        .symbol (.interpolated [.text "d", .interpolation (.call "x" [] none), .text ""])⟩]]] := by
    with_unfolding_all rfl
  have wellFormed := wellFormed_of_parseTokens parsed
  exact ⟨tokens, _, rfl, parsed, wellFormed.1, wellFormed.2.trans (by decide)⟩

end ScriptFront
