import ScriptFront.Proofs.Grammar.EnclosedPrograms
import ScriptFront.Proofs.Token.Lone

/-!
# String literals

A text may be written between single quotes or between double quotes, with a backslash in front of
every character that has a meaning of its own there.  It is read back as one piece of a string, and
literals that stand side by side are read as one string.
-/

namespace ScriptFront

/-! ## Texts between quotes -/

/-- Which quotes stand around a text. -/
inductive Quoting where
  | plain
  | rich
deriving DecidableEq, Repr

namespace Quoting

def mode : Quoting → Mode
  | plain => .plainString
  | rich => .richString

def mark : Quoting → Char
  | plain => '\''
  | rich => '"'

/-- A character as it is written between single quotes to stand for itself. -/
def plainChar : Char → List Char
  | '\\' => ['\\', '\\']
  | '\'' => ['\\', '\'']
  | other => [other]

def char : Quoting → Char → List Char
  | plain => plainChar
  | rich => escapedChar

def piece? : Quoting → List Char → Option Segment
  | plain => Segment.plain?
  | rich => Segment.rich?

theorem delimits (quoting : Quoting) : quoting.mode.delimiter? = some quoting.mark := by
  cases quoting with
  | plain | rich => rfl

theorem piece?_mode (quoting : Quoting) : quoting.mode.piece? = quoting.piece? := by
  cases quoting with
  | plain | rich => rfl

end Quoting

/-- A text and the quotes that it is written between. -/
structure Literal where
  quoting : Quoting
  text : String
deriving DecidableEq, Repr

namespace Literal

/-- What stands between the quotes. -/
def content (literal : Literal) : List Char :=
  literal.text.toList.flatMap literal.quoting.char

def written (literal : Literal) : List Char :=
  literal.quoting.mark :: (literal.content ++ [literal.quoting.mark])

/-- Literals side by side. -/
def source (literals : List Literal) : String := String.ofList (literals.flatMap written)

end Literal

namespace Segment

/-- A text that is written between single quotes is read back. -/
theorem plain?_escaped (rest text : List Char) :
    plain? (text.flatMap Quoting.plainChar ++ '\'' :: rest) =
      some ⟨text, text.flatMap Quoting.plainChar, '\'' :: rest⟩ := by
  induction text with
  | nil => rfl
  | cons first others inductionHypothesis =>
      rw [List.flatMap_cons, List.append_assoc]
      by_cases isSlash : first = '\\'
      · subst isSlash
        simp [Quoting.plainChar, plain?, inductionHypothesis, prepend]
      by_cases isQuote : first = '\''
      · subst isQuote
        simp [Quoting.plainChar, plain?, inductionHypothesis, prepend]
      simp [Quoting.plainChar, isSlash, plain?, inductionHypothesis, prepend]

end Segment

namespace Literal

/-- The text between the quotes is one piece, up to the quote that closes it. -/
theorem piece?_content (literal : Literal) (rest : List Char) :
    literal.quoting.piece? (literal.content ++ literal.quoting.mark :: rest) =
      some ⟨literal.text.toList, literal.content, literal.quoting.mark :: rest⟩ := by
  rcases literal with ⟨quoting, text⟩
  cases quoting with
  | plain => exact Segment.plain?_escaped rest text.toList
  | rich => exact Segment.rich?_escaped rfl text.toList

/-- In a string between the quotes of the literal, in front of a piece of it. -/
def inside (literal : Literal) : ModeStack := ModeStack.initial.push literal.quoting.mode

theorem move_opens (literal : Literal) (rest : List Char) :
    ModeStack.initial.move (literal.quoting.mark :: rest) =
      .quote literal.quoting.mark rest literal.inside :=
  ModeStack.move_opens literal.quoting.delimits rest

theorem move_content (literal : Literal) (rest : List Char) :
    literal.inside.move (literal.content ++ literal.quoting.mark :: rest) =
      .token ⟨.fragment literal.text, literal.content, literal.quoting.mark :: rest⟩
        (literal.inside.setSegmentOpen false) := by
  rw [inside, ModeStack.move_content literal.quoting.delimits, Quoting.piece?_mode,
    piece?_content, ModeStack.segmentMove, String.ofList_toList]

theorem move_closes (literal : Literal) (rest : List Char) :
    (literal.inside.setSegmentOpen false).move (literal.quoting.mark :: rest) =
      .quote literal.quoting.mark rest .initial :=
  ModeStack.move_closes literal.quoting.delimits rest

end Literal

/-! ## Pieces side by side -/

/-- The tokens are pieces with these texts, and no blank stands in front of any of them. -/
inductive Pieces : List String → List Token → Prop where
  | nil : Pieces [] []
  | cons {text : String} {texts : List String} {token : Token} {tokens : List Token}
      (isPiece : token.kind = .fragment text) (hugs : token.spaced = false)
      (further : Pieces texts tokens) : Pieces (text :: texts) (token :: tokens)

namespace Pieces

variable {texts : List String} {tokens : List Token}

theorem kinds (pieces : Pieces texts tokens) : tokens.map Token.kind = texts.map Kind.fragment := by
  induction pieces with
  | nil => rfl
  | cons isPiece _ _ inductionHypothesis =>
      rw [List.map_cons, List.map_cons, isPiece, inductionHypothesis]

theorem significant_eq (pieces : Pieces texts tokens) : Token.significant tokens = tokens := by
  apply Token.significant_eq_self
  intro token member
  have isKind := List.mem_map_of_mem (f := Token.kind) member
  rw [pieces.kinds] at isKind
  obtain ⟨text, -, isPiece⟩ := List.mem_map.1 isKind
  rw [Token.isTrivia, ← isPiece]
  rfl

end Pieces

namespace Scanner

variable {scanner : Scanner}

theorem reaches_literal
    (file : Option String) {literal : Literal} {behind : List Char}
    (isRest : scanner.rest = literal.written ++ behind) (isCode : scanner.modes = .initial) :
    ∃ token last, Reaches file scanner [token] last ∧ token.kind = .fragment literal.text ∧
      token.spaced = scanner.spaced ∧ last.rest = behind ∧ last.modes = .initial ∧
      last.spaced = false := by
  have isText : scanner.rest =
      literal.quoting.mark :: (literal.content ++ literal.quoting.mark :: behind) := by
    rw [isRest, Literal.written, List.cons_append, List.append_assoc, List.singleton_append]
  have opens : scanner.modes.move scanner.rest =
      .quote literal.quoting.mark (literal.content ++ literal.quoting.mark :: behind)
        literal.inside := by
    rw [isText, isCode]
    exact literal.move_opens _
  exact ⟨_, _, .quote opens (.token (literal.move_content behind) rfl
    (.quote (literal.move_closes behind) .here)), rfl, rfl, rfl, rfl, rfl⟩

/-- Literals side by side are read up to the end, a piece for each of them. -/
theorem reaches_literals
    (file : Option String) {literals : List Literal}
    (isRest : scanner.rest = literals.flatMap Literal.written)
    (isCode : scanner.modes = .initial) (unspaced : scanner.spaced = false) :
    ∃ tokens last, Reaches file scanner tokens last ∧ last.AtEnd ∧
      Pieces (literals.map Literal.text) tokens := by
  induction literals generalizing scanner with
  | nil => exact ⟨[], scanner, .here, ⟨isRest, isCode ▸ rfl, isCode ▸ rfl⟩, .nil⟩
  | cons literal others inductionHypothesis =>
      rw [List.flatMap_cons] at isRest
      obtain ⟨token, place, reaches, isPiece, sameSpaced, isBehind, isCodeBehind, unspacedBehind⟩ :=
        reaches_literal file isRest isCode
      obtain ⟨tokens, last, further, atEnd, pieces⟩ :=
        inductionHypothesis isBehind isCodeBehind unspacedBehind
      exact ⟨token :: tokens, last, reaches.append further, atEnd,
        .cons isPiece (sameSpaced.trans unspaced) pieces⟩

end Scanner

namespace Phrase

open Cursor

variable {texts : List String} {tokens : List Token}

/-- Pieces that stand side by side are joined, up to the end of the input. -/
theorem reads_stringParts_of_pieces
    (pieces : Pieces texts tokens) (text : String) (ending : Ending) :
    Reads (.stringParts text) ⟨tokens, ending, false⟩ (.last (texts.foldl (· ++ ·) text))
      ⟨[], ending, false⟩ := by
  induction pieces generalizing text with
  | nil =>
      apply Reads.lastPart
      exact ⟨Kind.noConfusion, fun _ => Kind.noConfusion⟩
  | cons isPiece hugs _ inductionHypothesis =>
      exact .adjacent (takes_cons (by simp [isPiece])) isPiece hugs (inductionHypothesis _)

/-- Pieces that stand side by side are a program: one string. -/
theorem reads_program_of_pieces
    (pieces : Pieces texts tokens) (some : texts ≠ []) (ending : Ending) :
    Reads (.statements false) ⟨tokens, ending, false⟩ [.text (String.join texts)]
      ⟨[], ending, false⟩ := by
  cases pieces with
  | nil => exact absurd rfl some
  | @cons text others first tokens isPiece hugs further =>
      have parts := reads_stringParts_of_pieces further text ending
      have joined : String.join (text :: others) = others.foldl (· ++ ·) text := by
        rw [String.join, List.foldl_cons, String.empty_append]
      rw [joined]
      have reads : Reads (.primary false) ⟨first :: tokens, ending, false⟩
          (StringParts.last (others.foldl (· ++ ·) text)).node ⟨[], ending, false⟩ :=
        .string (accepts_cons isPiece Kind.noConfusion) parts
      exact reads_program_of_primary reads rfl isPiece (by simp) (by simp)
        (symbolKey?_cons_of_kind isPiece (by simp) (by simp))

end Phrase

/-- Whatever the texts are, and whichever quotes stand around each of them: literals side by side
give one token for each text, and the program that they are is the joined text. -/
theorem parse_literals
    {literals : List Literal} (some : literals ≠ []) (file : Option String) :
    (∃ tokens, tokenize (Literal.source literals) file = .ok tokens ∧
        tokens.map Token.kind =
          literals.map (fun literal => .fragment literal.text) ++ [.endOfInput]) ∧
      parse (Literal.source literals) file =
        .ok [.text (String.join (literals.map Literal.text))] := by
  have isText : (Scanner.start (Literal.source literals).toList).rest =
      literals.flatMap Literal.written := String.toList_ofList
  obtain ⟨read, last, reaches, atEnd, pieces⟩ := Scanner.reaches_literals file isText rfl rfl
  have lexed := reaches.tokenize atEnd
  have ends : (last.token file ⟨.endOfInput, [], []⟩).kind = .endOfInput := rfl
  constructor
  · refine ⟨_, lexed, ?_⟩
    rw [pieces.significant_eq, List.map_append, pieces.kinds, List.map_map]
    rfl
  · rw [parse, lexed]
    apply parseTokens_eq_ok_iff.2
    rw [Cursor.ofTokens_of_written reaches.written ends, pieces.significant_eq]
    have someText : literals.map Literal.text ≠ [] := by
      simpa using some
    exact ⟨_, Phrase.reads_program_of_pieces pieces someText _⟩

/-- A quote, an empty text, and what would start an inserted expression. -/
theorem parse_literals_mixed :
    ∃ literals : List Literal, literals ≠ [] ∧
      Literal.source literals = "'it\\'s'\"\"\"\\#\x7b\\\\\"" ∧
      parse "'it\\'s'\"\"\"\\#\x7b\\\\\"" none = .ok [.text "it's#\x7b\\"] := by
  have some : ([⟨.plain, "it's"⟩, ⟨.rich, ""⟩, ⟨.rich, "#\x7b\\"⟩] : List Literal) ≠ [] := by simp
  have isText : Literal.source [⟨.plain, "it's"⟩, ⟨.rich, ""⟩, ⟨.rich, "#\x7b\\"⟩] =
      "'it\\'s'\"\"\"\\#\x7b\\\\\"" := by
    with_unfolding_all rfl
  have joined : String.join ["it's", "", "#\x7b\\"] = "it's#\x7b\\" := by
    with_unfolding_all rfl
  have parsed := (parse_literals some none).2
  rw [isText] at parsed
  exact ⟨_, some, isText, joined ▸ parsed⟩

end ScriptFront
