import ScriptFront.Proofs.Grammar.Gathering
import ScriptFront.Proofs.Grammar.SpacedParens
import ScriptFront.Proofs.Token.Enclosing
import ScriptFront.Proofs.Token.Names

/-!
# The spellings of a list of pairs

Pairs with commas between them stand between braces, or they are a statement of their own, or they
stand among the elements of an array or the arguments of a call.  They are the same hash in all of
these, as long as there is one pair at least.
-/

namespace ScriptFront

/-- The tokens are a list of pairs wherever their line stops behind them. -/
def Token.ArePairs (tokens : List Token) (list : List (Pair Node)) : Prop :=
  ∀ back : Cursor, back.ClosesLine → Phrase.Reads .pairs (back.led tokens) list (back.led [])

/-- A mark that closes a bracket ends a line and starts nothing. -/
theorem Mark.stops_of_closes? {mark : Mark} (closes : (Kind.mark mark).closes? ≠ none) :
    (Kind.mark mark).stopsLine = true ∧ mark ≠ .blockArrow ∧
      (Kind.mark mark).startsPhrase = false := by
  cases mark with
  | rightParen | rightBracket | rightBrace => exact ⟨rfl, Mark.noConfusion, rfl⟩
  | _ => exact absurd rfl closes

namespace Phrase

open Cursor Outcome

variable {cursor next : Cursor} {list : List (Pair Node)} {node : Node}

/-! ## Pairs as entries and as a statement -/

theorem Reads.pairs_ne_nil (reads : Reads .pairs cursor list next) : list ≠ [] := by
  cases reads with
  | pairs _ arePairs =>
      cases arePairs with
      | lastPair => exact List.cons_ne_nil _ _
      | morePairs => exact List.cons_ne_nil _ _

theorem Reads.entries_of_pairs
    {cursor next : Cursor} {list : List (Pair Node)} (reads : Reads .pairs cursor list next) :
    Reads (.entries false) cursor (list.map .pair) next := by
  cases reads with
  | pairs isFirst arePairs =>
      cases arePairs with
      | lastPair ends => exact .lastEntry isFirst ends
      | morePairs comma areOthers => exact .moreEntries isFirst comma areOthers.entries_of_pairs
termination_by list

/-- Up to the end of the input, pairs are a program. -/
theorem reads_program_of_pairs
    (reads : Reads .pairs cursor list next) (isEnd : next.ahead = []) :
    Reads (.statements false) cursor [.hash list] next := by
  have noNewline : cursor.peek.kind ≠ .newline := by
    intro isNewline
    have starts := reads.pairs_starts
    rw [isNewline] at starts
    cases starts
  cases reads with
  | pairs isFirst arePairs =>
      exact reads_program_of_statement isFirst (.bareHash arePairs) isEnd noNewline

/-- In front of a closing mark, pairs are the one element that the mark encloses. -/
theorem Reads.enclosed_of_pairs
    {closer : Mark} {last : Cursor} (reads : Reads .pairs cursor list next)
    (closes : next.Accepts (.mark closer) last)
    (noStart : (Kind.mark closer).startsPhrase = false) :
    Reads (.enclosed closer) cursor [.hash list] last := by
  have filled : cursor.peek.kind ≠ .mark closer := by
    intro isEmpty
    have starts := reads.pairs_starts
    rw [isEmpty, noStart] at starts
    cases starts
  have enclosed := Reads.enclosed filled reads.entries_of_pairs closes
  rwa [Entry.gather_pairs reads.pairs_ne_nil] at enclosed

/-! ## Pairs between braces -/

section Braces

open ScriptFront.Bracket

variable {given : List Token} {opener closer : Token} {ending : Ending}

/-- The brace that closes a hash is the one behind balanced tokens. -/
theorem Reads.hash_ends
    (reads : Reads .hash ⟨given ++ [closer], ending, false⟩ node next)
    (balanced : Nested (only isBrace (given.map Token.kind))) : next.ahead = [] := by
  rcases reads.passes with ⟨closing, inner, closes⟩
  rcases closes.ahead with ⟨brace, isClosing, isKind⟩
  rcases inner.leaves_bodies with ⟨passed, bodies, isPassed, -, leaves, closed⟩
  obtain rfl := closed closes.ahead_ne_nil
  rw [isClosing] at isPassed
  rcases List.eq_nil_or_concat next.ahead with isEnd | ⟨front, last, isNext⟩
  · exact isEnd
  -- the brace would close one that the balanced tokens have opened before
  · rw [isNext, List.concat_eq_append] at isPassed
    have isGiven : given ++ [closer] = (passed ++ brace :: front) ++ [last] := by
      simpa using isPassed
    obtain ⟨rfl, -⟩ := List.append_inj' isGiven rfl
    have inside : unclosed [] (only isBrace (passed.map Token.kind)) = some [] :=
      unclosed_filter isBrace leaves
    have refused : unclosed [] (only isBrace [brace.kind]) = none := by
      rw [isKind]
      rfl
    rw [Nested, List.map_append, List.map_cons, only_append, unclosed_append, inside,
      Option.bind_some, unclosed_only_cons_eq_none refused] at balanced
    cases balanced

theorem Reads.unary_brace
    {inCommand : Bool} {rest : List Token}
    (reads : Reads (.unary inCommand) ⟨opener :: rest, ending, false⟩ node next)
    (isOpener : opener.kind = .mark .leftBrace) : Reads .hash ⟨rest, ending, false⟩ node next := by
  have isHere : (Cursor.mk (opener :: rest) ending false).peek.kind = .mark .leftBrace := isOpener
  cases reads with
  | unary sign => cases isHere.symm.trans sign.peek_kind
  | operand _ isPrimary =>
      cases isPrimary with
      | brace opens isHash =>
          obtain rfl := opens.unique (accepts_cons isOpener (by simp))
          exact isHash
      | integer here | float here | constant here | string here | name here | classWord here
      | moduleWord here | colon here | array here | paren here | block here =>
          cases isHere.symm.trans here.peek_kind

/-- What starts with a brace is a hash up to the last token. -/
theorem Reads.entry_braces
    {first : Entry} (reads : Reads (.entry false) ⟨opener :: (given ++ [closer]), ending, false⟩
      first next)
    (isOpener : opener.kind = .mark .leftBrace)
    (balanced : Nested (only isBrace (given.map Token.kind))) :
    ∃ node, first = .single node ∧ Reads .hash ⟨given ++ [closer], ending, false⟩ node next := by
  have ofBinary {node : Node} {last : Cursor}
      (reads : Reads .expression ⟨opener :: (given ++ [closer]), ending, false⟩ node last) :
      Reads .hash ⟨given ++ [closer], ending, false⟩ node last ∧ last.ahead = [] := by
    cases reads with
    | binary isLeft further =>
        have isHash := isLeft.unary_brace isOpener
        have isEnd := isHash.hash_ends balanced
        cases further with
        | stop => exact ⟨isHash, isEnd⟩
        | climb continues => exact absurd isEnd continues.2.1.ahead_ne_nil
  cases reads with
  | keyed names =>
      have unnamed : (Cursor.mk (opener :: (given ++ [closer])) ending false).symbolKey? = none :=
        symbolKey?_cons_of_kind isOpener (by simp) (by simp)
      exact absurd names (symbolKey?_eq_none_iff.1 unnamed _ _)
  | expression _ isNode => exact ⟨_, rfl, (ofBinary isNode).1⟩
  | pair _ isKey separates =>
      exact absurd (ofBinary isKey).2 separates.2.1.ahead_ne_nil

/-- The tokens between braces are pairs, if there are any. -/
theorem Reads.arePairs
    (reads : Reads .hash ⟨given ++ [closer], ending, false⟩ (.hash list) next)
    (some : given ≠ []) (isEnd : next.ahead = [])
    (inLine : ∀ token ∈ given, token.kind.isLayout = false) : Token.ArePairs given list := by
  cases reads with
  | emptyHash closes =>
      rcases closes.ahead with ⟨brace, isAll, -⟩
      rw [isEnd] at isAll
      have isLone : given ++ [closer] = [] ++ [brace] := isAll
      exact absurd (List.append_inj' isLone rfl).1 some
  | @hash _ closing _ _ _ arePairs closes =>
      rcases arePairs.passed with ⟨passed, isPassed, -⟩
      rcases closes.ahead with ⟨last, isLast, isBrace⟩
      rw [isEnd] at isLast
      rw [isLast] at isPassed
      obtain ⟨rfl, sameLast⟩ := List.append_inj' isPassed rfl
      obtain rfl := List.singleton_inj.1 sameLast
      have isFirm : Token.Firm given := by
        refine firm_of_passes arePairs.passes arePairs.endsFirm ?_ inLine
        rw [isLast]
      have isBraceHere := closesLine_of_mark isBrace rfl Mark.noConfusion ⟨[], ending, false⟩ []
      intro other closesOther
      refine arePairs.followed _ other isFirm isBraceHere.stops closesOther.stops isLast rfl ?_
      intro isBlock
      exact absurd isBlock closesOther.noBlock

end Braces

/-! ## The key of a pair -/

section Keys

variable {inCommand : Bool} {name : String} {key : Node} {behind : Cursor}

/-- The entry behind a key, given by its value. -/
def pairOf (key : Node) : Node × Cursor → Entry × Cursor
  | (value, next) => (.pair ⟨key, value⟩, next)

theorem result_entry_of_namesKey (names : cursor.NamesKey name behind) :
    (entry inCommand cursor).result =
      (binary inCommand Binding.loosest behind).result.map (pairOf (.symbol (.text name))) := by
  rcases symbolKey?_of_namesKey names with ⟨found, isKey, rfl, rfl⟩
  rw [entry, isKey]
  simp only [result_widen, result_map]
  rfl

theorem result_entry_of_separates
    (unnamed : cursor.symbolKey? = none)
    (isKey : Reads (.binary inCommand Binding.loosest) cursor key next)
    (separates : next.Separates behind) :
    (entry inCommand cursor).result =
      (binary inCommand Binding.loosest behind).result.map (pairOf key) := by
  have read : (binary inCommand Binding.loosest cursor).result = .ok (key, next) :=
    run_of_reads isKey
  rcases separator?_of_separates separates with ⟨colon, isColon, rfl⟩
  rw [entry, unnamed]
  simp only
  rw [result_andThen_of_ok read, isColon]
  simp only [result_widen, result_map]
  rfl

variable {sign again separator : Token} {rest : List Token} {ending : Ending} {flag : Bool}

/-- A symbol is an operand in front of a colon. -/
theorem reads_symbol_key
    (isSign : sign.kind = .mark .colon) (hugs : again.spaced = false)
    (names : again.kind.symbolName? = some name) (isSeparator : separator.kind = .mark .colon) :
    Reads (.binary inCommand Binding.loosest) ⟨sign :: again :: separator :: rest, ending, flag⟩
      (.symbol (.text name)) ⟨separator :: rest, ending, false⟩ := by
  have inLine : again.kind ≠ .dedent := by
    intro isDedent
    rw [isDedent] at names
    cases names
  have isSymbol : Reads .symbol ⟨again :: separator :: rest, ending, false⟩ (.symbol (.text name))
      ⟨separator :: rest, ending, false⟩ := .symbolName hugs (takes_cons inLine) names
  have isOperand : Reads (.unary inCommand) ⟨sign :: again :: separator :: rest, ending, flag⟩
      (.symbol (.text name)) ⟨separator :: rest, ending, false⟩ :=
    .operand_of_kind isSign (by simp) (.colon (accepts_cons isSign (by simp)) isSymbol)
  apply isOperand.binary_of_operand
  intro operator isOperator
  cases isSeparator.symm.trans isOperator

end Keys

end Phrase

/-! ## Lists of tokens -/

section Parsing

open Phrase Cursor ScriptFront.Bracket

variable {given : List Token} {opener closer : Token} {list : List (Pair Node)}

theorem arePairs_of_braces
    (isOpener : opener.kind = .mark .leftBrace) (isCloser : closer.kind = .mark .rightBrace)
    (inLine : ∀ token ∈ given, token.kind.isLayout = false)
    (balanced : Nested (only isBrace (given.map Token.kind)))
    (some : Token.significant given ≠ [])
    (parsed : parseTokens (opener :: (given ++ [closer])) = .ok [.hash list]) :
    Token.ArePairs (Token.significant given) list := by
  have none : Token.ArePlain [] := List.forall_mem_nil _
  have isFront : Token.ArePlain [opener] := none.cons isOpener rfl rfl
  have isCloserPlain : Token.ArePlain [closer] := none.cons isCloser rfl rfl
  have whole : opener :: (given ++ [closer]) = [opener] ++ (given ++ [closer]) ++ [] := by
    simp
  rw [whole] at parsed
  rcases parseTokens_eq_ok_iff.1 parsed with ⟨last, reads⟩
  rw [isFront.ofTokens_around isCloserPlain inLine rfl] at reads
  have inLineGiven := Token.inLine_significant inLine
  have inLineAhead := isFront.inLine_around isCloserPlain inLineGiven
  rw [only_significant] at balanced
  rcases reads.lone_line (List.cons_ne_nil _ _) inLineAhead rfl with
    ⟨first, middle, node, next, isNode, isEntry, isWhole, isEnd⟩
  obtain rfl := List.singleton_inj.1 isNode
  rcases isEntry.entry_braces isOpener balanced with ⟨inner, rfl, isHash⟩
  cases isWhole with
  | single => exact isHash.arePairs some isEnd inLineGiven

namespace Token.ArePairs

variable {back : Cursor} {word : Token} {name : String} {mark : Mark}

/-- In front of a closing mark, pairs are one hash. -/
theorem enclosed
    (arePairs : Token.ArePairs given list) (isCloser : closer.kind = .mark mark)
    (closes : (Kind.mark mark).closes? ≠ none) (back : Cursor) :
    Reads (.enclosed mark) (back.led (given ++ [closer])) [.hash list] (back.led []) := by
  rcases Mark.stops_of_closes? closes with ⟨stops, noBlock, noStart⟩
  have reads := arePairs _ (closesLine_of_mark isCloser stops noBlock back [])
  rw [led_append]
  exact reads.enclosed_of_pairs (accepts_cons isCloser (by simp)) noStart

theorem program (arePairs : Token.ArePairs given list) (isEnd : back.ahead = []) :
    Reads (.statements false) (back.led given) [.hash list] (back.led []) :=
  reads_program_of_pairs (arePairs back (closesLine_of_end isEnd)) isEnd

theorem array
    (arePairs : Token.ArePairs given list) (isOpener : opener.kind = .mark .leftBracket)
    (isCloser : closer.kind = .mark .rightBracket) (isEnd : back.ahead = []) :
    Reads (.statements false) (back.led (opener :: (given ++ [closer]))) [.array [.hash list]]
      (back.led []) := by
  have isArray : Reads (.primary false) (back.led (opener :: (given ++ [closer])))
      (.array [.hash list]) (back.led []) :=
    .array (accepts_cons isOpener (by simp)) (arePairs.enclosed isCloser (by decide) back)
  exact reads_program_of_primary isArray isEnd isOpener (by simp) (by simp)
    (symbolKey?_cons_of_kind isOpener (by simp) (by simp))

/-- With nothing behind them the parentheses hold the arguments, also behind a blank. -/
theorem call
    (arePairs : Token.ArePairs given list) (isWord : word.kind = .identifier name)
    (isOpener : opener.kind = .mark .leftParen) (isCloser : closer.kind = .mark .rightParen)
    (isEnd : back.ahead = []) :
    Reads (.statements false) (back.led (word :: opener :: (given ++ [closer])))
      [.call name [.hash list] none] (back.led []) := by
  have opens : (back.led (opener :: (given ++ [closer]))).Accepts (.mark .leftParen)
      (back.led (given ++ [closer])) := accepts_cons isOpener (by simp)
  have inside := arePairs.enclosed isCloser (by decide) back
  have whole : (back.led (opener :: (given ++ [closer]))).continuesBehindParens = false := by
    rcases inside.spans with ⟨closing, inner, closes⟩
    rcases behindParens?_of_parens opens inner closes with ⟨passed, isPassed, -, pass⟩
    have found : behindParens? 0 (back.led (opener :: (given ++ [closer]))).ahead = some [] := by
      rw [isPassed, pass, if_pos rfl, led, List.nil_append, isEnd]
    rw [continuesBehindParens_eq found]
    rfl
  have areArguments : Reads .arguments (back.led (opener :: (given ++ [closer]))) [.hash list]
      (back.led []) := by
    refine .parenthesized opens ?_ inside
    rw [whole, Bool.and_false]
  have unnamed : (back.led (word :: opener :: (given ++ [closer]))).symbolKey? = none :=
    symbolKey?_eq_none_of_second isOpener (by simp)
  have noMethod : (back.led (opener :: (given ++ [closer]))).peek.kind ≠ .mark .arrow := by
    intro isArrow
    cases isOpener.symm.trans isArrow
  exact reads_program_of_call areArguments isEnd isWord unnamed noMethod

end Token.ArePairs

/-- The tokens are this hash as a statement, as an element and as an argument. -/
structure Token.SpellHash (given : List Token) (list : List (Pair Node)) : Prop where
  statement : parseTokens given = .ok [.hash list]
  element : ∀ opener closer, opener.kind = .mark .leftBracket → closer.kind = .mark .rightBracket →
    parseTokens (opener :: (given ++ [closer])) = .ok [.array [.hash list]]
  argument : ∀ name word opener closer, word.kind = .identifier name →
    opener.kind = .mark .leftParen → closer.kind = .mark .rightParen →
      parseTokens (word :: opener :: (given ++ [closer])) = .ok [.call name [.hash list] none]

theorem Token.ArePairs.spellHash
    (arePairs : Token.ArePairs (Token.significant given) list)
    (inLine : ∀ token ∈ given, token.kind.isLayout = false) : Token.SpellHash given list := by
  have none : Token.ArePlain [] := List.forall_mem_nil _
  refine ⟨?_, ?_, ?_⟩
  · have parsed : parseTokens ([] ++ (given ++ []) ++ []) = .ok [.hash list] := by
      apply parseTokens_of_line none none inLine rfl
      intro back isEnd
      rw [List.nil_append, List.append_nil]
      exact arePairs.program isEnd
    simpa using parsed
  · intro opener closer isOpener isCloser
    have parsed : parseTokens ([opener] ++ (given ++ [closer]) ++ []) =
        .ok [.array [.hash list]] := by
      apply parseTokens_of_line (none.cons isOpener rfl rfl) (none.cons isCloser rfl rfl) inLine rfl
      intro back isEnd
      exact arePairs.array isOpener isCloser isEnd
    simpa using parsed
  · intro name word opener closer isWord isOpener isCloser
    have parsed : parseTokens ([word, opener] ++ (given ++ [closer]) ++ []) =
        .ok [.call name [.hash list] Option.none] := by
      apply parseTokens_of_line (.cons isWord rfl rfl (none.cons isOpener rfl rfl))
        (none.cons isCloser rfl rfl) inLine rfl
      intro back isEnd
      exact arePairs.call isWord isOpener isCloser isEnd
    simpa using parsed

/-- As a word with its colon and as a symbol with a colon behind it, the token is the same key of
every value, and nothing else changes. -/
def Token.SpellsKey (word : Token) : Prop :=
  ∀ (inCommand flag : Bool) (colon sign again separator : Token) (rest : List Token)
    (ending : Ending), colon.kind = .mark .colon → sign.kind = .mark .colon →
      again.kind = word.kind → again.spaced = false → separator.kind = .mark .colon →
        (Cursor.mk rest ending false).peek.spaced = true →
          (entry inCommand ⟨word :: colon :: rest, ending, flag⟩).result =
            (entry inCommand ⟨sign :: again :: separator :: rest, ending, flag⟩).result

theorem Token.spellsKey_of_symbolName?
    {word : Token} (isWord : word.kind.isWord = true)
    (named : word.kind.symbolName? = some word.lexeme) : Token.SpellsKey word := by
  intro inCommand flag colon sign again separator rest ending isColon isSign same hugs isSeparator
    spaced
  have names : (Cursor.mk (word :: colon :: rest) ending flag).NamesKey word.lexeme
      ⟨rest, ending, false⟩ := by
    refine ⟨word, ⟨colon :: rest, ending, false⟩, takes_cons ?_,
      Kind.name_or_keyword_of_isWord isWord, accepts_cons isColon (by simp), spaced, rfl⟩
    intro isDedent
    rw [isDedent] at isWord
    cases isWord
  have unnamed : (Cursor.mk (sign :: again :: separator :: rest) ending flag).symbolKey? = none :=
    symbolKey?_eq_none_of_peek (by simp [Cursor.peek, Cursor.peekAt, isSign])
      (by simp [Cursor.peek, Cursor.peekAt, isSign])
  have separates : (Cursor.mk (separator :: rest) ending false).Separates ⟨rest, ending, false⟩ :=
    ⟨rfl, accepts_cons isSeparator (by simp), spaced⟩
  have isKey : Reads (.binary inCommand Binding.loosest)
      ⟨sign :: again :: separator :: rest, ending, flag⟩ (.symbol (.text word.lexeme))
      ⟨separator :: rest, ending, false⟩ := reads_symbol_key isSign hugs (same ▸ named) isSeparator
  rw [result_entry_of_namesKey names, result_entry_of_separates unnamed isKey separates]

/-- Pairs between braces are the same hash as a statement, as an element and as an argument, if
there are any, and a word of a text is the same key with its colon and as a symbol. -/
theorem hash_spellings :
    (∀ (given : List Token) (list : List (Pair Node)) (opener closer : Token),
      opener.kind = .mark .leftBrace → closer.kind = .mark .rightBrace →
        (∀ token ∈ given, token.kind.isLayout = false) →
          Nested (only isBrace (given.map Token.kind)) → Token.significant given ≠ [] →
            parseTokens (opener :: (given ++ [closer])) = .ok [.hash list] →
              Token.SpellHash given list) ∧
    ∀ (source : String) (file : Option String) (word : Token),
      .ok word ∈ rawItems source file → word.kind.isWord = true → Token.SpellsKey word := by
  constructor
  · intro given list opener closer isOpener isCloser inLine balanced some parsed
    exact (arePairs_of_braces isOpener isCloser inLine balanced some parsed).spellHash inLine
  · intro source file word isItem isWord
    have sound := Scanner.sound_start source.toList
    exact Token.spellsKey_of_symbolName? isWord (sound.symbolName?_of_item isItem isWord)

/-- Two pairs, the key of one of which is a string, and a reserved word that is a key. -/
theorem hash_spellings_mixed :
    ∃ (given : List Token) (word : Token),
      given.map Token.kind = [.identifier "a", .mark .colon, .integer 1, .mark .comma,
        .fragment "b", .whitespace, .mark .colon, .mark .leftBrace, .mark .rightBrace] ∧
      word.kind = .keyword .classWord ∧
      Token.SpellHash given [⟨.symbol (.text "a"), .integer 1⟩, ⟨.text "b", .hash []⟩] ∧
      Token.SpellsKey word := by
  let token (kind : Kind) (lexeme : String) (spaced : Bool) : Token :=
    ⟨kind, lexeme, ⟨1, 1, none⟩, spaced⟩
  let given := [token (.identifier "a") "a" false, token (.mark .colon) ":" false,
    token (.integer 1) "1" true, token (.mark .comma) "," false, token (.fragment "b") "b" true,
    token .whitespace " " false, token (.mark .colon) ":" true,
    token (.mark .leftBrace) "\x7b" true, token (.mark .rightBrace) "\x7d" false]
  let opener := token (.mark .leftBrace) "\x7b" false
  let closer := token (.mark .rightBrace) "\x7d" false
  let word := token (.keyword .classWord) "class" false
  have parsed : parseTokens (opener :: (given ++ [closer])) =
      .ok [.hash [⟨.symbol (.text "a"), .integer 1⟩, ⟨.text "b", .hash []⟩]] := by
    with_unfolding_all rfl
  have items : rawItems "class" none =
      [.ok word, .ok ⟨.endOfInput, "", ⟨1, 6, none⟩, false⟩] := by
    with_unfolding_all rfl
  refine ⟨given, word, rfl, rfl, ?_, ?_⟩
  · exact hash_spellings.1 given _ opener closer rfl rfl (by decide) (by decide) (by decide) parsed
  · refine hash_spellings.2 "class" none word ?_ rfl
    rw [items]
    exact List.mem_cons_self

/-- A blank between braces makes them an empty hash, which nothing else spells. -/
theorem blank_spells_no_hash :
    ∃ opener blank closer : Token, opener.kind = .mark .leftBrace ∧ blank.kind = .whitespace ∧
      closer.kind = .mark .rightBrace ∧
      Nested (only isBrace ([blank].map Token.kind)) ∧
      parseTokens (opener :: ([blank] ++ [closer])) = .ok [.hash []] ∧
      parseTokens [blank] = .ok [] ∧ ¬Token.SpellHash [blank] [] := by
  let token (kind : Kind) : Token := ⟨kind, "", ⟨1, 1, none⟩, false⟩
  have bare : parseTokens [token .whitespace] = .ok [] := by
    with_unfolding_all rfl
  refine ⟨token (.mark .leftBrace), token .whitespace, token (.mark .rightBrace), rfl, rfl, rfl,
    by decide, by with_unfolding_all rfl, bare, ?_⟩
  intro spelled
  cases bare.symm.trans spelled.statement

end Parsing

end ScriptFront
