import ScriptFront.Proofs.Token.Count

/-!
# A reader with marks

A reader holds the text that is ahead.  It can also be kept field by field: the whole text, a mark
where the current token starts and another one where reading has come to, the lines and columns of
both, the stack of modes, and what is known of the last token.  A text is then read one character
after the other, and a step that fails may leave the marks anywhere.  Such a reader gives out the
same items, for every field is set anew when it is sent back to the start.
-/

namespace ScriptFront

namespace Reader

variable {reader : Reader}

/-- An item that is given out was the first one left. -/
theorem remaining_of_next {item : Item} (given : reader.next.1 = some item) :
    reader.remaining = item :: reader.next.2.remaining := by
  obtain ⟨isHead, isTail⟩ := reader.next_eq
  rw [given] at isHead
  obtain ⟨others, isRemaining⟩ := List.head?_eq_some_iff.1 isHead.symm
  rw [isTail, isRemaining, List.tail_cons]

/-- Where no token is given out, nothing is left behind. -/
theorem next_snd_of_no_token (noToken : ∀ token, reader.next.1 ≠ some (.ok token)) :
    reader.next.2 = reader.finish := by
  rcases reader with ⟨source, file, _ | scanner⟩
  · rfl
  · cases found : scanner.next file with
    | error fault => simp only [next, found]
    | ok item =>
        refine absurd ?_ (noToken item.1)
        simp only [next, found]
        split <;> rfl

end Reader

/-- A text with the marks that its reader keeps. -/
structure MarkedReader where
  source : List Char
  /-- Where the current token starts. -/
  start : Nat
  /-- Where the next character stands. -/
  current : Nat
  line : Nat
  column : Nat
  startLine : Nat
  startColumn : Nat
  file : Option String
  modes : ModeStack
  /-- The last token was whitespace or a comment. -/
  spaced : Bool
  /-- The last item has been given out. -/
  finished : Bool
deriving DecidableEq, Repr

namespace MarkedReader

def ofSource (source : String) (file : Option String) : MarkedReader :=
  ⟨source.toList, 0, 0, 1, 1, 1, 1, file, .initial, false, false⟩

/-- The reader at the start of its text. -/
def restart (reader : MarkedReader) : MarkedReader :=
  { reader with
    start := 0, current := 0, line := 1, column := 1, startLine := 1, startColumn := 1,
    modes := .initial, spaced := false, finished := false }

/-! ## Characters -/

/-- The text that is not read yet. -/
def ahead (reader : MarkedReader) : List Char := reader.source.drop reader.current

/-- The text between the marks. -/
def lexeme (reader : MarkedReader) : List Char :=
  (reader.source.drop reader.start).take (reader.current - reader.start)

/-- The current token starts at the next character. -/
def begin (reader : MarkedReader) : MarkedReader :=
  { reader with start := reader.current, startLine := reader.line, startColumn := reader.column }

/-- The reader behind the next character, if there is one. -/
def advance (reader : MarkedReader) : MarkedReader :=
  match reader.source[reader.current]? with
  | none => reader
  | some mark =>
    if mark = '\n' then
      { reader with current := reader.current + 1, line := reader.line + 1, column := 1 }
    else { reader with current := reader.current + 1, column := reader.column + 1 }

def advanceBy (reader : MarkedReader) : Nat → MarkedReader
  | 0 => reader
  | count + 1 => reader.advance.advanceBy count

def position (reader : MarkedReader) : Position := ⟨reader.line, reader.column⟩

/-- The place that is reached, without the marks. -/
def scanner (reader : MarkedReader) : Scanner :=
  ⟨reader.ahead, reader.position, reader.modes, reader.spaced⟩

variable {reader : MarkedReader}

theorem advance_of_ahead {mark : Char} {rest : List Char} (isAhead : reader.ahead = mark :: rest) :
    reader.advance =
      { reader with
        current := reader.current + 1, line := (reader.position.step mark).line,
        column := (reader.position.step mark).column } := by
  have isNext : reader.source[reader.current]? = some mark := by
    rw [← List.head?_drop]
    exact congrArg List.head? isAhead
  simp only [advance, isNext, Position.step]
  split <;> rfl

/-- Characters that are ahead are passed one by one. -/
theorem advanceBy_of_ahead
    {text rest : List Char} (isAhead : reader.ahead = text ++ rest) :
    reader.advanceBy text.length =
      { reader with
        current := reader.current + text.length, line := (reader.position.after text).line,
        column := (reader.position.after text).column } := by
  induction text generalizing reader with
  | nil => rfl
  | cons mark text inductionHypothesis =>
      have isBehind : reader.advance.ahead = text ++ rest := by
        rw [advance_of_ahead isAhead, ahead, ← List.drop_drop]
        exact congrArg (List.drop 1) isAhead
      rw [List.length_cons, advanceBy, inductionHypothesis isBehind, advance_of_ahead isAhead]
      simp only [position, Position.after_cons, Nat.add_assoc, Nat.add_comm 1]

/-- What no step changes. -/
structure Keeps (reader behind : MarkedReader) : Prop where
  source : behind.source = reader.source
  file : behind.file = reader.file
  finished : behind.finished = reader.finished

theorem Keeps.trans {middle last : MarkedReader} (first : reader.Keeps middle)
    (second : middle.Keeps last) : reader.Keeps last where
  source := second.source.trans first.source
  file := second.file.trans first.file
  finished := second.finished.trans first.finished

theorem keeps_advanceBy (reader : MarkedReader) (count : Nat) :
    reader.Keeps (reader.advanceBy count) := by
  induction count generalizing reader with
  | zero => exact ⟨rfl, rfl, rfl⟩
  | succ count inductionHypothesis =>
      have once : reader.Keeps reader.advance := by
        unfold advance
        split
        · exact ⟨rfl, rfl, rfl⟩
        · split <;> exact ⟨rfl, rfl, rfl⟩
      exact once.trans (inductionHypothesis reader.advance)

/-! ## Steps -/

/-- The reader behind a run of characters, where other rules may apply; its marks stand around
them. -/
def pass (reader : MarkedReader) (text : List Char) (modes : ModeStack) : MarkedReader :=
  { reader.begin.advanceBy text.length with modes }

/-- The token between the marks. -/
def token (reader : MarkedReader) (kind : Kind) : Token :=
  ⟨kind, String.ofList reader.lexeme, ⟨reader.startLine, reader.startColumn, reader.file⟩,
    reader.spaced⟩

section Pass

variable {text rest : List Char} (isAhead : reader.ahead = text ++ rest) (modes : ModeStack)

include isAhead

theorem pass_eq :
    reader.pass text modes =
      { reader.begin with
        current := reader.current + text.length, line := (reader.position.after text).line,
        column := (reader.position.after text).column, modes := modes } := by
  have isBegun : reader.begin.ahead = text ++ rest := isAhead
  rw [pass, advanceBy_of_ahead isBegun]
  rfl

theorem scanner_pass :
    (reader.pass text modes).scanner = ⟨rest, reader.position.after text, modes, reader.spaced⟩ := by
  have isBehind : reader.source.drop (reader.current + text.length) = rest := by
    rw [← List.drop_drop]
    exact (congrArg (List.drop text.length) isAhead).trans List.drop_left
  rw [pass_eq isAhead, scanner, ahead]
  simp only [begin, isBehind]
  rfl

theorem token_pass (kind : Kind) :
    (reader.pass text modes).token kind =
      ⟨kind, String.ofList text, reader.position.inFile reader.file, reader.spaced⟩ := by
  have isText : (reader.source.drop reader.current).take text.length = text :=
    (congrArg (List.take text.length) isAhead).trans List.take_left
  rw [pass_eq isAhead, token, lexeme]
  simp only [begin, Nat.add_sub_cancel_left, isText]
  rfl

end Pass

variable (reach : LexicalCause → List Char → Nat)

theorem ahead_of_quote
    {mark : Char} {rest : List Char} {modes : ModeStack}
    (step : reader.modes.move reader.ahead = .quote mark rest modes) :
    reader.ahead = [mark] ++ rest := by
  have covered := ModeStack.move_covers reader.modes reader.ahead
  rw [step] at covered
  exact covered.symm

theorem size_pass_quote_lt
    {mark : Char} {rest : List Char} {modes : ModeStack}
    (step : reader.modes.move reader.ahead = .quote mark rest modes) :
    (reader.pass [mark] modes).scanner.size < reader.scanner.size := by
  have place : reader.scanner.modes.move reader.scanner.rest = .quote mark rest modes := step
  rw [scanner_pass (ahead_of_quote step)]
  exact Scanner.size_afterQuote_lt place

/-- Reads until there is a token or a fault.  A step that is refused has passed as many characters
as `reach` tells. -/
def scan (reader : MarkedReader) : Item × MarkedReader :=
  match step : reader.modes.move reader.ahead with
  | .token lexeme modes =>
    let passed := reader.pass lexeme.text modes
    let token := passed.token lexeme.kind
    (.ok token, { passed with spaced := token.isTrivia })
  | .quote mark _ modes =>
    have := size_pass_quote_lt step
    scan (reader.pass [mark] modes)
  | .refused cause =>
    let begun := reader.begin
    (.error (cause.fault ⟨begun.startLine, begun.startColumn, begun.file⟩),
      begun.advanceBy (reach cause reader.ahead))
termination_by reader.scanner.size

theorem scan_of_token
    {lexeme : Lexeme} {modes : ModeStack}
    (step : reader.modes.move reader.ahead = .token lexeme modes) :
    reader.scan reach =
      (.ok ((reader.pass lexeme.text modes).token lexeme.kind),
        { reader.pass lexeme.text modes with spaced := lexeme.kind.isTrivia }) := by
  rw [scan]
  split <;> simp_all [token, Token.isTrivia]

theorem scan_of_quote
    {mark : Char} {rest : List Char} {modes : ModeStack}
    (step : reader.modes.move reader.ahead = .quote mark rest modes) :
    reader.scan reach = (reader.pass [mark] modes).scan reach := by
  rw [scan]
  split <;> simp_all

theorem scan_of_refused
    {cause : LexicalCause} (step : reader.modes.move reader.ahead = .refused cause) :
    reader.scan reach =
      (.error (cause.fault (reader.position.inFile reader.file)),
        reader.begin.advanceBy (reach cause reader.ahead)) := by
  rw [scan]
  split
  · simp_all
  · simp_all
  · simp_all
    rfl

theorem keeps_pass (reader : MarkedReader) (text : List Char) (modes : ModeStack) :
    reader.Keeps (reader.pass text modes) :=
  have advanced := keeps_advanceBy reader.begin text.length
  ⟨advanced.source, advanced.file, advanced.finished⟩

theorem keeps_scan (reader : MarkedReader) : reader.Keeps (reader.scan reach).2 := by
  induction reader using scan.induct with
  | case1 reader lexeme modes step =>
      rw [scan_of_token reach step]
      have passed := keeps_pass reader lexeme.text modes
      exact ⟨passed.source, passed.file, passed.finished⟩
  | case2 reader mark rest modes step shorter inductionHypothesis =>
      rw [scan_of_quote reach step]
      exact (keeps_pass reader [mark] modes).trans inductionHypothesis
  | case3 reader cause step =>
      rw [scan_of_refused reach step]
      have advanced := keeps_advanceBy reader.begin (reach cause reader.ahead)
      exact ⟨advanced.source, advanced.file, advanced.finished⟩

/-- What is read, and the place behind it, are those that reading without marks gives. -/
theorem scan_eq_next (reader : MarkedReader) :
    (reader.scan reach).1.map (fun token => (token, (reader.scan reach).2.scanner)) =
      reader.scanner.next reader.file := by
  induction reader using scan.induct with
  | case1 reader lexeme modes step =>
      have place : reader.scanner.modes.move reader.scanner.rest = .token lexeme modes := step
      have covered := ModeStack.move_covers reader.modes reader.ahead
      rw [step] at covered
      have isAhead : reader.ahead = lexeme.text ++ lexeme.rest := covered.symm
      have isBehind : (reader.pass lexeme.text modes).scanner =
          ⟨lexeme.rest, reader.position.after lexeme.text, modes, reader.spaced⟩ :=
        scanner_pass isAhead modes
      have isAfter : MarkedReader.scanner
          { reader.pass lexeme.text modes with spaced := lexeme.kind.isTrivia } =
            reader.scanner.afterToken lexeme modes :=
        congrArg (fun place => { place with spaced := lexeme.kind.isTrivia }) isBehind
      rw [scan_of_token reach step, token_pass isAhead, Scanner.next_of_token place]
      dsimp only [Except.map]
      rw [isAfter]
      rfl
  | case2 reader mark rest modes step shorter inductionHypothesis =>
      have place : reader.scanner.modes.move reader.scanner.rest = .quote mark rest modes := step
      have sameFile : (reader.pass [mark] modes).file = reader.file :=
        (keeps_pass reader [mark] modes).file
      rw [scan_of_quote reach step, inductionHypothesis, scanner_pass (ahead_of_quote step),
        sameFile, Scanner.next_of_quote place]
      rfl
  | case3 reader cause step =>
      have place : reader.scanner.modes.move reader.scanner.rest = .refused cause := step
      rw [scan_of_refused reach step, Scanner.next_of_refused place]
      rfl

/-! ## Items -/

/-- The next item, if there is one left, and the reader behind it. -/
def next (reader : MarkedReader) : Option Item × MarkedReader :=
  if reader.finished then (none, reader)
  else
    let (item, behind) := reader.scan reach
    (some item, if item.isLast then { behind with finished := true } else behind)

/-- The reader of the text ahead that stands at the same place. -/
def unmarked (reader : MarkedReader) : Reader :=
  ⟨reader.source, reader.file, if reader.finished then none else some reader.scanner⟩

theorem unmarked_ofSource (source : String) (file : Option String) :
    (ofSource source file).unmarked = Reader.ofSource source file := rfl

theorem unmarked_restart (reader : MarkedReader) :
    reader.restart.unmarked = reader.unmarked.restart := rfl

/-- Both give the same item and stand at the same place behind it. -/
theorem next_unmarked (reader : MarkedReader) :
    (reader.next reach).1 = reader.unmarked.next.1 ∧
      (reader.next reach).2.unmarked = reader.unmarked.next.2 := by
  by_cases finished : reader.finished = true
  · have isNext : reader.next reach = (none, reader) := if_pos finished
    have isUnmarked : reader.unmarked = ⟨reader.source, reader.file, none⟩ := by
      rw [unmarked, if_pos finished]
    rw [isNext, isUnmarked]
    exact ⟨rfl, rfl⟩
  · obtain ⟨sameSource, sameFile, sameFinished⟩ := keeps_scan reach reader
    have isNext : reader.next reach = (some (reader.scan reach).1,
        if (reader.scan reach).1.isLast then { (reader.scan reach).2 with finished := true }
        else (reader.scan reach).2) := if_neg finished
    have isUnmarked : reader.unmarked = ⟨reader.source, reader.file, some reader.scanner⟩ := by
      rw [unmarked, if_neg finished]
    have agrees := scan_eq_next reach reader
    rw [isNext, isUnmarked, Reader.next]
    dsimp only
    rw [← agrees]
    rcases isScan : reader.scan reach with ⟨item, behind⟩
    rw [isScan] at sameSource sameFile sameFinished
    dsimp only at sameSource sameFile sameFinished ⊢
    cases item with
    | error fault =>
        simp only [Except.map, Item.isLast, unmarked, Reader.finish, if_true, sameSource, sameFile]
        exact ⟨trivial, trivial⟩
    | ok token =>
        by_cases ended : token.kind = .endOfInput
        · simp [Except.map, Item.isLast, unmarked, Reader.finish, ended, sameSource, sameFile]
        · simp [Except.map, Item.isLast, unmarked, ended, sameSource, sameFile, sameFinished,
            finished]

/-! ## All tokens that are left -/

variable {behind : MarkedReader}

/-- An item that is given out was the first one left. -/
theorem remaining_of_next {item : Item} (given : reader.next reach = (some item, behind)) :
    reader.unmarked.remaining = item :: behind.unmarked.remaining := by
  obtain ⟨sameItem, sameReader⟩ := next_unmarked reach reader
  rw [given] at sameItem sameReader
  rw [Reader.remaining_of_next sameItem.symm, sameReader]

theorem length_remaining_lt {item : Item} (given : reader.next reach = (some item, behind)) :
    behind.unmarked.remaining.length < reader.unmarked.remaining.length := by
  rw [remaining_of_next reach given, List.length_cons]
  exact Nat.lt_succ_self _

/-- Asks for one item after the other and gathers the tokens that carry meaning, up to the last
item or to the first fault. -/
def gather (reader : MarkedReader) (gathered : List Token) :
    Except Fault (List Token) × MarkedReader :=
  match given : reader.next reach with
  | (none, behind) => (.ok gathered, behind)
  | (some (.error fault), behind) => (.error fault, behind)
  | (some (.ok token), behind) =>
    have := length_remaining_lt reach given
    gather behind (gathered ++ Token.significant [token])
termination_by reader.unmarked.remaining.length

/-- The tokens with a meaning that are left or the fault ahead, and the reader behind them. -/
def tokens (reader : MarkedReader) : Except Fault (List Token) × MarkedReader :=
  reader.gather reach []

theorem gather_of_none (given : reader.next reach = (none, behind)) (gathered : List Token) :
    reader.gather reach gathered = (.ok gathered, behind) := by
  rw [gather]
  split <;> simp_all

theorem gather_of_error
    {fault : Fault} (given : reader.next reach = (some (.error fault), behind))
    (gathered : List Token) : reader.gather reach gathered = (.error fault, behind) := by
  rw [gather]
  split <;> simp_all

theorem gather_of_ok
    {token : Token} (given : reader.next reach = (some (.ok token), behind))
    (gathered : List Token) :
    reader.gather reach gathered =
      behind.gather reach (gathered ++ Token.significant [token]) := by
  rw [gather]
  split <;> simp_all

/-- Asking for one item after the other comes to the tokens that are left, and to the end. -/
theorem gather_unmarked (reader : MarkedReader) (gathered : List Token) :
    (reader.gather reach gathered).1 =
        (significantTokens reader.unmarked.remaining).map (gathered ++ ·) ∧
      (reader.gather reach gathered).2.unmarked = reader.unmarked.finish := by
  induction reader, gathered using gather.induct reach with
  | case1 reader gathered behind given =>
      obtain ⟨sameItem, sameReader⟩ := next_unmarked reach reader
      rw [given] at sameItem sameReader
      have ended : reader.unmarked.remaining = [] := by
        rw [← List.head?_eq_none_iff, ← (reader.unmarked.next_eq).1, ← sameItem]
      have isEnd : reader.unmarked.next.2 = reader.unmarked.finish := by
        apply Reader.next_snd_of_no_token
        intro token isToken
        cases sameItem.trans isToken
      rw [gather_of_none reach given, ended]
      refine ⟨?_, sameReader.trans isEnd⟩
      exact congrArg Except.ok (List.append_nil gathered).symm
  | case2 reader gathered fault behind given =>
      obtain ⟨sameItem, sameReader⟩ := next_unmarked reach reader
      rw [given] at sameItem sameReader
      have isEnd : reader.unmarked.next.2 = reader.unmarked.finish := by
        apply Reader.next_snd_of_no_token
        intro token isToken
        cases sameItem.trans isToken
      rw [gather_of_error reach given, remaining_of_next reach given, significantTokens_cons_error]
      exact ⟨rfl, sameReader.trans isEnd⟩
  | case3 reader gathered token behind given shorter inductionHypothesis =>
      obtain ⟨-, sameReader⟩ := next_unmarked reach reader
      rw [given] at sameReader
      obtain ⟨sameTokens, isEnd⟩ := inductionHypothesis
      rw [gather_of_ok reach given, remaining_of_next reach given, significantTokens_cons_ok]
      constructor
      · rw [sameTokens]
        cases significantTokens behind.unmarked.remaining with
        | error fault => rfl
        | ok tokens => exact congrArg Except.ok (List.append_assoc _ _ _)
      · rw [isEnd, sameReader, Reader.finish_next]

theorem tokens_unmarked (reader : MarkedReader) :
    (reader.tokens reach).1 = reader.unmarked.tokens.1 ∧
      (reader.tokens reach).2.unmarked = reader.unmarked.tokens.2 := by
  obtain ⟨sameTokens, isEnd⟩ := gather_unmarked reach reader []
  refine ⟨?_, isEnd⟩
  rw [tokens, sameTokens, Reader.tokens]
  cases significantTokens reader.unmarked.remaining with
  | error fault => rfl
  | ok tokens => rfl

end MarkedReader

end ScriptFront
