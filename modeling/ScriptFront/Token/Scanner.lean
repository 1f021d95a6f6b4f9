import ScriptFront.Token.Progress

/-!
Reading a text token by token. A scanner holds the text ahead, the place it has reached, the stack
of modes, and whether the last token was whitespace or a comment. Its items are the tokens up to
and including the end of input, or up to the fault that ends them early.
-/

namespace ScriptFront

/-- A place in a text that is being read. -/
structure Scanner where
  rest : List Char
  position : Position
  modes : ModeStack
  /-- The last token was whitespace or a comment. -/
  spaced : Bool
deriving DecidableEq, Repr

/-- A token, or the fault that stands where a token should. -/
abbrev Item := Except Fault Token

/-- Whether nothing is read behind the item. -/
def Item.isLast : Item → Bool
  | .ok token => token.kind = .endOfInput
  | .error _ => true

namespace Scanner

/-- The scanner before the first character of a text. -/
def start (text : List Char) : Scanner := ⟨text, .start, .initial, false⟩

/-- A bound on the number of items ahead. -/
def size (scanner : Scanner) : Nat := 2 * scanner.rest.length + scanner.modes.pending

/-- The scanner behind a quote. -/
def afterQuote (scanner : Scanner) (mark : Char) (rest : List Char) (modes : ModeStack) : Scanner :=
  { scanner with rest, position := scanner.position.step mark, modes }

/-- The scanner behind a token. -/
def afterToken (scanner : Scanner) (lexeme : Lexeme) (modes : ModeStack) : Scanner :=
  ⟨lexeme.rest, scanner.position.after lexeme.text, modes, lexeme.kind.isTrivia⟩

/-- The token that starts at the place of the scanner. -/
def token (file : Option String) (scanner : Scanner) (lexeme : Lexeme) : Token :=
  ⟨lexeme.kind, String.ofList lexeme.text, scanner.position.inFile file, scanner.spaced⟩

theorem size_afterQuote_lt {scanner : Scanner} {mark : Char} {rest : List Char}
    {modes : ModeStack} (step : scanner.modes.move scanner.rest = .quote mark rest modes) :
    (scanner.afterQuote mark rest modes).size < scanner.size := by
  have shorter := ModeStack.length_lt_of_quote step
  have bound := ModeStack.pending_le_one modes
  simp only [size, afterQuote]
  omega

/-- The next item, and the scanner behind it if it is a token; quotes before it are passed. -/
def next (file : Option String) (scanner : Scanner) : Except Fault (Token × Scanner) :=
  match step : scanner.modes.move scanner.rest with
  | .token lexeme modes => .ok (scanner.token file lexeme, scanner.afterToken lexeme modes)
  | .quote mark rest modes =>
    have := size_afterQuote_lt step
    next file (scanner.afterQuote mark rest modes)
  | .refused cause => .error (cause.fault (scanner.position.inFile file))
termination_by scanner.size

variable {file : Option String} {scanner after : Scanner}

theorem next_of_token {lexeme : Lexeme} {modes : ModeStack}
    (step : scanner.modes.move scanner.rest = .token lexeme modes) :
    scanner.next file = .ok (scanner.token file lexeme, scanner.afterToken lexeme modes) := by
  rw [next]
  split <;> simp_all

theorem next_of_quote {mark : Char} {rest : List Char} {modes : ModeStack}
    (step : scanner.modes.move scanner.rest = .quote mark rest modes) :
    scanner.next file = (scanner.afterQuote mark rest modes).next file := by
  rw [next]
  split <;> simp_all

theorem next_of_refused {cause : LexicalCause}
    (step : scanner.modes.move scanner.rest = .refused cause) :
    scanner.next file = .error (cause.fault (scanner.position.inFile file)) := by
  rw [next]
  split <;> simp_all

/-- Behind a token less is to be read, until the input ends. -/
theorem size_lt_of_next {token : Token} (item : scanner.next file = .ok (token, after))
    (more : token.kind ≠ .endOfInput) : after.size < scanner.size := by
  induction scanner using next.induct with
  | case1 scanner lexeme modes step =>
    rw [next_of_token step] at item
    obtain ⟨rfl, rfl⟩ := Prod.mk.inj (Except.ok.inj item)
    exact ModeStack.pending_lt_of_token step more
  | case2 scanner mark rest modes step shorter inductionHypothesis =>
    rw [next_of_quote step] at item
    exact Nat.lt_trans (inductionHypothesis item) shorter
  | case3 scanner cause step =>
    rw [next_of_refused step] at item
    simp at item

/-- The items ahead. -/
def items (file : Option String) (scanner : Scanner) : List Item :=
  match found : scanner.next file with
  | .error fault => [.error fault]
  | .ok (token, after) =>
    if more : token.kind ≠ .endOfInput then
      have := size_lt_of_next found more
      .ok token :: items file after
    else [.ok token]
termination_by scanner.size

theorem items_of_error {fault : Fault} (found : scanner.next file = .error fault) :
    scanner.items file = [.error fault] := by
  rw [items]
  split <;> simp_all

theorem items_of_end {token : Token} (found : scanner.next file = .ok (token, after))
    (ended : token.kind = .endOfInput) : scanner.items file = [.ok token] := by
  rw [items]
  split
  · simp_all
  · rename_i found'
    obtain ⟨rfl, rfl⟩ := Prod.mk.inj (Except.ok.inj (found.symm.trans found'))
    simp [ended]

theorem items_of_more {token : Token} (found : scanner.next file = .ok (token, after))
    (more : token.kind ≠ .endOfInput) :
    scanner.items file = .ok token :: after.items file := by
  rw [items]
  split
  · simp_all
  · rename_i found'
    obtain ⟨rfl, rfl⟩ := Prod.mk.inj (Except.ok.inj (found.symm.trans found'))
    simp [more]

end Scanner

end ScriptFront
