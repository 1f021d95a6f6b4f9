import ScriptFront.Proofs.Token.Lines
import ScriptFront.Proofs.Token.Turns

/-!
# The shape of the stack

Wherever reading comes to, the frames lie on one another as the text opened them, and what is ahead
fits the frame on top.  Nothing is ever read past the end of a text, and a text that cannot be read
has a fault with a place.
-/

namespace ScriptFront

namespace ModeStack

variable {modes after : ModeStack} {input : List Char}

/-! ## The frame below -/

theorem Sound.mode_pop (sound : modes.Sound input) (notCode : modes.mode ≠ .code) :
    modes.pop.2.mode = .code := by
  rcases modes with ⟨top, _ | ⟨lower, others⟩⟩
  · exact sound.layered.1
  · have liesOn := sound.layered.1
    unfold Frame.LiesOn at liesOn
    split at liesOn
    · rename_i isCode
      exact absurd isCode notCode
    · exact liesOn.2

/-- Below an inserted expression the string goes on. -/
theorem Sound.string_pop
    (sound : modes.Sound input) (isCode : modes.mode = .code)
    (inserted : modes.top.interpolating = true) :
    modes.pop.2.mode = .richString ∧ modes.pop.2.top.segmentOpen = true := by
  rcases modes with ⟨top, _ | ⟨lower, others⟩⟩
  · have alone := sound.layered.2.1
    cases alone.symm.trans inserted
  · have liesOn := sound.layered.1
    have topMode : top.mode = .code := isCode
    simp only [Frame.LiesOn, topMode] at liesOn
    exact liesOn.2

/-! ## Pieces of strings -/

/-- Where a piece of a string is to be read, the next token is that piece. -/
theorem Turns.isFragment_of_open
    {kind : Kind} (turns : modes.Turns input kind after) (inString : modes.mode.isString = true)
    (isOpen : modes.top.segmentOpen = true) : kind.isFragment = true := by
  have notCode := Mode.ne_code_of_isString inString
  cases turns with
  | plain isCode | braceOpens isCode | braceCloses isCode | strayBrace isCode
  | insertionEnds isCode | commentStarts isCode => exact absurd isCode notCode
  | insertionStarts _ isRead => cases isRead.symm.trans isOpen
  | piece => rfl
  | commentEnds isComment =>
      rw [isComment] at inString
      cases inString

/-- Only a piece of a string leaves a string whose piece has been read. -/
theorem Sound.isFragment_of_read
    {kind : Kind} (sound : modes.Sound input) (turns : modes.Turns input kind after)
    (inString : after.mode.isString = true) (isRead : after.top.segmentOpen = false) :
    kind.isFragment = true := by
  have notCode := Mode.ne_code_of_isString inString
  cases turns with
  | plain isCode | braceOpens isCode | braceCloses isCode | strayBrace isCode =>
      exact absurd isCode notCode
  | insertionStarts | commentStarts => cases inString
  | insertionEnds isCode _ inserted =>
      have isOpen := (sound.string_pop isCode inserted).2
      cases isOpen.symm.trans isRead
  | piece => rfl
  | commentEnds isComment => exact absurd (sound.mode_pop (by simp [isComment])) notCode

/-- No quote is read where a piece of a string is to be read. -/
theorem Quotes.isRead
    {mark : Char} (quotes : modes.Quotes mark after) (inString : modes.mode.isString = true) :
    modes.top.segmentOpen = false := by
  cases quotes with
  | opens isCode => exact absurd isCode (Mode.ne_code_of_isString inString)
  | closes isRead => exact isRead

/-- Only quotes are passed without a token. -/
theorem Quotes.eq_quote
    {mark : Char} (quotes : modes.Quotes mark after) : mark = '\'' ∨ mark = '"' := by
  cases quotes with
  | opens _ delimits | closes _ delimits => exact Mode.eq_quote_of_delimiter? delimits

/-- A quote that closes a string leads back to code, and one that opens a string leads to its first
piece. -/
theorem Sound.isOpen_of_quote
    {mark : Char} (sound : modes.Sound input) (quotes : modes.Quotes mark after)
    (inString : after.mode.isString = true) : after.top.segmentOpen = true := by
  cases quotes with
  | opens => exact inString
  | closes _ delimits =>
      have wasString := Mode.isString_of_delimiter? delimits
      have isCode := sound.mode_pop (Mode.ne_code_of_isString wasString)
      exact absurd isCode (Mode.ne_code_of_isString inString)

/-! ## Frames in order -/

/-- Each frame of a layered stack lies on the next one. -/
theorem Layered.liesOn
    {top frame lower : Frame} {below upper others : List Frame} (layered : Layered top below)
    (inOrder : top :: below = upper ++ frame :: lower :: others) : frame.LiesOn lower := by
  induction below generalizing top upper with
  | nil =>
      have lengths := congrArg List.length inOrder
      simp at lengths
      omega
  | cons next rest inductionHypothesis =>
      cases upper with
      | nil =>
          obtain ⟨rfl, rfl, -⟩ : top = frame ∧ next = lower ∧ rest = others := by
            simpa using inOrder
          exact layered.1
      | cons first upper =>
          exact inductionHypothesis layered.2 (List.cons.inj inOrder).2

theorem Layered.bottom
    {top : Frame} {below : List Frame} (layered : Layered top below) :
    ∃ upper frame, top :: below = upper ++ [frame] ∧ frame.mode = .code ∧
      frame.interpolating = false := by
  induction below generalizing top with
  | nil => exact ⟨[], top, rfl, layered.1, layered.2.1⟩
  | cons next rest inductionHypothesis =>
      obtain ⟨upper, frame, inOrder, isCode, alone⟩ := inductionHypothesis layered.2
      exact ⟨top :: upper, frame, congrArg (top :: ·) inOrder, isCode, alone⟩

/-- A frame on which another one lies is code or a string between double quotes. -/
theorem Layered.mode_of_mem_below
    {top frame : Frame} {below : List Frame} (layered : Layered top below)
    (member : frame ∈ below) : frame.mode = .code ∨ frame.mode = .richString := by
  induction below generalizing top with
  | nil => cases member
  | cons next rest inductionHypothesis =>
      rcases List.mem_cons.1 member with rfl | further
      · have liesOn := layered.1
        unfold Frame.LiesOn at liesOn
        split at liesOn
        · exact Or.inr liesOn.2.1
        · exact Or.inl liesOn.2
      · exact inductionHypothesis layered.2 further

/-- The frames of a stack lie on one another as a text opens them, and what is ahead fits the frame
on top. -/
structure Shaped (modes : ModeStack) (input : List Char) : Prop where
  /-- Code that no string surrounds is at the bottom. -/
  bottom : ∃ upper frame, modes.frames = upper ++ [frame] ∧ frame.mode = .code ∧
    frame.interpolating = false
  /-- A string or a comment lies on code. -/
  inCode : ∀ upper frame lower others, modes.frames = upper ++ frame :: lower :: others →
    frame.mode ≠ .code → lower.mode = .code
  /-- Other code is inserted into a string, which goes on behind it. -/
  inString : ∀ upper frame lower others, modes.frames = upper ++ frame :: lower :: others →
    frame.mode = .code → frame.interpolating = true ∧ lower.mode = .richString ∧
      lower.segmentOpen = true
  /-- Nothing lies on a string between single quotes or on a comment. -/
  onTop : ∀ frame ∈ modes.below, frame.mode ≠ .plainString ∧ frame.mode ≠ .comment
  plain : modes.mode = .plainString → modes.top.segmentOpen = false →
    ∃ rest, input = '\'' :: rest
  rich : modes.mode = .richString → modes.top.segmentOpen = false →
    (∃ rest, input = '"' :: rest) ∨ ∃ rest, input = '#' :: '{' :: rest
  comment : modes.mode = .comment → input = [] ∨ ∃ rest, input = '\n' :: rest

theorem Sound.shaped
    (sound : modes.Sound input)
    (comment : modes.mode = .comment → input = [] ∨ ∃ rest, input = '\n' :: rest) :
    modes.Shaped input where
  bottom := sound.layered.bottom
  inCode := by
    intro upper frame lower others inOrder notCode
    have liesOn := sound.layered.liesOn inOrder
    unfold Frame.LiesOn at liesOn
    split at liesOn
    · rename_i isCode
      exact absurd isCode notCode
    · exact liesOn.2
  inString := by
    intro upper frame lower others inOrder isCode
    have liesOn := sound.layered.liesOn inOrder
    simpa only [Frame.LiesOn, isCode] using liesOn
  onTop := by
    intro frame member
    rcases sound.layered.mode_of_mem_below member with isCode | isRich
    · simp [isCode]
    · simp [isRich]
  plain := by
    intro isPlain isRead
    have meets := sound.meets isRead
    have topMode : modes.top.mode = .plainString := isPlain
    simpa only [topMode] using meets
  rich := by
    intro isRich isRead
    have meets := sound.meets isRead
    have topMode : modes.top.mode = .richString := isRich
    simpa only [topMode] using meets
  comment := comment

/-! ## Behind a comment -/

/-- The rest of a line ends at a newline or with the text. -/
theorem dropWhile_line (input : List Char) :
    input.dropWhile (· ≠ '\n') = [] ∨ ∃ rest, input.dropWhile (· ≠ '\n') = '\n' :: rest := by
  have stops := List.head?_dropWhile_not (fun character => decide (character ≠ '\n')) input
  cases behind : input.dropWhile (· ≠ '\n') with
  | nil => exact Or.inl rfl
  | cons next others =>
      rw [behind] at stops
      have isNewline : next = '\n' := by simpa using stops
      exact Or.inr ⟨others, isNewline ▸ rfl⟩

/-- A comment is read in code, up to the end of its line. -/
theorem comment_of_move
    {lexeme : Lexeme} {text : String} (step : modes.move input = .token lexeme after)
    (isComment : lexeme.kind = .comment text) :
    modes.mode = .code ∧ (∃ rest, input = '#' :: rest) ∧ lexeme = .comment input ∧
      after = modes.push .comment := by
  have turns := turns_of_move step
  rw [isComment] at turns
  cases turns with
  | plain _ isPlain => cases isPlain
  | commentStarts isCode ahead =>
      subst ahead
      simp only [move, isCode, codeMove] at step
      obtain ⟨rfl, -⟩ := Move.token.inj step
      exact ⟨isCode, ⟨_, rfl⟩, rfl, rfl⟩

/-- Only the text of a comment leads to the end of one. -/
theorem Sound.kind_of_comment
    {lexeme : Lexeme} (sound : modes.Sound input) (step : modes.move input = .token lexeme after)
    (inComment : after.mode = .comment) : ∃ text, lexeme.kind = .comment text := by
  have turns := turns_of_move step
  generalize lexeme.kind = kind at turns
  cases turns with
  | plain isCode | braceOpens isCode | braceCloses isCode | strayBrace isCode =>
      cases isCode.symm.trans inComment
  | insertionStarts => cases inComment
  | insertionEnds isCode _ inserted =>
      have isRich := (sound.string_pop isCode inserted).1
      cases isRich.symm.trans inComment
  | piece isString =>
      have inString : modes.mode.isString = true := isString
      rw [show modes.mode = .comment from inComment] at inString
      cases inString
  | commentEnds wasComment =>
      have isCode := sound.mode_pop (by simp [wasComment])
      cases isCode.symm.trans inComment
  | commentStarts => exact ⟨_, rfl⟩

/-- A step that leads to a comment has read it up to the end of its line. -/
theorem Sound.comment_ends
    {lexeme : Lexeme} (sound : modes.Sound input) (step : modes.move input = .token lexeme after)
    (isComment : after.mode = .comment) :
    lexeme.rest = [] ∨ ∃ rest, lexeme.rest = '\n' :: rest := by
  obtain ⟨text, isKind⟩ := sound.kind_of_comment step isComment
  obtain ⟨-, -, rfl, -⟩ := comment_of_move step isKind
  exact dropWhile_line input

/-- A quote opens a string or leads back to code. -/
theorem Sound.quote_ne_comment
    {mark : Char} {rest : List Char} (sound : modes.Sound input)
    (step : modes.move input = .quote mark rest after) : after.mode ≠ .comment := by
  cases quotes_of_move step with
  | @opens mode _ delimits =>
      rintro (rfl : mode = .comment)
      cases delimits
  | closes _ delimits =>
      have inString := Mode.isString_of_delimiter? delimits
      have isCode := sound.mode_pop (Mode.ne_code_of_isString inString)
      simp [isCode]

end ModeStack

namespace Scanner

variable {file : Option String} {scanner last : Scanner} {tokens : List Token}

/-! ## Along the steps -/

/-- What every step keeps holds wherever reading comes to. -/
theorem Reaches.keeps
    {property : Scanner → Prop} (reaches : Reaches file scanner tokens last)
    (token : ∀ (scanner : Scanner) (lexeme : Lexeme) (modes : ModeStack),
      scanner.modes.move scanner.rest = .token lexeme modes → property scanner →
        property (scanner.afterToken lexeme modes))
    (quote : ∀ (scanner : Scanner) (mark : Char) (rest : List Char) (modes : ModeStack),
      scanner.modes.move scanner.rest = .quote mark rest modes → property scanner →
        property (scanner.afterQuote mark rest modes))
    (holds : property scanner) : property last := by
  induction reaches with
  | here => exact holds
  | token step _ _ inductionHypothesis => exact inductionHypothesis (token _ _ _ step holds)
  | quote step _ inductionHypothesis => exact inductionHypothesis (quote _ _ _ _ step holds)

theorem Sound.afterToken
    {lexeme : Lexeme} {modes : ModeStack} (sound : scanner.Sound)
    (step : scanner.modes.move scanner.rest = .token lexeme modes) :
    (scanner.afterToken lexeme modes).Sound := by
  have keepsSound := ModeStack.Sound.move sound
  rwa [step] at keepsSound

theorem Sound.afterQuote
    {mark : Char} {rest : List Char} {modes : ModeStack} (sound : scanner.Sound)
    (step : scanner.modes.move scanner.rest = .quote mark rest modes) :
    (scanner.afterQuote mark rest modes).Sound := by
  have keepsSound := ModeStack.Sound.move sound
  rwa [step] at keepsSound

theorem Reaches.sound (reaches : Reaches file scanner tokens last) (sound : scanner.Sound) :
    last.Sound :=
  reaches.keeps (fun _ _ _ step sound => sound.afterToken step)
    (fun _ _ _ _ step sound => sound.afterQuote step) sound

/-- The stack is sound, and behind the text of a comment its line ends. -/
structure Tidy (scanner : Scanner) : Prop where
  sound : scanner.Sound
  comment : scanner.modes.mode = .comment →
    scanner.rest = [] ∨ ∃ rest, scanner.rest = '\n' :: rest

theorem tidy_start (text : List Char) : (start text).Tidy where
  sound := sound_start text
  comment := by
    intro inComment
    cases inComment

theorem Reaches.tidy (reaches : Reaches file scanner tokens last) (tidy : scanner.Tidy) :
    last.Tidy := by
  refine reaches.keeps ?_ ?_ tidy
  · intro scanner lexeme modes step tidy
    exact ⟨tidy.sound.afterToken step, ModeStack.Sound.comment_ends tidy.sound step⟩
  · intro scanner mark rest modes step tidy
    refine ⟨tidy.sound.afterQuote step, ?_⟩
    intro inComment
    exact absurd inComment (ModeStack.Sound.quote_ne_comment tidy.sound step)

theorem Reaches.append
    {middle : Scanner} {others : List Token} (first : Reaches file scanner tokens middle)
    (second : Reaches file middle others last) : Reaches file scanner (tokens ++ others) last := by
  induction first with
  | here => exact second
  | token step written _ inductionHypothesis => exact .token step written (inductionHypothesis second)
  | quote step _ inductionHypothesis => exact .quote step (inductionHypothesis second)

/-- The quotes in front of a token are passed on the way to the place behind it. -/
theorem reaches_of_next
    {token : Token} (found : scanner.next file = .ok (token, last))
    (more : token.kind ≠ .endOfInput) : Reaches file scanner [token] last := by
  induction scanner using next.induct with
  | case1 scanner lexeme modes step =>
      rw [next_of_token step] at found
      obtain ⟨rfl, rfl⟩ := Prod.mk.inj (Except.ok.inj found)
      exact .token step (ModeStack.isWritten_of_move step more) .here
  | case2 scanner mark rest modes step shorter inductionHypothesis =>
      rw [next_of_quote step] at found
      exact .quote step (inductionHypothesis found)
  | case3 scanner cause step =>
      rw [next_of_refused step] at found
      cases found

end Scanner

/-- The reader that has been asked for some items. -/
def Reader.asked (reader : Reader) : Nat → Reader
  | 0 => reader
  | count + 1 => (reader.asked count).next.2

/-- No item changes what is read. -/
theorem Reader.finish_next (reader : Reader) : reader.next.2.finish = reader.finish := by
  unfold next
  split
  · rfl
  · split
    · rfl
    · split <;> rfl

theorem Reader.source_next (reader : Reader) : reader.next.2.source = reader.source := by
  have sameText := congrArg Reader.source reader.finish_next
  exact sameText

theorem Reader.file_next (reader : Reader) : reader.next.2.file = reader.file := by
  have sameFile := congrArg Reader.file reader.finish_next
  exact sameFile

theorem Reader.file_asked (reader : Reader) (count : Nat) :
    (reader.asked count).file = reader.file := by
  induction count with
  | zero => rfl
  | succ count inductionHypothesis => rw [asked, file_next, inductionHypothesis]

/-- A reader stands at places that reading comes to. -/
theorem Reader.reaches_of_asked
    {source : String} {file : Option String} {scanner : Scanner} (count : Nat)
    (stands : ((ofSource source file).asked count).scanner? = some scanner) :
    ∃ read, Scanner.Reaches file (.start source.toList) read scanner := by
  induction count generalizing scanner with
  | zero =>
      obtain rfl := Option.some.inj stands
      exact ⟨[], .here⟩
  | succ count inductionHypothesis =>
      have sameFile : ((ofSource source file).asked count).file = file := file_asked _ count
      rw [asked, next, sameFile] at stands
      cases stood : ((ofSource source file).asked count).scanner? with
      | none =>
          rw [stood] at stands
          cases stood.symm.trans stands
      | some middle =>
          obtain ⟨read, reaches⟩ := inductionHypothesis stood
          rw [stood] at stands
          cases found : middle.next file with
          | error fault =>
              simp only [found] at stands
              cases stands
          | ok item =>
              obtain ⟨token, after⟩ := item
              simp only [found] at stands
              split at stands
              · cases stands
              · rename_i more
                obtain rfl := Option.some.inj stands
                exact ⟨_, reaches.append (Scanner.reaches_of_next found more)⟩

/-- Wherever reading comes to, and so wherever a reader stands, the stack has its shape.  The next
step covers characters that are there, and no string ends astray; a fault in the text has a
place. -/
theorem reading_keeps_shape (source : String) (file : Option String) :
    (∀ count scanner, ((Reader.ofSource source file).asked count).scanner? = some scanner →
        ∃ read, Scanner.Reaches file (.start source.toList) read scanner) ∧
      (∀ read scanner, Scanner.Reaches file (.start source.toList) read scanner →
        scanner.modes.Shaped scanner.rest ∧
          (scanner.modes.move scanner.rest).Covers scanner.rest ∧
          scanner.modes.move scanner.rest ≠ .refused .strayString) ∧
      ∀ fault, tokenize source file = .error fault →
        ∃ message location, fault = .lexical message location := by
  refine ⟨fun count scanner => Reader.reaches_of_asked count, ?_, ?_⟩
  · intro read scanner reaches
    have tidy := reaches.tidy (Scanner.tidy_start source.toList)
    have keepsSound := ModeStack.Sound.move tidy.sound
    refine ⟨ModeStack.Sound.shaped tidy.sound tidy.comment, ModeStack.move_covers _ _, ?_⟩
    intro isRefused
    rw [isRefused] at keepsSound
    exact keepsSound rfl
  · intro fault failed
    exact lexical_of_tokenize failed

/-- Within a string in an inserted expression four frames lie on one another. -/
theorem reading_keeps_shape_inserted :
    ∃ read scanner, Scanner.Reaches none (.start "\"a#\x7b'b".toList) read scanner ∧
      scanner.modes.frames.map Frame.mode = [.plainString, .code, .richString, .code] ∧
      scanner.modes.Shaped scanner.rest := by
  have text : "\"a#\x7b'b".toList = ['"', 'a', '#', '{', '\'', 'b'] := by simp
  have reached : ∃ read scanner, Scanner.Reaches none (.start "\"a#\x7b'b".toList) read scanner ∧
      scanner.modes.frames.map Frame.mode = [.plainString, .code, .richString, .code] := by
    rw [text]
    refine ⟨_, _, .quote rfl (.token rfl rfl (.token rfl rfl (.quote rfl .here))), ?_⟩
    rfl
  obtain ⟨read, scanner, reaches, frames⟩ := reached
  have shaped := ((reading_keeps_shape _ none).2.1 read scanner reaches).1
  exact ⟨read, scanner, reaches, frames, shaped⟩

end ScriptFront
