import ScriptFront.Proofs.Token.Seam
import ScriptFront.Proofs.Token.Shift

/-!
# Reading line by line

A text that forms tokens ends in code that nothing surrounds.  A newline may therefore be put behind
it with any other text, and each of the two is read as if it stood alone: the end of the first
becomes the newline, and the second stands further down.
-/

namespace ScriptFront

namespace Scanner

/-- From one place the tokens are read up to another one. -/
inductive Reaches (file : Option String) : Scanner → List Token → Scanner → Prop where
  | here {scanner : Scanner} : Reaches file scanner [] scanner
  | token {scanner last : Scanner} {lexeme : Lexeme} {modes : ModeStack} {tokens : List Token}
      (step : scanner.modes.move scanner.rest = .token lexeme modes)
      (written : lexeme.kind.isWritten = true)
      (further : Reaches file (scanner.afterToken lexeme modes) tokens last) :
      Reaches file scanner (scanner.token file lexeme :: tokens) last
  | quote {scanner last : Scanner} {mark : Char} {rest : List Char} {modes : ModeStack}
      {tokens : List Token}
      (step : scanner.modes.move scanner.rest = .quote mark rest modes)
      (further : Reaches file (scanner.afterQuote mark rest modes) tokens last) :
      Reaches file scanner tokens last

/-- The input ends here. -/
def AtEnd (scanner : Scanner) : Prop :=
  scanner.rest = [] ∧ scanner.modes.mode = .code ∧
    scanner.modes.visible = ModeStack.initial.visible

/-- The scanner with more text behind what is left. -/
def followedBy (scanner : Scanner) (more : List Char) : Scanner :=
  { scanner with rest := scanner.rest ++ more }

variable {file : Option String} {scanner last : Scanner} {tokens : List Token}

theorem not_endOfInput_of_isWritten {kind : Kind} (written : kind.isWritten = true) :
    kind ≠ .endOfInput := by
  rintro rfl
  cases written

theorem Reaches.items (reaches : Reaches file scanner tokens last) :
    scanner.items file = tokens.map Except.ok ++ last.items file := by
  induction reaches with
  | here => rfl
  | token step written _ inductionHypothesis =>
      rw [items_of_token step (not_endOfInput_of_isWritten written), inductionHypothesis]
      rfl
  | quote step _ inductionHypothesis => rw [items_of_quote step, inductionHypothesis]

theorem Reaches.written
    (reaches : Reaches file scanner tokens last) :
    ∀ token ∈ tokens, token.kind.isWritten = true := by
  induction reaches with
  | here => simp
  | token _ written _ inductionHypothesis =>
      exact List.forall_mem_cons.2 ⟨written, inductionHypothesis⟩
  | quote _ _ inductionHypothesis => exact inductionHypothesis

/-- Reading moves on by the characters it covers. -/
theorem Reaches.position (reaches : Reaches file scanner tokens last) :
    last.position.after last.rest = scanner.position.after scanner.rest := by
  induction reaches with
  | here => rfl
  | @token scanner _ lexeme modes _ step _ _ inductionHypothesis =>
      have covered := ModeStack.move_covers scanner.modes scanner.rest
      rw [step] at covered
      have whole : lexeme.text ++ lexeme.rest = scanner.rest := covered
      rw [inductionHypothesis, ← whole, Position.after_append]
      rfl
  | @quote scanner _ mark rest modes _ step _ inductionHypothesis =>
      have covered := ModeStack.move_covers scanner.modes scanner.rest
      rw [step] at covered
      have whole : mark :: rest = scanner.rest := covered
      rw [inductionHypothesis, ← whole, Position.after_cons]
      rfl

theorem rest_ne_nil_of_token
    {modes after : ModeStack} {input : List Char} {lexeme : Lexeme}
    (step : modes.move input = .token lexeme after) (written : lexeme.kind.isWritten = true)
    (isCode : modes.mode = .code) : input ≠ [] := by
  rintro rfl
  simp only [ModeStack.move, isCode, ModeStack.codeMove] at step
  split at step
  · cases step
  · obtain ⟨rfl, -⟩ := Move.token.inj step
    cases written

theorem rest_ne_nil_of_quote
    {modes after : ModeStack} {input rest : List Char} {mark : Char}
    (step : modes.move input = .quote mark rest after) : input ≠ [] := by
  rintro rfl
  have shorter := ModeStack.length_lt_of_quote step
  cases shorter

/-- The same tokens are read if a newline and more text follow. -/
theorem Reaches.followedBy
    (reaches : Reaches file scanner tokens last) (more : List Char) :
    Reaches file (scanner.followedBy ('\n' :: more)) tokens (last.followedBy ('\n' :: more)) := by
  induction reaches with
  | here => exact .here
  | @token scanner last lexeme modes tokens step written _ inductionHypothesis =>
      have accepted : ∀ cause, scanner.modes.move scanner.rest ≠ .refused cause := by simp [step]
      have extended :=
        ModeStack.move_append_newline (rest_ne_nil_of_token step written) accepted more
      rw [step] at extended
      have nextStep : (scanner.followedBy ('\n' :: more)).modes.move
          (scanner.followedBy ('\n' :: more)).rest =
            .token (lexeme.followedBy ('\n' :: more)) modes := extended
      have reads : Reaches file (scanner.followedBy ('\n' :: more))
          ((scanner.followedBy ('\n' :: more)).token file (lexeme.followedBy ('\n' :: more)) ::
            tokens) (last.followedBy ('\n' :: more)) :=
        .token nextStep written inductionHypothesis
      exact reads
  | @quote scanner last mark rest modes tokens step _ inductionHypothesis =>
      have accepted : ∀ cause, scanner.modes.move scanner.rest ≠ .refused cause := by simp [step]
      have extended :=
        ModeStack.move_append_newline (fun _ => rest_ne_nil_of_quote step) accepted more
      rw [step] at extended
      have nextStep : (scanner.followedBy ('\n' :: more)).modes.move
          (scanner.followedBy ('\n' :: more)).rest =
            .quote mark (rest ++ '\n' :: more) modes := extended
      exact .quote nextStep inductionHypothesis

/-- The tokens of a text that has no fault are read up to the end of the input. -/
theorem reaches_of_items
    (sound : scanner.Sound) (lexed : significantTokens (scanner.items file) = .ok tokens) :
    ∃ read last, Reaches file scanner read last ∧ last.AtEnd ∧
      tokens = Token.significant read ++ [last.token file ⟨.endOfInput, [], []⟩] := by
  induction sound using Sound.induction generalizing tokens with
  | refused scanner sound cause step =>
      rw [items_of_refused step, significantTokens_cons_error] at lexed
      cases lexed
  | quote scanner sound mark rest modes _ step inductionHypothesis =>
      rw [items_of_quote step] at lexed
      obtain ⟨read, last, reaches, atEnd, whole⟩ := inductionHypothesis lexed
      exact ⟨read, last, .quote step reaches, atEnd, whole⟩
  | last scanner sound lexeme modes step ended =>
      have unwritten : lexeme.kind.isWritten = false := by
        rw [ended]
        rfl
      obtain ⟨isCode, bare, isNil, rfl⟩ := ModeStack.end_of_move step unwritten
      have alone := ModeStack.Sound.below_eq_nil sound isCode bare
      have plain := ModeStack.Sound.visible_of_alone sound alone
      rw [items_of_last step rfl, significantTokens_cons_ok] at lexed
      exact ⟨[], scanner, .here, ⟨isNil, isCode, plain⟩, (Except.ok.inj lexed).symm⟩
  | token scanner sound lexeme modes _ step more inductionHypothesis =>
      rw [items_of_token step more, significantTokens_cons_ok] at lexed
      cases furtherLexed : significantTokens ((scanner.afterToken lexeme modes).items file) with
      | error fault =>
          rw [furtherLexed] at lexed
          cases lexed
      | ok others =>
          rw [furtherLexed] at lexed
          obtain rfl := Except.ok.inj lexed
          obtain ⟨read, last, reaches, atEnd, rfl⟩ := inductionHypothesis furtherLexed
          have written := ModeStack.isWritten_of_move step more
          refine ⟨_, last, .token step written reaches, atEnd, ?_⟩
          have whole : Token.significant (scanner.token file lexeme :: read) =
              Token.significant [scanner.token file lexeme] ++ Token.significant read :=
            List.filter_append [scanner.token file lexeme] read
          rw [whole, List.append_assoc]

/-- Behind the end of a text a newline ends the line, and what follows is read from there on. -/
theorem AtEnd.items_followedBy (atEnd : last.AtEnd) (more : List Char) :
    (last.followedBy ('\n' :: more)).items file =
      .ok (last.token file ⟨.newline, ['\n'], more⟩) ::
        ((start more).items file).map (Item.down last.position.line) := by
  rcases atEnd with ⟨isNil, isCode, plain⟩
  have step : (last.followedBy ('\n' :: more)).modes.move (last.followedBy ('\n' :: more)).rest =
      .token ⟨.newline, ['\n'], more⟩ last.modes := by
    simp only [followedBy, isNil, List.nil_append, ModeStack.move, isCode, ModeStack.codeMove]
  have mirrors : Mirrors last.position.line
      ((last.followedBy ('\n' :: more)).afterToken ⟨.newline, ['\n'], more⟩ last.modes)
      (start more) := by
    refine ⟨rfl, ?_, plain, rfl⟩
    simp [afterToken, followedBy, start, Position.start, Position.down, Position.step,
      Nat.add_comm]
  rw [items_of_token step (by simp), mirrors.items (sound_start more)]
  rfl

/-- Reading never contradicts itself: every fault of a text has a place in it. -/
theorem lexical_of_items
    {fault : Fault} (sound : scanner.Sound)
    (failed : significantTokens (scanner.items file) = .error fault) :
    ∃ message location, fault = .lexical message location := by
  induction sound using Sound.induction with
  | refused scanner sound cause step accidental =>
      rw [items_of_refused step, significantTokens_cons_error] at failed
      have isFault := Except.error.inj failed
      cases cause with
      | strayString => exact absurd rfl accidental
      | _ => exact ⟨_, _, isFault.symm⟩
  | quote scanner sound mark rest modes _ step inductionHypothesis =>
      rw [items_of_quote step] at failed
      exact inductionHypothesis failed
  | last scanner sound lexeme modes step ended =>
      rw [items_of_last step ended, significantTokens_cons_ok] at failed
      cases failed
  | token scanner sound lexeme modes _ step more inductionHypothesis =>
      rw [items_of_token step more, significantTokens_cons_ok] at failed
      cases further : significantTokens ((scanner.afterToken lexeme modes).items file) with
      | ok others =>
          rw [further] at failed
          cases failed
      | error other =>
          rw [further] at failed
          have sameFault : other = fault := Except.error.inj failed
          exact inductionHypothesis (sameFault ▸ further)

end Scanner

/-- A text that does not form tokens has its fault at a place. -/
theorem lexical_of_tokenize
    {source : String} {file : Option String} {fault : Fault}
    (failed : tokenize source file = .error fault) :
    ∃ message location, fault = .lexical message location :=
  Scanner.lexical_of_items (Scanner.sound_start source.toList) failed

/-- A text that forms tokens is read up to its end. -/
theorem reaches_of_tokenize
    {source : String} {file : Option String} {tokens : List Token}
    (lexed : tokenize source file = .ok tokens) :
    ∃ read last, Scanner.Reaches file (Scanner.start source.toList) read last ∧ last.AtEnd ∧
      tokens = Token.significant read ++ [last.token file ⟨.endOfInput, [], []⟩] := by
  rw [tokenize_eq] at lexed
  exact Scanner.reaches_of_items (Scanner.sound_start source.toList) lexed

/-- Where a text ends, a newline and the other text further down take the place of the end. -/
theorem Scanner.Reaches.tokenize_followedBy
    {first : String} {file : Option String} {read : List Token} {last : Scanner}
    (reaches : Reaches file (start first.toList) read last) (atEnd : last.AtEnd)
    (second : String) :
    tokenize (first ++ "\n" ++ second) file =
      match tokenize second file with
      | .ok others =>
          .ok (Token.significant read ++ last.token file ⟨.newline, ['\n'], []⟩ ::
            others.map (Token.down (1 + first.toList.count '\n')))
      | .error fault => .error (fault.down (1 + first.toList.count '\n')) := by
  have line : last.position.line = 1 + first.toList.count '\n' := by
    have position := reaches.position
    rw [atEnd.1, Position.after_nil] at position
    rw [position, Position.line_after]
    rfl
  have items := (reaches.followedBy second.toList).items
  rw [atEnd.items_followedBy, line] at items
  have text : (first ++ "\n" ++ second).toList = first.toList ++ '\n' :: second.toList := by
    simp
  calc
    tokenize (first ++ "\n" ++ second) file
        = significantTokens
            (((start first.toList).followedBy ('\n' :: second.toList)).items file) := by
          rw [tokenize_eq, text]
          rfl
    _ = (significantTokens (.ok (last.token file ⟨.newline, ['\n'], []⟩) ::
          ((start second.toList).items file).map
            (Item.down (1 + first.toList.count '\n')))).map (Token.significant read ++ ·) := by
          rw [items, significantTokens_append]
          rfl
    _ = _ := by
          rw [significantTokens_cons_ok, significantTokens_down, tokenize_eq]
          cases significantTokens ((start second.toList).items file) <;> rfl

/-- A text that forms tokens may be followed by a newline and any other text.  Its end then becomes
the newline, and the other text gives the tokens or the fault that it gives alone, further down. -/
theorem tokenize_append_line
    {first : String} {file : Option String} {tokens : List Token} {last : Token}
    (lexed : tokenize first file = .ok (tokens ++ [last])) (second : String) :
    tokenize (first ++ "\n" ++ second) file =
      match tokenize second file with
      | .ok others =>
          .ok (tokens ++ { last with kind := .newline, lexeme := "\n" } ::
            others.map (Token.down (1 + first.toList.count '\n')))
      | .error fault => .error (fault.down (1 + first.toList.count '\n')) := by
  rcases reaches_of_tokenize lexed with ⟨read, place, reaches, atEnd, whole⟩
  rcases List.append_inj' whole rfl with ⟨rfl, sameLast⟩
  have isLast : last = place.token file ⟨.endOfInput, [], []⟩ := List.singleton_inj.1 sameLast
  rw [isLast]
  exact reaches.tokenize_followedBy atEnd second

/-- The brace that is left open before the newline has no effect behind it. -/
theorem tokenize_append_line_open_brace :
    tokenize "\x7b" none = .ok [⟨.mark .leftBrace, "\x7b", ⟨1, 1, none⟩, false⟩,
        ⟨.endOfInput, "", ⟨1, 2, none⟩, false⟩] ∧
      tokenize ("\x7b" ++ "\n" ++ "\x7d x") none =
        .ok [⟨.mark .leftBrace, "\x7b", ⟨1, 1, none⟩, false⟩,
          ⟨.newline, "\n", ⟨1, 2, none⟩, false⟩,
          ⟨.mark .rightBrace, "\x7d", ⟨2, 1, none⟩, false⟩,
          ⟨.identifier "x", "x", ⟨2, 3, none⟩, true⟩,
          ⟨.endOfInput, "", ⟨2, 4, none⟩, false⟩] := by
  have lexed : tokenize "\x7b" none = .ok ([⟨.mark .leftBrace, "\x7b", ⟨1, 1, none⟩, false⟩] ++
        [⟨.endOfInput, "", ⟨1, 2, none⟩, false⟩]) := by
    with_unfolding_all rfl
  refine ⟨lexed, (tokenize_append_line lexed "\x7d x").trans ?_⟩
  with_unfolding_all rfl

end ScriptFront
