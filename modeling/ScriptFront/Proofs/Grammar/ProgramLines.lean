import ScriptFront.Proofs.Grammar.Equivariance
import ScriptFront.Proofs.Grammar.Locality
import ScriptFront.Proofs.Token.Lines

/-!
# Programs line by line

A program may be followed by a newline and any other text.  Each of the two is read as if it stood
alone, the second one further down.
-/

namespace ScriptFront

/-- The same lines further down. -/
def FurtherLines.down (lines : FurtherLines) (count : Nat) : FurtherLines where
  newline := lines.newline
  start := lines.start.moved (Location.down count)
  isNewline := lines.isNewline
  noIndent := by
    intro token member
    rcases List.mem_map.1 member with ⟨original, isMember, rfl⟩
    exact lines.noIndent original isMember
  inLine := lines.inLine

namespace Cursor

variable {cursor : Cursor} {nodes : List Node} {lines : FurtherLines}

/-- The program of tokens that stand further down, or the fault in it. -/
theorem readProgram_down (count : Nat) (cursor : Cursor) :
    (cursor.moved (Location.down count)).readProgram.1 =
      match cursor.readProgram.1 with
      | .ok nodes => .ok nodes
      | .error fault => .error (fault.down count) := by
  have moves : (Phrase.statements false cursor).Moves (Location.down count)
      (Phrase.statements false (cursor.moved (Location.down count))) :=
    Phrase.moved (Location.down count) (.statements false) cursor
  rw [readProgram_eq, readProgram_eq, moves]
  cases (Phrase.statements false cursor).result with
  | ok _ => rfl
  | error stuck =>
      rcases stuck with ⟨refusal, stop⟩
      change Except.error (refusal.fault (stop.moved (Location.down count)).peek) = _
      rw [peek_moved]
      rfl

/-- The further lines add their statements to a program. -/
theorem readProgram_followedBy
    (read : cursor.readProgram.1 = .ok nodes) (precedes : cursor.Precedes lines) :
    (cursor.followedBy lines).readProgram.1 = lines.start.readProgram.1.map (nodes ++ ·) := by
  rcases readProgram_eq_ok_iff.1 read with ⟨last, reads⟩
  have further := Phrase.result_statements_followedBy reads precedes
  rw [readProgram_eq, readProgram_eq, further]
  cases (Phrase.statements false lines.start).result <;> rfl

/-- The same with the further lines further down. -/
theorem readProgram_followedBy_down
    (lines : FurtherLines) (read : cursor.readProgram.1 = .ok nodes)
    (precedes : cursor.Precedes lines) (count : Nat) :
    (cursor.followedBy (lines.down count)).readProgram.1 =
      match lines.start.readProgram.1 with
      | .ok others => .ok (nodes ++ others)
      | .error fault => .error (fault.down count) := by
  have precedesDown : cursor.Precedes (lines.down count) := ⟨precedes.spaced, precedes.noIndent⟩
  have startsDown : (lines.down count).start.readProgram.1 = _ :=
    readProgram_down count lines.start
  rw [readProgram_followedBy read precedesDown, startsDown]
  cases lines.start.readProgram.1 <;> rfl

/-- Tokens that are written in a text are all ahead, up to the end behind them. -/
theorem ofTokens_of_written
    {read : List Token} {last : Token}
    (written : ∀ token ∈ read, token.kind.isWritten = true) (isEnd : last.kind = .endOfInput) :
    ofTokens (Token.significant read ++ [last]) =
      ⟨Token.significant read, ⟨last.location, last.spaced⟩, false⟩ := by
  have inText : ∀ token ∈ Token.significant read, token.kind ≠ .endOfInput := by
    intro token member
    exact Scanner.not_endOfInput_of_isWritten (written token (List.mem_filter.1 member).1)
  have lastMeans : last.isTrivia = false := by
    rw [Token.isTrivia, isEnd]
    rfl
  have allMean :
      Token.significant (Token.significant read ++ [last]) = Token.significant read ++ [last] := by
    simp [Token.significant, lastMeans]
  have noneBefore : (Token.significant read).find? (·.kind = .endOfInput) = none := by
    refine List.find?_eq_none.2 ?_
    intro token member isEndToken
    exact inText token member (of_decide_eq_true isEndToken)
  have findsLast :
      (Token.significant read ++ [last]).find? (·.kind = .endOfInput) = some last := by
    rw [List.find?_append, noneBefore]
    simp [isEnd]
  have takesText : (Token.significant read ++ [last]).takeWhile (·.kind ≠ .endOfInput) =
      Token.significant read := by
    rw [List.takeWhile_append_of_pos]
    · simp [isEnd]
    · intro token member
      exact decide_eq_true (inText token member)
  simp only [ofTokens, allMean, findsLast, takesText]

theorem noIndent_of_written
    {read : List Token} (written : ∀ token ∈ read, token.kind.isWritten = true) :
    ∀ token ∈ Token.significant read, token.kind ≠ .indent := by
  intro token member isIndent
  have isWritten := written token (List.mem_filter.1 member).1
  rw [isIndent] at isWritten
  cases isWritten

/-- The tokens of two texts, a newline between them. -/
theorem ofTokens_append_line
    {read second : List Token} {newline last : Token}
    (written : ∀ token ∈ read, token.kind.isWritten = true)
    (writtenSecond : ∀ token ∈ second, token.kind.isWritten = true)
    (isNewline : newline.kind = .newline) (isEnd : last.kind = .endOfInput) (count : Nat) :
    ofTokens (Token.significant read ++
        newline :: (Token.significant second ++ [last]).map (Token.down count)) =
      ⟨Token.significant read ++ newline :: (Token.significant second).map (Token.down count),
        ⟨last.location.down count, last.spaced⟩, false⟩ := by
  have newlineMeans : newline.isTrivia = false := by
    rw [Token.isTrivia, isNewline]
    rfl
  have areMeant : Token.significant (read ++ newline :: second.map (Token.down count)) =
      Token.significant read ++ newline :: (Token.significant second).map (Token.down count) := by
    rw [← Token.significant_down]
    simp [Token.significant, newlineMeans]
  have areWritten : ∀ token ∈ read ++ newline :: second.map (Token.down count),
      token.kind.isWritten = true := by
    intro token member
    rcases List.mem_append.1 member with inFirst | further
    · exact written token inFirst
    rcases List.mem_cons.1 further with rfl | inSecond
    · rw [isNewline]
      rfl
    · rcases List.mem_map.1 inSecond with ⟨original, isMember, rfl⟩
      exact writtenSecond original isMember
  have inOneLine : Token.significant read ++
        newline :: (Token.significant second ++ [last]).map (Token.down count) =
      Token.significant (read ++ newline :: second.map (Token.down count)) ++
        [last.down count] := by
    rw [areMeant]
    simp
  have isEndDown : (last.down count).kind = .endOfInput := isEnd
  rw [inOneLine, ofTokens_of_written areWritten isEndDown, areMeant]
  rfl

end Cursor

/-- Behind the tokens of a program a newline may stand in place of the end, and the tokens of
another text behind it. -/
theorem parseTokens_append_line
    {read second : List Token} {newline last lastSecond : Token} {nodes : List Node}
    (parsed : parseTokens (Token.significant read ++ [last]) = .ok nodes)
    (written : ∀ token ∈ read, token.kind.isWritten = true)
    (writtenSecond : ∀ token ∈ second, token.kind.isWritten = true)
    (isNewline : newline.kind = .newline) (sameSpaced : newline.spaced = last.spaced)
    (isEnd : last.kind = .endOfInput) (isEndSecond : lastSecond.kind = .endOfInput)
    (count : Nat) :
    parseTokens (Token.significant read ++
        newline :: (Token.significant second ++ [lastSecond]).map (Token.down count)) =
      match parseTokens (Token.significant second ++ [lastSecond]) with
      | .ok others => .ok (nodes ++ others)
      | .error fault => .error (fault.down count) := by
  rw [parseTokens, Cursor.ofTokens_of_written written isEnd] at parsed
  rw [parseTokens, parseTokens, Cursor.ofTokens_of_written writtenSecond isEndSecond,
    Cursor.ofTokens_append_line written writtenSecond isNewline isEndSecond count]
  have noIndent := Cursor.noIndent_of_written written
  have noIndentSecond := Cursor.noIndent_of_written writtenSecond
  exact Cursor.readProgram_followedBy_down
    ⟨newline, ⟨_, ⟨lastSecond.location, lastSecond.spaced⟩, false⟩, isNewline, noIndentSecond, rfl⟩
    parsed ⟨sameSpaced, noIndent⟩ count

/-- A program may be followed by a newline and any other text.  The other text then adds the
statements that it consists of alone, or has the fault that it has alone, further down. -/
theorem parse_append_line
    {first : String} {file : Option String} {nodes : List Node}
    (parsed : parse first file = .ok nodes) (second : String) :
    parse (first ++ "\n" ++ second) file =
      match parse second file with
      | .ok others => .ok (nodes ++ others)
      | .error fault => .error (fault.down (1 + first.toList.count '\n')) := by
  cases lexed : tokenize first file with
  | error fault =>
      rw [parse, lexed] at parsed
      cases parsed
  | ok tokens =>
      rcases reaches_of_tokenize lexed with ⟨read, last, reaches, atEnd, rfl⟩
      have whole := reaches.tokenize_followedBy atEnd second
      cases lexedSecond : tokenize second file with
      | error fault =>
          rw [lexedSecond] at whole
          rw [parse, parse, whole, lexedSecond]
      | ok others =>
          rcases reaches_of_tokenize lexedSecond with
            ⟨readSecond, lastSecond, reachesSecond, -, rfl⟩
          have isNewline : (last.token file ⟨.newline, ['\n'], []⟩).kind = .newline := rfl
          have isEnd : (last.token file ⟨.endOfInput, [], []⟩).kind = .endOfInput := rfl
          have isEndSecond : (lastSecond.token file ⟨.endOfInput, [], []⟩).kind = .endOfInput := rfl
          rw [parse, lexed] at parsed
          rw [lexedSecond] at whole
          rw [parse, parse, whole, lexedSecond]
          exact parseTokens_append_line parsed reaches.written reachesSecond.written isNewline rfl
            isEnd isEndSecond (1 + first.toList.count '\n')

/-- On a line of their own the parentheses are no arguments, and their fault is in that line. -/
theorem parse_append_line_parens :
    parse "foo" none = .ok [.call "foo" [] none] ∧
      parse ("foo" ++ "\n" ++ "(1)") none =
        .ok [.call "foo" [] none, .group (.integer 1)] ∧
      parse ("foo" ++ "\n" ++ "(1") none =
        .error (.syntactic "Expected ')', found end of input" ⟨2, 3, none⟩ "end of input"
          ["')'"]) := by
  have parsed : parse "foo" none = .ok [.call "foo" [] none] := by
    with_unfolding_all rfl
  refine ⟨parsed, (parse_append_line parsed "(1)").trans ?_,
    (parse_append_line parsed "(1").trans ?_⟩
  · with_unfolding_all rfl
  · with_unfolding_all rfl

end ScriptFront
