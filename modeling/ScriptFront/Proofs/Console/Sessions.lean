import Mathlib.Data.List.DropRight
import ScriptFront.Console.Run
import ScriptFront.Proofs.Source.Lines

/-!
# Sessions

A session answers each of its lines as a run on a file answers the text of that line.  A line leaves
nothing behind but its number.
-/

namespace ScriptFront

namespace Text

/-! ## Texts without blanks at their ends -/

theorem trimmed_eq (text : List Char) :
    trimmed text = (text.dropWhile isBlank).rdropWhile isBlank := rfl

theorem trimmed_infix (text : List Char) : trimmed text <:+: text := by
  rw [trimmed_eq]
  exact (List.rdropWhile_prefix _ _).isInfix.trans (List.dropWhile_suffix _).isInfix

theorem isBlank_getLast?_trimmed {text : List Char} {last : Char}
    (isLast : (trimmed text).getLast? = some last) : isBlank last = false := by
  rcases List.getLast?_eq_some_iff.1 isLast with ⟨front, whole⟩
  have filled : (text.dropWhile isBlank).rdropWhile isBlank ≠ [] := by
    rw [← trimmed_eq, whole]
    simp
  have notBlank := List.rdropWhile_last_not isBlank (text.dropWhile isBlank) filled
  simp only [← trimmed_eq, whole, List.getLast_concat, Bool.not_eq_true] at notBlank
  exact notBlank

/-- The blanks behind the last newline go with it. -/
theorem newline_not_mem_trimmed {text : List Char}
    (isLast : ∀ front behind, text = front ++ '\n' :: behind → behind = []) :
    '\n' ∉ trimmed text := by
  intro member
  rcases List.mem_iff_append.1 member with ⟨front, behind, isTrimmed⟩
  rcases trimmed_infix text with ⟨before, after, whole⟩
  have nothing : behind ++ after = [] := by
    refine isLast (before ++ front) (behind ++ after) ?_
    rw [← whole, isTrimmed]
    simp
  have isEnd : (trimmed text).getLast? = some '\n' := by
    rw [isTrimmed, (List.append_eq_nil_iff.1 nothing).1, List.getLast?_concat]
  exact absurd (isBlank_getLast?_trimmed isEnd) (by decide)

end Text

/-! ## Lines of an input -/

/-- A newline stands only at the end of a line. -/
theorem newline_last_of_inputLines
    {bytes line front behind : List UInt8} (isLine : line ∈ inputLines bytes)
    (whole : line = front ++ 10 :: behind) : behind = [] := by
  induction bytes generalizing line front with
  | nil => cases isLine
  | cons byte rest inductionHypothesis =>
      rw [inputLines] at isLine
      split at isLine
      · rename_i isNewline
        rcases List.mem_cons.1 isLine with rfl | isFurther
        · cases front with
          | nil => exact (List.cons.inj whole).2.symm
          | cons head tail => simp at whole
        · exact inductionHypothesis isFurther whole
      · rename_i goesOn
        cases further : inputLines rest with
        | nil =>
            rw [further] at isLine
            obtain rfl := List.mem_singleton.1 isLine
            cases front with
            | nil => exact absurd (List.cons.inj whole).1 goesOn
            | cons head tail => simp at whole
        | cons next others =>
            rw [further] at isLine
            rcases List.mem_cons.1 isLine with rfl | isFurther
            · cases front with
              | nil => exact absurd (List.cons.inj whole).1 goesOn
              | cons head tail =>
                  obtain ⟨-, isNext⟩ := List.cons.inj whole
                  exact inductionHypothesis (further ▸ List.mem_cons_self) isNext
            · exact inductionHypothesis (further ▸ List.mem_cons_of_mem next isFurther) whole

theorem toByteArray_of_fromUTF8? {bytes : ByteArray} {text : String}
    (decoded : String.fromUTF8? bytes = some text) : text.toByteArray = bytes := by
  unfold String.fromUTF8? at decoded
  split at decoded
  · obtain rfl := Option.some.inj decoded
    rfl
  · cases decoded

theorem fromUTF8?_toUTF8 (text : String) : String.fromUTF8? text.toUTF8 = some text := by
  simp only [String.fromUTF8?, String.toUTF8_eq_toByteArray, dif_pos text.isValidUTF8]
  rfl

theorem bytes_of_fromUTF8? {line : List UInt8} {text : String}
    (decoded : String.fromUTF8? ⟨line.toArray⟩ = some text) :
    line = text.toList.flatMap String.utf8EncodeChar := by
  have encoded := toByteArray_of_fromUTF8? decoded
  rw [← String.ofList_toList (s := text), String.toByteArray_ofList, List.utf8Encode] at encoded
  have data := congrArg (fun bytes => bytes.data.toList) encoded
  simpa using data.symm

/-- The texts of the lines of an input, where they are texts. -/
def decodedLines (input : ByteArray) : List (Option String) :=
  (inputLines input.toList).map fun line => String.fromUTF8? ⟨line.toArray⟩

theorem newline_not_mem_trim {input : ByteArray} {text : String}
    (isLine : some text ∈ decodedLines input) : '\n' ∉ (Text.trim text).toList := by
  rcases List.mem_map.1 isLine with ⟨line, member, decoded⟩
  rw [Text.trim, String.toList_ofList]
  refine Text.newline_not_mem_trimmed ?_
  intro front behind whole
  have isBytes := bytes_of_fromUTF8? decoded
  rw [whole, List.flatMap_append, List.flatMap_cons] at isBytes
  have nothing : behind.flatMap String.utf8EncodeChar = [] :=
    newline_last_of_inputLines member isBytes
  cases behind with
  | nil => rfl
  | cons next others =>
      rw [List.flatMap_cons, List.append_eq_nil_iff] at nothing
      have size := String.length_utf8EncodeChar next
      rw [nothing.1] at size
      exact absurd next.utf8Size_pos (by simp [← size])

/-! ## A line and a file that holds it -/

theorem Source.lines_append_newline
    {text : String} (single : '\n' ∉ text.toList) (filled : text ≠ "")
    (noReturn : text.toList.getLast? ≠ some '\r') : lines (text ++ "\n") = lines text := by
  have isList : (text ++ "\n").toList = text.toList ++ ['\n'] := String.toList_append
  have filledList : text.toList ≠ [] := fun isNil => filled (String.toList_eq_nil_iff.1 isNil)
  rw [lines, lines, isList, linesOf_of_single_newline single noReturn,
    linesOf_of_single single filledList]

/-- A report shows no more than the lines of a text. -/
theorem Fault.report_congr
    (coloured : Bool) (fault : Fault) {text other : String}
    (sameLines : Source.lines text = Source.lines other) :
    fault.report coloured (some text) = fault.report coloured (some other) := by
  have sameExcerpt (width : Nat) (location : Location) :
      excerpt coloured width text location = excerpt coloured width other location := by
    unfold excerpt
    rw [sameLines]
  unfold report
  simp only [sameExcerpt]

/-- The line with a newline behind it, shown with or without that newline. -/
theorem answerLine_trim
    (coloured : Bool) {line : String} (single : '\n' ∉ (Text.trim line).toList)
    (filled : Text.trim line ≠ "") :
    answerLine coloured (Text.trim line) =
      printTree coloured "<repl>" (Text.trim line ++ "\n") (Text.trim line ++ "\n") := by
  have noReturn : (Text.trim line).toList.getLast? ≠ some '\r' := by
    intro isReturn
    rw [Text.trim, String.toList_ofList] at isReturn
    exact absurd (Text.isBlank_getLast?_trimmed isReturn) (by decide)
  have sameLines := Source.lines_append_newline single filled noReturn
  unfold answerLine printTree Transcript.ofResult
  cases parse (Text.trim line ++ "\n") (some "<repl>") with
  | ok nodes => rfl
  | error fault => exact congrArg Transcript.failure (fault.report_congr coloured sameLines.symm)

/-- The run on a file that holds the line and a newline, under the name that lines have in
reports. -/
def fileRun (coloured : Bool) (line : String) : Transcript :=
  run ⟨[("<repl>", (line ++ "\n").toUTF8)], .empty, coloured⟩ ["<repl>"]

theorem fileRun_eq (coloured : Bool) (line : String) :
    fileRun coloured line = printTree coloured "<repl>" (line ++ "\n") (line ++ "\n") := by
  have asked : Request.ofWords ["<repl>"] = .printTree "<repl>" := by decide
  have content : Surroundings.read ⟨[("<repl>", (line ++ "\n").toUTF8)], .empty, coloured⟩ "<repl>" =
      .ok (line ++ "\n") := by
    simp only [Surroundings.read, Folder.ofContents, List.map_cons, List.lookup_cons_self,
      fromUTF8?_toUTF8]
  rw [fileRun, run, asked, Request.run, Surroundings.withFile, content]

/-! ## Lines of a session -/

/-- How many of the lines are not blank. -/
def filledLines (lines : List String) : Nat := lines.countP (· ≠ "")

/-- What a session writes from a number on for lines of which none ends it: each line is answered as
a file is that holds it, behind a prompt with the number it has if it is not blank. -/
def sessionTranscript (coloured : Bool) (number : Nat) (lines : List String) : Transcript where
  output :=
    String.join (lines.mapIdx fun place line =>
      "rubby:" ++ toString (number + filledLines (lines.take place)) ++ " > " ++
        if line = "" then "" else (fileRun coloured line).output) ++
      "rubby:" ++ toString (number + filledLines lines) ++ " > " ++ "\nGoodbye!\n"
  diagnostics :=
    String.join ((lines.filter (· ≠ "")).map fun line => (fileRun coloured line).diagnostics)
  code := 0

/-- The lines before the first one that asks for the end. -/
def linesAnswered (texts : List String) : List String :=
  (texts.map Text.trim).takeWhile fun line => line ≠ "exit" ∧ line ≠ "quit"

variable {coloured : Bool} {number : Nat} {line : String} {lines : List String}

theorem sessionTranscript_code : (sessionTranscript coloured number lines).code = 0 := rfl

@[simp]
theorem filledLines_nil : filledLines [] = 0 := rfl

@[simp]
theorem filledLines_blank : filledLines ("" :: lines) = filledLines lines := rfl

theorem filledLines_filled (filled : line ≠ "") :
    filledLines (line :: lines) = filledLines lines + 1 := by
  simp [filledLines, filled]

theorem farewell_eq : farewell = "\nGoodbye!\n" := by decide

theorem session_nil : session coloured number [] = sessionTranscript coloured number [] := by
  simp [session, sessionTranscript, farewell_eq, Transcript.success, prompt]

theorem session_leave {lines : List SessionLine} :
    session coloured number (.leave :: lines) = sessionTranscript coloured number [] := by
  simp [session, SessionLine.answer, sessionTranscript, farewell_eq, Transcript.success,
    Transcript.preceded, prompt]

theorem session_blank {lines : List SessionLine} :
    session coloured number (.blank :: lines) =
      (session coloured number lines).preceded (prompt number) "" := by
  rw [session, SessionLine.answer, String.append_empty]

theorem session_source {text : String} {lines : List SessionLine} :
    session coloured number (.source text :: lines) =
      (session coloured (number + 1) lines).preceded
        (prompt number ++ (answerLine coloured text).output)
        (answerLine coloured text).diagnostics := by
  rw [session, SessionLine.answer]

theorem sessionTranscript_blank :
    sessionTranscript coloured number ("" :: lines) =
      (sessionTranscript coloured number lines).preceded (prompt number) "" := by
  simp [sessionTranscript, Transcript.preceded, prompt, List.mapIdx_cons, String.append_assoc]

theorem sessionTranscript_filled (filled : line ≠ "") :
    sessionTranscript coloured number (line :: lines) =
      (sessionTranscript coloured (number + 1) lines).preceded
        (prompt number ++ (fileRun coloured line).output)
        (fileRun coloured line).diagnostics := by
  have shifted (others : List String) :
      number + filledLines (line :: others) = number + 1 + filledLines others := by
    rw [filledLines_filled filled, Nat.add_right_comm, Nat.add_assoc]
  simp [sessionTranscript, Transcript.preceded, prompt, List.mapIdx_cons, shifted, filled,
    String.append_assoc]

/-! ## Sessions line by line -/

theorem session_map_ofText
    {texts : List String} (single : ∀ text ∈ texts, '\n' ∉ (Text.trim text).toList) :
    session coloured number (texts.map SessionLine.ofText) =
      sessionTranscript coloured number (linesAnswered texts) := by
  induction texts generalizing number with
  | nil => exact session_nil
  | cons text others inductionHypothesis =>
      rcases List.forall_mem_cons.1 single with ⟨isSingle, othersSingle⟩
      have further (number : Nat) : session coloured number (others.map SessionLine.ofText) =
          sessionTranscript coloured number (linesAnswered others) :=
        inductionHypothesis othersSingle
      have answered : linesAnswered (text :: others) =
          if Text.trim text ≠ "exit" ∧ Text.trim text ≠ "quit" then
            Text.trim text :: linesAnswered others
          else [] := by
        simp [linesAnswered, List.takeWhile_cons]
      rw [List.map_cons, answered]
      by_cases leaves : Text.trim text = "exit" ∨ Text.trim text = "quit"
      · have isLeave : SessionLine.ofText text = .leave := by
          simp [SessionLine.ofText, leaves]
        have stops : ¬(Text.trim text ≠ "exit" ∧ Text.trim text ≠ "quit") :=
          fun goesOn => leaves.elim goesOn.1 goesOn.2
        rw [if_neg stops, isLeave, session_leave]
      · have goesOn := not_or.1 leaves
        rw [if_pos goesOn]
        by_cases isBlank : Text.trim text = ""
        · have isLine : SessionLine.ofText text = .blank := by
            simp [SessionLine.ofText, isBlank]
          rw [isLine, isBlank, sessionTranscript_blank, session_blank, further]
        · have isLine : SessionLine.ofText text = .source (Text.trim text) := by
            simp [SessionLine.ofText, leaves, isBlank]
          rw [isLine, sessionTranscript_filled isBlank, session_source, further, fileRun_eq,
            answerLine_trim coloured isSingle isBlank]

/-- Lines before others write their own part, whatever follows. -/
theorem sessionTranscript_append (before : List String) :
    ∃ output diagnostics, ∀ later, sessionTranscript coloured number (before ++ later) =
      (sessionTranscript coloured (number + filledLines before) later).preceded
        output diagnostics := by
  induction before generalizing number with
  | nil => exact ⟨"", "", fun later => by simp [Transcript.preceded]⟩
  | cons line others inductionHypothesis =>
      by_cases isBlank : line = ""
      · rcases @inductionHypothesis number with ⟨output, diagnostics, behind⟩
        refine ⟨prompt number ++ output, diagnostics, fun later => ?_⟩
        rw [isBlank, List.cons_append, sessionTranscript_blank, behind, filledLines_blank]
        simp [Transcript.preceded, String.append_assoc]
      · rcases @inductionHypothesis (number + 1) with ⟨output, diagnostics, behind⟩
        refine ⟨prompt number ++ (fileRun coloured line).output ++ output,
          (fileRun coloured line).diagnostics ++ diagnostics, fun later => ?_⟩
        rw [List.cons_append, sessionTranscript_filled isBlank, behind, filledLines_filled isBlank,
          Nat.add_right_comm, Nat.add_assoc]
        simp [Transcript.preceded, String.append_assoc]

theorem run_eq_sessionTranscript
    {surroundings : Surroundings} {texts : List String}
    (readable : decodedLines surroundings.input = texts.map some) :
    run surroundings [] =
      (sessionTranscript surroundings.coloured 1 (linesAnswered texts)).preceded
        "Rubby v0.1.0 - Parser REPL\nType 'exit' to quit\n\n" "" := by
  have single : ∀ text ∈ texts, '\n' ∉ (Text.trim text).toList := by
    intro text member
    have isLine : some text ∈ decodedLines surroundings.input :=
      readable ▸ List.mem_map_of_mem member
    exact newline_not_mem_trim isLine
  have areLines : sessionLines surroundings.input = texts.map SessionLine.ofText := by
    have decoded : sessionLines surroundings.input =
        (decodedLines surroundings.input).map fun line =>
          line.elim SessionLine.unreadable SessionLine.ofText := by
      rw [decodedLines, List.map_map, sessionLines]
      refine List.map_congr_left fun line _ => ?_
      rw [SessionLine.ofBytes, Function.comp_apply]
      cases String.fromUTF8? ⟨line.toArray⟩ <;> rfl
    rw [decoded, readable, List.map_map]
    rfl
  have asked : Request.ofWords [] = .session := rfl
  have greets : greeting = "Rubby v0.1.0 - Parser REPL\nType 'exit' to quit\n\n" := by decide
  rw [run, asked, Request.run, areLines, session_map_ofText single, greets]

/-- A session writes for each line what a run on a file that holds the line writes, behind a prompt
with the line's number, and a line changes what is written for later ones in their numbers only. -/
theorem run_session
    {surroundings : Surroundings} {texts : List String}
    (readable : decodedLines surroundings.input = texts.map some) :
    run surroundings [] =
        ⟨"Rubby v0.1.0 - Parser REPL\nType 'exit' to quit\n\n" ++
            (sessionTranscript surroundings.coloured 1 (linesAnswered texts)).output,
          (sessionTranscript surroundings.coloured 1 (linesAnswered texts)).diagnostics, 0⟩ ∧
      ∀ before line later, linesAnswered texts = before ++ line :: later → line ≠ "" →
        ∃ output diagnostics,
          run surroundings [] =
            ⟨output ++ "rubby:" ++ toString (1 + filledLines before) ++ " > " ++
                (fileRun surroundings.coloured line).output ++
                (sessionTranscript surroundings.coloured (1 + filledLines before + 1) later).output,
              diagnostics ++ (fileRun surroundings.coloured line).diagnostics ++
                (sessionTranscript surroundings.coloured (1 + filledLines before + 1)
                  later).diagnostics, 0⟩ ∧
          ∀ other otherTexts, other.coloured = surroundings.coloured →
            decodedLines other.input = otherTexts.map some →
            linesAnswered otherTexts = before ++ later →
            run other [] =
              ⟨output ++
                  (sessionTranscript surroundings.coloured (1 + filledLines before) later).output,
                diagnostics ++
                  (sessionTranscript surroundings.coloured (1 + filledLines before)
                    later).diagnostics, 0⟩ := by
  constructor
  · rw [run_eq_sessionTranscript readable]
    simp [Transcript.preceded, sessionTranscript_code]
  intro before line later areLines filled
  rcases sessionTranscript_append before with ⟨output, diagnostics, behind⟩
  refine ⟨"Rubby v0.1.0 - Parser REPL\nType 'exit' to quit\n\n" ++ output, diagnostics, ?_, ?_⟩
  · rw [run_eq_sessionTranscript readable, areLines, behind, sessionTranscript_filled filled]
    simp [Transcript.preceded, prompt, sessionTranscript_code, String.append_assoc]
  · intro other otherTexts sameColour otherReadable otherLines
    rw [run_eq_sessionTranscript otherReadable, otherLines, sameColour, behind]
    simp [Transcript.preceded, sessionTranscript_code, String.append_assoc]

/-- Blank lines, a line that fails behind its last character, and one behind the end; and the same
without the line that fails. -/
theorem run_session_failing_line :
    ∃ surroundings other texts otherTexts,
      surroundings.input = "  f(\r\n\t\n[1]\n exit\ny".toUTF8 ∧
      other.input = "\n[1] ".toUTF8 ∧ other.coloured = surroundings.coloured ∧
      texts = ["  f(\r\n", "\t\n", "[1]\n", " exit\n", "y"] ∧ otherTexts = ["\n", "[1] "] ∧
      decodedLines surroundings.input = texts.map some ∧
      decodedLines other.input = otherTexts.map some ∧
      linesAnswered texts = ["f(", "", "[1]"] ∧ linesAnswered otherTexts = ["", "[1]"] ∧
      (fileRun false "f(").code = 1 ∧ (fileRun false "[1]").code = 0 ∧
      run surroundings [] =
        ⟨"Rubby v0.1.0 - Parser REPL\nType 'exit' to quit\n\n" ++
            "rubby:1 > " ++ "rubby:2 > " ++
            "rubby:2 > ArrayLit(\n    [\n        IntegerLit(\n            1,\n        ),\n    ],\n)\n" ++
            "rubby:3 > \nGoodbye!\n",
          "Parse Error: Expected expression, found newline\n  --> <repl>:1:3\n  1 f(\n      ^\n" ++
            "  = expected one of: expression\n", 0⟩ ∧
      run surroundings [] =
        ⟨"Rubby v0.1.0 - Parser REPL\nType 'exit' to quit\n\n" ++
            (sessionTranscript false 1 ["f(", "", "[1]"]).output,
          (sessionTranscript false 1 ["f(", "", "[1]"]).diagnostics, 0⟩ ∧
      ∃ output diagnostics,
        run surroundings [] =
          ⟨output ++ "rubby:" ++ toString 1 ++ " > " ++ (fileRun false "f(").output ++
              (sessionTranscript false 2 ["", "[1]"]).output,
            diagnostics ++ (fileRun false "f(").diagnostics ++
              (sessionTranscript false 2 ["", "[1]"]).diagnostics, 0⟩ ∧
        run other [] =
          ⟨output ++ (sessionTranscript false 1 ["", "[1]"]).output,
            diagnostics ++ (sessionTranscript false 1 ["", "[1]"]).diagnostics, 0⟩ := by
  let surroundings : Surroundings :=
    ⟨Folder.ofContents [], "  f(\r\n\t\n[1]\n exit\ny".toUTF8, false⟩
  let other : Surroundings := ⟨Folder.ofContents [], "\n[1] ".toUTF8, false⟩
  let texts := ["  f(\r\n", "\t\n", "[1]\n", " exit\n", "y"]
  let otherTexts := ["\n", "[1] "]
  have readable : decodedLines surroundings.input = texts.map some := by decide +kernel
  have otherReadable : decodedLines other.input = otherTexts.map some := by decide +kernel
  have areLines : linesAnswered texts = ["f(", "", "[1]"] := by decide +kernel
  have otherLines : linesAnswered otherTexts = ["", "[1]"] := by decide +kernel
  have answered := run_session readable
  have first := answered.2 [] "f(" ["", "[1]"] areLines (by decide)
  rcases first with ⟨output, diagnostics, whole, others⟩
  refine ⟨surroundings, other, texts, otherTexts, rfl, rfl, rfl, rfl, rfl, readable, otherReadable,
    areLines, otherLines, ?_, ?_, ?_, ?_, output, diagnostics, whole, ?_⟩
  · decide +kernel
  · decide +kernel
  · decide +kernel
  · rw [← areLines]
    exact answered.1
  · exact others other otherTexts rfl otherReadable otherLines

end ScriptFront
