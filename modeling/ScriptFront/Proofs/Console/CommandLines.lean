import Mathlib.Data.List.Basic
import ScriptFront.Console.Run

/-!
# Command lines

The words of a command line are noted one after the other, up to the first unknown flag.  Of words
that are all known there remains whether the tokens or the help are asked for, and the file that was
named last.  A run that answers them writes its whole result, or only why there is none.
-/

namespace ScriptFront

/-! ## Flags and files -/

def tokensFlags : List String := ["--tokens", "-t"]

def treeFlags : List String := ["--ast", "-a"]

def helpFlags : List String := ["--help", "-h"]

def knownFlags : List String := tokensFlags ++ treeFlags ++ helpFlags

/-- A word that starts with a minus sign. -/
def IsFlag (word : String) : Prop := word.toList.head? = some '-'

instance : DecidablePred IsFlag := fun word =>
  inferInstanceAs (Decidable (word.toList.head? = some '-'))

/-- No word is an unknown flag. -/
def AreKnown (words : List String) : Prop := ∀ word ∈ words, IsFlag word → word ∈ knownFlags

/-- The file that counts. -/
def lastFile? (words : List String) : Option String := (words.filter (¬IsFlag ·)).getLast?

theorem known_or_first_unknown (words : List String) :
    AreKnown words ∨ ∃ before flag behind, words = before ++ flag :: behind ∧
      AreKnown before ∧ IsFlag flag ∧ flag ∉ knownFlags := by
  cases found : words.find? fun word => IsFlag word ∧ word ∉ knownFlags with
  | none => exact Or.inl (by simpa [AreKnown] using found)
  | some flag =>
      rcases List.find?_eq_some_iff_append.1 found with ⟨isUnknown, before, behind, whole, known⟩
      rcases of_decide_eq_true isUnknown with ⟨isFlag, unknown⟩
      refine Or.inr ⟨before, flag, behind, whole, ?_, isFlag, unknown⟩
      simpa [AreKnown, imp_iff_not_or] using known

theorem lastFile?_cons (word : String) (words : List String) :
    lastFile? (word :: words) = (lastFile? words).or (if IsFlag word then none else some word) := by
  unfold lastFile?
  by_cases isFlag : IsFlag word
  · simp [isFlag]
  · simp [isFlag, List.getLast?_cons]

namespace CommandWord

variable {word : String}

theorem ofWord_of_known :
    ∀ word ∈ knownFlags, IsFlag word ∧ ofWord word ≠ .unknownFlag ∧ ofWord word ≠ .file := by
  decide

theorem ofWord_of_not_known (notKnown : word ∉ knownFlags) :
    ofWord word = if IsFlag word then .unknownFlag else .file := by
  simp only [knownFlags, tokensFlags, treeFlags, helpFlags, List.cons_append, List.nil_append,
    List.mem_cons, List.not_mem_nil, or_false, not_or] at notKnown
  rcases notKnown with ⟨noTokens, noT, noTree, noA, noHelp, noH⟩
  by_cases isFlag : IsFlag word
  · rw [if_pos isFlag]
    rw [IsFlag] at isFlag
    simp [ofWord, noTokens, noT, noTree, noA, noHelp, noH, isFlag]
  · rw [if_neg isFlag]
    rw [IsFlag] at isFlag
    simp [ofWord, noTokens, noT, noTree, noA, noHelp, noH, isFlag]

theorem ofWord_eq_unknownFlag_iff :
    ofWord word = .unknownFlag ↔ IsFlag word ∧ word ∉ knownFlags := by
  by_cases known : word ∈ knownFlags
  · have notUnknown := (ofWord_of_known word known).2.1
    simp [known, notUnknown]
  · rw [ofWord_of_not_known known]
    simp [known]

theorem ofWord_eq_file_iff : ofWord word = .file ↔ ¬IsFlag word := by
  by_cases known : word ∈ knownFlags
  · rcases ofWord_of_known word known with ⟨isFlag, -, notFile⟩
    simp [isFlag, notFile]
  · rw [ofWord_of_not_known known]
    simp

theorem ofWord_eq_iff
    {meaning : CommandWord} {flags : List String} (areKnown : flags ⊆ knownFlags)
    (isKnown : meaning ≠ .unknownFlag ∧ meaning ≠ .file)
    (amongKnown : ∀ word ∈ knownFlags, ofWord word = meaning ↔ word ∈ flags) :
    ofWord word = meaning ↔ word ∈ flags := by
  by_cases known : word ∈ knownFlags
  · exact amongKnown word known
  · have absent : word ∉ flags := fun member => known (areKnown member)
    rw [ofWord_of_not_known known]
    split_ifs
    · simp [absent, isKnown.1.symm]
    · simp [absent, isKnown.2.symm]

theorem ofWord_eq_tokensFlag_iff : ofWord word = .tokensFlag ↔ word ∈ tokensFlags :=
  ofWord_eq_iff (by decide) (by decide) (by decide)

theorem ofWord_eq_helpFlag_iff : ofWord word = .helpFlag ↔ word ∈ helpFlags :=
  ofWord_eq_iff (by decide) (by decide) (by decide)

end CommandWord

/-! ## Words one after the other -/

/-- What the words of a command line have asked for so far. -/
structure Notes where
  tokens : Bool
  help : Bool
  file? : Option String

namespace Notes

def blank : Notes := ⟨false, false, none⟩

/-- Notes a word, unless it is an unknown flag. -/
def note (notes : Notes) (word : String) : Except String Notes :=
  match CommandWord.ofWord word with
  | .tokensFlag => .ok { notes with tokens := true }
  | .treeFlag => .ok notes
  | .helpFlag => .ok { notes with help := true }
  | .unknownFlag => .error word
  | .file => .ok { notes with file? := some word }

/-- What is to be done in the end. -/
def request (notes : Notes) : Request :=
  if notes.help then .help
  else
    match notes.file? with
    | none => .rejectNoFile
    | some file => if notes.tokens then .listTokens file else .printTree file

/-- What words ask for that are known, in whichever order. -/
def ofWords (words : List String) : Notes where
  tokens := words.any (· ∈ tokensFlags)
  help := words.any (· ∈ helpFlags)
  file? := lastFile? words

variable {notes : Notes} {word flag : String} {words : List String}

theorem request_ne_session : notes.request ≠ .session := by
  unfold request
  cases notes.file? <;> split_ifs <;> exact Request.noConfusion

theorem note_of_known (known : IsFlag word → word ∈ knownFlags) :
    notes.note word = .ok
      { tokens := notes.tokens || decide (word ∈ tokensFlags)
        help := notes.help || decide (word ∈ helpFlags)
        file? := if IsFlag word then notes.file? else some word } := by
  have notUnknown : CommandWord.ofWord word ≠ .unknownFlag := by
    intro isUnknown
    rcases CommandWord.ofWord_eq_unknownFlag_iff.1 isUnknown with ⟨isFlag, unknown⟩
    exact unknown (known isFlag)
  -- What is noted is said by the meaning of the word, on which the cases are split.
  simp only [← CommandWord.ofWord_eq_tokensFlag_iff, ← CommandWord.ofWord_eq_helpFlag_iff,
    ← ite_not (IsFlag word), ← CommandWord.ofWord_eq_file_iff]
  unfold note
  cases meaning : CommandWord.ofWord word with
  | unknownFlag => exact absurd meaning notUnknown
  | tokensFlag | treeFlag | helpFlag | file => simp

theorem note_of_unknown (isFlag : IsFlag flag) (unknown : flag ∉ knownFlags) :
    notes.note flag = .error flag := by
  rw [note, CommandWord.ofWord_eq_unknownFlag_iff.2 ⟨isFlag, unknown⟩]

/-- Flags add up, and a file takes the place of the one before it. -/
theorem foldlM_note_of_known (known : AreKnown words) :
    words.foldlM note notes = .ok
      { tokens := notes.tokens || words.any (· ∈ tokensFlags)
        help := notes.help || words.any (· ∈ helpFlags)
        file? := (lastFile? words).or notes.file? } := by
  -- What is noted grows with each word, so it is kept general.
  induction words generalizing notes with
  | nil => simp [lastFile?, pure, Except.pure]
  | cons word others inductionHypothesis =>
      rcases List.forall_mem_cons.1 known with ⟨isKnown, othersKnown⟩
      rw [List.foldlM_cons, note_of_known isKnown]
      refine (inductionHypothesis othersKnown).trans ?_
      rw [lastFile?_cons]
      split_ifs <;> simp [Bool.or_assoc]

theorem foldlM_note_blank (known : AreKnown words) :
    words.foldlM note blank = .ok (ofWords words) := by
  rw [foldlM_note_of_known known]
  simp [ofWords, blank]

/-- The first unknown flag is reported, whatever follows it. -/
theorem foldlM_note_of_unknown
    (known : AreKnown words) (isFlag : IsFlag flag) (unknown : flag ∉ knownFlags)
    (others : List String) : (words ++ flag :: others).foldlM note notes = .error flag := by
  rw [List.foldlM_append, foldlM_note_of_known known]
  show (flag :: others).foldlM note _ = _
  rw [List.foldlM_cons, note_of_unknown isFlag unknown]
  rfl

end Notes

namespace Request

variable {flag : String} {words : List String}

theorem ofWords_of_known (given : words ≠ []) (known : AreKnown words) :
    ofWords words = (Notes.ofWords words).request := by
  have allKnown : words.find? (CommandWord.ofWord · = .unknownFlag) = none := by
    simpa [CommandWord.ofWord_eq_unknownFlag_iff, AreKnown] using known
  have notEmpty : words.isEmpty = false := List.isEmpty_eq_false_iff.2 given
  simp only [ofWords, notEmpty, allKnown, CommandWord.ofWord_eq_helpFlag_iff,
    CommandWord.ofWord_eq_file_iff, CommandWord.ofWord_eq_tokensFlag_iff]
  rfl

theorem ofWords_of_unknown
    (known : AreKnown words) (isFlag : IsFlag flag) (unknown : flag ∉ knownFlags)
    (others : List String) : ofWords (words ++ flag :: others) = .rejectFlag flag := by
  have isUnknown : CommandWord.ofWord flag = .unknownFlag :=
    CommandWord.ofWord_eq_unknownFlag_iff.2 ⟨isFlag, unknown⟩
  have first : (words ++ flag :: others).find? (CommandWord.ofWord · = .unknownFlag) =
      some flag := by
    refine List.find?_eq_some_iff_append.2 ⟨decide_eq_true isUnknown, words, others, rfl, ?_⟩
    simpa [CommandWord.ofWord_eq_unknownFlag_iff, AreKnown, imp_iff_not_or] using known
  have notEmpty : (words ++ flag :: others).isEmpty = false := by simp
  simp only [ofWords, notEmpty, first]
  rfl

/-- A command line asks for what its words ask for one after the other. -/
theorem ofWords_eq_noted (given : words ≠ []) :
    ofWords words =
      match words.foldlM Notes.note Notes.blank with
      | .error flag => .rejectFlag flag
      | .ok notes => notes.request := by
  -- Either way of reading the words stops at the first unknown flag, if there is one.
  rcases known_or_first_unknown words with
    known | ⟨before, flag, others, rfl, known, isFlag, unknown⟩
  · rw [ofWords_of_known given known, Notes.foldlM_note_blank known]
  · rw [ofWords_of_unknown known isFlag unknown, Notes.foldlM_note_of_unknown known isFlag unknown]

theorem ofWords_ne_session (given : words ≠ []) : ofWords words ≠ .session := by
  rw [ofWords_eq_noted given]
  split
  · exact Request.noConfusion
  · exact Notes.request_ne_session

end Request

/-! ## Results and refusals -/

/-- Either the output is written and nothing else, or only the reason why there is none. -/
def Transcript.AllOrNothing (transcript : Transcript) : Prop :=
  transcript.code = 0 ∧ transcript.diagnostics = "" ∨
    transcript.code = 1 ∧ transcript.output = "" ∧ transcript.diagnostics ≠ ""

namespace Transcript

theorem allOrNothing_success (output : String) : (success output).AllOrNothing :=
  Or.inl ⟨rfl, rfl⟩

theorem allOrNothing_failure {diagnostics : String} (some : diagnostics ≠ "") :
    (failure diagnostics).AllOrNothing :=
  Or.inr ⟨rfl, rfl, some⟩

end Transcript

theorem Fault.report_ne_empty (coloured : Bool) (source? : Option String) (fault : Fault) :
    fault.report coloured source? ≠ "" := by
  simp [report]

namespace Transcript

theorem allOrNothing_ofResult
    {α : Type} (coloured : Bool) (shown : String) (write : α → String)
    (result : Except Fault α) : (ofResult coloured shown write result).AllOrNothing := by
  cases result with
  | ok value => exact allOrNothing_success (write value)
  | error fault => exact allOrNothing_failure (fault.report_ne_empty coloured _)

end Transcript

theorem Surroundings.allOrNothing_withFile
    {surroundings : Surroundings} {file : String} {run : String → Transcript}
    (whole : ∀ source, (run source).AllOrNothing) :
    (surroundings.withFile file run).AllOrNothing := by
  unfold withFile
  cases surroundings.read file with
  | error reason => exact Transcript.allOrNothing_failure (by simp)
  | ok source => exact whole source

theorem Request.allOrNothing_run
    (surroundings : Surroundings) {request : Request} (noSession : request ≠ .session) :
    (request.run surroundings).AllOrNothing := by
  cases request with
  | session => exact absurd rfl noSession
  | help => exact Transcript.allOrNothing_success helpText
  | rejectFlag flag => exact Transcript.allOrNothing_failure (by simp)
  | rejectNoFile => exact Transcript.allOrNothing_failure (by simp)
  | listTokens file =>
      refine Surroundings.allOrNothing_withFile fun source => ?_
      exact Transcript.allOrNothing_ofResult _ _ _ _
  | printTree file =>
      refine Surroundings.allOrNothing_withFile fun source => ?_
      exact Transcript.allOrNothing_ofResult _ _ _ _

/-! ## Runs -/

/-- Two command lines with the same flags and the same file, as far as they count. -/
structure AskAlike (words others : List String) : Prop where
  tokens : (∃ word ∈ words, word ∈ tokensFlags) ↔ ∃ word ∈ others, word ∈ tokensFlags
  help : (∃ word ∈ words, word ∈ helpFlags) ↔ ∃ word ∈ others, word ∈ helpFlags
  file : lastFile? words = lastFile? others

theorem AskAlike.notes {words others : List String} (alike : AskAlike words others) :
    Notes.ofWords words = Notes.ofWords others := by
  have sameTokens : words.any (· ∈ tokensFlags) = others.any (· ∈ tokensFlags) := by
    rw [Bool.eq_iff_iff]
    simpa using alike.tokens
  have sameHelp : words.any (· ∈ helpFlags) = others.any (· ∈ helpFlags) := by
    rw [Bool.eq_iff_iff]
    simpa using alike.help
  rw [Notes.ofWords, Notes.ofWords, sameTokens, sameHelp, alike.file]

/-- Known words are answered by what they have asked for together. -/
theorem run_of_known
    {surroundings : Surroundings} {words : List String} (given : words ≠ [])
    (known : AreKnown words) :
    run surroundings words = (Notes.ofWords words).request.run surroundings := by
  rw [run, Request.ofWords_eq_noted given, Notes.foldlM_note_blank known]

/-- A run on a command line writes its whole result, or only the reason why there is none.  Words
that are all known ask for the help, or for the tokens or the tree of the file named last, and
nothing else about them matters. -/
theorem run_all_or_nothing
    (surroundings : Surroundings) {words : List String} (given : words ≠ []) :
    (run surroundings words).AllOrNothing ∧
      (AreKnown words →
        run surroundings words = (Notes.ofWords words).request.run surroundings ∧
        ∀ others, others ≠ [] → AreKnown others → AskAlike words others →
          run surroundings others = run surroundings words) := by
  refine ⟨Request.allOrNothing_run surroundings (Request.ofWords_ne_session given), ?_⟩
  intro known
  refine ⟨run_of_known given known, ?_⟩
  intro others othersGiven othersKnown alike
  rw [run_of_known given known, run_of_known othersGiven othersKnown, alike.notes]

/-- Flags that are moved and repeated, around a file whose tokens are sound but no program, and a file
that cannot be read. -/
theorem run_all_or_nothing_moved_flags :
    ∃ surroundings words others,
      surroundings.files.entries = [("a", .ok "1".toUTF8), ("b", .ok "f(".toUTF8),
        ("d", .error "Is a directory (os error 21)")] ∧
      words = ["-t", "a", "--ast", "b", "--tokens", "-t"] ∧ others = ["b", "--tokens"] ∧
      words ≠ [] ∧ others ≠ [] ∧ AreKnown words ∧ AreKnown others ∧ AskAlike words others ∧
      (run surroundings words).AllOrNothing ∧ (run surroundings words).code = 0 ∧
      run surroundings words = (Request.listTokens "b").run surroundings ∧
      run surroundings others = run surroundings words ∧
      (run surroundings ["b"]).AllOrNothing ∧ (run surroundings ["b"]).code = 1 ∧
      (run surroundings ["d"]).AllOrNothing ∧
      run surroundings ["d"] =
        ⟨"", "Failed to read file 'd': Is a directory (os error 21)\n", 1⟩ := by
  let surroundings : Surroundings :=
    ⟨⟨[("a", .ok "1".toUTF8), ("b", .ok "f(".toUTF8), ("d", .error "Is a directory (os error 21)")]⟩,
      .empty, false⟩
  let words := ["-t", "a", "--ast", "b", "--tokens", "-t"]
  let others := ["b", "--tokens"]
  have known : AreKnown words := by
    unfold AreKnown
    decide
  have othersKnown : AreKnown others := by
    unfold AreKnown
    decide
  have alike : AskAlike words others := ⟨by decide, by decide, by decide⟩
  have asked : (Notes.ofWords words).request = .listTokens "b" := by decide
  have listed := run_all_or_nothing surroundings (List.cons_ne_nil "-t" words.tail)
  have printed := run_all_or_nothing surroundings (List.cons_ne_nil "b" [])
  have unread := run_all_or_nothing surroundings (List.cons_ne_nil "d" [])
  have same := (listed.2 known).2 others (by decide) othersKnown alike
  refine ⟨surroundings, words, others, rfl, rfl, rfl, by decide, by decide, known, othersKnown,
    alike, listed.1, ?_, asked ▸ (listed.2 known).1, same, printed.1, ?_, unread.1, ?_⟩
  · with_unfolding_all rfl
  · with_unfolding_all rfl
  · decide

end ScriptFront
