import ScriptFront.Token.Move

/-!
Every step of reading covers the front of the text it is given, and the steps of a text come to an
end: a step that gives no token passes a quote, and a step that gives a token either covers a
character or reads a piece of a string that was still to be read.
-/

namespace ScriptFront

namespace Lexeme

theorem spacing_append (input : List Char) :
    (spacing input).text ++ (spacing input).rest = input :=
  List.takeWhile_append_dropWhile

theorem comment_append (input : List Char) :
    (comment input).text ++ (comment input).rest = input :=
  List.takeWhile_append_dropWhile

theorem constant_append (input : List Char) :
    (constant input).text ++ (constant input).rest = input :=
  List.takeWhile_append_dropWhile

theorem name_append (input : List Char) :
    (name input).text ++ (name input).rest = input := by
  simp only [name, List.append_assoc, nameMark_append_drop]
  exact List.takeWhile_append_dropWhile

theorem isWordChar_of_isNameStart {first : Char} (start : isNameStart first) :
    isWordChar first := by
  simp only [isNameStart, isWordChar, Bool.or_eq_true] at start ⊢
  rcases start with lower | underscore
  · exact Or.inl (Or.inl (Or.inl lower))
  · exact Or.inr underscore

theorem isWordChar_of_isUpper {first : Char} (upper : first.isUpper) : isWordChar first := by
  simp [isWordChar, upper]

end Lexeme

namespace ModeStack

variable {modes after : ModeStack} {input : List Char} {lexeme : Lexeme}

/-! ## The text of a step -/

theorem numberMove_covers {reading : Numeral.Reading}
    (whole : reading.text ++ reading.rest = input) :
    (modes.numberMove reading).Covers input := by
  unfold numberMove
  split
  · exact whole
  · trivial

theorem signMove_covers {sign : Sign} {rest : List Char} (whole : sign.text ++ rest = input) :
    (modes.signMove sign rest).Covers input := by
  unfold signMove
  split <;> (try split) <;> exact whole

theorem codeMove_covers (modes : ModeStack) (input : List Char) :
    (modes.codeMove input).Covers input := by
  unfold codeMove
  split
  · split <;> simp [Move.Covers]
  · simp [Move.Covers]
  · simp [Move.Covers]
  · simp [Move.Covers]
  · exact Lexeme.comment_append _
  · rename_i first rest _ _ _ _
    split
    · exact Lexeme.spacing_append _
    split
    · exact numberMove_covers (Numeral.read_append _)
    split
    · exact Lexeme.name_append _
    split
    · exact Lexeme.constant_append _
    split
    · trivial
    · rename_i sign found
      obtain ⟨behind, whole⟩ := Sign.atFront?_isPrefix found
      refine signMove_covers ?_
      rw [← whole]
      simp

theorem segmentMove_covers {segment? : Option Segment}
    (whole : ∀ segment, segment? = some segment → segment.text ++ segment.rest = input) :
    (modes.segmentMove segment?).Covers input := by
  cases segment? with
  | none => trivial
  | some segment => exact whole segment rfl

/-- A step covers the front of its text and leaves the rest. -/
theorem move_covers (modes : ModeStack) (input : List Char) :
    (modes.move input).Covers input := by
  unfold move
  split
  · exact codeMove_covers modes input
  · unfold plainMove
    split
    · exact segmentMove_covers fun _ => Segment.plain?_append
    · split <;> simp [Move.Covers]
  · unfold richMove
    split
    · exact segmentMove_covers fun _ => Segment.rich?_append
    · split <;> simp [Move.Covers]
  · unfold commentMove
    split <;> simp [Move.Covers]

/-! ## The end of reading -/

/-- Passing a quote leaves a shorter text. -/
theorem length_lt_of_quote {mark : Char} {rest : List Char}
    (step : modes.move input = .quote mark rest after) : rest.length < input.length := by
  have covered := move_covers modes input
  rw [step] at covered
  simp [← show mark :: rest = input from covered]

theorem text_eq_of_numberMove {reading : Numeral.Reading}
    (step : modes.numberMove reading = .token lexeme after) : lexeme.text = reading.text := by
  unfold numberMove at step
  split at step
  · obtain ⟨rfl, -⟩ := Move.token.inj step
    rfl
  · simp at step

theorem text_eq_of_signMove {sign : Sign} {rest : List Char}
    (step : modes.signMove sign rest = .token lexeme after) : lexeme.text = sign.text := by
  unfold signMove at step
  split at step <;> try split at step
  all_goals
    obtain ⟨rfl, -⟩ := Move.token.inj step
    rfl

theorem codeMove_text_ne_nil (step : modes.codeMove input = .token lexeme after)
    (more : lexeme.kind ≠ .endOfInput) : lexeme.text ≠ [] := by
  unfold codeMove at step
  split at step
  · split at step
    · simp at step
    · obtain ⟨rfl, -⟩ := Move.token.inj step
      exact absurd rfl more
  · obtain ⟨rfl, -⟩ := Move.token.inj step
    simp
  · simp at step
  · simp at step
  · obtain ⟨rfl, -⟩ := Move.token.inj step
    simp [Lexeme.comment]
  · rename_i first rest _ _ _ _
    split at step
    · rename_i blank
      obtain ⟨rfl, -⟩ := Move.token.inj step
      simp [Lexeme.spacing, blank]
    split at step
    · rename_i digit
      rw [text_eq_of_numberMove step]
      exact Numeral.read_text_ne_nil digit
    split at step
    · rename_i start
      obtain ⟨rfl, -⟩ := Move.token.inj step
      simp [Lexeme.name, Lexeme.isWordChar_of_isNameStart start]
    split at step
    · rename_i upper
      obtain ⟨rfl, -⟩ := Move.token.inj step
      simp [Lexeme.constant, Lexeme.isWordChar_of_isUpper upper]
    split at step
    · simp at step
    · rename_i sign found
      rw [text_eq_of_signMove step]
      exact Sign.text_ne_nil (Sign.atFront?_mem found)

theorem pending_le_one (modes : ModeStack) : modes.pending ≤ 1 := by
  unfold pending
  cases modes.top.segmentOpen <;> decide

/-- A token that covers a character leaves less to be read. -/
theorem pending_lt_of_text_ne_nil (covered : lexeme.text ++ lexeme.rest = input)
    (text : lexeme.text ≠ []) :
    2 * lexeme.rest.length + after.pending < 2 * input.length + modes.pending := by
  have bound := pending_le_one after
  have positive := List.length_pos_iff.2 text
  subst covered
  simp only [List.length_append]
  omega

/-- A piece of a string may be empty, but it is then no longer to be read. -/
theorem pending_lt_of_segmentMove {segment? : Option Segment} (isOpen : modes.top.segmentOpen)
    (whole : ∀ segment, segment? = some segment → segment.text ++ segment.rest = input)
    (step : modes.segmentMove segment? = .token lexeme after) :
    2 * lexeme.rest.length + after.pending < 2 * input.length + modes.pending := by
  cases segment? with
  | none => simp [segmentMove] at step
  | some segment =>
    obtain ⟨rfl, rfl⟩ := Move.token.inj step
    simp only [pending, setSegmentOpen, isOpen, ← whole segment rfl, List.length_append]
    simp only [Bool.toNat_false, Bool.toNat_true]
    omega

/-- What a token leaves to be read is less than what was to be read before it, until the input
ends. -/
theorem pending_lt_of_token (step : modes.move input = .token lexeme after)
    (more : lexeme.kind ≠ .endOfInput) :
    2 * lexeme.rest.length + after.pending < 2 * input.length + modes.pending := by
  have covered := move_covers modes input
  rw [step] at covered
  unfold move at step
  split at step
  · exact pending_lt_of_text_ne_nil covered (codeMove_text_ne_nil step more)
  · unfold plainMove at step
    split at step
    · rename_i isOpen
      exact pending_lt_of_segmentMove isOpen (fun _ => Segment.plain?_append) step
    · split at step <;> simp at step
  · unfold richMove at step
    split at step
    · rename_i isOpen
      exact pending_lt_of_segmentMove isOpen (fun _ => Segment.rich?_append) step
    · split at step
      · simp at step
      · obtain ⟨rfl, -⟩ := Move.token.inj step
        exact pending_lt_of_text_ne_nil covered (by simp)
      · simp at step
  · unfold commentMove at step
    split at step
    · obtain ⟨rfl, -⟩ := Move.token.inj step
      exact pending_lt_of_text_ne_nil covered (by simp)
    · simp at step

end ModeStack

end ScriptFront
