import ScriptFront.Proofs.Token.Shape

/-!
# The number of items

A text gives an item for each of its characters at most, and one more that ends the items.  Since a
piece of a string may be empty, the characters ahead do not bound the items ahead: a piece that is
still to be read has to be counted as well, on the top of the stack and below inserted expressions.
The quote in front of a first piece pays for it, and the two characters in front of an inserted
expression pay for themselves and for the piece behind the expression.
-/

namespace ScriptFront

namespace ModeStack

/-- The pieces of strings that are still to be read. -/
def owed (modes : ModeStack) : Nat := modes.frames.countP Frame.segmentOpen

variable {modes after : ModeStack} {input : List Char}

/-! ## What the stack owes -/

theorem owed_eq (modes : ModeStack) :
    modes.owed = modes.pending + modes.below.countP Frame.segmentOpen := by
  unfold owed frames pending
  rw [List.countP_cons, Nat.add_comm]
  cases modes.top.segmentOpen <;> rfl

theorem owed_enter (modes : ModeStack) (frame : Frame) :
    (modes.enter frame).owed = frame.segmentOpen.toNat + modes.owed :=
  owed_eq _

theorem owed_setSegmentOpen (modes : ModeStack) (isOpen : Bool) :
    (modes.setSegmentOpen isOpen).owed + modes.pending = isOpen.toNat + modes.owed := by
  have before := owed_eq modes
  have behind : (modes.setSegmentOpen isOpen).owed =
      isOpen.toNat + modes.below.countP Frame.segmentOpen := owed_eq _
  omega

theorem owed_push_le (modes : ModeStack) (mode : Mode) :
    (modes.push mode).owed ≤ modes.owed + 1 := by
  have entered : (modes.push mode).owed = mode.isString.toNat + modes.owed := owed_enter modes _
  have single := Bool.toNat_le mode.isString
  omega

theorem owed_pop_le (modes : ModeStack) : modes.pop.2.owed ≤ modes.owed := by
  rcases modes with ⟨top, _ | ⟨next, others⟩⟩
  · exact Nat.le_refl _
  · have whole : (ModeStack.mk top (next :: others)).owed =
        top.segmentOpen.toNat + (ModeStack.mk next others).owed := owed_eq _
    have popped : (ModeStack.mk top (next :: others)).pop.2 = ⟨next, others⟩ := rfl
    rw [popped, whole]
    exact Nat.le_add_left _ _

/-! ## One step -/

theorem text_ne_nil_of_code
    {lexeme : Lexeme} (step : modes.move input = .token lexeme after)
    (isCode : modes.mode = .code) (more : lexeme.kind ≠ .endOfInput) : lexeme.text ≠ [] := by
  simp only [move, isCode] at step
  exact codeMove_text_ne_nil step more

theorem text_of_comment
    {lexeme : Lexeme} (step : modes.move input = .token lexeme after)
    (isComment : modes.mode = .comment) : lexeme.text = ['\n'] := by
  simp only [move, isComment, commentMove] at step
  split at step
  · obtain ⟨rfl, -⟩ := Move.token.inj step
    rfl
  · cases step

/-- Behind a piece between double quotes two characters start an inserted expression. -/
theorem text_of_insertion
    {lexeme : Lexeme} (step : modes.move input = .token lexeme after)
    (isRich : modes.mode = .richString) (isRead : modes.top.segmentOpen = false) :
    lexeme.text = ['#', '{'] := by
  simp only [move, isRich, richMove, isRead, Bool.false_eq_true, if_false] at step
  split at step
  · cases step
  · obtain ⟨rfl, -⟩ := Move.token.inj step
    rfl
  · cases step

/-- Each token spends a character or a piece that was owed. -/
theorem spends_of_token
    {lexeme : Lexeme} (step : modes.move input = .token lexeme after)
    (more : lexeme.kind ≠ .endOfInput) :
    lexeme.rest.length + after.owed < input.length + modes.owed := by
  have covered := move_covers modes input
  rw [step] at covered
  have whole : input.length = lexeme.text.length + lexeme.rest.length := by
    rw [← covered, List.length_append]
  have nonempty (isCode : modes.mode = .code) : 0 < lexeme.text.length :=
    List.length_pos_iff.2 (text_ne_nil_of_code step isCode more)
  have turns := turns_of_move step
  generalize lexeme.kind = kind at turns
  cases turns with
  | plain isCode _ | braceOpens isCode | braceCloses isCode _ | strayBrace isCode _ _ =>
      have spent := nonempty isCode
      have unchanged : lexeme.rest.length + modes.owed < input.length + modes.owed := by omega
      exact unchanged
  | insertionStarts isRich isRead =>
      have closed : modes.pending = 0 := by rw [pending, isRead, Bool.toNat_false]
      have opened := owed_setSegmentOpen modes true
      have entered : modes.pushInterpolation.owed = 0 + (modes.setSegmentOpen true).owed :=
        owed_enter _ _
      rw [text_of_insertion step isRich isRead] at whole
      simp only [List.length_cons, List.length_nil, Bool.toNat_true] at whole opened
      omega
  | insertionEnds isCode _ _ =>
      have spent := nonempty isCode
      have popped := owed_pop_le modes
      omega
  | piece _ isOpen =>
      have wasOpen : modes.pending = 1 := by rw [pending, isOpen, Bool.toNat_true]
      have closed := owed_setSegmentOpen modes false
      rw [Bool.toNat_false] at closed
      omega
  | commentStarts isCode _ =>
      have spent := nonempty isCode
      have entered : (modes.push .comment).owed = 0 + modes.owed := owed_enter modes _
      omega
  | commentEnds isComment =>
      have popped := owed_pop_le modes
      rw [text_of_comment step isComment, List.length_singleton] at whole
      omega

/-- A quote pays for the piece that it opens. -/
theorem spends_of_quote
    {mark : Char} {rest : List Char} (step : modes.move input = .quote mark rest after) :
    rest.length + after.owed ≤ input.length + modes.owed := by
  have shorter := length_lt_of_quote step
  cases quotes_of_move step with
  | @opens mode _ _ =>
      have entered := owed_push_le modes mode
      omega
  | closes _ _ =>
      have popped := owed_pop_le modes
      omega

end ModeStack

namespace Scanner

variable {file : Option String} {scanner : Scanner}

/-! ## All steps -/

/-- The items ahead are bounded by the characters and the pieces ahead, and one item more. -/
theorem Sound.length_items_le (sound : scanner.Sound) (file : Option String) :
    (scanner.items file).length ≤ scanner.rest.length + scanner.modes.owed + 1 := by
  induction sound using Sound.induction with
  | refused scanner sound cause step _ =>
      rw [items_of_refused step, List.length_singleton]
      omega
  | quote scanner sound mark rest modes _ step inductionHypothesis =>
      have spends := ModeStack.spends_of_quote step
      have further : ((scanner.afterQuote mark rest modes).items file).length ≤
          rest.length + modes.owed + 1 := inductionHypothesis
      rw [items_of_quote step]
      omega
  | last scanner sound lexeme modes step ended =>
      rw [items_of_last step ended, List.length_singleton]
      omega
  | token scanner sound lexeme modes _ step more inductionHypothesis =>
      have spends := ModeStack.spends_of_token step more
      have further : ((scanner.afterToken lexeme modes).items file).length ≤
          lexeme.rest.length + modes.owed + 1 := inductionHypothesis
      rw [items_of_token step more, List.length_cons]
      omega

/-- The last item is the end of input or a fault, and every other one is another token. -/
theorem Sound.items_end (sound : scanner.Sound) (file : Option String) :
    ∃ front last, scanner.items file = front ++ [last] ∧
      ((∃ token, last = .ok token ∧ token.kind = .endOfInput) ∨ ∃ fault, last = .error fault) ∧
      ∀ item ∈ front, ∃ token, item = .ok token ∧ token.kind ≠ .endOfInput := by
  induction sound using Sound.induction with
  | refused scanner sound cause step _ =>
      exact ⟨[], _, items_of_refused step, Or.inr ⟨_, rfl⟩, by simp⟩
  | quote scanner sound mark rest modes _ step inductionHypothesis =>
      rw [items_of_quote step]
      exact inductionHypothesis
  | last scanner sound lexeme modes step ended =>
      exact ⟨[], _, items_of_last step ended, Or.inl ⟨_, rfl, ended⟩, by simp⟩
  | token scanner sound lexeme modes _ step more inductionHypothesis =>
      obtain ⟨front, last, whole, isLast, notBefore⟩ := inductionHypothesis
      refine ⟨.ok (scanner.token file lexeme) :: front, last, ?_, isLast, ?_⟩
      · rw [items_of_token step more, whole, List.cons_append]
      · exact List.forall_mem_cons.2 ⟨⟨_, rfl, more⟩, notBefore⟩

end Scanner

/-! ## Asking a reader -/

namespace Reader

/-- The next item is the first one that is left, and the others are then left. -/
theorem next_eq (reader : Reader) :
    reader.next.1 = reader.remaining.head? ∧
      reader.next.2.remaining = reader.remaining.tail := by
  rcases reader with ⟨source, file, _ | scanner⟩
  · exact ⟨rfl, rfl⟩
  · cases found : scanner.next file with
    | error fault =>
        simp only [next, found, remaining, Scanner.items_of_error found]
        exact ⟨rfl, rfl⟩
    | ok item =>
        obtain ⟨token, after⟩ := item
        by_cases ended : token.kind = .endOfInput
        · simp only [next, found, ended, if_true, remaining, Scanner.items_of_end found ended]
          exact ⟨rfl, rfl⟩
        · simp only [next, found, ended, if_false, remaining, Scanner.items_of_more found ended]
          exact ⟨rfl, rfl⟩

theorem remaining_asked (reader : Reader) (count : Nat) :
    (reader.asked count).remaining = reader.remaining.drop count := by
  induction count with
  | zero => rfl
  | succ count inductionHypothesis =>
      rw [asked, (next_eq _).2, inductionHypothesis, List.tail_drop]

/-- The items that a reader gives out one by one are those that are left of its text. -/
theorem next_asked (reader : Reader) (count : Nat) :
    (reader.asked count).next.1 = reader.remaining[count]? := by
  rw [(next_eq _).1, remaining_asked, List.head?_drop]

end Reader

/-- A text of `n` characters gives `n + 1` items at most.  A reader gives them out one after the
other: the last one is the end of input or a fault and none before it is, and behind the last one
the reader has nothing to give. -/
theorem reading_ends (source : String) (file : Option String) :
    ∃ front last,
      (∀ count, ((Reader.ofSource source file).asked count).next.1 = (front ++ [last])[count]?) ∧
      (front ++ [last]).length ≤ source.length + 1 ∧
      ((∃ token, last = .ok token ∧ token.kind = .endOfInput) ∨ ∃ fault, last = .error fault) ∧
      (∀ item ∈ front, ∃ token, item = .ok token ∧ token.kind ≠ .endOfInput) ∧
      ∀ count, front.length < count →
        ((Reader.ofSource source file).asked count).next.1 = none := by
  have sound := Scanner.sound_start source.toList
  obtain ⟨front, last, whole, isLast, notBefore⟩ := sound.items_end file
  have asked (count : Nat) :
      ((Reader.ofSource source file).asked count).next.1 = (front ++ [last])[count]? := by
    rw [Reader.next_asked, ← whole]
    rfl
  have bound := sound.length_items_le file
  refine ⟨front, last, asked, ?_, isLast, notBefore, ?_⟩
  · rw [← whole]
    exact bound
  · intro count further
    rw [asked, List.getElem?_eq_none]
    rw [List.length_append, List.length_singleton]
    omega

end ScriptFront
