import Mathlib.Data.List.DropRight
import ScriptFront.Source.Lines

/-!
# Lines of a text

The lines of a text are those between its newlines, less the carriage returns that belong to the line
ends.
-/

namespace ScriptFront.Source

/-! ## Texts of one line -/

theorem linesOf_cons
    {character : Char} {rest : List Char} (goesOn : character ≠ '\n')
    (noEnd : character = '\r' → rest.head? ≠ some '\n') :
    linesOf (character :: rest) = extendFirst character (linesOf rest) := by
  rw [linesOf]
  · exact goesOn
  · rintro others isReturn rfl
    exact noEnd isReturn rfl

/-- A text without newlines is one line. -/
theorem linesOf_of_single
    {text : List Char} (single : '\n' ∉ text) (filled : text ≠ []) : linesOf text = [text] := by
  induction text with
  | nil => exact absurd rfl filled
  | cons head tail inductionHypothesis =>
      have goesOn : head ≠ '\n' := fun isNewline => single (isNewline ▸ List.mem_cons_self)
      have tailSingle : '\n' ∉ tail := fun member => single (List.mem_cons_of_mem head member)
      have noEnd : head = '\r' → tail.head? ≠ some '\n' :=
        fun _ isNewline => tailSingle (List.mem_of_mem_head? isNewline)
      rw [linesOf_cons goesOn noEnd]
      cases tail with
      | nil => rfl
      | cons next others => rw [inductionHypothesis tailSingle (List.cons_ne_nil _ _), extendFirst]

/-- The newline that ends a line makes no difference to it, unless a carriage return stands there. -/
theorem linesOf_of_single_newline
    {text : List Char} (single : '\n' ∉ text) (noReturn : text.getLast? ≠ some '\r') :
    linesOf (text ++ ['\n']) = [text] := by
  induction text with
  | nil => rfl
  | cons head tail inductionHypothesis =>
      have goesOn : head ≠ '\n' := fun isNewline => single (isNewline ▸ List.mem_cons_self)
      have tailSingle : '\n' ∉ tail := fun member => single (List.mem_cons_of_mem head member)
      have noEnd : head = '\r' → (tail ++ ['\n']).head? ≠ some '\n' := by
        rintro rfl isNewline
        cases tail with
        | nil => exact noReturn rfl
        | cons next others => exact tailSingle (List.mem_of_mem_head? isNewline)
      have tailReturn : tail.getLast? ≠ some '\r' := by
        intro isReturn
        refine noReturn ?_
        rw [List.getLast?_cons, isReturn]
        rfl
      rw [List.cons_append, linesOf_cons goesOn noEnd, inductionHypothesis tailSingle tailReturn,
        extendFirst]

/-! ## Between newlines -/

theorem length_splitOn_newline (text : List Char) :
    (text.splitOn '\n').length = text.count '\n' + 1 := by
  induction text with
  | nil => rfl
  | cons head tail inductionHypothesis =>
      rw [List.splitOn_cons_eq_if_modifyHead]
      by_cases isNewline : head = '\n'
      · simp [isNewline, inductionHypothesis]
      · simp [isNewline, inductionHypothesis]

theorem getElem?_zero_splitOn_newline (text : List Char) :
    (text.splitOn '\n')[0]? = some (text.takeWhile (· ≠ '\n')) := by
  induction text with
  | nil => rfl
  | cons head tail inductionHypothesis =>
      rw [List.splitOn_cons_eq_if_modifyHead]
      by_cases isNewline : head = '\n'
      · simp [isNewline]
      · cases pieces : tail.splitOn '\n' with
        | nil => exact absurd pieces (List.splitOn_ne_nil _ _)
        | cons first others =>
            have isFirst : first = tail.takeWhile (· ≠ '\n') := by
              rw [pieces] at inductionHypothesis
              exact Option.some.inj inductionHypothesis
            simp [isNewline, isFirst]

/-- The line on which a part of the text ends goes on with what stands behind that part. -/
theorem getElem?_splitOn_newline_append (before rest : List Char) :
    ((before ++ rest).splitOn '\n')[before.count '\n']? =
      some (before.rtakeWhile (· ≠ '\n') ++ rest.takeWhile (· ≠ '\n')) := by
  have goOn {line : List Char} (single : '\n' ∉ line) :
      ∀ character ∈ line, decide (character ≠ '\n') = true := by
    intro character member
    exact decide_eq_true fun isNewline => single (isNewline ▸ member)
  by_cases single : '\n' ∈ before
  · rcases List.eq_append_cons_of_mem (List.mem_reverse.2 single) with
      ⟨last, front, isReverse, lastSingle⟩
    have whole : before = front.reverse ++ '\n' :: last.reverse := by
      rw [← before.reverse_reverse, isReverse]
      simp
    have isLast : before.rtakeWhile (· ≠ '\n') = last.reverse := by
      rw [List.rtakeWhile, isReverse, List.takeWhile_append_of_pos (goOn lastSingle)]
      simp
    have pieces : (before ++ rest).splitOn '\n' =
        front.reverse.splitOn '\n' ++ (last.reverse ++ rest).splitOn '\n' := by
      rw [whole, List.append_assoc, List.cons_append, List.splitOn_append_cons_self]
    have count : before.count '\n' = (front.reverse.splitOn '\n').length := by
      rw [length_splitOn_newline, whole, List.count_append, List.count_cons_self,
        List.count_eq_zero.2 (fun member => lastSingle (List.mem_reverse.1 member))]
    rw [pieces, count, List.getElem?_append_right (Nat.le_refl _), Nat.sub_self,
      getElem?_zero_splitOn_newline, isLast, List.takeWhile_append_of_pos]
    exact fun character member => goOn lastSingle character (List.mem_reverse.1 member)
  · have isLast : before.rtakeWhile (· ≠ '\n') = before := by
      rw [List.rtakeWhile, List.takeWhile_eq_self_iff.2, List.reverse_reverse]
      exact fun character member => goOn single character (List.mem_reverse.1 member)
    rw [List.count_eq_zero.2 single, getElem?_zero_splitOn_newline, isLast,
      List.takeWhile_append_of_pos (goOn single)]

theorem linesOf_eq_nil_iff {text : List Char} : linesOf text = [] ↔ text = [] := by
  constructor
  · intro isNil
    unfold linesOf at isNil
    split at isNil
    · rfl
    · cases isNil
    · cases isNil
    · rename_i character rest _ _
      cases further : linesOf rest <;> simp [extendFirst, further] at isNil
  · rintro rfl
    rfl

/-- A line that is shown lacks no more than the carriage return in front of its newline. -/
theorem splitOn_of_linesOf
    {text line : List Char} {place : Nat} (isLine : (linesOf text)[place]? = some line) :
    (text.splitOn '\n')[place]? = some line ∨
      (text.splitOn '\n')[place]? = some (line ++ ['\r']) := by
  fun_induction linesOf text generalizing place line with
  | case1 => cases isLine
  | case2 rest inductionHypothesis =>
      rw [List.splitOn_cons_eq_if_modifyHead, if_pos (beq_self_eq_true _)]
      cases place with
      | zero => exact Or.inl isLine
      | succ place => exact inductionHypothesis isLine
  | case3 rest inductionHypothesis =>
      rw [List.splitOn_cons_eq_if_modifyHead, if_neg (by decide),
        List.splitOn_cons_eq_if_modifyHead, if_pos (beq_self_eq_true _), List.modifyHead_cons]
      cases place with
      | zero =>
          obtain rfl : [] = line := Option.some.inj isLine
          exact Or.inr rfl
      | succ place => exact inductionHypothesis isLine
  | case4 character rest goesOn noEnd inductionHypothesis =>
      have notNewline : ¬(character == '\n') = true := by simpa using goesOn
      rw [List.splitOn_cons_eq_if_modifyHead, if_neg notNewline]
      cases further : linesOf rest with
      | nil =>
          rw [further] at isLine
          rw [linesOf_eq_nil_iff.1 further]
          cases place with
          | zero => exact Or.inl isLine
          | succ place => cases isLine
      | cons first others =>
          rw [further] at isLine inductionHypothesis
          cases pieces : rest.splitOn '\n' with
          | nil => exact absurd pieces (List.splitOn_ne_nil _ _)
          | cons piece behind =>
              rw [pieces] at inductionHypothesis
              rw [List.modifyHead_cons]
              cases place with
              | zero =>
                  obtain rfl : character :: first = line := Option.some.inj isLine
                  have isFirst : some piece = some first ∨ some piece = some (first ++ ['\r']) :=
                    @inductionHypothesis first 0 rfl
                  exact isFirst.imp
                    (fun same => congrArg (some <| character :: ·) (Option.some.inj same))
                    (fun same => congrArg (some <| character :: ·) (Option.some.inj same))
              | succ place => exact @inductionHypothesis line (place + 1) isLine

/-- What lies on one line of a text, and holds no line end, lies at the same column of the line that
is shown. -/
theorem covered_of_linesOf
    {before middle behind line : List Char} (filled : middle ≠ []) (single : '\n' ∉ middle)
    (noReturn : '\r' ∉ middle)
    (isLine : (linesOf (before ++ (middle ++ behind)))[before.count '\n']? = some line) :
    (line.drop (before.rtakeWhile (· ≠ '\n')).length).take middle.length = middle := by
  have goesOn : ∀ character ∈ middle, decide (character ≠ '\n') = true := by
    intro character member
    exact decide_eq_true fun isNewline => single (isNewline ▸ member)
  have raw := getElem?_splitOn_newline_append before (middle ++ behind)
  rw [List.takeWhile_append_of_pos goesOn] at raw
  generalize before.rtakeWhile (· ≠ '\n') = front at raw ⊢
  generalize behind.takeWhile (· ≠ '\n') = rest at raw
  rcases splitOn_of_linesOf isLine with same | shorter
  · obtain rfl : front ++ (middle ++ rest) = line := Option.some.inj (raw.symm.trans same)
    simp
  · have whole : front ++ (middle ++ rest) = line ++ ['\r'] :=
      Option.some.inj (raw.symm.trans shorter)
    -- The carriage return stands behind the part, which holds none.
    rcases List.eq_nil_or_concat rest with rfl | ⟨others, last, rfl⟩
    · rcases List.eq_nil_or_concat middle with isNil | ⟨letters, last, rfl⟩
      · exact absurd isNil filled
      · rw [List.append_nil, List.concat_eq_append, ← List.append_assoc] at whole
        have isReturn : last = '\r' := List.singleton_inj.1 (List.append_inj' whole rfl).2
        exact absurd (by simp [isReturn]) noReturn
    · rw [List.concat_eq_append, ← List.append_assoc, ← List.append_assoc] at whole
      obtain rfl : front ++ middle ++ others = line := (List.append_inj' whole rfl).1
      simp

end ScriptFront.Source
