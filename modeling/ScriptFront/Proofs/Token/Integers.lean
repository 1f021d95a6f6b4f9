import Mathlib.Data.List.Basic
import Mathlib.Data.List.TakeWhile
import Mathlib.Data.Nat.Digits.Defs
import ScriptFront.Proofs.Token.Places
import ScriptFront.Proofs.Token.Rules

/-!
# Whole numbers

A whole number in any of the four bases is read as the value that its digits have by their places,
however many there are, if the value fits into sixty-three bits.  Otherwise the text is refused, and
so is a zero in front of a digit that base eight does not have.
-/

namespace ScriptFront

namespace Numeral

/-! ## The value of digits -/

/-- The value of digits by their places, the last one counting once. -/
def placeValue (base : Nat) (digits : List Char) : Nat :=
  Nat.ofDigits base (digits.reverse.map digitValue)

theorem placeValue_cons (base : Nat) (digit : Char) (others : List Char) :
    placeValue base (digit :: others) =
      digitValue digit * base ^ others.length + placeValue base others := by
  simp only [placeValue, List.reverse_cons, List.map_append, List.map_cons, List.map_nil,
    Nat.ofDigits_append, Nat.ofDigits_singleton, List.length_map, List.length_reverse]
  rw [Nat.mul_comm, Nat.add_comm]

/-- The digits in their order have the values in their order. -/
example : "0123456789abcdef".toList.map digitValue = List.range 16 ∧
    "ABCDEF".toList.map digitValue = "abcdef".toList.map digitValue := by
  decide

theorem bound_eq : bound = 2 ^ 63 := rfl

/-- Digits of the base have their value, and it is refused exactly if it reaches the bound. -/
theorem valueFrom_eq
    {base : Nat} (positive : 0 < base) {digits : List Char}
    (inBase : ∀ digit ∈ digits, digitValue digit < base) {value : Nat} (small : value < bound) :
    valueFrom base value digits =
      if value * base ^ digits.length + placeValue base digits < bound then
        .ok (value * base ^ digits.length + placeValue base digits)
      else .error .tooLarge := by
  induction digits generalizing value with
  | nil =>
      have same : value * base ^ ([] : List Char).length + placeValue base [] = value := by
        simp [placeValue]
      rw [same, if_pos small, valueFrom]
  | cons digit others inductionHypothesis =>
      rcases List.forall_mem_cons.1 inBase with ⟨digitInBase, othersInBase⟩
      have same : value * base ^ (digit :: others).length + placeValue base (digit :: others) =
          (value * base + digitValue digit) * base ^ others.length + placeValue base others := by
        rw [placeValue_cons, List.length_cons]
        ring
      rw [same, valueFrom, if_neg (Nat.not_le.2 digitInBase)]
      dsimp only
      by_cases fits : value * base + digitValue digit < bound
      · rw [if_pos fits, inductionHypothesis othersInBase fits]
      · have grows : value * base + digitValue digit ≤
            (value * base + digitValue digit) * base ^ others.length :=
          Nat.le_mul_of_pos_right _ (Nat.pow_pos positive)
        rw [if_neg fits, if_neg (by omega)]

/-- Digits are refused if one of them is none of the base. -/
theorem valueFrom_of_outside
    {base : Nat} {digits : List Char} (outside : ∃ digit ∈ digits, base ≤ digitValue digit)
    (value : Nat) : ∃ failure, valueFrom base value digits = .error failure := by
  induction digits generalizing value with
  | nil =>
      rcases outside with ⟨digit, member, -⟩
      cases member
  | cons first others inductionHypothesis =>
      rw [valueFrom]
      by_cases inBase : base ≤ digitValue first
      · rw [if_pos inBase]
        exact ⟨_, rfl⟩
      · have outsideOthers : ∃ digit ∈ others, base ≤ digitValue digit := by
          rcases outside with ⟨digit, member, isOutside⟩
          rcases List.mem_cons.1 member with rfl | isOther
          · exact absurd isOutside inBase
          · exact ⟨digit, isOther, isOutside⟩
        rw [if_neg inBase]
        dsimp only
        split
        · exact inductionHypothesis outsideOthers _
        · exact ⟨_, rfl⟩

/-! ## Digits of a base -/

theorem digitValue_lt_ten {digit : Char} (isDigit : digit.isDigit = true) :
    digitValue digit < 10 := by
  have inRange : digit.toNat ≤ '9'.toNat := by
    have both : '0'.toNat ≤ digit.toNat ∧ digit.toNat ≤ '9'.toNat := by
      simpa [Char.isDigit, UInt32.le_iff_toNat_le] using isDigit
    exact both.2
  have distance : '9'.toNat = '0'.toNat + 9 := rfl
  rw [digitValue, if_pos isDigit]
  omega

theorem digitValue_lt_eight {digit : Char} (isDigit : digit.isDigit = true) (notEight : digit ≠ '8')
    (notNine : digit ≠ '9') : digitValue digit < 8 := by
  have small := digitValue_lt_ten isDigit
  have differs (other : Char) (different : digit ≠ other) : digit.toNat ≠ other.toNat :=
    fun same => different (Char.toNat_inj.1 same)
  have notFirst := differs '8' notEight
  have notSecond := differs '9' notNine
  have eight : '8'.toNat = '0'.toNat + 8 := rfl
  have nine : '9'.toNat = '0'.toNat + 9 := rfl
  rw [digitValue, if_pos isDigit] at small ⊢
  omega

theorem le_digitValue_of_eight_or_nine {digit : Char} (isOutside : digit = '8' ∨ digit = '9') :
    8 ≤ digitValue digit := by
  rcases isOutside with rfl | rfl <;> decide

theorem isHexDigit_iff {digit : Char} :
    isHexDigit digit = true ↔
      digit.isDigit = true ∨ 'a' ≤ digit ∧ digit ≤ 'f' ∨ 'A' ≤ digit ∧ digit ≤ 'F' := by
  simp [isHexDigit, or_assoc]

theorem isBinaryDigit_iff {digit : Char} :
    isBinaryDigit digit = true ↔ digit = '0' ∨ digit = '1' := by
  simp [isBinaryDigit]

theorem digitValue_lt_sixteen {digit : Char} (isDigit : isHexDigit digit = true) :
    digitValue digit < 16 := by
  have classes : (digit.isDigit = true ∨ 'a'.toNat ≤ digit.toNat ∧ digit.toNat ≤ 'f'.toNat) ∨
      'A'.toNat ≤ digit.toNat ∧ digit.toNat ≤ 'F'.toNat := by
    simpa [isHexDigit, Char.le_def, UInt32.le_iff_toNat_le] using isDigit
  have distanceLower : 'f'.toNat = 'a'.toNat + 5 := rfl
  have distanceUpper : 'F'.toNat = 'A'.toNat + 5 := rfl
  have apart : 'F'.toNat < 'a'.toNat := by decide
  have isLower_iff : 'a' ≤ digit ↔ 'a'.toNat ≤ digit.toNat := by
    rw [Char.le_def, UInt32.le_iff_toNat_le]
    rfl
  by_cases isDecimal : digit.isDigit = true
  · exact Nat.lt_trans (digitValue_lt_ten isDecimal) (by decide)
  · have isLetter := (or_assoc.1 classes).resolve_left isDecimal
    rw [digitValue, if_neg isDecimal]
    simp only [isLower_iff]
    split <;> omega

theorem digitValue_lt_two {digit : Char} (isDigit : isBinaryDigit digit = true) :
    digitValue digit < 2 := by
  rcases isBinaryDigit_iff.1 isDigit with rfl | rfl <;> decide

/-! ## How a whole number is written -/

/-- A text spells digits of a base: behind the mark of the base, behind a zero, or alone. -/
inductive Spells : List Char → Nat → List Char → Prop where
  | hexadecimal {letter : Char} {digits : List Char} (isMark : letter = 'x' ∨ letter = 'X')
      (some : digits ≠ []) (each : ∀ digit ∈ digits,
        digit.isDigit = true ∨ 'a' ≤ digit ∧ digit ≤ 'f' ∨ 'A' ≤ digit ∧ digit ≤ 'F') :
      Spells ('0' :: letter :: digits) 16 digits
  | binary {letter : Char} {digits : List Char} (isMark : letter = 'b' ∨ letter = 'B')
      (some : digits ≠ []) (each : ∀ digit ∈ digits, digit = '0' ∨ digit = '1') :
      Spells ('0' :: letter :: digits) 2 digits
  | octal {digits : List Char} (some : digits ≠ [])
      (each : ∀ digit ∈ digits, digit.isDigit = true ∧ digit ≠ '8' ∧ digit ≠ '9') :
      Spells ('0' :: digits) 8 digits
  | decimal {first : Char} {others : List Char} (notZero : first ≠ '0')
      (each : ∀ digit ∈ first :: others, digit.isDigit = true) :
      Spells (first :: others) 10 (first :: others)
  | zero : Spells ['0'] 10 ['0']

variable {text digits : List Char} {base : Nat}

theorem Spells.positive (spells : Spells text base digits) : 0 < base := by
  cases spells <;> decide

theorem Spells.inBase (spells : Spells text base digits) :
    ∀ digit ∈ digits, digitValue digit < base := by
  intro digit member
  cases spells with
  | hexadecimal _ _ each => exact digitValue_lt_sixteen (isHexDigit_iff.2 (each digit member))
  | binary _ _ each => exact digitValue_lt_two (isBinaryDigit_iff.2 (each digit member))
  | octal _ each =>
      rcases each digit member with ⟨isDigit, notEight, notNine⟩
      exact digitValue_lt_eight isDigit notEight notNine
  | decimal _ each => exact digitValue_lt_ten (each digit member)
  | zero =>
      obtain rfl := List.mem_singleton.1 member
      decide

theorem readDecimal_of_digits (each : ∀ digit ∈ text, digit.isDigit = true) :
    readDecimal text = ⟨ofDigits text, text, []⟩ := by
  have isRun : text.takeWhile Char.isDigit = text := List.takeWhile_eq_self_iff.2 each
  have isRest : text.dropWhile Char.isDigit = [] := List.dropWhile_eq_nil_iff.2 each
  rw [readDecimal, isRest, isRun]

/-- A text of decimal digits is read whole. -/
theorem read_of_digits (each : ∀ digit ∈ text, digit.isDigit = true) :
    read text = ⟨ofDigits text, text, []⟩ := by
  unfold read
  split
  · rename_i letter digit others
    have isDigit : letter.isDigit = true := each letter (by simp)
    have noMark (mark : Char) (noDigit : mark.isDigit = false) : letter ≠ mark := by
      rintro rfl
      cases noDigit.symm.trans isDigit
    rw [if_neg (by simp [noMark 'x' rfl, noMark 'X' rfl]),
      if_neg (by simp [noMark 'b' rfl, noMark 'B' rfl])]
    exact readDecimal_of_digits each
  · exact readDecimal_of_digits each

theorem readBased_of_digits (base : Nat) {isDigit : Char → Bool} (mark : List Char)
    (each : ∀ digit ∈ digits, isDigit digit = true) :
    readBased base isDigit mark digits = ⟨.whole base digits, mark ++ digits, []⟩ := by
  have isRun : digits.takeWhile isDigit = digits := List.takeWhile_eq_self_iff.2 each
  have isRest : digits.dropWhile isDigit = [] := List.dropWhile_eq_nil_iff.2 each
  rw [readBased, isRest, isRun]

/-- A zero in front of decimal digits means base eight. -/
theorem read_of_zero (some : digits ≠ []) (each : ∀ digit ∈ digits, digit.isDigit = true) :
    read ('0' :: digits) = ⟨.whole 8 digits, '0' :: digits, []⟩ := by
  have eachOf : ∀ digit ∈ '0' :: digits, digit.isDigit = true :=
    List.forall_mem_cons.2 ⟨rfl, each⟩
  rw [read_of_digits eachOf]
  cases digits with
  | nil => exact absurd rfl some
  | cons first others => rfl

theorem Spells.read_eq (spells : Spells text base digits) :
    read text = ⟨.whole base digits, text, []⟩ := by
  cases spells with
  | @hexadecimal letter digits isMark some each =>
      cases digits with
      | nil => exact absurd rfl some
      | cons first others =>
          have eachHex := fun digit member => isHexDigit_iff.2 (each digit member)
          have isBased : ((letter = 'x' || letter = 'X') && isHexDigit first) = true := by
            simp [isMark, eachHex first List.mem_cons_self]
          rw [read, if_pos isBased, readBased_of_digits 16 _ eachHex]
          rfl
  | @binary letter digits isMark some each =>
      cases digits with
      | nil => exact absurd rfl some
      | cons first others =>
          have eachBinary := fun digit member => isBinaryDigit_iff.2 (each digit member)
          have isBased : ((letter = 'b' || letter = 'B') && isBinaryDigit first) = true := by
            simp [isMark, eachBinary first List.mem_cons_self]
          have notHex : ¬((letter = 'x' || letter = 'X') && isHexDigit first) = true := by
            rcases isMark with rfl | rfl <;> simp
          rw [read, if_neg notHex, if_pos isBased, readBased_of_digits 2 _ eachBinary]
          rfl
  | octal some each => exact read_of_zero some fun digit member => (each digit member).1
  | @decimal first others notZero each =>
      rw [read_of_digits each, ofDigits]
      rintro digit digits same
      exact notZero (List.cons.inj same).1
  | zero => rfl

theorem Spells.starts (spells : Spells text base digits) :
    ∃ first others, text = first :: others ∧ first.isDigit = true := by
  cases spells with
  | hexadecimal | binary | octal | zero => exact ⟨_, _, rfl, rfl⟩
  | decimal _ each => exact ⟨_, _, rfl, each _ List.mem_cons_self⟩

theorem Spells.inLine (spells : Spells text base digits) : '\n' ∉ text := by
  intro member
  cases spells with
  | hexadecimal isMark _ each | binary isMark _ each =>
      have inDigits : '\n' ∈ digits := by
        rcases isMark with rfl | rfl <;> simpa using member
      exact absurd (each _ inDigits) (by decide)
  | octal _ each =>
      have inDigits : '\n' ∈ digits := by simpa using member
      cases (each _ inDigits).1
  | decimal _ each => cases each _ member
  | zero => simp at member

end Numeral

/-! ## The tokens of a number -/

/-- Characters that stand in one line count as columns. -/
theorem Position.start_after_of_inLine {text : List Char} (inLine : '\n' ∉ text) :
    start.after text = ⟨1, 1 + text.length⟩ := by
  have whole : text.reverse.takeWhile (· ≠ '\n') = text.reverse := by
    apply List.takeWhile_eq_self_iff.2
    rintro mark member
    exact decide_eq_true (fun same => inLine (same ▸ List.mem_reverse.1 member))
  rw [start_after, whole, List.count_eq_zero.2 inLine, List.length_reverse]

namespace Numeral

variable {source : String} {base : Nat} {digits : List Char}

/-- The reason that is given for digits without a value. -/
def Failure.cause (base : Nat) (text : String) : Failure → LexicalCause
  | digitOutsideBase => .digitOutsideBase base text
  | tooLarge => .tooLarge text

/-- A text that is read as one whole number. -/
structure IsWhole (text : List Char) (base : Nat) (digits : List Char) : Prop where
  starts : ∃ first others, text = first :: others ∧ first.isDigit = true
  read : Numeral.read text = ⟨.whole base digits, text, []⟩

theorem IsWhole.move {text : List Char} (whole : IsWhole text base digits) :
    ModeStack.initial.move text = ModeStack.initial.numberMove ⟨.whole base digits, text, []⟩ := by
  rcases whole.starts with ⟨first, others, rfl, isDigit⟩
  have step : ModeStack.initial.move (first :: others) =
      ModeStack.initial.numberMove (Numeral.read (first :: others)) :=
    ModeStack.codeMove_of_isDigit isDigit .initial others
  rw [step, whole.read]

/-- A whole number with a value is the only token of its text. -/
theorem IsWhole.tokenize_of_value
    (whole : IsWhole source.toList base digits) (file : Option String) {value : Nat}
    (inLine : '\n' ∉ source.toList) (hasValue : valueFrom base 0 digits = .ok value) :
    tokenize source file =
      .ok [⟨.integer value, source, ⟨1, 1, file⟩, false⟩,
        ⟨.endOfInput, "", ⟨1, 1 + source.toList.length, file⟩, false⟩] := by
  have step : (Scanner.start source.toList).modes.move (Scanner.start source.toList).rest =
      .token ⟨.integer value, source.toList, []⟩ .initial := by
    apply whole.move.trans
    simp only [ModeStack.numberMove, kind, hasValue]
  have atEnd : ((Scanner.start source.toList).afterToken ⟨.integer value, source.toList, []⟩
      .initial).modes.move [] = .token ⟨.endOfInput, [], []⟩ .initial := rfl
  have place : Position.start.after source.toList = ⟨1, 1 + source.toList.length⟩ :=
    Position.start_after_of_inLine inLine
  rw [tokenize_eq, Scanner.items_of_token step Kind.noConfusion, Scanner.items_of_last atEnd rfl,
    significantTokens_cons_ok, significantTokens_cons_ok]
  simp only [Scanner.token, Scanner.afterToken, Scanner.start, place, String.ofList_toList]
  rfl

/-- A whole number without a value is refused where it starts. -/
theorem IsWhole.tokenize_of_failure
    (whole : IsWhole source.toList base digits) (file : Option String) {failure : Failure}
    (noValue : valueFrom base 0 digits = .error failure) :
    tokenize source file = .error ((failure.cause base source).fault ⟨1, 1, file⟩) := by
  have step : (Scanner.start source.toList).modes.move (Scanner.start source.toList).rest =
      .refused (failure.cause base source) := by
    apply whole.move.trans
    simp only [ModeStack.numberMove, kind, noValue]
    cases failure with
    | digitOutsideBase | tooLarge => simp only [Failure.cause, String.ofList_toList]
  rw [tokenize_eq, Scanner.items_of_refused step, significantTokens_cons_error]
  rfl

end Numeral

/-- A text that spells a whole number in one of the four bases is one token with the exact value of
the number if that is below `2 ^ 63`, and is refused otherwise.  A zero in front of digits is always
refused if an eight or a nine is among them. -/
theorem tokenize_whole_number (source : String) (file : Option String) :
    (∀ base digits, Numeral.Spells source.toList base digits →
      tokenize source file =
        if Numeral.placeValue base digits < 2 ^ 63 then
          .ok [⟨.integer (Numeral.placeValue base digits), source, ⟨1, 1, file⟩, false⟩,
            ⟨.endOfInput, "", ⟨1, 1 + source.toList.length, file⟩, false⟩]
        else
          .error (.lexical ("Integer literal '" ++ source ++ "' is out of range") ⟨1, 1, file⟩)) ∧
    ∀ digits, source.toList = '0' :: digits → (∀ digit ∈ digits, digit.isDigit = true) →
      (∃ digit ∈ digits, digit = '8' ∨ digit = '9') →
        ∃ message,
          (message = "Invalid base-8 integer literal '" ++ source ++ "'" ∨
            message = "Integer literal '" ++ source ++ "' is out of range") ∧
          tokenize source file = .error (.lexical message ⟨1, 1, file⟩) := by
  constructor
  · intro base digits spells
    have whole : Numeral.IsWhole source.toList base digits := ⟨spells.starts, spells.read_eq⟩
    have read := Numeral.valueFrom_eq spells.positive spells.inBase
      (show 0 < Numeral.bound from powerOfTwo_pos 63)
    rw [Nat.zero_mul, Nat.zero_add, Numeral.bound_eq] at read
    by_cases fits : Numeral.placeValue base digits < 2 ^ 63
    · rw [if_pos fits] at read ⊢
      exact whole.tokenize_of_value file spells.inLine read
    · rw [if_neg fits] at read ⊢
      exact whole.tokenize_of_failure file read
  · intro digits isText each isOutside
    have some : digits ≠ [] := by
      rintro rfl
      simp at isOutside
    have whole : Numeral.IsWhole source.toList 8 digits := by
      rw [isText]
      exact ⟨⟨'0', digits, rfl, rfl⟩, Numeral.read_of_zero some each⟩
    have outside : ∃ digit ∈ digits, 8 ≤ Numeral.digitValue digit := by
      rcases isOutside with ⟨digit, member, isDigit⟩
      exact ⟨digit, member, Numeral.le_digitValue_of_eight_or_nine isDigit⟩
    rcases Numeral.valueFrom_of_outside outside 0 with ⟨failure, noValue⟩
    have refused := whole.tokenize_of_failure file noValue
    cases failure with
    | digitOutsideBase => exact ⟨_, Or.inl rfl, refused⟩
    | tooLarge => exact ⟨_, Or.inr rfl, refused⟩

/-- The largest number in base sixteen, the first one beyond it in base eight, and a nine behind a
zero. -/
theorem tokenize_whole_number_limits :
    tokenize "0x7fffFFFFffffFFFF" none =
        .ok [⟨.integer 9223372036854775807, "0x7fffFFFFffffFFFF", ⟨1, 1, none⟩, false⟩,
          ⟨.endOfInput, "", ⟨1, 19, none⟩, false⟩] ∧
      tokenize "001000000000000000000000" none =
        .error (.lexical "Integer literal '001000000000000000000000' is out of range"
          ⟨1, 1, none⟩) ∧
      ∃ message,
        (message = "Invalid base-8 integer literal '" ++ "0179" ++ "'" ∨
          message = "Integer literal '" ++ "0179" ++ "' is out of range") ∧
        tokenize "0179" none = .error (.lexical message ⟨1, 1, none⟩) := by
  have spellsLargest : Numeral.Spells "0x7fffFFFFffffFFFF".toList 16 "7fffFFFFffffFFFF".toList :=
    .hexadecimal (Or.inl rfl) (by decide) (List.forall_iff_forall_mem.1 (by decide))
  have octalDigits : ∀ digit ∈ "01000000000000000000000".toList,
      digit.isDigit = true ∧ digit ≠ '8' ∧ digit ≠ '9' :=
    List.forall_iff_forall_mem.1 (by decide)
  have spellsBeyond :
      Numeral.Spells "001000000000000000000000".toList 8 "01000000000000000000000".toList :=
    .octal (by decide) octalDigits
  have largest : Numeral.placeValue 16 "7fffFFFFffffFFFF".toList = 9223372036854775807 := by
    decide
  have beyond : Numeral.placeValue 8 "01000000000000000000000".toList = 2 ^ 63 := by
    decide
  refine ⟨?_, ?_, (tokenize_whole_number "0179" none).2 ['1', '7', '9'] rfl (by simp) (by simp)⟩
  · rw [(tokenize_whole_number _ none).1 16 _ spellsLargest, largest]
    rfl
  · rw [(tokenize_whole_number _ none).1 8 _ spellsBeyond, beyond]
    rfl

end ScriptFront
