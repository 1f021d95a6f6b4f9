import ScriptFront.Decimal.Rounding
import ScriptFront.Fault.Lexical
import ScriptFront.Token.Lexeme

/-!
Numbers in a source text. A whole number is written in base sixteen behind `0x`, in base two behind
`0b`, in base eight behind a zero, and else in base ten; digits on both sides of a point make a
binary floating-point number. A whole number has at most sixty-three bits.
-/

namespace ScriptFront

/-- A number as written. -/
inductive Numeral where
  | whole (base : Nat) (digits : List Char)
  | fractional (digits places : List Char)
deriving DecidableEq, Repr

namespace Numeral

def isHexDigit (character : Char) : Bool :=
  character.isDigit || 'a' ≤ character && character ≤ 'f' || 'A' ≤ character && character ≤ 'F'

def isBinaryDigit (character : Char) : Bool :=
  character = '0' || character = '1'

/-- The value of a digit, letters counting from ten. -/
def digitValue (character : Char) : Nat :=
  if character.isDigit then character.toNat - '0'.toNat
  else if 'a' ≤ character then character.toNat - 'a'.toNat + 10
  else character.toNat - 'A'.toNat + 10

/-- The whole numbers that can be written stay below this bound. -/
def bound : Nat := powerOfTwo 63

/-- Why digits have no value. -/
inductive Failure where
  | digitOutsideBase
  | tooLarge
deriving DecidableEq, Repr

/-- The value of digits behind others whose value is known. The first digit at which something is
wrong decides what is reported, and a digit outside the base is reported before a value that is too
large. -/
def valueFrom (base value : Nat) : List Char → Except Failure Nat
  | [] => .ok value
  | digit :: others =>
    if base ≤ digitValue digit then .error .digitOutsideBase
    else
      let extended := value * base + digitValue digit
      if extended < bound then valueFrom base extended others else .error .tooLarge

/-- The value of digits of any count in base ten. -/
def decimalValue (digits : List Char) : Nat :=
  digits.foldl (fun value digit => value * 10 + digitValue digit) 0

/-- Digits without a point: a zero in front of others means base eight. -/
def ofDigits : List Char → Numeral
  | '0' :: digit :: digits => .whole 8 (digit :: digits)
  | digits => .whole 10 digits

/-- A number read from the front of a text, with the characters it covers and those behind it. -/
structure Reading where
  numeral : Numeral
  text : List Char
  rest : List Char
deriving DecidableEq, Repr

/-- Reads the digits in front of a text, and those behind a point if there are any. -/
def readDecimal (input : List Char) : Reading :=
  let digits := input.takeWhile Char.isDigit
  match input.dropWhile Char.isDigit with
  | '.' :: behind =>
    match behind.takeWhile Char.isDigit with
    | [] => ⟨ofDigits digits, digits, '.' :: behind⟩
    | places =>
      ⟨.fractional digits places, digits ++ '.' :: places, behind.dropWhile Char.isDigit⟩
  | rest => ⟨ofDigits digits, digits, rest⟩

/-- Reads the digits of a base behind its two-character mark. -/
def readBased (base : Nat) (isDigit : Char → Bool) (mark digits : List Char) : Reading :=
  let run := digits.takeWhile isDigit
  ⟨.whole base run, mark ++ run, digits.dropWhile isDigit⟩

/-- Reads the number in front of a text that starts with a digit. A base mark counts only with a
digit of that base behind it. -/
def read : List Char → Reading
  | '0' :: letter :: digit :: others =>
    if (letter = 'x' || letter = 'X') && isHexDigit digit then
      readBased 16 isHexDigit ['0', letter] (digit :: others)
    else if (letter = 'b' || letter = 'B') && isBinaryDigit digit then
      readBased 2 isBinaryDigit ['0', letter] (digit :: others)
    else readDecimal ('0' :: letter :: digit :: others)
  | input => readDecimal input

/-- The token kind of a number whose text is given. -/
def kind (numeral : Numeral) (text : List Char) : Except LexicalCause Kind :=
  match numeral with
  | .fractional digits places =>
    .ok (.float (.ofDecimal (decimalValue (digits ++ places)) places.length))
  | .whole base digits =>
    match valueFrom base 0 digits with
    | .ok value => .ok (.integer value)
    | .error .digitOutsideBase => .error (.digitOutsideBase base (String.ofList text))
    | .error .tooLarge => .error (.tooLarge (String.ofList text))

/-! ## The text of a number -/

theorem readDecimal_append (input : List Char) :
    (readDecimal input).text ++ (readDecimal input).rest = input := by
  have split := List.takeWhile_append_dropWhile (p := Char.isDigit) (l := input)
  unfold readDecimal
  split
  · rename_i behind isPoint
    have splitBehind := List.takeWhile_append_dropWhile (p := Char.isDigit) (l := behind)
    split <;> simp_all
  · exact split

/-- The text of a number and what follows it are the text that was read. -/
theorem read_append (input : List Char) : (read input).text ++ (read input).rest = input := by
  unfold read
  split
  · split
    · simp [readBased]
    · split
      · simp [readBased]
      · exact readDecimal_append _
  · exact readDecimal_append _

/-- The text of a number that starts with a digit is not empty. -/
theorem read_text_ne_nil {first : Char} {others : List Char} (digit : first.isDigit) :
    (read (first :: others)).text ≠ [] := by
  have decimal (input : List Char) : (readDecimal (first :: input)).text ≠ [] := by
    unfold readDecimal
    simp only [List.takeWhile_cons_of_pos digit]
    split
    · split <;> simp
    · simp
  unfold read
  split
  · rename_i sameText
    obtain ⟨rfl, -⟩ := List.cons.inj sameText
    split
    · simp [readBased]
    · split
      · simp [readBased]
      · exact decimal _
  · exact decimal _

end Numeral

end ScriptFront
