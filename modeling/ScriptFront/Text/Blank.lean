import ScriptFront.Text.Ranges

/-!
The characters with the property White_Space, and texts without such characters at their ends.
-/

namespace ScriptFront.Text

/-- The ranges of White_Space. -/
def blankRanges : List (Nat × Nat) :=
  [(0x9, 0xd), (0x20, 0x20), (0x85, 0x85), (0xa0, 0xa0), (0x1680, 0x1680), (0x2000, 0x200a),
   (0x2028, 0x2029), (0x202f, 0x202f), (0x205f, 0x205f), (0x3000, 0x3000)]

/-- Whether a character is white space in the sense of the Unicode property. -/
def isBlank (character : Char) : Bool :=
  inRanges character.toNat blankRanges

/-- The characters between the first and the last one that is not blank. -/
def trimmed (text : List Char) : List Char :=
  ((text.dropWhile isBlank).reverse.dropWhile isBlank).reverse

/-- A text without the blanks at its two ends. -/
def trim (text : String) : String :=
  String.ofList (trimmed text.toList)

theorem isBlank_of_isWhitespace {character : Char} (white : character.isWhitespace) :
    isBlank character := by
  simp only [Char.isWhitespace, Bool.or_eq_true, decide_eq_true_eq] at white
  rcases white with ((rfl | rfl) | rfl) | rfl <;> decide

example : ascending blankRanges := by decide

example : (blankRanges.map fun (low, high) => high - low + 1).sum = 25 := by decide

end ScriptFront.Text
