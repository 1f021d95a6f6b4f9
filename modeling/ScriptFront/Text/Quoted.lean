import ScriptFront.Text.Combining
import ScriptFront.Text.Unprintable

/-!
Texts in double quotes, written so that every character can be seen. A quote, a backslash and the
usual control characters have short escapes; any other character that would not be seen as itself is
written by its code point.
-/

namespace ScriptFront.Text

/-- The code point of a character between braces, in hexadecimal digits without leading zeros. -/
def codeEscape (character : Char) : List Char :=
  ['\\', 'u', '\x7b'] ++ Nat.toDigits 16 character.toNat ++ ['\x7d']

/-- One character as it stands between double quotes. -/
def quotedChar : Char → List Char
  | '"' => ['\\', '"']
  | '\\' => ['\\', '\\']
  | '\n' => ['\\', 'n']
  | '\r' => ['\\', 'r']
  | '\t' => ['\\', 't']
  | '\x00' => ['\\', '0']
  | character =>
    if isCombining character || isUnprintable character then codeEscape character
    else [character]

/-- A text in double quotes, its characters escaped where needed. -/
def quoted (text : String) : String :=
  String.ofList ('"' :: (text.toList.flatMap quotedChar ++ ['"']))

example : quoted "it's \"a\"\\\n" = "\"it's \\\"a\\\"\\\\\\n\"" := by decide +kernel

example : quoted "e\u0301\u2028 \u00e9" = "\"e\\u\x7b301\x7d\\u\x7b2028\x7d \u00e9\"" := by
  decide +kernel

end ScriptFront.Text
