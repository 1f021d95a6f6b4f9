import ScriptFront.Decimal.Layout
import ScriptFront.Operator.Basic
import ScriptFront.Source.Location
import ScriptFront.Text.Quoted

/-!
Tokens: the words, numbers, signs and layout marks that a source text is made of, each with the text
it was read from and its place.
-/

namespace ScriptFront

/-- The reserved words. -/
inductive Keyword where
  | classWord
  | moduleWord
deriving DecidableEq, Repr

namespace Keyword

def word : Keyword → String
  | classWord => "class"
  | moduleWord => "module"

/-- The name under which a reserved word appears in token listings. -/
def name : Keyword → String
  | classWord => "Class"
  | moduleWord => "Module"

/-- The reserved word that is written like this, if there is one. -/
def ofWord? (text : String) : Option Keyword :=
  if text = classWord.word then some classWord
  else if text = moduleWord.word then some moduleWord
  else none

theorem ofWord?_word (keyword : Keyword) : ofWord? keyword.word = some keyword := by
  cases keyword <;> decide

theorem eq_word_of_ofWord? {text : String} {keyword : Keyword}
    (found : ofWord? text = some keyword) : text = keyword.word := by
  unfold ofWord? at found
  split at found
  · simp_all
  · split at found <;> simp_all

end Keyword

/-- Punctuation with one meaning wherever it stands. -/
inductive Mark where
  | dot | doubleColon | doubleQuestion
  | leftBracket | rightBracket | leftParen | rightParen | leftBrace | rightBrace
  | comma | atSign | arrow | blockArrow | colon
deriving DecidableEq, Repr

namespace Mark

/-- Every mark once. -/
def all : List Mark :=
  [dot, doubleColon, doubleQuestion, leftBracket, rightBracket, leftParen, rightParen, leftBrace,
    rightBrace, comma, atSign, arrow, blockArrow, colon]

def sign : Mark → String
  | dot => "."
  | doubleColon => "::"
  | doubleQuestion => "??"
  | leftBracket => "["
  | rightBracket => "]"
  | leftParen => "("
  | rightParen => ")"
  | leftBrace => "\x7b"
  | rightBrace => "\x7d"
  | comma => ","
  | atSign => "@"
  | arrow => "->"
  | blockArrow => "&>"
  | colon => ":"

/-- The name under which a mark appears in token listings. -/
def name : Mark → String
  | dot => "Dot"
  | doubleColon => "ColonColon"
  | doubleQuestion => "DefinedOp"
  | leftBracket => "LeftBracket"
  | rightBracket => "RightBracket"
  | leftParen => "LeftParen"
  | rightParen => "RightParen"
  | leftBrace => "LeftBrace"
  | rightBrace => "RightBrace"
  | comma => "Comma"
  | atSign => "At"
  | arrow => "Arrow"
  | blockArrow => "BlockArrow"
  | colon => "Colon"

theorem mem_all (mark : Mark) : mark ∈ all := by
  cases mark <;> decide

end Mark

/-- What a token is, with the value it carries. -/
inductive Kind where
  | integer (value : Int)
  | float (value : Binary64)
  /-- One piece of a string, its escapes resolved. -/
  | fragment (text : String)
  | interpolationStart
  | interpolationEnd
  | identifier (name : String)
  | constant (name : String)
  | keyword (word : Keyword)
  | operator (sign : Operator)
  | mark (sign : Mark)
  | comment (text : String)
  | whitespace
  | newline
  | indent
  | dedent
  | endOfInput
deriving DecidableEq, Repr

namespace Kind

/-- Whitespace and comments carry no meaning of their own. -/
def isTrivia : Kind → Bool
  | whitespace | comment _ => true
  | _ => false

theorem isTrivia_iff {kind : Kind} :
    kind.isTrivia = true ↔ kind = .whitespace ∨ ∃ text, kind = .comment text := by
  cases kind <;> simp [isTrivia]

/-- The kind in words, with its value. -/
def display : Kind → String
  | integer value => "integer " ++ toString value
  | float value => "float " ++ DecimalLayout.plain.render value
  | fragment text => "string " ++ Text.quoted text
  | interpolationStart => "#\x7b"
  | interpolationEnd => "\x7d"
  | identifier name => "identifier '" ++ name ++ "'"
  | constant name => "constant '" ++ name ++ "'"
  | .keyword word => "keyword '" ++ word.word ++ "'"
  | .operator shown => shown.sign
  | .mark shown => shown.sign
  | comment text => "comment " ++ Text.quoted text
  | whitespace => "whitespace"
  | newline => "newline"
  | indent => "indent"
  | dedent => "dedent"
  | endOfInput => "EOF"

/-- The word that a symbol is named by: any name, reserved or not. -/
def symbolName? : Kind → Option String
  | .identifier name => some name
  | .constant name => some name
  | .keyword word => some word.word
  | _ => none

end Kind

/-- A piece of a source text. -/
structure Token where
  kind : Kind
  /-- The text as written. -/
  lexeme : String
  location : Location
  /-- Whitespace or a comment stands directly before the token. -/
  spaced : Bool
deriving DecidableEq, Repr

namespace Token

def isTrivia (token : Token) : Bool := token.kind.isTrivia

/-- What a reader is told about a token that stands in the wrong place: layout is named, a string is
shown by its text, and anything else as written. -/
def describe (token : Token) : String :=
  match token.kind with
  | .newline => "newline"
  | .indent => "indent"
  | .dedent => "dedent"
  | .endOfInput => "end of input"
  | .fragment text => "string " ++ Text.quoted text
  | _ => "'" ++ token.lexeme ++ "'"

/-- The tokens that carry meaning. -/
def significant (tokens : List Token) : List Token :=
  tokens.filter (!·.isTrivia)

theorem significant_append (first second : List Token) :
    significant (first ++ second) = significant first ++ significant second :=
  List.filter_append first second

theorem significant_cons
    {token : Token} (means : token.kind.isTrivia = false) (others : List Token) :
    significant (token :: others) = token :: significant others := by
  rw [significant, List.filter_cons_of_pos (by rw [isTrivia, means]; rfl)]
  rfl

theorem significant_eq_self
    {tokens : List Token} (means : ∀ token ∈ tokens, token.isTrivia = false) :
    significant tokens = tokens := by
  refine List.filter_eq_self.2 ?_
  intro token member
  rw [means token member]
  rfl

end Token

end ScriptFront
