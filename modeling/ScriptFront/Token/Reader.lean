import ScriptFront.Token.Scanner

/-!
A reader gives out the items of one text. It can be asked for the next item, for all items that are
left, or for the tokens that carry meaning, and it can be sent back to the start.
-/

namespace ScriptFront

/-- A text and how far it has been read. -/
structure Reader where
  source : List Char
  file : Option String
  /-- The place reached; there is none once the last item has been given out. -/
  scanner? : Option Scanner
deriving DecidableEq, Repr

/-- The tokens with a meaning among items, or the fault that ends the items. -/
def significantTokens (items : List Item) : Except Fault (List Token) :=
  (items.mapM id).map Token.significant

namespace Reader

/-- A reader at the start of a text. -/
def ofSource (source : String) (file : Option String) : Reader :=
  ⟨source.toList, file, some (.start source.toList)⟩

/-- The reader at the start of its text. -/
def restart (reader : Reader) : Reader :=
  { reader with scanner? := some (.start reader.source) }

/-- The reader behind the last item. -/
def finish (reader : Reader) : Reader := { reader with scanner? := none }

/-- The items that are left. -/
def remaining (reader : Reader) : List Item :=
  match reader.scanner? with
  | none => []
  | some scanner => scanner.items reader.file

/-- The next item, if there is one left, and the reader behind it. -/
def next (reader : Reader) : Option Item × Reader :=
  match reader.scanner? with
  | none => (none, reader)
  | some scanner =>
    match scanner.next reader.file with
    | .error fault => (some (.error fault), reader.finish)
    | .ok (token, after) =>
      if token.kind = .endOfInput then (some (.ok token), reader.finish)
      else (some (.ok token), { reader with scanner? := some after })

/-- All items that are left, and the reader behind them. -/
def takeAll (reader : Reader) : List Item × Reader :=
  (reader.remaining, reader.finish)

/-- The tokens with a meaning that are left or the fault ahead, and the reader behind them. -/
def tokens (reader : Reader) : Except Fault (List Token) × Reader :=
  (significantTokens reader.remaining, reader.finish)

end Reader

/-- All items of a text, whitespace and comments included. -/
def rawItems (source : String) (file : Option String) : List Item :=
  (Reader.ofSource source file).remaining

/-- The tokens of a text, without whitespace and comments. -/
def tokenize (source : String) (file : Option String) : Except Fault (List Token) :=
  significantTokens (rawItems source file)

end ScriptFront
