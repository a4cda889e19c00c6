import Demux.Toml.Scalar

/-!
TOML documents: lines with keys and values or with the header of a table.
-/

namespace Demux.Toml

open Scanner

def comment : Scanner Unit := char '#' *> discard (span isPrintable)

def padding : Scanner Unit :=
  discard (many (discard (satisfy isBlank) <|> newline <|> comment))

def isBare (c : Char) : Bool := c.isAlphanum || c = '_' || c = '-'

def simpleKey : Scanner String :=
  String.ofList <$> (basicString <|> literalString <|> do
    let first ← satisfy isBare
    return first :: (← span isBare))

def depthLimit : Nat := 80

def key : Scanner (List String × String) := do
  let parts ← sepBy (blanks *> simpleKey <* blanks) (char '.')
  if parts.length < depthLimit then
    require (parts.getLast?.map (parts.dropLast, ·))
  else failure

def pair (value : Scanner Value) : Scanner (List String × String × Value) := do
  let (path, key) ← key
  char '='
  blanks
  return (path, key, ← value)

def elements (value : Scanner Value) : Scanner (List Value) := do
  char '['
  padding
  let found ← optional (sepBy (value <* padding) (char ',' *> padding))
  if found.isSome then discard (optional (char ',' *> padding))
  char ']'
  return found.getD []

def braces (value : Scanner Value) : Scanner Fields := do
  char '\x7b'
  blanks
  let found ← optional (sepBy (pair value <* blanks) (char ','))
  char '\x7d'
  let add (fields : Fields) : List String × String × Value → Option Fields
    | (path, key, value) => fields.assign path key value
  require ((found.getD []).foldlM add [])

def value : (depth : Nat) → Scanner Value
  | 0 => failure
  | 1 => scalar
  | depth + 1 =>
    scalar <|> .array <$> elements (value depth) <|> .table .inline <$> braces (value depth)

inductive Line where
  | pair (path : List String) (key : String) (value : Value)
  | header (path : List String) (key : String)
  | elementHeader (path : List String) (key : String)

def line : Scanner (Option Line) := do
  blanks
  let found ← optional <|
    (do
      text "[["
      let (path, key) ← key
      text "]]"
      return .elementHeader path key) <|>
    (do
      char '['
      let (path, key) ← key
      char ']'
      return .header path key) <|>
    (do
      let (path, key, value) ← pair (value depthLimit)
      return .pair path key value)
  blanks
  let _ ← optional comment
  return found

def lines : Scanner (List Line) := do
  let _ ← optional (char '\ufeff')
  let found ← sepBy line newline
  endOfText
  return found.filterMap id

structure Draft where
  fields : Fields := []
  path : List String := []

def Draft.add (draft : Draft) : Line → Option Draft
  | .pair path key value => do
    return { draft with fields := ← draft.fields.under draft.path (·.assign path key value) }
  | .header path key => do
    return ⟨← draft.fields.under path (·.openTable key), path ++ [key]⟩
  | .elementHeader path key => do
    return ⟨← draft.fields.under path (·.openElement key), path ++ [key]⟩

def parse (text : String) : Option Fields := do
  let (lines, _) ← lines.run text.toList
  let draft ← lines.foldlM Draft.add {}
  return draft.fields

end Demux.Toml
