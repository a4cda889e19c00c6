import Demux.Text.Decimal
import Demux.Text.Hex
import Demux.Text.Scanner
import Demux.Toml.Value

/-!
Strings, numbers and times of TOML.
-/

namespace Demux.Toml

open Scanner

def isBlank (c : Char) : Bool := c = ' ' || c = '\t'

def blanks : Scanner Unit := discard (span isBlank)

def newline : Scanner Unit := char '\n' <|> text "\r\n"

def isPrintable (c : Char) : Bool := c = '\t' || (' ' ≤ c && c ≠ '\x7f')

def isHexDigit (c : Char) : Bool :=
  c.isDigit || ('a' ≤ c && c ≤ 'f') || ('A' ≤ c && c ≤ 'F')

def digitValue (c : Char) : Nat :=
  if c.isDigit then c.toNat - 48 else if 'a' ≤ c then c.toNat - 87 else c.toNat - 55

def numeral (base : Nat) (digits : List Char) : Nat :=
  digits.foldl (fun n c => base * n + digitValue c) 0

def exactly (p : Char → Bool) : Nat → Scanner (List Char)
  | 0 => return []
  | n + 1 => do return (← satisfy p) :: (← exactly p n)

def codePoint (digits : Nat) : Scanner Char := do
  let n := numeral 16 (← exactly isHexDigit digits)
  require (if n.isValidChar then some (.ofNat n) else none)

def escape : Scanner Char := do
  char '\\'
  match ← satisfy fun _ => true with
  | 'b' => return '\x08'
  | 't' => return '\t'
  | 'n' => return '\n'
  | 'f' => return '\x0c'
  | 'r' => return '\r'
  | '"' => return '"'
  | '\\' => return '\\'
  | 'u' => codePoint 4
  | 'U' => codePoint 8
  | _ => failure

def basicString : Scanner (List Char) := do
  char '"'
  let content ← many (satisfy (fun c => isPrintable c && c ≠ '"' && c ≠ '\\') <|> escape)
  char '"'
  return content

def literalString : Scanner (List Char) := do
  char '\''
  let content ← span fun c => isPrintable c && c ≠ '\''
  char '\''
  return content

def innerQuotes (quote : Char) : Scanner (List Char) := do
  let run ← span (· = quote)
  if run.length = 1 ∨ run.length = 2 then return run else failure

def closingQuotes (quote : Char) : Scanner (List Char) := fun input =>
  let run := (input.takeWhile (· = quote)).length
  if 3 ≤ run then some (.replicate (min run 5 - 3) quote, input.drop (min run 5)) else none

def foldedLine : Scanner (List Char) := do
  char '\\'
  blanks
  newline
  let _ ← many (discard (satisfy isBlank) <|> newline)
  return []

def multilineString (quote : Char) (piece : Scanner (List Char)) : Scanner (List Char) := do
  text (String.ofList [quote, quote, quote])
  let _ ← optional newline
  let pieces ← many (piece <|> (newline *> pure ['\n']) <|> innerQuotes quote)
  let closing ← closingQuotes quote
  return pieces.flatten ++ closing

def multilineBasic : Scanner (List Char) :=
  let plain c := isPrintable c && c ≠ '"' && c ≠ '\\'
  multilineString '"' (foldedLine <|> List.singleton <$> (satisfy plain <|> escape))

def multilineLiteral : Scanner (List Char) :=
  multilineString '\'' (List.singleton <$> satisfy fun c => isPrintable c && c ≠ '\'')

def anyString : Scanner String :=
  String.ofList <$> (multilineBasic <|> multilineLiteral <|> basicString <|> literalString)

def digitsOf (p : Char → Bool) : Scanner (List Char) := do
  let first ← satisfy p
  let rest ← many ((char '_' <|> pure ()) *> satisfy p)
  return first :: rest

def wholeDigits : Scanner (List Char) :=
  (char '0' *> pure ['0']) <|> do
    let digits ← digitsOf (·.isDigit)
    if digits.head? = some '0' then failure else return digits

def sign : Scanner Int :=
  (char '-' *> pure (-1)) <|> (char '+' *> pure 1) <|> pure 1

def integerText : Scanner Int :=
  (text "0x" *> (Int.ofNat ∘ numeral 16) <$> digitsOf isHexDigit) <|>
    (text "0o" *> (Int.ofNat ∘ numeral 8) <$> digitsOf fun c => '0' ≤ c && c ≤ '7') <|>
    (text "0b" *> (Int.ofNat ∘ numeral 2) <$> digitsOf fun c => c = '0' || c = '1') <|> do
      let factor ← sign
      return factor * (numeral 10 (← wholeDigits) : Int)

def integer : Scanner Int := do
  let value ← integerText
  require (if Int64.minValue.toInt ≤ value ∧ value ≤ Int64.maxValue.toInt then some value else none)

def fractionPart : Scanner (List Char) := char '.' *> digitsOf (·.isDigit)

def exponentPart : Scanner Int := do
  let _ ← satisfy fun c => c = 'e' || c = 'E'
  let factor ← sign
  return factor * (numeral 10 (← digitsOf (·.isDigit)) : Int)

/-- All digits of a number with a fraction or an exponent, and the power of ten that they count. -/
def floatText : Scanner (List Char × Int) := do
  let whole ← wholeDigits
  (return (whole, ← exponentPart)) <|> do
    let fraction ← fractionPart
    let exponent ← exponentPart <|> pure 0
    return (whole ++ fraction, exponent - fraction.length)

/-- The least number that is nearer to infinity than to the largest float of 64 bits. It has 309
digits. -/
def floatLimit : Nat := (1 <<< 1024) - (1 <<< 970)

def withZeros (n : Nat) : Nat → Nat
  | 0 => n
  | zeros + 1 => 10 * withZeros n zeros

/-- Whether a number, given by its digits and the power of ten that they count, is below the limit
of floats. Unless it has as many digits in front of the point as the limit has, their number
decides. -/
def fitsFloat (digits : List Char) (exponent : Int) : Bool :=
  let digits := digits.dropWhile (· = '0')
  let places := digits.length + exponent
  if digits = [] ∨ places < 309 then true
  else if 309 < places then false
  else
    withZeros (numeral 10 digits) exponent.toNat < withZeros floatLimit (-exponent).toNat

/-- A float. One that is too large is refused, but below zero it counts as infinite. -/
def float : Scanner Unit := do
  let factor ← sign
  text "inf" <|> text "nan" <|> do
    let (digits, exponent) ← floatText
    if factor = -1 ∨ fitsFloat digits exponent then return () else failure

def twoDigits (first last : Nat) : Scanner Nat := do
  let n := numeral 10 (← exactly (·.isDigit) 2)
  if first ≤ n ∧ n ≤ last then return n else failure

def daysOf (year month : Nat) : Nat :=
  if month = 2 then
    if year % 4 = 0 ∧ (year % 100 ≠ 0 ∨ year % 400 = 0) then 29 else 28
  else if month ∈ [4, 6, 9, 11] then 30 else 31

def date : Scanner Unit := do
  let year := numeral 10 (← exactly (·.isDigit) 4)
  char '-'
  let month ← twoDigits 1 12
  char '-'
  discard (twoDigits 1 (daysOf year month))

def clock : Scanner Unit := do
  let _ ← twoDigits 0 23
  char ':'
  let _ ← twoDigits 0 59
  char ':'
  let _ ← twoDigits 0 60
  discard (optional (char '.' *> satisfy (·.isDigit) *> span (·.isDigit)))

def zone : Scanner Unit :=
  discard (satisfy fun c => c = 'Z' || c = 'z') <|> do
    let _ ← satisfy fun c => c = '+' || c = '-'
    let _ ← twoDigits 0 23
    char ':'
    discard (twoDigits 0 59)

def time : Scanner Unit :=
  (date *> discard (optional do
    let _ ← satisfy fun c => c = 'T' || c = 't' || c = ' '
    clock
    optional zone)) <|> clock

def boolean : Scanner Bool := (text "true" *> pure true) <|> (text "false" *> pure false)

def scalar : Scanner Value :=
  .string <$> anyString <|> .boolean <$> boolean <|> (time *> pure .time) <|>
    (float *> pure .float) <|> .integer <$> integer

end Demux.Toml
