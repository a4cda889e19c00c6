import Demux.Text.Hex

/-!
JSON values and their text over several lines, with two blanks for each level.
-/

namespace Demux.Json

inductive Value where
  | null
  | bool (value : Bool)
  | number (value : Nat)
  | string (value : String)
  | array (elements : List Value)
  | object (fields : List (String × Value))

def escape (c : Char) : String :=
  match c with
  | '"' => "\\\""
  | '\\' => "\\\\"
  | '\n' => "\\n"
  | '\r' => "\\r"
  | '\t' => "\\t"
  | '\x08' => "\\b"
  | '\x0c' => "\\f"
  | c => if c.toNat < 0x20 then "\\u00" ++ Hex.ofByte (.ofNat c.toNat) else c.toString

def quote (text : String) : String := "\"" ++ String.join (text.toList.map escape) ++ "\""

def lineBreak (depth : Nat) : String := "\n".pushn ' ' (2 * depth)

def enclose (opening closing : String) (depth : Nat) (elements : List String) : String :=
  if elements.isEmpty then opening ++ closing
  else
    let lines := elements.map (lineBreak (depth + 1) ++ ·)
    opening ++ ",".intercalate lines ++ lineBreak depth ++ closing

namespace Value

mutual

def textAt (depth : Nat) : Value → String
  | null => "null"
  | bool value => if value then "true" else "false"
  | number value => toString value
  | string value => quote value
  | array elements => enclose "[" "]" depth (elementTexts (depth + 1) elements)
  | object fields => enclose "\x7b" "\x7d" depth (fieldTexts (depth + 1) fields)

def elementTexts (depth : Nat) : List Value → List String
  | [] => []
  | value :: rest => value.textAt depth :: elementTexts depth rest

def fieldTexts (depth : Nat) : List (String × Value) → List String
  | [] => []
  | (key, value) :: rest =>
    (quote key ++ ": " ++ value.textAt depth) :: fieldTexts depth rest

end

def text (value : Value) : String := value.textAt 0

def ofOption {α : Type} (f : α → Value) : Option α → Value
  | some a => f a
  | none => null

def ofWord (word : UInt64) : Value := number word.toNat

def ofBytes (bytes : List UInt8) : Value := array (bytes.map (number ·.toNat))

end Value

end Demux.Json
