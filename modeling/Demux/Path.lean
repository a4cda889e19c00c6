import Demux.Text.Visible

/-!
Paths with `/` between their parts.
-/

namespace Demux.Path

def parts (path : String) : List (List Char) :=
  (path.toList.splitOn '/').filter fun part => part ≠ [] ∧ part ≠ ['.']

def fileName? (path : String) : Option (List Char) :=
  (parts path).getLast?.filter (· ≠ ['.', '.'])

/-- What follows the last dot of the name, unless the name has no other dot and starts with it. -/
def extension? (path : String) : Option (List Char) := do
  let reversed := (← fileName? path).reverse
  match reversed.dropWhile (· ≠ '.') with
  | [] | ['.'] => none
  | _ => some (reversed.takeWhile (· ≠ '.')).reverse

def join (directory name : String) : String :=
  if directory.endsWith "/" then directory ++ name else directory ++ "/" ++ name

def escape (c : Char) : String :=
  match c with
  | '\x00' => "\\0"
  | '\t' => "\\t"
  | '\n' => "\\n"
  | '\r' => "\\r"
  | '"' => "\\\""
  | '\'' => "\\'"
  | '\\' => "\\\\"
  | c =>
    if Text.isVisible c ∨ c = ' ' then c.toString
    else "\\u\x7b" ++ String.ofList (Nat.toDigits 16 c.toNat) ++ "\x7d"

def quote (path : String) : String := "\"" ++ String.join (path.toList.map escape) ++ "\""

end Demux.Path
