/-!
Readers that take what they recognise from the front of a text, or refuse it.
-/

namespace Demux

abbrev Scanner := StateT (List Char) Option

namespace Scanner

variable {α : Type}

def satisfy (p : Char → Bool) : Scanner Char
  | c :: rest => if p c then some (c, rest) else none
  | [] => none

def char (c : Char) : Scanner Unit := discard (satisfy (· = c))

def text (expected : String) : Scanner Unit := fun input =>
  if expected.toList.isPrefixOf input then some ((), input.drop expected.length) else none

def span (p : Char → Bool) : Scanner (List Char) := fun input =>
  some (input.takeWhile p, input.dropWhile p)

def endOfText : Scanner Unit
  | [] => some ((), [])
  | _ => none

def manyFrom (p : Scanner α) (input : List Char) : List α × List Char :=
  match p input with
  | none => ([], input)
  | some (a, rest) =>
    if rest.length < input.length then
      let (as, rest) := manyFrom p rest
      (a :: as, rest)
    else ([a], rest)
termination_by input.length

/-- Repeats a reader until it refuses or takes nothing. -/
def many (p : Scanner α) : Scanner (List α) := fun input => some (manyFrom p input)

def sepBy (p : Scanner α) (separator : Scanner Unit) : Scanner (List α) := do
  let first ← p
  let rest ← many (separator *> p)
  return first :: rest

def require (value : Option α) : Scanner α := fun input => value.map (·, input)

end Scanner

end Demux
