/-!
Values of a TOML document, and how its tables come together from headers and keys.
-/

namespace Demux.Toml

/-- How a table was written, which decides what may be added to it later. -/
inductive Origin where
  /-- In braces. -/
  | inline
  /-- By a header of its own, or as the whole document. -/
  | header
  /-- By the header of a table inside it. -/
  | implied
  /-- By a dotted key. -/
  | dotted
  deriving Repr, DecidableEq

inductive Value where
  | string (text : String)
  | integer (value : Int)
  | float
  | boolean (value : Bool)
  | time
  | array (elements : List Value)
  | table (origin : Origin) (fields : List (String × Value))
  /-- An array of tables that are written with headers; the last one comes first. -/
  | tables (last : List (String × Value)) (before : List (List (String × Value)))
  deriving Inhabited

abbrev Fields := List (String × Value)

namespace Fields

def set (key : String) (value : Value) : Fields → Fields
  | [] => [(key, value)]
  | (k, v) :: rest => if k = key then (k, value) :: rest else (k, v) :: set key value rest

/-- Changes the table at the end of a header's path. Missing tables on the way are implied. -/
def under (path : List String) (f : Fields → Option Fields) (fields : Fields) : Option Fields :=
  match path with
  | [] => f fields
  | key :: path =>
    match fields.lookup key with
    | none => do return fields.set key (.table .implied (← under path f []))
    | some (.table .inline _) => none
    | some (.table origin child) => do return fields.set key (.table origin (← under path f child))
    | some (.tables last before) => do return fields.set key (.tables (← under path f last) before)
    | some _ => none

def openTable (key : String) (fields : Fields) : Option Fields :=
  match fields.lookup key with
  | none => some (fields.set key (.table .header []))
  | some (.table .implied child) => some (fields.set key (.table .header child))
  | some _ => none

def openElement (key : String) (fields : Fields) : Option Fields :=
  match fields.lookup key with
  | none => some (fields.set key (.tables [] []))
  | some (.tables last before) => some (fields.set key (.tables [] (last :: before)))
  | some _ => none

def add (key : String) (value : Value) (fields : Fields) : Option Fields :=
  match fields.lookup key with
  | none => some (fields.set key value)
  | some _ => none

/-- Adds a value under a dotted key. The table that receives it has to be written with dotted
keys. An array of tables stands for its last one on the way there. -/
def assign (path : List String) (key : String) (value : Value) (fields : Fields) : Option Fields :=
  match path with
  | [] => fields.add key value
  | step :: path =>
    match fields.lookup step with
    | none => do return fields.set step (.table .dotted (← assign path key value []))
    | some (.table .dotted child) => do
      return fields.set step (.table .dotted (← assign path key value child))
    | some (.table .implied child) =>
      if path = [] then none
      else do return fields.set step (.table .implied (← assign path key value child))
    | some (.tables last before) =>
      if path = [] then none
      else do return fields.set step (.tables (← assign path key value last) before)
    | some _ => none

end Fields

end Demux.Toml
