import Demux.Chapter.Simple
import Demux.ProgramStream.Reader
import Demux.Text.Blank
import Demux.Toml.Value

/-!
Settings, and the TOML tables `demux` and `chapters` that hold them. Other keys are ignored.
-/

namespace Demux

structure Config where
  /-- Bytes of a program stream that are surveyed. -/
  probeSize : UInt64 := .ofNat ProgramStream.defaultProbeSize
  /-- Language and country of chapter names that name none. -/
  defaults : Chapter.Defaults := {}
  /-- Seed of new ids, which are random without one. -/
  uidSeed : Option UInt64 := none
  deriving Repr, DecidableEq

namespace Config

open Toml (Fields Value)

/-- The fields of a table. A list gives them without their keys, in this order. A time counts as a
table with parts of its own, none of which is a setting. -/
def fieldsOf (keys : List String) : Value → Option Fields
  | .table _ fields => some fields
  | .array elements => some (keys.zip elements)
  | .tables last before =>
    some (keys.zip ((last :: before).reverse.map (.table .header)))
  | .time => some []
  | _ => none

def word : Value → Option UInt64
  | .integer value => if 0 ≤ value ∧ value < UInt64.size then some (.ofNat value.toNat) else none
  | _ => none

def string : Value → Option String
  | .string text => some text
  | _ => none

def setting {α : Type} (fields : Fields) (key : String) (read : Value → Option α) :
    Option (Option α) :=
  match fields.lookup key with
  | none => some none
  | some value => some <$> read value

def section? (fields : Fields) (key : String) (keys : List String) : Option Fields := do
  return (← setting fields key (fieldsOf keys)).getD []

def ofFields (fields : Fields) : Option Config := do
  let demux ← section? fields "demux" ["probe_size"]
  let probeSize ← setting demux "probe_size" word
  let chapters ← section? fields "chapters" ["default_language", "default_country", "uid_seed"]
  let default : Config := {}
  return {
    probeSize := probeSize.getD default.probeSize
    defaults :=
      { language := ← setting chapters "default_language" string
        country := ← setting chapters "default_country" string }
    uidSeed := ← setting chapters "uid_seed" word }

def minProbeSize : UInt64 := 4096

inductive Fault where
  | probeSize (value : UInt64)
  | emptyLanguage
  | emptyCountry
  deriving Repr, DecidableEq

def Fault.message : Fault → String
  | .probeSize value => s!"demux.probe_size must be at least {minProbeSize} bytes, got {value}"
  | .emptyLanguage => "chapters.default_language cannot be empty"
  | .emptyCountry => "chapters.default_country cannot be empty"

def isEmptyText (text : Option String) : Bool := text.any (·.toList.all Text.isBlank)

def fault? (config : Config) : Option Fault :=
  if config.probeSize < minProbeSize then some (.probeSize config.probeSize)
  else if isEmptyText config.defaults.language then some .emptyLanguage
  else if isEmptyText config.defaults.country then some .emptyCountry
  else none

end Config

end Demux
