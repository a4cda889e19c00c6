import Demux.Track

/-!
What is told about a file without demuxing it: the container and a summary of each track.
-/

namespace Demux

abbrev Properties := List (String × String)

def Properties.insert (key value : String) : Properties → Properties
  | [] => [(key, value)]
  | (k, v) :: rest =>
    if key = k then (key, value) :: rest
    else if key < k then (key, value) :: (k, v) :: rest
    else (k, v) :: Properties.insert key value rest

def Properties.ofList (entries : List (String × String)) : Properties :=
  entries.foldl (fun properties (key, value) => properties.insert key value) []

structure TrackSummary where
  id : Nat
  kind : TrackKind
  codec : String
  properties : Properties
  deriving Repr, DecidableEq

structure Identification where
  container : String
  tracks : List TrackSummary := []
  deriving Repr, DecidableEq

def Identification.addTrack (info : Identification) (kind : TrackKind) (codec : String)
    (properties : List (String × String)) : Identification :=
  { info with
    tracks := info.tracks ++
      [{ id := info.tracks.length, kind, codec, properties := .ofList properties }] }

end Demux
