import Demux.Audio.Ac3
import Demux.Audio.Dts
import Demux.Audio.MpegAudio
import Demux.BitCursor
import Demux.ByteCursor
import Demux.Bytes
import Demux.Chapter.Basic
import Demux.Chapter.Error
import Demux.Chapter.File
import Demux.Chapter.Lookup
import Demux.Chapter.Mandatory
import Demux.Chapter.Merge
import Demux.Chapter.Select
import Demux.Chapter.Shift
import Demux.Chapter.Simple
import Demux.Chapter.SimpleLine
import Demux.CommandLine.Arguments
import Demux.CommandLine.Disk
import Demux.CommandLine.FileSystem
import Demux.CommandLine.Run
import Demux.Config
import Demux.Container
import Demux.Error
import Demux.Frame
import Demux.Id3
import Demux.Identification
import Demux.Main
import Demux.Path
import Demux.ProgramStream.Candidate
import Demux.ProgramStream.Packet
import Demux.ProgramStream.Reader
import Demux.ProgramStream.Reassembly
import Demux.ProgramStream.StreamMap
import Demux.ProgramStream.Survey
import Demux.ProgramStream.Track
import Demux.ProgramStream.Walk
import Demux.Proofs.BitCursor
import Demux.Proofs.ByteCursor
import Demux.Proofs.Call
import Demux.Proofs.ProgramStream.AlignedSurvey
import Demux.Proofs.ProgramStream.AlignedWalk
import Demux.Proofs.ProgramStream.Alignment
import Demux.Proofs.ProgramStream.Blacklist
import Demux.Proofs.ProgramStream.Delivered
import Demux.Proofs.ProgramStream.Delivery
import Demux.Proofs.ProgramStream.Header
import Demux.Proofs.ProgramStream.Inspection
import Demux.Proofs.ProgramStream.LongerSource
import Demux.Proofs.ProgramStream.LookAhead
import Demux.Proofs.ProgramStream.Multiplex
import Demux.Proofs.ProgramStream.PacketHeader
import Demux.Proofs.ProgramStream.PlainPacket
import Demux.Proofs.ProgramStream.Reading
import Demux.Proofs.ProgramStream.Resync
import Demux.Proofs.ProgramStream.RoundTrip
import Demux.Proofs.ProgramStream.Route
import Demux.Proofs.ProgramStream.Separation
import Demux.Proofs.ProgramStream.SideBySide
import Demux.Proofs.ProgramStream.Stages
import Demux.Proofs.ProgramStream.SurveyRoute
import Demux.Proofs.ProgramStream.SurveyStep
import Demux.Proofs.ProgramStream.Track
import Demux.Proofs.ProgramStream.Walk
import Demux.Proofs.Session
import Demux.Proofs.Sink
import Demux.Proofs.StartCode
import Demux.Proofs.Step
import Demux.Random.ChaCha
import Demux.Report
import Demux.Sniff
import Demux.SourceError
import Demux.StartCode
import Demux.Text.Blank
import Demux.Text.Decimal
import Demux.Text.Digit
import Demux.Text.Hex
import Demux.Text.Json
import Demux.Text.Scanner
import Demux.Text.Visible
import Demux.Timecode
import Demux.Toml.Document
import Demux.Toml.Scalar
import Demux.Toml.Value
import Demux.Track
import Demux.Tta.Header
import Demux.Tta.Reader
import Demux.Uid
import Demux.Video.Avc
import Demux.Video.MpegVideo
import Demux.Video.NalUnit
import Demux.Video.ParameterSet
import Demux.Video.Signature
import Demux.Video.Vc1
import Demux.Proofs.ProgramStream.ProbeBudget
import Demux.Proofs.ExpGolomb
import Demux.Proofs.Video.NalUnit
import Demux.Proofs.Video.ParameterSet
import Demux.Proofs.Chapter.Selection
import Demux.Proofs.Video.PictureSize
import Demux.Proofs.Id3
import Demux.Proofs.Tta.SeekTable
import Demux.Proofs.Tta.Delivery
import Demux.Proofs.Leaders
import Demux.Proofs.Chapter.Confinement
import Demux.Proofs.Chapter.Merging
import Demux.Proofs.Chapter.Moving
import Demux.Proofs.Bytes
import Demux.Proofs.Sniff
import Demux.Proofs.StartCodeOffsets
import Demux.Proofs.Audio.SyncHeader
import Demux.Proofs.Video.SequenceHeader
import Demux.Proofs.ProgramStream.Packetisation
import Demux.Proofs.Video.Signature
import Demux.Proofs.Video.AnnexB
import Demux.Proofs.Text.Blank
import Demux.Proofs.Text.Decimal
import Demux.Proofs.Uid
import Demux.Proofs.Chapter.SimpleLine
import Demux.Proofs.Chapter.ContentLines
import Demux.Proofs.Chapter.Pairing
import Demux.Proofs.Chapter.Written
import Demux.Proofs.ProgramStream.TimestampOffsets
import Demux.Proofs.ProgramStream.Exhaustion
import Demux.Proofs.ProgramStream.ReadProgress
import Demux.Proofs.ProgramStream.HeaderWalk
import Demux.Proofs.ProgramStream.ScrambledAhead
import Demux.Proofs.ProgramStream.Opening
import Demux.Proofs.ProgramStream.PacketAccount
import Demux.Proofs.ProgramStream.AudioPacket
import Demux.Proofs.Id3.Tag
import Demux.Proofs.Tta.Tagged
import Demux.Proofs.Uid.History
import Demux.Proofs.Chapter.Ids
import Demux.Proofs.ProgramStream.MapChecksum
import Demux.Proofs.ProgramStream.ExtendedPacket
import Demux.Proofs.ProgramStream.Reassembly
import Demux.Proofs.Chapter.Shift
import Demux.Proofs.Video.Configuration
import Demux.Proofs.Video.GrowingWindow
import Demux.Proofs.Chapter.Entries
import Demux.Proofs.Chapter.ShiftLaws
import Demux.Proofs.Chapter.Completion
import Demux.Proofs.Timecode.Form
import Demux.Proofs.Timecode.Printed
import Demux.Proofs.Container
import Demux.Proofs.Chapter.Dispatch
import Demux.Proofs.Video.Slices
