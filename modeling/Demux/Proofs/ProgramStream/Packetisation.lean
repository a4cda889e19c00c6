import Demux.ProgramStream.Survey
import Demux.Proofs.Audio.SyncHeader
import Demux.Proofs.ProgramStream.LookAhead
import Demux.Proofs.Sink
import Demux.Proofs.Video.SequenceHeader

/-!
What a sniffer says of an elementary stream does not depend on the packets that carry it. The window
grows by one payload after the other, so it is always a front of the stream; a verdict that further
bytes do not change is therefore the one on the whole stream.
-/

namespace Demux.ProgramStream

namespace Walk

variable {α : Type} {sniffer : ByteArray → Sniff α} {limit : Nat} {id : TrackId}
  {window : ByteArray} {w : Walk} {verdict : Sniff α}

/-- The payloads that a sniffer can ask for. -/
def payloads (limit : Nat) (id : TrackId) (w : Walk) : List ByteArray :=
  match nextPayload limit id w with
  | (.more payload, w') =>
    if w'.remaining < w.remaining then payload :: payloads limit id w' else []
  | _ => []
termination_by w.remaining

theorem verdict_of_sniffStream (h : KeepsVerdict sniffer)
    (hrun : (sniffStream sniffer limit id window w).1 = .ok verdict) (hmore : verdict ≠ .needMore) :
    sniffer (window ++ concat (payloads limit id w)) = verdict := by
  fun_induction sniffStream sniffer limit id window w with
  | case1 window w hwindow payload w' hnext hlt ih =>
    rw [payloads, hnext]
    dsimp only
    rw [if_pos hlt, concat_cons, ← ByteArray.append_assoc]
    exact ih hrun
  | case2 window w hwindow payload w' hnext hlt => exact absurd (Except.ok.inj hrun).symm hmore
  | case3 window w hwindow w' hnext => exact absurd (Except.ok.inj hrun).symm hmore
  | case4 window w hwindow w' hnext => cases hrun
  | case5 window w hwindow =>
    obtain rfl : sniffer window = verdict := Except.ok.inj hrun
    exact h.append hmore _

/-- Two runs over fronts of one stream that both come to a verdict come to the same one, however the
stream is cut into payloads. -/
def IgnoresPackets (sniffer : ByteArray → Sniff α) : Prop :=
  ∀ {limit limit' : Nat} {id id' : TrackId} {window window' rest rest' : ByteArray} {w w' : Walk}
    {verdict verdict' : Sniff α},
    window ++ concat (payloads limit id w) ++ rest =
      window' ++ concat (payloads limit' id' w') ++ rest' →
    (sniffStream sniffer limit id window w).1 = .ok verdict → verdict ≠ .needMore →
    (sniffStream sniffer limit' id' window' w').1 = .ok verdict' → verdict' ≠ .needMore →
    verdict = verdict'

theorem ignoresPackets_of_keepsVerdict (h : KeepsVerdict sniffer) : IgnoresPackets sniffer := by
  intro limit limit' id id' window window' rest rest' w w' verdict verdict' hstream hrun hmore hrun'
    hmore'
  obtain rfl := verdict_of_sniffStream h hrun hmore
  obtain rfl := verdict_of_sniffStream h hrun' hmore'
  rw [← h.append hmore rest, ← h.append hmore' rest', hstream]

end Walk

open Walk

/-- What has been found stays when further bytes follow, and so does the refusal of MPEG video and
VC-1; hence the verdicts on MPEG video, VC-1 and DTS do not depend on the packets. -/
theorem verdicts_ignore_packets :
    (KeepsFound MpegVideo.sniff ∧ KeepsFound Vc1.sniff ∧ KeepsFound Dts.sniff ∧
      KeepsFound Ac3.sniff ∧ KeepsFound MpegAudio.sniff) ∧
    (KeepsFailed MpegVideo.sniff ∧ KeepsFailed Vc1.sniff) ∧
    IgnoresPackets sniffMpegVideo ∧ IgnoresPackets sniffVc1 ∧ IgnoresPackets sniffDts := by
  refine ⟨⟨MpegVideo.keepsVerdict_sniff.found, Vc1.keepsVerdict_sniff.found, Dts.keepsFound_sniff,
    Ac3.keepsFound_sniff, MpegAudio.keepsFound_sniff⟩,
    ⟨MpegVideo.keepsVerdict_sniff.failed, Vc1.keepsVerdict_sniff.failed⟩, ?_, ?_, ?_⟩
  · exact ignoresPackets_of_keepsVerdict (MpegVideo.keepsVerdict_sniff.map _)
  · exact ignoresPackets_of_keepsVerdict (Vc1.keepsVerdict_sniff.map _)
  · exact ignoresPackets_of_keepsVerdict (Dts.keepsVerdict_sniff.map _)

/-- A DTS header in one piece, and the same in a first payload and a packet. -/
theorem verdicts_ignore_packets_dts :
    let id : TrackId := ⟨0xbd, 0x90⟩
    let whole : ByteArray := ⟨#[0x7f, 0xfe, 0x80, 0x01, 0xfc, 0x3c, 0x7d, 0xc0, 0xb7, 0, 0, 0, 0, 0]⟩
    let front : ByteArray := ⟨#[0x7f, 0xfe, 0x80, 0x01, 0xfc]⟩
    let nothing : Walk := { cursor := { data := .empty } }
    let one : Walk := { cursor := { data :=
      ⟨#[0, 0, 1, 0xbd, 0, 13, 0x80, 0, 0, 0x90, 0x3c, 0x7d, 0xc0, 0xb7, 0, 0, 0, 0, 0]⟩ } }
    ∃ found, (sniffStream sniffDts 100 id whole nothing).1 = .ok (.found found) ∧
      (sniffStream sniffDts 100 id front one).1 = .ok (.found found) := by
  intro id whole front nothing one
  have hstream : whole ++ concat (payloads 100 id nothing) ++ .empty =
      front ++ concat (payloads 100 id one) ++ .empty := by decide +kernel
  have hfound (result : Except DemuxError (Sniff Classified))
      (h : (result.toOption.bind Sniff.found?).isSome = true) :
      ∃ found, result = .ok (.found found) := by
    cases result with
    | error e => cases h
    | ok verdict =>
      cases verdict with
      | found found => exact ⟨found, rfl⟩
      | needMore | failed | overflow => cases h
  obtain ⟨found, hwhole⟩ := hfound (sniffStream sniffDts 100 id whole nothing).1 (by decide +kernel)
  obtain ⟨found', hfront⟩ := hfound (sniffStream sniffDts 100 id front one).1 (by decide +kernel)
  have hsame : Sniff.found found = .found found' :=
    verdicts_ignore_packets.2.2.2.2 hstream hwhole (by simp) hfront (by simp)
  exact ⟨found, hwhole, hsame ▸ hfront⟩

end Demux.ProgramStream
