import ChattingServer.V11.NetworkLib.Packet

namespace ChattingServer.V11

open Lib

/-- A packet that outgrows the stream is cut off at its end, with nothing left out before. -/
structure CleanPrefix (p : Packet) : Prop where
  /-- `encode` makes the writes of `Packet.writes`, on whatever stream. -/
  writes : ∀ s, (p.encode s).2 = p.writes.foldl Stream.write s
  /-- What they would leave in a stream without a limit. -/
  unbounded : p.writes.flatten = p.encoding
  size : (p.encode Stream.init).2.size = min sockbufSize p.encoding.length
  bytes : (p.encode Stream.init).2.stream.take (p.encode Stream.init).2.size =
    p.encoding.take (p.encode Stream.init).2.size
  noHole : (Stream.init.accepts p.writes).Pairwise fun earlier later =>
    later = true → earlier = true

theorem accepts_pairwise (p : Packet) :
    (Stream.init.accepts p.writes).Pairwise fun earlier later => later = true → earlier = true := by
  rw [Stream.accepts_eq]
  exact p.aligned_writes.accepted_pairwise (by decide) rfl

theorem encode_cleanPrefix (p : Packet) : CleanPrefix p where
  writes := p.encode_snd
  unbounded := p.flatten_writes
  size := p.size_encode
  bytes := by
    have hcontents := p.contents_encode
    rw [Stream.contents] at hcontents
    rw [Stream.size, hcontents, List.take_eq_take_iff, ← Stream.size, p.size_encode]
    omega
  noHole := accepts_pairwise p

end ChattingServer.V11
