import ChattingServer.V11.NetworkLib.PacketFactory

namespace ChattingServer.V11

open Lib

/-- `IoData::buffer_` after `SetData`, and the length it puts in the `WSABUF`. -/
structure IoData where
  buffer : List UInt8
  len : Nat

def IoData.setData (stream : Stream) : IoData where
  buffer := stream.stream.take stream.size ++ List.replicate (sockbufSize - stream.size) 0
  len := stream.size + 4

inductive SendOutcome
  | sent
  | pending
  | failed
  deriving DecidableEq

def sendPacket (packet : Packet) (outcome : SendOutcome) : IoData × Bool :=
  (IoData.setData (packet.encode Stream.init).2, outcome != .failed)

/-- The bytes of `buffer_` that a call of `Session::SendPacket` puts on the connection.  The `len`
of a packet that fills the buffer reaches past it; those bytes are not the packet's. -/
def serverWire (packet : Packet) : List UInt8 :=
  let ioData := (sendPacket packet .sent).1
  ioData.buffer.take ioData.len

def clientWire (packet : Packet) : List UInt8 :=
  let stream := (packet.encode Stream.init).2
  stream.stream.take stream.size

def Packet.written (p : Packet) : List UInt8 := p.encoding.take sockbufSize

theorem clientWire_eq (p : Packet) : clientWire p = p.written := p.contents_encode

theorem serverWire_eq (p : Packet) :
    serverWire p = p.written ++ List.replicate (min 4 (sockbufSize - p.encoding.length)) 0 := by
  have hsize := p.size_encode
  have hwire : (p.encode Stream.init).2.stream.take (p.encode Stream.init).2.size = p.written :=
    clientWire_eq p
  have hlen : p.written.length = min sockbufSize p.encoding.length := by
    rw [Packet.written, List.length_take]
  simp only [serverWire, sendPacket, IoData.setData]
  rw [hwire, hsize, List.take_append, List.take_of_length_le (by omega), List.take_replicate]
  congr 2
  omega

structure SendsWritten (p : Packet) (outcome : SendOutcome) : Prop where
  inside : (sendPacket p outcome).1.len ≤ (sendPacket p outcome).1.buffer.length
  bytes : (sendPacket p outcome).1.buffer.take (sendPacket p outcome).1.len = clientWire p

theorem sendPacket_inside_iff (p : Packet) (outcome : SendOutcome) :
    (sendPacket p outcome).1.len ≤ (sendPacket p outcome).1.buffer.length ↔
      p.encoding.length + 4 ≤ sockbufSize := by
  have hsize := p.size_encode
  simp only [sendPacket, IoData.setData, List.length_append, List.length_take,
    List.length_replicate, Stream.length_stream, hsize]
  omega

theorem length_clientWire (p : Packet) :
    (clientWire p).length = (p.encode Stream.init).2.size := by
  have hle : (p.encode Stream.init).2.size ≤ sockbufSize := (p.encode Stream.init).2.offset_le
  rw [clientWire, List.length_take, Stream.length_stream, Nat.min_eq_left hle]

theorem length_sendPacket {p : Packet} {outcome : SendOutcome}
    (h : (sendPacket p outcome).1.len ≤ (sendPacket p outcome).1.buffer.length) :
    ((sendPacket p outcome).1.buffer.take (sendPacket p outcome).1.len).length =
      (clientWire p).length + 4 := by
  rw [List.length_take, Nat.min_eq_left h, length_clientWire]
  rfl

theorem not_sendsWritten (p : Packet) (outcome : SendOutcome) : ¬ SendsWritten p outcome := by
  intro h
  have hlen := length_sendPacket h.inside
  rw [h.bytes] at hlen
  omega

/-- Four bytes are written for a packet without fields, and eight are sent. -/
theorem not_forall_sendsWritten : ¬ ∀ p outcome, SendsWritten p outcome := by
  intro h
  have hbytes := (h .sUnicastNo .sent).bytes
  have hlen := length_sendPacket (h .sUnicastNo .sent).inside
  rw [hbytes, length_clientWire] at hlen
  omega

end ChattingServer.V11
