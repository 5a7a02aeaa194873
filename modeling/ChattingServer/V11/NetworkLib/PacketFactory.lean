import ChattingServer.Lib.Framing
import ChattingServer.V11.NetworkLib.Packet

namespace ChattingServer.V11

open Lib

namespace PacketFactory

def produceByType (type : UInt32) : Packet :=
  match type.toNat with
  | 101 => .cServerEnter []
  | 102 => .cServerExit
  | 110 => .cRoomEnter 0
  | 111 => .cRoomExit
  | 112 => .cBroadcast []
  | 113 => .cMulticast []
  | 114 => .cUnicast [] []
  | 115 => .cRoomCreate []
  | 116 => .cLobbyRoomInfo
  | 201 => .sServerEnterOk 0
  | 202 => .sServerEnterNo
  | 203 => .sLobbyRoomInfo 0 [] []
  | 204 => .sLobbyUserInfo 0 0 [] []
  | 205 => .sLobbyEnter 0 []
  | 206 => .sLobbyExit
  | 207 => .sRoomEnter 0 []
  | 208 => .sRoomExit 0
  | 209 => .sRoomName []
  | 210 => .sBroadcast [] []
  | 211 => .sMulticast [] []
  | 212 => .sUnicastOk [] []
  | 213 => .sUnicastNo
  | _ => .undefined

def sizeSub (a b : Nat) : Nat := (a + 2 ^ 64 - b) % 2 ^ 64

def getPacket (rawPacket : List UInt8) (size : Nat) : Except StreamFault Packet := do
  let packetType := UInt32.ofNat (LittleEndian.ofBytes (rawPacket.take 4))
  let packet := produceByType packetType
  let stream ← Stream.set (rawPacket.drop 4) (sizeSub size 4)
  let (packet, _) ← packet.decode stream
  return packet

/-- The buffer a receiver hands to `GetPacket`: filled with zeros, then overwritten by the bytes
of one `recv`. -/
def recvBuffer (received : List UInt8) : List UInt8 :=
  received ++ List.replicate (sockbufSize - received.length) 0

end PacketFactory

/-- What `Session::OnRecv` and `Client::RecvThread` make of the bytes of one `recv`. -/
def onRecv (received : List UInt8) : Except StreamFault Packet :=
  PacketFactory.getPacket (PacketFactory.recvBuffer received) received.length

namespace PacketFactory

def constructed : PacketType → Packet
  | .undefined => .undefined
  | .cServerEnter => .cServerEnter []
  | .cServerExit => .cServerExit
  | .cRoomEnter => .cRoomEnter 0
  | .cRoomExit => .cRoomExit
  | .cBroadcast => .cBroadcast []
  | .cMulticast => .cMulticast []
  | .cUnicast => .cUnicast [] []
  | .cRoomCreate => .cRoomCreate []
  | .cLobbyRoomInfo => .cLobbyRoomInfo
  | .sServerEnterOk => .sServerEnterOk 0
  | .sServerEnterNo => .sServerEnterNo
  | .sLobbyRoomInfo => .sLobbyRoomInfo 0 [] []
  | .sLobbyUserInfo => .sLobbyUserInfo 0 0 [] []
  | .sLobbyEnter => .sLobbyEnter 0 []
  | .sLobbyExit => .sLobbyExit
  | .sRoomEnter => .sRoomEnter 0 []
  | .sRoomExit => .sRoomExit 0
  | .sRoomName => .sRoomName []
  | .sBroadcast => .sBroadcast [] []
  | .sMulticast => .sMulticast [] []
  | .sUnicastOk => .sUnicastOk [] []
  | .sUnicastNo => .sUnicastNo

theorem produceByType_toInt32 (t : PacketType) : produceByType t.toInt32 = constructed t := by
  cases t <;> rfl

@[simp] theorem constructed_type (t : PacketType) : (constructed t).type = t := by
  cases t <;> rfl

theorem produceByType_cases (n : UInt32) :
    n = (produceByType n).type.toInt32 ∨ produceByType n = .undefined := by
  rw [← UInt32.toNat_inj]
  unfold produceByType
  split <;> simp_all [Packet.type, PacketType.toInt32]

theorem decode_ok {t : PacketType} {s s' : Stream} {p : Packet} (hs : s.Received)
    (h : (constructed t).decode s = .ok (p, s')) :
    p.type = t ∧ p.Decoded ∧ p.payload <+: s.rest := by
  cases t with
  | undefined | cServerExit | cRoomExit | cLobbyRoomInfo | sServerEnterNo | sLobbyExit
  | sUnicastNo =>
    obtain ⟨rfl, rfl⟩ : _ = p ∧ s = s' := by simpa [constructed, Packet.decode] using h
    exact ⟨rfl, ⟨by simp [Packet.strings], trivial, trivial⟩, List.nil_prefix⟩
  | cServerEnter | cBroadcast | cMulticast | cRoomCreate | sRoomName =>
    simp only [constructed, Packet.decode, bind_eq_ok_iff, Prod.exists, pure_eq_ok,
      Except.ok.injEq, Prod.mk.injEq] at h
    obtain ⟨v, _, hv, rfl, rfl⟩ := h
    obtain ⟨hP, hpre, rfl⟩ := (Packet.reads_str.ok_iff hs).mp hv
    exact ⟨rfl, ⟨by simpa [Packet.strings] using hP, trivial, trivial⟩, hpre⟩
  | cUnicast | sBroadcast | sMulticast | sUnicastOk =>
    simp only [constructed, Packet.decode, bind_eq_ok_iff, Prod.exists, pure_eq_ok,
      Except.ok.injEq, Prod.mk.injEq] at h
    obtain ⟨v, _, hv, w, _, hw, rfl, rfl⟩ := h
    obtain ⟨hP, hpre, rfl⟩ := (Packet.reads_str.ok_iff hs).mp hv
    obtain ⟨hQ, hpre', rfl⟩ := (Packet.reads_str.ok_iff (hs.advance _)).mp hw
    refine ⟨rfl, ⟨by simpa [Packet.strings] using ⟨hP, hQ⟩, trivial, trivial⟩, ?_⟩
    exact Stream.append_prefix_rest_iff.mpr ⟨hpre, hpre'⟩
  | cRoomEnter =>
    simp only [constructed, Packet.decode, bind_eq_ok_iff, Prod.exists, pure_eq_ok,
      Except.ok.injEq, Prod.mk.injEq] at h
    obtain ⟨v, _, hv, rfl, rfl⟩ := h
    obtain ⟨-, hpre, rfl⟩ := ((Packet.reads_u16 0).ok_iff hs).mp hv
    exact ⟨rfl, ⟨by simp [Packet.strings], trivial, trivial⟩, hpre⟩
  | sServerEnterOk | sRoomExit =>
    simp only [constructed, Packet.decode, bind_eq_ok_iff, Prod.exists, pure_eq_ok,
      Except.ok.injEq, Prod.mk.injEq] at h
    obtain ⟨v, _, hv, rfl, rfl⟩ := h
    obtain ⟨-, hpre, rfl⟩ := ((Packet.reads_u32 0).ok_iff hs).mp hv
    exact ⟨rfl, ⟨by simp [Packet.strings], trivial, trivial⟩, hpre⟩
  | sLobbyEnter | sRoomEnter =>
    simp only [constructed, Packet.decode, bind_eq_ok_iff, Prod.exists, pure_eq_ok,
      Except.ok.injEq, Prod.mk.injEq] at h
    obtain ⟨v, _, hv, w, _, hw, rfl, rfl⟩ := h
    obtain ⟨-, hpre, rfl⟩ := ((Packet.reads_u32 0).ok_iff hs).mp hv
    obtain ⟨hQ, hpre', rfl⟩ := (Packet.reads_str.ok_iff (hs.advance _)).mp hw
    refine ⟨rfl, ⟨by simpa [Packet.strings] using hQ, trivial, trivial⟩, ?_⟩
    exact Stream.append_prefix_rest_iff.mpr ⟨hpre, hpre'⟩
  | sLobbyRoomInfo =>
    simp only [constructed, Packet.decode, bind_eq_ok_iff, Prod.exists, pure_eq_ok,
      Except.ok.injEq, Prod.mk.injEq, List.nil_append] at h
    obtain ⟨count, _, hc, ids, _, hi, names, _, hn, rfl, rfl⟩ := h
    obtain ⟨-, hpre, rfl⟩ := ((Packet.reads_u16 0).ok_iff hs).mp hc
    obtain ⟨hil, -, hpre₁, rfl⟩ := ((Packet.reads_u16 0).many (hs.advance _)).mp hi
    obtain ⟨hnl, hP, hpre₂, rfl⟩ := (Packet.reads_str.many ((hs.advance _).advance _)).mp hn
    refine ⟨rfl, ⟨hP, hil.trans hnl.symm, hnl.symm⟩, ?_⟩
    simp only [Packet.payload, List.append_assoc]
    have hvals := Stream.append_prefix_rest_iff.mpr ⟨hpre₁, hpre₂⟩
    exact Stream.append_prefix_rest_iff.mpr ⟨hpre, hvals⟩
  | sLobbyUserInfo =>
    simp only [constructed, Packet.decode, bind_eq_ok_iff, Prod.exists, pure_eq_ok,
      Except.ok.injEq, Prod.mk.injEq, List.nil_append] at h
    obtain ⟨rooms, _, hr, count, _, hc, ids, _, hi, names, _, hn, rfl, rfl⟩ := h
    obtain ⟨-, hpre, rfl⟩ := ((Packet.reads_u16 0).ok_iff hs).mp hr
    obtain ⟨-, hpre₀, rfl⟩ := ((Packet.reads_u16 0).ok_iff (hs.advance _)).mp hc
    obtain ⟨hil, -, hpre₁, rfl⟩ := ((Packet.reads_u32 0).many ((hs.advance _).advance _)).mp hi
    obtain ⟨hnl, hP, hpre₂, rfl⟩ :=
      (Packet.reads_str.many (((hs.advance _).advance _).advance _)).mp hn
    refine ⟨rfl, ⟨hP, hil.trans hnl.symm, hnl.symm⟩, ?_⟩
    simp only [Packet.payload, List.append_assoc]
    have hvals := Stream.append_prefix_rest_iff.mpr ⟨hpre₁, hpre₂⟩
    exact Stream.append_prefix_rest_iff.mpr
      ⟨hpre, Stream.append_prefix_rest_iff.mpr ⟨hpre₀, hvals⟩⟩

theorem decode_of_encoded {s : Stream} {p : Packet} (hs : s.Received) (hd : p.Decoded)
    (hp : p.payload <+: s.rest) :
    (constructed p.type).decode s = .ok (p, s.advance p.payload.length) := by
  cases p with
  | undefined | cServerExit | cRoomExit | cLobbyRoomInfo | sServerEnterNo | sLobbyExit
  | sUnicastNo => rfl
  | cServerEnter v | cBroadcast v | cMulticast v | cRoomCreate v | sRoomName v =>
    have hv := (Packet.reads_str.ok_iff hs).mpr ⟨hd.proper v (by simp [Packet.strings]), hp, rfl⟩
    simp [constructed, Packet.type, Packet.decode, Packet.payload, hv]
  | cUnicast v w | sBroadcast v w | sMulticast v w | sUnicastOk v w =>
    obtain ⟨hpre, hpre'⟩ := Stream.append_prefix_rest_iff.mp hp
    have hv := (Packet.reads_str.ok_iff hs).mpr
      ⟨hd.proper v (by simp [Packet.strings]), hpre, rfl⟩
    have hw := (Packet.reads_str.ok_iff (hs.advance _)).mpr
      ⟨hd.proper w (by simp [Packet.strings]), hpre', rfl⟩
    simp only [constructed, Packet.type, Packet.decode, hv, hw, ok_bind, pure_eq_ok]
    simp [Packet.payload]
  | cRoomEnter v =>
    have hv := ((Packet.reads_u16 0).ok_iff hs).mpr ⟨trivial, hp, rfl⟩
    simp [constructed, Packet.type, Packet.decode, Packet.payload, hv]
  | sServerEnterOk v | sRoomExit v =>
    have hv := ((Packet.reads_u32 0).ok_iff hs).mpr ⟨trivial, hp, rfl⟩
    simp [constructed, Packet.type, Packet.decode, Packet.payload, hv]
  | sLobbyEnter v w | sRoomEnter v w =>
    obtain ⟨hpre, hpre'⟩ := Stream.append_prefix_rest_iff.mp hp
    have hv := ((Packet.reads_u32 0).ok_iff hs).mpr ⟨trivial, hpre, rfl⟩
    have hw := (Packet.reads_str.ok_iff (hs.advance _)).mpr
      ⟨hd.proper w (by simp [Packet.strings]), hpre', rfl⟩
    simp only [constructed, Packet.type, Packet.decode, hv, hw, ok_bind, pure_eq_ok]
    simp [Packet.payload]
  | sLobbyRoomInfo count ids names =>
    have hpair : ids.length = names.length := hd.paired
    have hcount : count.toNat = names.length := hd.counts
    simp only [Packet.payload, List.append_assoc] at hp
    obtain ⟨hpre, hp⟩ := Stream.append_prefix_rest_iff.mp hp
    obtain ⟨hpre₁, hpre₂⟩ := Stream.append_prefix_rest_iff.mp hp
    have hc := ((Packet.reads_u16 0).ok_iff hs).mpr ⟨trivial, hpre, rfl⟩
    have hi := ((Packet.reads_u16 0).many (hs.advance _)).mpr
      ⟨hpair.trans hcount.symm, fun _ _ => trivial, hpre₁, rfl⟩
    have hn := (Packet.reads_str.many ((hs.advance _).advance _)).mpr
      ⟨hcount.symm, hd.proper, hpre₂, rfl⟩
    simp only [constructed, Packet.type, Packet.decode, hc, hi, hn, ok_bind, pure_eq_ok,
      List.nil_append]
    simp [Packet.payload, Nat.add_assoc]
  | sLobbyUserInfo rooms count ids names =>
    have hpair : ids.length = names.length := hd.paired
    have hcount : count.toNat = names.length := hd.counts
    simp only [Packet.payload, List.append_assoc] at hp
    obtain ⟨hpre, hp⟩ := Stream.append_prefix_rest_iff.mp hp
    obtain ⟨hpre₀, hp⟩ := Stream.append_prefix_rest_iff.mp hp
    obtain ⟨hpre₁, hpre₂⟩ := Stream.append_prefix_rest_iff.mp hp
    have hr := ((Packet.reads_u16 0).ok_iff hs).mpr ⟨trivial, hpre, rfl⟩
    have hc := ((Packet.reads_u16 0).ok_iff (hs.advance _)).mpr ⟨trivial, hpre₀, rfl⟩
    have hi := ((Packet.reads_u32 0).many ((hs.advance _).advance _)).mpr
      ⟨hpair.trans hcount.symm, fun _ _ => trivial, hpre₁, rfl⟩
    have hn := (Packet.reads_str.many (((hs.advance _).advance _).advance _)).mpr
      ⟨hcount.symm, hd.proper, hpre₂, rfl⟩
    simp only [constructed, Packet.type, Packet.decode, hr, hc, hi, hn, ok_bind, pure_eq_ok,
      List.nil_append]
    simp [Packet.payload, ← Nat.add_assoc]

def body (rawPacket : List UInt8) (size : Nat) : List UInt8 :=
  (rawPacket.drop 4).take (size - 4) ++ List.replicate (sockbufSize - (size - 4)) 0

theorem sockbufSize_lt_sizeSub {size : Nat} (h : size < 4) : sockbufSize < sizeSub size 4 := by
  simp only [sizeSub, sockbufSize]
  omega

theorem sizeSub_eq {size : Nat} (h : 4 ≤ size) (hmax : size ≤ sockbufSize) :
    sizeSub size 4 = size - 4 := by
  simp only [sockbufSize] at hmax
  simp only [sizeSub]
  omega

theorem getPacket_short {rawPacket : List UInt8} {size : Nat} (h : size < 4) :
    getPacket rawPacket size = .error .streamSize := by
  rw [getPacket, Stream.set_eq_error (sockbufSize_lt_sizeSub h)]
  rfl

theorem getPacket_eq {rawPacket : List UInt8} {size : Nat} (h : 4 ≤ size)
    (hle : size ≤ rawPacket.length) (hmax : size ≤ sockbufSize) :
    ∃ s : Stream, s.Received ∧ s.rest = body rawPacket size ∧
      getPacket rawPacket size = (do
        let (packet, _) ←
          (produceByType (UInt32.ofNat (LittleEndian.ofBytes (rawPacket.take 4)))).decode s
        return packet) := by
  obtain ⟨s, hset, hoff, hrest⟩ :=
    Stream.exists_set (rawPacket.drop 4) (by omega : size - 4 ≤ sockbufSize)
      (by rw [List.length_drop]; omega)
  refine ⟨s, ?_, hrest, ?_⟩
  · rw [Stream.Received, hoff]
    omega
  · rw [getPacket, sizeSub_eq h hmax, hset]
    rfl

theorem ofNat_ofBytes_eq_iff {bytes : List UInt8} (h : bytes.length = 4) (n : UInt32) :
    UInt32.ofNat (LittleEndian.ofBytes bytes) = n ↔ bytes = Packet.u32 n := by
  have hlt := LittleEndian.ofBytes_lt bytes
  rw [h] at hlt
  rw [Packet.u32, ← LittleEndian.ofBytes_eq_iff h n.toNat_lt, ← UInt32.toNat_inj,
    UInt32.toNat_ofNat_of_lt' hlt]

theorem getPacket_ok_iff {rawPacket : List UInt8} {size : Nat} {p : Packet} (h : 4 ≤ size)
    (hle : size ≤ rawPacket.length) (hmax : size ≤ sockbufSize) (hp : p.type ≠ .undefined) :
    getPacket rawPacket size = .ok p ↔
      rawPacket.take 4 = p.header ∧ p.Decoded ∧ p.payload <+: body rawPacket size := by
  obtain ⟨s, hs, hrest, heq⟩ := getPacket_eq h hle hmax
  have hlen : (rawPacket.take 4).length = 4 := by rw [List.length_take]; omega
  rw [heq, ← hrest, Packet.header, ← ofNat_ofBytes_eq_iff hlen]
  constructor
  · intro hok
    simp only [bind_eq_ok_iff, Prod.exists, pure_eq_ok, Except.ok.injEq] at hok
    obtain ⟨q, s', hdec, rfl⟩ := hok
    rcases produceByType_cases (UInt32.ofNat (LittleEndian.ofBytes (rawPacket.take 4)))
      with ht | hu
    · rw [ht, produceByType_toInt32] at hdec
      obtain ⟨htq, hd, hpre⟩ := decode_ok hs hdec
      exact ⟨by rw [htq]; exact ht, hd, hpre⟩
    · rw [hu] at hdec
      exact absurd (decode_ok (t := .undefined) hs hdec).1 hp
  · rintro ⟨ht, hd, hpre⟩
    rw [ht, produceByType_toInt32, decode_of_encoded hs hd hpre]
    rfl

theorem getPacket_type {rawPacket : List UInt8} {size : Nat} {p : Packet} {t : PacketType}
    (h : 4 ≤ size) (hle : size ≤ rawPacket.length) (hmax : size ≤ sockbufSize)
    (ht : rawPacket.take 4 = Packet.u32 t.toInt32) (hok : getPacket rawPacket size = .ok p) :
    p.type = t := by
  obtain ⟨s, hs, -, heq⟩ := getPacket_eq h hle hmax
  have hlen : (rawPacket.take 4).length = 4 := by rw [List.length_take]; omega
  rw [heq, (ofNat_ofBytes_eq_iff hlen _).mpr ht, produceByType_toInt32] at hok
  simp only [bind_eq_ok_iff, Prod.exists, pure_eq_ok, Except.ok.injEq] at hok
  obtain ⟨q, s', hdec, rfl⟩ := hok
  exact (decode_ok hs hdec).1

theorem getPacket_undefined {rawPacket : List UInt8} {size : Nat} (h : 4 ≤ size)
    (hle : size ≤ rawPacket.length) (hmax : size ≤ sockbufSize)
    (hu : ∀ t, t ≠ .undefined → rawPacket.take 4 ≠ Packet.u32 (PacketType.toInt32 t)) :
    getPacket rawPacket size = .ok .undefined := by
  obtain ⟨s, -, -, heq⟩ := getPacket_eq h hle hmax
  have hlen : (rawPacket.take 4).length = 4 := by rw [List.length_take]; omega
  have hu' :
      produceByType (UInt32.ofNat (LittleEndian.ofBytes (rawPacket.take 4))) = .undefined := by
    rcases produceByType_cases (UInt32.ofNat (LittleEndian.ofBytes (rawPacket.take 4)))
      with ht | hu'
    · by_cases htu : (produceByType (UInt32.ofNat
          (LittleEndian.ofBytes (rawPacket.take 4)))).type = .undefined
      · rw [ht, htu]
        rfl
      · exact absurd ((ofNat_ofBytes_eq_iff hlen _).mp ht) (hu _ htu)
    · exact hu'
  rw [heq, hu']
  rfl

end PacketFactory

theorem onRecv_short {received : List UInt8} (h : received.length < 4) :
    onRecv received = .error .streamSize :=
  PacketFactory.getPacket_short h

def streamOf (received : List UInt8) : List UInt8 :=
  (Framing.padded (sockbufSize + 4 - received.length) received).drop 4

theorem streamOf_eq {received : List UInt8} (h : 4 ≤ received.length) :
    streamOf received =
      received.drop 4 ++ List.replicate (sockbufSize + 4 - received.length) 0 := by
  rw [streamOf, Framing.padded, List.drop_append_of_le_length h]

theorem length_streamOf {received : List UInt8} (h : received.length ≤ sockbufSize) :
    (streamOf received).length = sockbufSize := by
  simp only [streamOf, Framing.padded, List.length_drop, List.length_append,
    List.length_replicate]
  omega

theorem recvBuffer_take {received : List UInt8} (h : 4 ≤ received.length) :
    (PacketFactory.recvBuffer received).take 4 = received.take 4 :=
  List.take_append_of_le_length h

theorem le_length_recvBuffer (received : List UInt8) :
    received.length ≤ (PacketFactory.recvBuffer received).length := by
  simp [PacketFactory.recvBuffer]

theorem onRecv_type {received : List UInt8} {p : Packet} {t : PacketType}
    (h : 4 ≤ received.length) (hmax : received.length ≤ sockbufSize)
    (ht : received.take 4 = Packet.u32 t.toInt32) (hok : onRecv received = .ok p) :
    p.type = t := by
  rw [← recvBuffer_take h] at ht
  rw [onRecv] at hok
  exact PacketFactory.getPacket_type h (le_length_recvBuffer received) hmax ht hok

theorem onRecv_ok_iff_streamOf {received : List UInt8} {p : Packet} (h : 4 ≤ received.length)
    (hmax : received.length ≤ sockbufSize) (hp : p.type ≠ .undefined) :
    onRecv received = .ok p ↔
      received.take 4 = p.header ∧ p.Decoded ∧ p.payload <+: streamOf received := by
  have hbody : PacketFactory.body (PacketFactory.recvBuffer received) received.length =
      streamOf received := by
    rw [streamOf_eq h, PacketFactory.body, PacketFactory.recvBuffer,
      List.drop_append_of_le_length h, List.take_left' (by simp)]
    congr 2
    omega
  rw [onRecv, PacketFactory.getPacket_ok_iff h (le_length_recvBuffer received) hmax hp,
    recvBuffer_take h, hbody]

theorem onRecv_undefined {received : List UInt8} (h : 4 ≤ received.length)
    (hmax : received.length ≤ sockbufSize)
    (hu : ∀ t, t ≠ .undefined → received.take 4 ≠ Packet.u32 (PacketType.toInt32 t)) :
    onRecv received = .ok .undefined := by
  rw [onRecv]
  apply PacketFactory.getPacket_undefined h (le_length_recvBuffer received) hmax
  rwa [recvBuffer_take h]

theorem onRecv_ok_iff {received : List UInt8} {p : Packet} (hmax : received.length ≤ sockbufSize)
    (hp : p.type ≠ .undefined) :
    onRecv received = .ok p ↔
      4 ≤ received.length ∧ p.Decoded ∧ p.payload.length ≤ sockbufSize ∧
        Framing.SpelledBy (p.header ++ p.payload) received := by
  by_cases h : 4 ≤ received.length
  · have hspell : p.payload.length ≤ sockbufSize →
        (Framing.SpelledBy (p.header ++ p.payload) received ↔
          received.take 4 = p.header ∧ p.payload <+: streamOf received) := by
      intro hlen
      rw [Framing.spelledBy_iff_padded (n := sockbufSize + 4 - received.length),
        Stream.append_prefix_iff, List.prefix_iff_eq_take, Packet.length_header, ← streamOf,
        Framing.padded, List.take_append_of_le_length h, eq_comm]
      rw [List.length_append, Packet.length_header]
      omega
    rw [onRecv_ok_iff_streamOf h hmax hp]
    constructor
    · rintro ⟨ht, hd, hpre⟩
      have hlen : p.payload.length ≤ sockbufSize := length_streamOf hmax ▸ hpre.length_le
      exact ⟨h, hd, hlen, (hspell hlen).mpr ⟨ht, hpre⟩⟩
    · rintro ⟨-, hd, hlen, hs⟩
      obtain ⟨ht, hpre⟩ := (hspell hlen).mp hs
      exact ⟨ht, hd, hpre⟩
  · rw [onRecv_short (Nat.not_le.mp h)]
    simp [h]

end ChattingServer.V11
