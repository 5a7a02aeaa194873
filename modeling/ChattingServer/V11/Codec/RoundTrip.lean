import ChattingServer.V11.NetworkLib.IoData

namespace ChattingServer.V11

open Lib

namespace Packet

structure Readable (p : Packet) : Prop where
  proper : ∀ v ∈ p.strings, Stream.Proper v
  paired : p.Paired

theorem length_le_flatMap_str (vs : List Str) : vs.length ≤ (vs.flatMap str).length := by
  induction vs with
  | nil => exact Nat.le_refl _
  | cons v vs ih =>
    rw [List.flatMap_cons, List.length_append, length_str, List.length_cons]
    omega

theorem length_strings_le (p : Packet) : p.strings.length ≤ p.payload.length := by
  cases p with
  | sLobbyRoomInfo _ _ names | sLobbyUserInfo _ _ _ names =>
    have := length_le_flatMap_str names
    simp only [strings, payload, List.length_append]
    omega
  | _ => simp [strings, payload] <;> omega

theorem counted_decoded_iff {p : Packet} (h : p.encoding.length ≤ sockbufSize + 4) :
    p.counted.Decoded ↔ p.Readable := by
  have hcount : p.strings.length < 65536 := by
    have hle := length_strings_le p.counted
    rw [counted_strings] at hle
    rw [length_encoding] at h
    simp only [sockbufSize] at h
    omega
  constructor
  · intro hd
    exact ⟨by simpa using hd.proper, counted_paired.mp hd.paired⟩
  · intro hr
    exact ⟨by simpa using hr.proper, counted_paired.mpr hr.paired, counted_counts hcount⟩

end Packet

theorem onRecv_counted_iff {received : List UInt8} {p : Packet}
    (hmax : received.length ≤ sockbufSize) (hp : p.type ≠ .undefined)
    (hfit : p.encoding.length ≤ sockbufSize + 4) :
    onRecv received = .ok p.counted ↔
      4 ≤ received.length ∧ p.Readable ∧ Framing.SpelledBy p.encoding received := by
  have hlen : p.counted.payload.length ≤ sockbufSize := by
    rw [Packet.length_encoding] at hfit
    omega
  rw [onRecv_ok_iff hmax (by rwa [Packet.counted_type]), Packet.counted_decoded_iff hfit,
    Packet.counted_header, ← Packet.encoding]
  simp [hlen]

theorem getPacket_encode {p : Packet} (hfit : p.encoding.length ≤ sockbufSize) :
    PacketFactory.getPacket (p.encode Stream.init).2.stream (p.encode Stream.init).2.size =
      onRecv p.encoding := by
  have hsize : (p.encode Stream.init).2.size = p.encoding.length := by
    rw [p.size_encode, Nat.min_eq_right hfit]
  have hstream : (p.encode Stream.init).2.stream = PacketFactory.recvBuffer p.encoding := by
    rw [p.encode_holds.stream, List.take_of_length_le hfit, PacketFactory.recvBuffer]
  rw [hsize, hstream, ← onRecv]

theorem getPacket_encode_iff_readable {p : Packet} (hp : p.type ≠ .undefined)
    (hfit : p.encoding.length ≤ sockbufSize) :
    PacketFactory.getPacket (p.encode Stream.init).2.stream (p.encode Stream.init).2.size =
        .ok (p.encode Stream.init).1 ↔ p.Readable := by
  have hspelled : Framing.SpelledBy p.encoding p.encoding := by
    simpa [Framing.padded] using Framing.spelledBy_padded p.encoding 0
  have hlen : 4 ≤ p.encoding.length := by rw [Packet.length_encoding]; omega
  rw [getPacket_encode hfit, Packet.encode_fst, onRecv_counted_iff hfit hp (by omega)]
  simp [hlen, hspelled]

theorem getPacket_encode_iff {p : Packet} (hp : p.type ≠ .undefined)
    (hnul : ∀ v ∈ p.strings, 0 ∉ v) (hpair : p.Paired) (hfit : p.encoding.length ≤ sockbufSize) :
    PacketFactory.getPacket (p.encode Stream.init).2.stream (p.encode Stream.init).2.size =
        .ok (p.encode Stream.init).1 ↔
      ∀ v ∈ p.strings, v ≠ [] := by
  rw [getPacket_encode_iff_readable hp hfit]
  constructor
  · intro hr v hv
    exact (hr.proper v hv).1
  · intro hne
    have hproper : ∀ v ∈ p.strings, Stream.Proper v := fun v hv =>
      ⟨hne v hv, fun h0 => hnul v hv (List.mem_of_mem_tail h0)⟩
    exact ⟨hproper, hpair⟩

theorem getPacket_encode_whisper :
    PacketFactory.getPacket ((Packet.sUnicastOk [97] [104, 105]).encode Stream.init).2.stream
        ((Packet.sUnicastOk [97] [104, 105]).encode Stream.init).2.size =
      .ok (Packet.sUnicastOk [97] [104, 105]) :=
  (getPacket_encode_iff (p := .sUnicastOk [97] [104, 105]) (by decide) (by decide) trivial
    (by decide)).mpr (by decide)

/-- An empty text is read as the byte that ends it. -/
theorem not_getPacket_encode_empty :
    ¬ ∀ p : Packet, p.type ≠ .undefined → (∀ v ∈ p.strings, 0 ∉ v) → p.Paired →
      p.encoding.length ≤ sockbufSize →
      PacketFactory.getPacket (p.encode Stream.init).2.stream (p.encode Stream.init).2.size =
        .ok (p.encode Stream.init).1 := by
  intro h
  have hok := h (.cMulticast []) (by decide) (by decide) trivial (by decide)
  have hr := (getPacket_encode_iff_readable (by decide) (by decide)).mp hok
  exact (hr.proper [] (by decide)).1 rfl

/-! What is encoded again after it has been decoded. -/

theorem Packet.Decoded.counted_eq {p : Packet} (h : p.Decoded) : p.counted = p := by
  cases p with
  | sLobbyRoomInfo roomCount roomId roomName =>
    have hcount : roomCount.toNat = roomName.length := h.counts
    simp [Packet.counted, ← hcount]
  | sLobbyUserInfo roomCount userCount ids names =>
    have hcount : userCount.toNat = names.length := h.counts
    simp [Packet.counted, ← hcount]
  | _ => rfl

theorem Packet.Decoded.readable {p : Packet} (h : p.Decoded) : p.Readable := ⟨h.proper, h.paired⟩

theorem decoded_of_onRecv {received : List UInt8} (hmax : received.length ≤ sockbufSize)
    {p : Packet} (hok : onRecv received = .ok p) : p.Decoded := by
  by_cases hp : p.type = .undefined
  · rw [Packet.eq_undefined_of_type hp]
    exact ⟨List.forall_mem_nil _, trivial, trivial⟩
  · exact ((onRecv_ok_iff hmax hp).mp hok).2.1

theorem onRecv_encoding_undefined : onRecv Packet.undefined.encoding = .ok .undefined := by
  refine onRecv_undefined (by decide) (by decide) fun t ht => ?_
  cases t with
  | undefined => contradiction
  | _ => decide

/-- Whatever the bytes were that a packet was decoded from, encoding it and decoding that gives the
packet back. -/
theorem getPacket_encode_of_onRecv {received : List UInt8} (hmax : received.length ≤ sockbufSize)
    {p : Packet} (hok : onRecv received = .ok p) (hfit : p.encoding.length ≤ sockbufSize) :
    PacketFactory.getPacket (p.encode Stream.init).2.stream (p.encode Stream.init).2.size =
      .ok p := by
  have hd := decoded_of_onRecv hmax hok
  by_cases hp : p.type = .undefined
  · rw [getPacket_encode hfit, Packet.eq_undefined_of_type hp]
    exact onRecv_encoding_undefined
  · have hback := (getPacket_encode_iff_readable hp hfit).mpr hd.readable
    rwa [Packet.encode_fst, hd.counted_eq] at hback

theorem getPacket_encode_of_onRecv_short :
    PacketFactory.getPacket ((Packet.cMulticast [0]).encode Stream.init).2.stream
        ((Packet.cMulticast [0]).encode Stream.init).2.size =
      .ok (.cMulticast [0]) := by
  have hspelled : Framing.SpelledBy (Packet.cMulticast [0]).encoding [113, 0, 0, 0] := by
    unfold Framing.SpelledBy
    decide
  have hok : onRecv [113, 0, 0, 0] = .ok (.cMulticast [0]) :=
    (onRecv_ok_iff (by decide) (by decide)).mpr
      ⟨by decide, ⟨by decide, trivial, trivial⟩, by decide, hspelled⟩
  exact getPacket_encode_of_onRecv (by decide) hok (by decide)

end ChattingServer.V11
