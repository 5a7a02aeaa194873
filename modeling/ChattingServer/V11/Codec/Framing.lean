import ChattingServer.V11.Codec.RoundTrip

namespace ChattingServer.V11

open Lib

inductive Sender
  | client
  | server

def Sender.wire : Sender → Packet → List UInt8
  | .client => clientWire
  | .server => serverWire

def Sender.pad : Sender → Nat
  | .client => 0
  | .server => 4

theorem Packet.headNonzero {p : Packet} (hp : p.type ≠ .undefined) :
    Framing.HeadNonzero p.encoding := by
  rw [Framing.HeadNonzero, Packet.encoding, List.getD_append _ _ _ _ (by simp), Packet.header]
  revert hp
  cases p.type <;> decide

theorem Sender.wire_eq (sender : Sender) {p : Packet} (hfit : p.encoding.length ≤ 1020) :
    sender.wire p = Framing.padded sender.pad p.encoding := by
  have hwritten : p.written = p.encoding :=
    List.take_of_length_le (by simp only [sockbufSize]; omega)
  cases sender with
  | client => simp [wire, pad, clientWire_eq, hwritten, Framing.padded]
  | server =>
    have hpad : min 4 (sockbufSize - p.encoding.length) = 4 := by
      simp only [sockbufSize]
      omega
    rw [wire, serverWire_eq, hwritten, hpad, pad, Framing.padded]

theorem Sender.onRecv_wire_iff (sender : Sender) {p : Packet} (hp : p.type ≠ .undefined)
    (hfit : p.encoding.length ≤ 1020) :
    onRecv (sender.wire p) = .ok p.counted ↔ p.Readable := by
  have hlen : 4 ≤ (Framing.padded sender.pad p.encoding).length := by
    rw [Framing.padded, List.length_append, Packet.length_encoding]
    omega
  have hmax : (Framing.padded sender.pad p.encoding).length ≤ sockbufSize := by
    have hpad : sender.pad ≤ 4 := by cases sender <;> decide
    rw [Framing.padded, List.length_append, List.length_replicate]
    simp only [sockbufSize]
    omega
  rw [sender.wire_eq hfit, onRecv_counted_iff hmax hp (by simp only [sockbufSize]; omega)]
  simp [hlen, Framing.spelledBy_padded]

/-- The receiver gets the packets back exactly when every `recv` returns one packet's bytes, and
the packets are ones that their codec gives back. -/
theorem mapM_onRecv_iff (sender : Sender) {ps : List Packet} {chunks : List (List UInt8)}
    (hps : ∀ p ∈ ps, p.type ≠ .undefined ∧ p.encoding.length ≤ 1020)
    (hchunks : ∀ c ∈ chunks, c ≠ [] ∧ c.length ≤ sockbufSize)
    (hcat : chunks.flatten = (ps.map sender.wire).flatten) :
    chunks.mapM onRecv = .ok (ps.map Packet.counted) ↔
      chunks = ps.map sender.wire ∧ ∀ p ∈ ps, p.Readable := by
  have hwire : ps.map sender.wire = (ps.map Packet.encoding).map (Framing.padded sender.pad) := by
    rw [List.map_map]
    exact List.map_congr_left fun p hp => sender.wire_eq (hps p hp).2
  rw [mapM_eq_ok_iff, List.forall₂_map_right_iff]
  constructor
  · intro h
    have hspelled : List.Forall₂ Framing.SpelledBy (ps.map Packet.encoding) chunks := by
      have hflip := ((List.forall₂_and_left _ _).mpr ⟨hchunks, h⟩).flip
      refine List.forall₂_map_left_iff.mpr (((List.forall₂_and_left _ _).mpr ⟨hps, hflip⟩).imp ?_)
      rintro p c ⟨⟨hp, hfit⟩, ⟨-, hmax⟩, hok⟩
      exact ((onRecv_counted_iff hmax hp (by simp only [sockbufSize]; omega)).mp hok).2.2
    have heq : chunks = ps.map sender.wire := by
      rw [hwire]
      refine Framing.eq_padded_of_spelledBy ?_ (fun c hc => (hchunks c hc).1) (hwire ▸ hcat)
        hspelled
      simp only [List.mem_map]
      rintro _ ⟨p, hp, rfl⟩
      exact Packet.headNonzero (hps p hp).1
    refine ⟨heq, fun p hp => ?_⟩
    rw [heq, List.forall₂_map_left_iff, List.forall₂_same] at h
    exact (sender.onRecv_wire_iff (hps p hp).1 (hps p hp).2).mp (h p hp)
  · rintro ⟨rfl, hr⟩
    rw [List.forall₂_map_left_iff, List.forall₂_same]
    exact fun p hp => (sender.onRecv_wire_iff (hps p hp).1 (hps p hp).2).mpr (hr p hp)

theorem mapM_onRecv_one_by_one :
    [[113, 0, 0, 0, 104, 105, 0], [111, 0, 0, 0]].mapM onRecv =
      .ok [.cMulticast [104, 105], .cRoomExit] := by
  have hwire : [Packet.cMulticast [104, 105], .cRoomExit].map Sender.client.wire =
      [[113, 0, 0, 0, 104, 105, 0], [111, 0, 0, 0]] := by
    simp only [List.map, Sender.wire, clientWire_eq]
    decide
  have hreadable : ∀ p ∈ [Packet.cMulticast [104, 105], .cRoomExit], p.Readable := by
    simp only [List.mem_cons, List.not_mem_nil, or_false]
    rintro p (rfl | rfl)
    · exact ⟨by decide, trivial⟩
    · exact ⟨by decide, trivial⟩
  exact (mapM_onRecv_iff .client (by decide) (by decide) (by rw [hwire])).mpr
    ⟨hwire.symm, hreadable⟩

/-- The two packets that answer a login, returned by one `recv`. -/
theorem not_mapM_onRecv_coalesced :
    ¬ ∀ (sender : Sender) (ps : List Packet) (chunks : List (List UInt8)),
      (∀ p ∈ ps, p.type ≠ .undefined ∧ p.encoding.length ≤ 1020) →
      (∀ c ∈ chunks, c ≠ [] ∧ c.length ≤ sockbufSize) →
      chunks.flatten = (ps.map sender.wire).flatten →
      chunks.mapM onRecv = .ok (ps.map Packet.counted) := by
  intro h
  have hwire : [Packet.sServerEnterOk 1, .sLobbyRoomInfo 0 [] []].map Sender.server.wire =
      [[201, 0, 0, 0, 1, 0, 0, 0, 0, 0, 0, 0], [203, 0, 0, 0, 0, 0, 0, 0, 0, 0]] := by
    simp only [List.map, Sender.wire, serverWire_eq]
    decide
  have hok := h .server [.sServerEnterOk 1, .sLobbyRoomInfo 0 [] []]
    [[201, 0, 0, 0, 1, 0, 0, 0, 0, 0, 0, 0, 203, 0, 0, 0, 0, 0, 0, 0, 0, 0]]
    (by decide) (by decide) (by rw [hwire]; rfl)
  exact absurd (mapM_eq_ok_iff.mp hok).length_eq (by decide)

end ChattingServer.V11
