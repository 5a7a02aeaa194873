import ChattingServer.V11.Codec.Bounds

namespace ChattingServer.V11

open Lib

structure Packet.Spelled (p : Packet) : Prop where
  type : p.type ≠ .undefined
  nulFree : ∀ v ∈ p.strings, 0 ∉ v
  paired : p.Paired
  counts : p.Counted

def Complete (received : List UInt8) : Prop :=
  ∃ p : Packet, p.Spelled ∧ p.header ++ p.payload <+: received

/-- The pointer that `Session::OnRecv` returns and `Client::RecvThread` tests.  `GetPacket` makes an
object for every type, so the null pointer of their branch for an invalid packet never comes up. -/
def recvPacket (received : List UInt8) : Except StreamFault (Option Packet) := do
  let packet ← onRecv received
  return some packet

structure Sifted (received : List UInt8) (packet : Option Packet) : Prop where
  valid : (∃ p, packet = some p ∧ p ≠ .undefined) ↔ Complete received
  drops : ¬ Complete received → packet = none

theorem recvPacket_ok_iff {received : List UInt8} {packet : Option Packet} :
    recvPacket received = .ok packet ↔ ∃ p, onRecv received = .ok p ∧ packet = some p := by
  rw [recvPacket, bind_eq_ok_iff]
  exact exists_congr fun p => and_congr_right fun _ => by simp [eq_comm]

theorem complete_of_sifted {received : List UInt8} {packet : Option Packet}
    (hok : recvPacket received = .ok packet) (hs : Sifted received packet) :
    Complete received := by
  obtain ⟨p, -, rfl⟩ := recvPacket_ok_iff.mp hok
  by_contra hnot
  exact absurd (hs.drops hnot) nofun

theorem Complete.exists_type {received : List UInt8} (h : Complete received) :
    ∃ t, t ≠ PacketType.undefined ∧ received.take 4 = Packet.u32 t.toInt32 := by
  obtain ⟨p, hp, t, rfl⟩ := h
  exact ⟨p.type, hp.type, by simp [Packet.header]⟩

/-- A received message is sifted as it should be exactly when it is whole, and its list, if it is
one, can be read without leaving the array. -/
theorem recvPacket_sifted_iff {received : List UInt8} (h : 4 ≤ received.length)
    (hmax : received.length ≤ sockbufSize) :
    (∃ packet, recvPacket received = .ok packet ∧ Sifted received packet) ↔
      Complete received ∧
        (received.take 4 = Packet.u32 PacketType.sLobbyRoomInfo.toInt32 →
          ListFits 0 2 received) ∧
        (received.take 4 = Packet.u32 PacketType.sLobbyUserInfo.toInt32 →
          ListFits 2 4 received) := by
  constructor
  · rintro ⟨packet, hok, hs⟩
    obtain ⟨p, hp, -⟩ := recvPacket_ok_iff.mp hok
    exact ⟨complete_of_sifted hok hs, listFits_of_ok h hmax hp⟩
  · rintro ⟨hc, hrooms, husers⟩
    obtain ⟨t, htu, ht⟩ := hc.exists_type
    obtain ⟨p, hp⟩ := exists_onRecv h hmax ht htu (fun heq => hrooms (heq ▸ ht))
      fun heq => husers (heq ▸ ht)
    have hvalid : p ≠ .undefined := by
      rintro rfl
      exact htu (onRecv_type h hmax ht hp).symm
    exact ⟨some p, recvPacket_ok_iff.mpr ⟨p, hp, rfl⟩, iff_of_true ⟨p, rfl, hvalid⟩ hc,
      fun hnot => absurd hc hnot⟩

theorem recvPacket_sifted_chat :
    ∃ packet, recvPacket [113, 0, 0, 0, 104, 105, 0] = .ok packet ∧
      Sifted [113, 0, 0, 0, 104, 105, 0] packet :=
  (recvPacket_sifted_iff (by decide) (by decide)).mpr
    ⟨⟨.cMulticast [104, 105], ⟨by decide, by decide, trivial, trivial⟩, by decide⟩,
      fun ht => absurd ht (by decide), fun ht => absurd ht (by decide)⟩

/-- A text whose end has not arrived yet is taken for a whole one. -/
theorem not_recvPacket_sifted :
    ¬ ∀ received : List UInt8, 4 ≤ received.length → received.length ≤ sockbufSize →
      ∃ packet, recvPacket received = .ok packet ∧ Sifted received packet := by
  intro h
  obtain ⟨packet, hok, hs⟩ := h [113, 0, 0, 0, 104, 105] (by decide) (by decide)
  obtain ⟨p, hp, hpre⟩ := complete_of_sifted hok hs
  have hheader : p.header = [113, 0, 0, 0] := by
    have := List.prefix_iff_eq_take.mp ((List.prefix_append _ _).trans hpre)
    rwa [Packet.length_header] at this
  have htype : p.type = .cMulticast := by
    rw [Packet.header] at hheader
    revert hheader
    cases p.type <;> decide
  cases p with
  | cMulticast text =>
    have hpayload : Packet.str text <+: [104, 105] := by
      rw [hheader] at hpre
      exact (List.prefix_append_right_inj [113, 0, 0, 0]).mp hpre
    have hnul : (0 : UInt8) ∈ [104, 105] := hpayload.subset (by simp [Packet.str])
    exact absurd hnul (by decide)
  | _ => cases htype

end ChattingServer.V11
