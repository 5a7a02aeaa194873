import ChattingServer.V11.Codec.RoundTrip
import ChattingServer.V11.Server.Registry

namespace ChattingServer.V11

open Lib

def Arrives (p : Packet) : Prop :=
  ∃ received : List UInt8, received.length ≤ sockbufSize ∧ onRecv received = .ok p

theorem Arrives.proper {p : Packet} (h : Arrives p) : ∀ v ∈ p.strings, Stream.Proper v := by
  obtain ⟨received, hmax, hok⟩ := h
  exact (decoded_of_onRecv hmax hok).proper

theorem arrives_of_readable {p : Packet} (hp : p.type ≠ .undefined) (hr : p.Readable)
    (hc : p.counted = p) (hfit : p.encoding.length ≤ sockbufSize) : Arrives p := by
  have hok := (getPacket_encode_iff_readable hp hfit).mpr hr
  rw [getPacket_encode hfit, Packet.encode_fst, hc] at hok
  exact ⟨p.encoding, hfit, hok⟩

def Stored (v : Str) : Prop := v = [] ∨ Stream.Proper v

structure Outgoing (p : Packet) : Prop where
  type : p.type ≠ .undefined
  strings : ∀ v ∈ p.strings, Stored v
  paired : p.Paired
  counted : p.counted = p

namespace Server

structure Wellspelled (s : Server) : Prop where
  nickname : ∀ {v u}, s.user v = .live u → Stored u.nickname
  roomName : ∀ r, Stored (s.room r).roomName
  packages : ∀ pkg ∈ s.packages, Outgoing pkg.packet

theorem wellspelled_init : Wellspelled init where
  nickname := nofun
  roomName _ := .inl rfl
  packages := nofun

theorem outgoing_casts (users : List UserPtr) {p : Packet} (h : Outgoing p) :
    ∀ pkg ∈ casts users p, Outgoing pkg.packet := by
  simp only [casts, List.mem_map]
  rintro _ ⟨v, -, rfl⟩
  exact h

theorem outgoing_roomListPacket {s : Server} (h : Wellspelled s) : Outgoing s.roomListPacket where
  type := nofun
  strings := by
    simp only [roomListPacket, Packet.strings, List.mem_map]
    rintro _ ⟨_, ⟨r, -, rfl⟩, rfl⟩
    exact h.roomName r
  paired := by simp [roomListPacket, Packet.Paired]
  counted := by simp [roomListPacket, Packet.counted, StdMap.values, StdMap.size]

theorem Wellspelled.pushPackages {s : Server} (h : Wellspelled s) {ps : List SendPackage}
    (hps : ∀ pkg ∈ ps, Outgoing pkg.packet) : Wellspelled (s.pushPackages ps) where
  nickname := h.nickname
  roomName := h.roomName
  packages pkg hp := (List.mem_append.mp hp).elim (h.packages pkg) (hps pkg)

theorem Wellspelled.sendRoomListToOne {s : Server} (h : Wellspelled s) (session : Option UserPtr) :
    Wellspelled (s.sendRoomListToOne session) := by
  apply h.pushPackages
  simpa using outgoing_roomListPacket h

theorem Wellspelled.setUser {s : Server} (h : Wellspelled s) (v : UserPtr) (cell : Cell)
    (hcell : ∀ u, cell = .live u → Stored u.nickname) : Wellspelled (s.setUser v cell) where
  nickname {w u} hw := by
    by_cases hwv : w = v
    · subst hwv
      rw [user_setUser_self] at hw
      exact hcell u hw
    · rw [user_setUser_of_ne s hwv] at hw
      exact h.nickname hw
  roomName := h.roomName
  packages := h.packages

theorem Wellspelled.setRoom {s : Server} (h : Wellspelled s) (r : RoomPtr) {x : Room}
    (hx : Stored x.roomName) : Wellspelled (s.setRoom r x) where
  nickname := h.nickname
  roomName t := by
    by_cases ht : t = r
    · subst ht
      simpa using hx
    · rw [room_setRoom_of_ne s ht]
      exact h.roomName t
  packages := h.packages

theorem Wellspelled.entered {s : Server} (h : Wellspelled s) {r : RoomPtr} {v : UserPtr} {u : User}
    (hu : s.user v = .live u) : Wellspelled (s.entered r v u) := by
  have hnick := h.nickname hu
  have huser := h.setUser v (.live { u with currRoom := some r }) (by rintro _ ⟨⟩; exact hnick)
  have hroom := huser.setRoom r (x := { s.room r with users := (s.room r).users.insert v })
    (h.roomName r)
  have henter : Outgoing (.sRoomEnter u.userId u.nickname) :=
    ⟨by rintro ⟨⟩, by simpa [Packet.strings] using hnick, trivial, rfl⟩
  have hname : Outgoing (.sRoomName (s.room r).roomName) :=
    ⟨by rintro ⟨⟩, by simpa [Packet.strings] using h.roomName r, trivial, rfl⟩
  apply hroom.pushPackages
  intro pkg hp
  rcases List.mem_append.mp hp with hp | hp
  · exact outgoing_casts _ henter pkg hp
  · rw [List.mem_singleton.mp hp]
    rw [room_setRoom_self]
    exact hname

theorem Wellspelled.left {s : Server} (h : Wellspelled s) {r : RoomPtr} {v : UserPtr} {u : User}
    (hu : s.user v = .live u) (recvers : List UserPtr) : Wellspelled (s.left r v u recvers) := by
  have hnick := h.nickname hu
  have hexit : Outgoing (.sRoomExit u.userId) := ⟨nofun, nofun, trivial, rfl⟩
  have hpush := h.pushPackages (outgoing_casts recvers hexit)
  have huser := hpush.setUser v (.live { u with currRoom := none }) (by rintro _ ⟨⟩; exact hnick)
  exact huser.setRoom r (h.roomName r)

theorem Wellspelled.removed {s : Server} (h : Wellspelled s) {v : UserPtr} {u : User}
    (hu : s.user v = .live u) : Wellspelled (s.removed v u) := by
  unfold Server.removed
  split
  · have hfreed := h.setUser v .freed nofun
    exact ⟨hfreed.nickname, hfreed.roomName, hfreed.packages⟩
  · rename_i r hr
    have hfreed := (h.left (r := r) hu
      (s.exitCasts u.userId (s.room r).users.elems true)).setUser v .freed nofun
    exact ⟨hfreed.nickname, hfreed.roomName, hfreed.packages⟩

theorem Wellspelled.newRoom {s : Server} (h : Wellspelled s) {roomName : Str}
    (hname : Stored roomName) : Wellspelled (s.newRoom roomName) :=
  have hroom := h.setRoom s.nextRoom (x := ⟨s.roomId, roomName, .empty⟩) hname
  ⟨hroom.nickname, hroom.roomName, hroom.packages⟩

theorem outgoing_unicastPackages {v : UserPtr} {u : User} {text : Str} {found : Option UserPtr}
    (hu : Stored u.nickname) (ht : Stored text) :
    ∀ pkg ∈ unicastPackages v u text found, Outgoing pkg.packet := by
  have hok : Outgoing (.sUnicastOk u.nickname text) :=
    ⟨by rintro ⟨⟩, by simpa [Packet.strings] using ⟨hu, ht⟩, trivial, rfl⟩
  cases found with
  | none =>
    have hno : Outgoing .sUnicastNo := ⟨by rintro ⟨⟩, List.forall_mem_nil _, trivial, rfl⟩
    exact List.forall_mem_singleton.mpr hno
  | some w => simpa [unicastPackages] using hok

theorem Wellspelled.processed {s s' : Server} (h : Wellspelled s) {session : UserPtr}
    {packet : Packet} (ha : Arrives packet) (hp : s.Processed session packet s') :
    Wellspelled s' := by
  have hstored : ∀ v ∈ packet.strings, Stored v := fun v hv => .inr (ha.proper v hv)
  cases hp with
  | @serverEnter _ v u sender nickname =>
    have huser := h.setUser v (.live { u with nickname })
      (by rintro _ ⟨⟩; exact hstored _ (List.mem_singleton_self _))
    refine (huser.pushPackages (List.forall_mem_singleton.mpr ?_)).sendRoomListToOne _
    exact ⟨by rintro ⟨⟩, List.forall_mem_nil _, trivial, rfl⟩
  | serverExit sender members => exact h.removed sender.live
  | lobbyRoomInfo => exact h.sendRoomListToOne _
  | roomCreate _ roomName =>
    exact (h.newRoom (hstored _ (List.mem_singleton_self _))).sendRoomListToOne _
  | roomEnter sender room => exact h.entered sender.live
  | @roomExit _ v u r sender room =>
    have hleft := h.left (r := r) sender.live (s.room r).users.elems
    exact ⟨hleft.nickname, hleft.roomName, hleft.packages⟩
  | unicast sender _ text =>
    exact h.pushPackages (outgoing_unicastPackages (h.nickname sender.live)
      (hstored text (by simp [Packet.strings])))
  | multicast sender room text =>
    refine h.pushPackages (outgoing_casts _ ⟨by rintro ⟨⟩, ?_, trivial, rfl⟩)
    simpa [Packet.strings] using ⟨h.nickname sender.live, hstored text (by simp [Packet.strings])⟩
  | @broadcast _ _ u sender text =>
    have hcast : Outgoing (.sBroadcast u.nickname text) := by
      refine ⟨by rintro ⟨⟩, ?_, trivial, rfl⟩
      simpa [Packet.strings] using ⟨h.nickname sender.live, hstored text (by simp [Packet.strings])⟩
    rw [broadCast_eq]
    apply h.pushPackages
    intro pkg hp
    obtain ⟨r, -, hp⟩ := List.mem_flatMap.mp hp
    exact outgoing_casts _ hcast pkg hp
  | unhandled _ => exact h

def fromWire : Action → Prop
  | .process package => Arrives package.packet
  | _ => True

theorem Wellspelled.step {s s' : Server} (h : Wellspelled s) {a : Action} (ha : fromWire a)
    (hs : s.step a = .ok s') : Wellspelled s' := by
  cases a with
  | accept addr socket outcome =>
    obtain ⟨-, hacc⟩ := accepted_of_ok hs
    cases hacc with
    | connected =>
      have hnew := h.setUser addr (.live ⟨⟨some socket, s.userId⟩, s.userId, none, []⟩)
        (by rintro _ ⟨⟩; exact .inl rfl)
      exact ⟨hnew.nickname, hnew.roomName, hnew.packages⟩
    | failed _ closed =>
      have hnew := h.setUser addr .freed nofun
      exact ⟨hnew.nickname, hnew.roomName, hnew.packages⟩
  | removeUser id =>
    rcases removedById_of_ok hs with ⟨-, rfl⟩ | ⟨v, u, -, hu, -, rfl⟩
    · exact h
    · exact h.removed hu
  | process package => exact h.processed ha (processed_of_ok hs)

theorem wellspelled_of_reach {s : Server} (h : system.Reach (fun _ a => fromWire a) s) :
    Wellspelled s :=
  h.invariant wellspelled_init fun _ _ _ _ hw hg hs => hw.step hg hs

end Server

def Delivered (p : Packet) : Prop := onRecv ((serverWire p).take sockbufSize) = .ok p

/-- Whatever `WSASend` reports, the packet arrives as it is or `SendPacket` returns false. -/
def NoSilentTruncation (p : Packet) : Prop :=
  ∀ outcome, Delivered p ∨ outcome = .failed ∧ (sendPacket p outcome).2 = false

theorem noSilentTruncation_iff {p : Packet} : NoSilentTruncation p ↔ Delivered p := by
  constructor
  · intro h
    exact (h .sent).resolve_right nofun
  · exact fun h _ => .inl h

theorem take_serverWire (p : Packet) :
    (serverWire p).take sockbufSize =
      Framing.padded (min 4 (sockbufSize - p.encoding.length)) (p.encoding.take sockbufSize) := by
  rw [serverWire_eq, Packet.written, Framing.padded, List.take_of_length_le]
  simp only [List.length_append, List.length_take, List.length_replicate]
  omega

theorem delivered_iff {p : Packet} (h : Outgoing p) :
    Delivered p ↔
      (∀ v ∈ p.strings, v ≠ []) ∧ p.encoding.length ≤ sockbufSize + 4 ∧
        ∀ b ∈ p.encoding.drop sockbufSize, b = 0 := by
  have hmax : ((serverWire p).take sockbufSize).length ≤ sockbufSize := by
    rw [List.length_take]
    exact Nat.min_le_left ..
  have hmin : 4 ≤ ((serverWire p).take sockbufSize).length := by
    rw [take_serverWire, Framing.padded, List.length_append, List.length_take,
      Packet.length_encoding]
    simp only [sockbufSize]
    omega
  have hspelled : Framing.SpelledBy p.encoding ((serverWire p).take sockbufSize) ↔
      ∀ b ∈ p.encoding.drop sockbufSize, b = 0 := by
    rw [take_serverWire, Framing.spelledBy_take_iff]
  have hreadable : p.Readable ↔ ∀ v ∈ p.strings, v ≠ [] :=
    ⟨fun hr v hv => (hr.proper v hv).1,
      fun hne => ⟨fun v hv => (h.strings v hv).resolve_left (hne v hv), h.paired⟩⟩
  by_cases hfit : p.encoding.length ≤ sockbufSize + 4
  · have hiff := onRecv_counted_iff hmax h.type hfit
    rw [h.counted] at hiff
    rw [Delivered, hiff, hspelled, hreadable]
    simp only [hmin, hfit, true_and]
  · have hnot : ¬ Delivered p := by
      intro hok
      have hlen := ((onRecv_ok_iff hmax h.type).mp hok).2.2.1
      rw [Packet.length_encoding, h.counted] at hfit
      omega
    simp [hnot, hfit]

/-- A packet in the queue is neither lost nor changed on its way exactly when none of its strings is
empty and its layout, but for zeros at the end, fits the stream. -/
theorem noSilentTruncation_iff_fits {s : Server}
    (h : Server.system.Reach (fun _ a => Server.fromWire a) s) {package : SendPackage}
    (hp : package ∈ s.packages) :
    NoSilentTruncation package.packet ↔
      (∀ v ∈ package.packet.strings, v ≠ []) ∧
        package.packet.encoding.length ≤ sockbufSize + 4 ∧
          ∀ b ∈ package.packet.encoding.drop sockbufSize, b = 0 := by
  rw [noSilentTruncation_iff]
  exact delivered_iff ((Server.wellspelled_of_reach h).packages package hp)

theorem fromWire_of_readable {session : UserPtr} {p : Packet} (hp : p.type ≠ .undefined)
    (hr : p.Readable) (hc : p.counted = p) (hfit : p.encoding.length ≤ sockbufSize) :
    Server.fromWire (.process ⟨session, p⟩) :=
  arrives_of_readable hp hr hc hfit

theorem noSilentTruncation_login :
    ∃ s, Server.system.Reachable s ∧ ⟨some 0, .sServerEnterOk 1⟩ ∈ s.packages ∧
      NoSilentTruncation (.sServerEnterOk 1) := by
  have hwire : ∀ a ∈ [Server.Action.accept 0 7 .connected, .process ⟨0, .cServerEnter [97]⟩],
      Server.fromWire a := by
    simp only [List.mem_cons, List.not_mem_nil, or_false]
    rintro a (rfl | rfl)
    · trivial
    · exact fromWire_of_readable (by decide) ⟨by decide, trivial⟩ rfl (by decide)
  obtain ⟨s, hs, hp⟩ := System.exists_of_run_forall
    (p := fun s : Server => decide (⟨some 0, .sServerEnterOk 1⟩ ∈ s.packages)) _ hwire
    (by decide : (Server.system.run Server.init _).any _ = true)
  have hmem := of_decide_eq_true hp
  have hfits : (Packet.sServerEnterOk 1).encoding.drop sockbufSize = [] := by decide
  refine ⟨s, hs.reachable, hmem, (noSilentTruncation_iff_fits hs hmem).mpr ⟨nofun, by decide, ?_⟩⟩
  rw [hfits]
  nofun

/-- A nickname and a text that each fit a packet, but not together. -/
theorem not_noSilentTruncation :
    ¬ ∀ s, Server.system.Reach (fun _ a => Server.fromWire a) s →
      ∀ package ∈ s.packages, NoSilentTruncation package.packet := by
  intro h
  have hproper : ∀ (n : Nat) (ch : UInt8), ch ≠ 0 → Stream.Proper (List.replicate (n + 1) ch) := by
    intro n ch hch
    exact ⟨List.cons_ne_nil _ _, by simp [hch.symm]⟩
  have henter : ∀ v : Str, (Packet.cServerEnter v).encoding.length = 4 + (v.length + 1) := by
    simp [Packet.length_encoding, Packet.counted, Packet.payload]
  have hmulti : ∀ v : Str, (Packet.cMulticast v).encoding.length = 4 + (v.length + 1) := by
    simp [Packet.length_encoding, Packet.counted, Packet.payload]
  have hwire : ∀ a ∈ [Server.Action.accept 0 7 .connected,
      .process ⟨0, .cServerEnter (List.replicate 600 97)⟩, .process ⟨0, .cRoomCreate [114]⟩,
      .process ⟨0, .cRoomEnter 1⟩, .process ⟨0, .cMulticast (List.replicate 600 98)⟩],
      Server.fromWire a := by
    simp only [List.mem_cons, List.not_mem_nil, or_false]
    rintro a (rfl | rfl | rfl | rfl | rfl)
    · trivial
    · refine fromWire_of_readable (by rintro ⟨⟩) ⟨?_, trivial⟩ rfl ?_
      · exact List.forall_mem_singleton.mpr (hproper 599 97 (by decide))
      · rw [henter, List.length_replicate]
        decide
    · exact fromWire_of_readable (by decide) ⟨by decide, trivial⟩ rfl (by decide)
    · exact fromWire_of_readable (by decide) ⟨List.forall_mem_nil _, trivial⟩ rfl (by decide)
    · refine fromWire_of_readable (by rintro ⟨⟩) ⟨?_, trivial⟩ rfl ?_
      · exact List.forall_mem_singleton.mpr (hproper 599 98 (by decide))
      · rw [hmulti, List.length_replicate]
        decide
  obtain ⟨s, hs, hp⟩ := System.exists_of_run_forall
    (p := fun s : Server => decide
      (⟨some 0, .sMulticast (List.replicate 600 97) (List.replicate 600 98)⟩ ∈ s.packages)) _ hwire
    (by decide +kernel : (Server.system.run Server.init _).any _ = true)
  have hok := noSilentTruncation_iff.mp (h s hs _ (of_decide_eq_true hp))
  have hmax : ∀ l : List UInt8, (l.take sockbufSize).length ≤ sockbufSize := by simp
  have hlen := ((onRecv_ok_iff (hmax _) (by rintro ⟨⟩)).mp hok).2.2.1
  rw [Packet.payload, List.length_append, Packet.length_str, Packet.length_str,
    List.length_replicate, List.length_replicate] at hlen
  exact absurd hlen (by decide)

end ChattingServer.V11
