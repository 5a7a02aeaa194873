import ChattingServer.V11.Chat.Events
import ChattingServer.V11.Chat.Selection
import ChattingServer.V11.Client.RoomList

namespace ChattingServer.V11

open Lib

namespace Server

def rooms (s : Server) : List (UInt16 × Str) :=
  s.roomList.values.map fun r => ((s.room r).roomId, (s.room r).roomName)

theorem roomList_roomListPacket (s : Server) : s.roomListPacket.roomList = some s.rooms := by
  simp [roomListPacket, Packet.roomList, rooms, List.zip_map', Function.comp_def]

theorem counted_roomListPacket (s : Server) : s.roomListPacket.counted = s.roomListPacket := by
  simp [roomListPacket, Packet.counted, StdMap.values, StdMap.size]

theorem rooms_newRoom {s : Server} (h : Registry s) (roomName : Str) :
    s.rooms ⊆ (s.newRoom roomName).rooms := by
  intro x hx
  obtain ⟨r, hr, rfl⟩ := List.mem_map.mp hx
  obtain ⟨i, hi⟩ := StdMap.mem_values_iff.mp hr
  obtain ⟨hi', hroom⟩ := h.room_newRoom hi roomName
  refine List.mem_map.mpr ⟨r, StdMap.mem_values_iff.mpr ⟨i, hi'⟩, ?_⟩
  rw [hroom]

theorem rooms_setUsers (s : Server) (r : RoomPtr) (users : StdSet UserPtr) :
    (s.setRoom r { s.room r with users }).rooms = s.rooms := by
  refine List.map_congr_left fun t _ => ?_
  obtain ⟨hid, hname⟩ := s.room_setUsers r users t
  exact Prod.ext hid hname

theorem rooms_left (s : Server) (r : RoomPtr) (v : UserPtr) (u : User) (recvers : List UserPtr) :
    (s.left r v u recvers).rooms = s.rooms :=
  rooms_setUsers ((s.pushPackages _).setUser v _) r _

structure Lists (s : Server) (asker : Option UserPtr) (s' : Server) : Prop where
  rooms : s.rooms ⊆ s'.rooms
  packages : ∃ ps, s'.packages = s.packages ++ ps ∧
    (∀ p ∈ ps, p.packet.roomList ≠ none → p.packet = s'.roomListPacket) ∧
    ∀ v, asker = some v → ⟨some v, s'.roomListPacket⟩ ∈ ps

theorem Lists.silent {s s' : Server} (hrooms : s'.rooms = s.rooms) {ps : List SendPackage}
    (hpackages : s'.packages = s.packages ++ ps) (hps : ∀ p ∈ ps, p.packet.roomList = none) :
    s.Lists none s' where
  rooms := hrooms ▸ List.Subset.refl _
  packages := ⟨ps, hpackages, fun p hp hlist => absurd (hps p hp) hlist, by rintro _ ⟨⟩⟩

theorem roomList_casts {users : List UserPtr} {packet : Packet} (h : packet.roomList = none) :
    ∀ p ∈ casts users packet, p.packet.roomList = none := by
  simp only [casts, List.mem_map]
  rintro _ ⟨v, -, rfl⟩
  exact h

theorem roomList_unicastPackages (v : UserPtr) (u : User) (text : Str) (found : Option UserPtr) :
    ∀ p ∈ unicastPackages v u text found, p.packet.roomList = none := by
  cases found with
  | none => exact List.forall_mem_singleton.mpr rfl
  | some w => exact List.forall_mem_cons.mpr ⟨rfl, List.forall_mem_singleton.mpr rfl⟩

theorem lists_removed (s : Server) (v : UserPtr) (u : User) : s.Lists none (s.removed v u) := by
  unfold removed
  split
  · exact .silent rfl (List.append_nil _).symm (List.forall_mem_nil _)
  · rename_i r hr
    exact .silent (s.rooms_left r v u _) rfl (roomList_casts rfl)

def asker : Action → Option UserPtr
  | .process package => if package.packet.asksForList then some package.session else none
  | _ => none

theorem Processed.lists {s s' : Server} (h : Orderly s) {session : UserPtr} {packet : Packet}
    (hp : s.Processed session packet s') : s.Lists (asker (.process ⟨session, packet⟩)) s' := by
  cases hp with
  | @serverEnter id v u sender nickname =>
    refine ⟨List.Subset.refl _, [⟨some session, .sServerEnterOk id⟩, ⟨some session, _⟩],
      List.append_assoc .., ?_, ?_⟩
    · refine List.forall_mem_cons.mpr ⟨fun hlist => absurd rfl hlist, ?_⟩
      exact List.forall_mem_singleton.mpr fun _ => rfl
    · rintro _ ⟨⟩
      exact List.mem_cons_of_mem _ (List.mem_singleton_self _)
  | serverExit sender members => exact s.lists_removed _ _
  | lobbyRoomInfo =>
    refine ⟨List.Subset.refl _, _, rfl, List.forall_mem_singleton.mpr fun _ => rfl, ?_⟩
    rintro _ ⟨⟩
    exact List.mem_singleton_self _
  | @roomCreate id hid roomName =>
    obtain ⟨x, hx, hxid⟩ := sessionId_ok_iff.mp hid
    obtain ⟨u, sender⟩ := h.registry.sender (h.accounted.live hx).1
    have hsession : (s.newRoom roomName).getSession id = some session := by
      rw [Except.ok.inj (hid.symm.trans sender.session)]
      exact sender.registered
    refine ⟨rooms_newRoom h.registry roomName, _, rfl,
      List.forall_mem_singleton.mpr fun _ => rfl, ?_⟩
    rintro _ ⟨⟩
    rw [hsession]
    exact List.mem_singleton_self _
  | @roomEnter id v u rid r sender room =>
    refine .silent (rooms_setUsers (s.setUser v _) r _) rfl fun p hp => ?_
    rcases List.mem_append.mp hp with hp | hp
    · exact roomList_casts rfl p hp
    · rw [List.mem_singleton.mp hp]
      rfl
  | @roomExit id v u r sender room =>
    exact .silent (s.rooms_left r v u _) rfl (roomList_casts rfl)
  | @unicast id v u sender recver found found_eq text =>
    exact .silent rfl rfl (roomList_unicastPackages v u text found)
  | multicast sender room text => exact .silent rfl rfl (roomList_casts rfl)
  | broadcast sender text =>
    rw [broadCast_eq]
    refine .silent rfl rfl fun p hp => ?_
    obtain ⟨r, -, hp⟩ := List.mem_flatMap.mp hp
    exact roomList_casts rfl p hp
  | unhandled hnot =>
    have hnone : asker (.process ⟨session, packet⟩) = none := by
      cases packet <;> first | rfl | contradiction
    rw [hnone]
    exact .silent rfl (List.append_nil _).symm (List.forall_mem_nil _)

theorem lists_of_step {s s' : Server} (h : Orderly s) {a : Action} (hs : s.step a = .ok s') :
    s.Lists (asker a) s' := by
  cases a with
  | accept addr socket outcome =>
    obtain ⟨-, hacc⟩ := accepted_of_ok hs
    cases hacc <;> exact .silent rfl (List.append_nil _).symm (List.forall_mem_nil _)
  | removeUser id =>
    rcases removedById_of_ok hs with ⟨-, rfl⟩ | ⟨v, u, -, -, -, rfl⟩
    · exact .silent rfl (List.append_nil _).symm (List.forall_mem_nil _)
    · exact s.lists_removed v u
  | process package => exact (processed_of_ok hs).lists h

end Server

end ChattingServer.V11
