import ChattingServer.Lib.Counter
import ChattingServer.V11.Server.Registry

namespace ChattingServer.V11

open Lib

namespace Server

structure CreatedRoom where
  id : UInt16
  name : Str
  room : RoomPtr

def create (created : List CreatedRoom) (s : Server) : Action → List CreatedRoom
  | .process ⟨_, .cRoomCreate roomName⟩ => created ++ [⟨s.roomId, roomName, s.nextRoom⟩]
  | _ => created

abbrev Rooming := Server × List CreatedRoom

def rooming : System Rooming Action Fault := system.withHistory [] create

/-- Each room that has been created is in `roomList_`, under an id of its own that is not the one by
which the client asks for a new room. -/
structure RoomRegistry (x : Rooming) : Prop where
  ids : (x.2.map CreatedRoom.id).Nodup
  nonzero : ∀ c ∈ x.2, c.id ≠ 0
  size : x.1.roomList.size = x.2.length
  found : ∀ c ∈ x.2, x.1.getRoom c.id = some c.room ∧
    (x.1.room c.room).roomId = c.id ∧ (x.1.room c.room).roomName = c.name

structure SameRooms (s s' : Server) : Prop where
  roomList : s'.roomList = s.roomList
  roomId : s'.roomId = s.roomId
  nextRoom : s'.nextRoom = s.nextRoom
  room : ∀ r, (s'.room r).roomId = (s.room r).roomId ∧ (s'.room r).roomName = (s.room r).roomName

theorem SameRooms.refl (s : Server) : SameRooms s s := ⟨rfl, rfl, rfl, fun _ => ⟨rfl, rfl⟩⟩

theorem sameRooms_setUsers (s : Server) (r : RoomPtr) (users : StdSet UserPtr) :
    SameRooms s (s.setRoom r { s.room r with users }) where
  roomList := rfl
  roomId := rfl
  nextRoom := rfl
  room := s.room_setUsers r users

theorem sameRooms_entered (s : Server) (r : RoomPtr) (v : UserPtr) (u : User) :
    SameRooms s (s.entered r v u) :=
  have h := sameRooms_setUsers (s.setUser v (.live { u with currRoom := some r })) r
    ((s.room r).users.insert v)
  ⟨h.roomList, h.roomId, h.nextRoom, h.room⟩

theorem sameRooms_left (s : Server) (r : RoomPtr) (v : UserPtr) (u : User)
    (recvers : List UserPtr) : SameRooms s (s.left r v u recvers) :=
  have h := sameRooms_setUsers ((s.pushPackages (casts recvers (.sRoomExit u.userId))).setUser v
    (.live { u with currRoom := none })) r ((s.room r).users.erase v)
  ⟨h.roomList, h.roomId, h.nextRoom, h.room⟩

theorem sameRooms_removed (s : Server) (v : UserPtr) (u : User) : SameRooms s (s.removed v u) := by
  unfold removed
  split
  · exact ⟨rfl, rfl, rfl, fun _ => ⟨rfl, rfl⟩⟩
  · rename_i r _
    have h := sameRooms_left s r v u (s.exitCasts u.userId (s.room r).users.elems true)
    exact ⟨h.roomList, h.roomId, h.nextRoom, h.room⟩

theorem Processed.sameRooms {s s' : Server} {session : UserPtr} {packet : Packet}
    (hp : s.Processed session packet s') (hpacket : ∀ name, packet ≠ .cRoomCreate name) :
    SameRooms s s' := by
  cases hp with
  | roomCreate hid roomName => exact absurd rfl (hpacket roomName)
  | serverExit sender members => exact s.sameRooms_removed _ _
  | roomEnter sender room => exact s.sameRooms_entered ..
  | @roomExit id v u r sender room =>
    have h := s.sameRooms_left r v u (s.room r).users.elems
    exact ⟨h.roomList, h.roomId, h.nextRoom, h.room⟩
  | broadcast sender text =>
    rw [broadCast_eq]
    exact ⟨rfl, rfl, rfl, fun _ => ⟨rfl, rfl⟩⟩
  | serverEnter | lobbyRoomInfo | unicast | multicast | unhandled =>
    exact ⟨rfl, rfl, rfl, fun _ => ⟨rfl, rfl⟩⟩

theorem rooms_of_step {s s' : Server} {a : Action} (hs : s.step a = .ok s')
    (created : List CreatedRoom) :
    create created s a = created ∧ SameRooms s s' ∨
      ∃ id name, create created s a = created ++ [⟨s.roomId, name, s.nextRoom⟩] ∧
        s' = s.createRoom id name := by
  cases a with
  | accept addr socket outcome =>
    refine .inl ⟨rfl, ?_⟩
    cases (accepted_of_ok hs).2 <;> exact ⟨rfl, rfl, rfl, fun _ => ⟨rfl, rfl⟩⟩
  | removeUser id =>
    refine .inl ⟨rfl, ?_⟩
    rcases removedById_of_ok hs with ⟨-, rfl⟩ | ⟨v, u, -, -, -, rfl⟩
    · exact .refl _
    · exact s.sameRooms_removed v u
  | process package =>
    obtain ⟨session, packet⟩ := package
    have hp := processed_of_ok hs
    by_cases hpacket : ∃ name, packet = .cRoomCreate name
    · obtain ⟨name, rfl⟩ := hpacket
      cases hp with
      | roomCreate hid _ => exact .inr ⟨_, name, rfl, rfl⟩
      | unhandled h => contradiction
    · have hnot : ∀ name, packet ≠ .cRoomCreate name := fun name heq => hpacket ⟨name, heq⟩
      refine .inl ⟨?_, hp.sameRooms hnot⟩
      cases packet with
      | cRoomCreate name => exact absurd rfl (hnot name)
      | _ => rfl

structure Catalogued (s : Server) (created : List CreatedRoom) : Prop where
  next : s.roomId = Counter.uint16.value (created.length + 1)
  ids : created.map CreatedRoom.id = Counter.uint16.values created.length
  old : ∀ c ∈ created, c.room < s.nextRoom
  mem : ∀ {id r}, s.roomList.find id = some r → id ∈ created.map CreatedRoom.id
  size : created.length < Counter.uint16.bound → s.roomList.size = created.length
  found : created.length < Counter.uint16.bound → ∀ c ∈ created,
    s.getRoom c.id = some c.room ∧
      (s.room c.room).roomId = c.id ∧ (s.room c.room).roomName = c.name

theorem catalogued_init : Catalogued init [] where
  next := rfl
  ids := rfl
  old := List.forall_mem_nil _
  mem h := by simp [init] at h
  size _ := rfl
  found _ := List.forall_mem_nil _

theorem Catalogued.same {s s' : Server} {created : List CreatedRoom} (h : Catalogued s created)
    (hs : SameRooms s s') : Catalogued s' created where
  next := hs.roomId.trans h.next
  ids := h.ids
  old := hs.nextRoom ▸ h.old
  mem := hs.roomList ▸ h.mem
  size := hs.roomList ▸ h.size
  found hlt c hc := by
    obtain ⟨hget, hid, hname⟩ := h.found hlt c hc
    refine ⟨?_, (hs.room _).1.trans hid, (hs.room _).2.trans hname⟩
    rwa [getRoom, hs.roomList]

theorem Catalogued.fresh {s : Server} {created : List CreatedRoom} (h : Catalogued s created)
    (hlt : created.length + 1 < Counter.uint16.bound) : s.roomList.find s.roomId = none := by
  cases hid : s.roomList.find s.roomId with
  | none => rfl
  | some r =>
    have hmem := h.mem hid
    rw [h.ids, h.next] at hmem
    exact absurd hmem (Counter.uint16.value_not_mem_values hlt)

theorem Catalogued.createRoom {s : Server} {created : List CreatedRoom} (h : Catalogued s created)
    (id : UInt32) (name : Str) :
    Catalogued (s.createRoom id name) (created ++ [⟨s.roomId, name, s.nextRoom⟩]) := by
  have hlen : (created ++ [(⟨s.roomId, name, s.nextRoom⟩ : CreatedRoom)]).length =
    created.length + 1 := List.length_append
  have hroom : ∀ r < s.nextRoom, (s.createRoom id name).room r = s.room r := fun r hr =>
    Function.update_of_ne (Nat.ne_of_lt hr) ..
  refine ⟨?_, ?_, fun c hc => ?_, fun {i r} hi => ?_, fun hlt => ?_, fun hlt c hc => ?_⟩
  · change s.roomId + 1 = _
    rw [hlen, h.next, Counter.uint16_succ]
  · rw [hlen, List.map_append, h.ids, Counter.values_succ, ← h.next]
    rfl
  · rcases List.mem_append.mp hc with hc | hc
    · exact Nat.lt_succ_of_lt (h.old c hc)
    · rw [List.mem_singleton.mp hc]
      exact Nat.lt_succ_self _
  · rw [List.map_append]
    rcases StdMap.find_of_find_insert hi with hi | ⟨-, rfl, -⟩
    · exact List.mem_append_left _ (h.mem hi)
    · exact List.mem_append_right _ (List.mem_singleton_self _)
  · rw [hlen] at hlt ⊢
    rw [← h.size (by omega)]
    exact StdMap.size_insert_of_none (h.fresh hlt) _
  · rw [hlen] at hlt
    rcases List.mem_append.mp hc with hc | hc
    · obtain ⟨hget, hid, hname⟩ := h.found (by omega) c hc
      rw [hroom c.room (h.old c hc)]
      exact ⟨StdMap.find_insert_of_some hget .., hid, hname⟩
    · rw [List.mem_singleton.mp hc]
      have hnew : (s.createRoom id name).room s.nextRoom = ⟨s.roomId, name, .empty⟩ :=
        Function.update_self ..
      refine ⟨?_, by rw [hnew], by rw [hnew]⟩
      exact (StdMap.find_insert_of_none (h.fresh hlt) ..).trans (if_pos rfl)

theorem Catalogued.step {x x' : Rooming} (h : Catalogued x.1 x.2) {a : Action}
    (hstep : rooming.step x a = .ok x') : Catalogued x'.1 x'.2 := by
  obtain ⟨hs, hcreated⟩ := System.withHistory_step.mp hstep
  rw [hcreated]
  rcases rooms_of_step hs x.2 with ⟨heq, hsame⟩ | ⟨id, name, heq, hnew⟩
  · rw [heq]
    exact h.same hsame
  · rw [heq, hnew]
    exact h.createRoom id name

theorem catalogued_of_reachable {x : Rooming} (h : rooming.Reachable x) : Catalogued x.1 x.2 :=
  h.invariant (P := fun x => Catalogued x.1 x.2) catalogued_init
    fun _ _ _ _ hx _ hs => hx.step hs

theorem Catalogued.registry_iff {x : Rooming} (h : Catalogued x.1 x.2) :
    RoomRegistry x ↔ x.2.length < Counter.uint16.bound := by
  have hzero : (∀ c ∈ x.2, c.id ≠ 0) ↔ x.2.length < Counter.uint16.bound := by
    have hmem : (0 : UInt16) ∈ x.2.map CreatedRoom.id ↔ Counter.uint16.bound ≤ x.2.length := by
      rw [h.ids]
      exact Counter.uint16.zero_mem_values_iff
    rw [← Nat.not_le, ← hmem, List.mem_map]
    exact ⟨fun hno ⟨c, hc, heq⟩ => hno c hc heq, fun hno c hc heq => hno ⟨c, hc, heq⟩⟩
  constructor
  · exact fun hr => hzero.mp hr.nonzero
  · exact fun hlt => ⟨h.ids ▸ Counter.uint16.values_nodup hlt, hzero.mpr hlt, h.size hlt,
      h.found hlt⟩

/-- The rooms are registered as they should be until the counter comes round. -/
theorem roomRegistry_iff {x : Rooming} (h : rooming.Reachable x) :
    RoomRegistry x ↔ x.2.length < 65536 :=
  (catalogued_of_reachable h).registry_iff

theorem roomRegistry_of_two :
    ∃ x, rooming.Reachable x ∧ x.2.map CreatedRoom.id = [1, 2] ∧ RoomRegistry x := by
  obtain ⟨x, hx, hp⟩ := System.exists_of_run (S := rooming)
    (p := fun x => decide (x.2.map CreatedRoom.id = [1, 2]))
    [.accept 10 7 .connected, .process ⟨10, .cRoomCreate [97]⟩, .process ⟨10, .cRoomEnter 1⟩,
      .process ⟨10, .cRoomCreate [98]⟩] (by decide)
  have hids := of_decide_eq_true hp
  have hlen := congrArg List.length hids
  rw [List.length_map] at hlen
  exact ⟨x, hx, hids, (roomRegistry_iff hx).mpr (by rw [hlen]; decide)⟩

theorem exists_created (n : Nat) :
    ∃ x, rooming.Reachable x ∧ x.2.length = n ∧ ∃ id, x.1.sessionId 10 = .ok id := by
  induction n with
  | zero => exact ⟨_, .step .init trivial (a := .accept 10 7 .connected) rfl, rfl, 1, rfl⟩
  | succ n ih =>
    obtain ⟨x, hx, hlen, id, hid⟩ := ih
    have hs : system.step x.1 (.process ⟨10, .cRoomCreate []⟩) = .ok (x.1.createRoom id []) := by
      simp only [system, step, process, cRoomCreate, hid, ok_bind, pure_eq_ok]
    have hstep : rooming.step x (.process ⟨10, .cRoomCreate []⟩) = .ok (_, _) :=
      System.withHistory_step.mpr ⟨hs, rfl⟩
    refine ⟨_, hx.step trivial hstep, ?_, id, hid⟩
    exact List.length_append.trans (congrArg (· + 1) hlen)

/-- The counter gives id 0 to the room that is created last. -/
theorem not_roomRegistry : ¬ ∀ x, rooming.Reachable x → RoomRegistry x := by
  intro h
  obtain ⟨x, hx, hlen, -⟩ := exists_created 65536
  have hlt := (catalogued_of_reachable hx).registry_iff.mp (h x hx)
  rw [hlen] at hlt
  exact Nat.lt_irrefl _ hlt

end Server

end ChattingServer.V11
