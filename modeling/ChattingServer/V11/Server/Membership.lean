import Mathlib.Data.List.Nodup
import ChattingServer.V11.Server.Registry

namespace ChattingServer.V11

open Lib

namespace Server

def Membership (s : Server) : Prop :=
  ∀ r v, v ∈ (s.room r).users ↔ s.Registered v ∧ s.currRoom v = some r

def senderOf (s : Server) (session : UserPtr) : Except Fault (UserPtr × User) := do
  s.deref (← s.sessionUser session)

theorem Sender.senderOf {s : Server} {session v : UserPtr} {id : UInt32} {u : User}
    (h : s.Sender session id v u) : s.senderOf session = .ok (v, u) :=
  bind_eq_ok_iff.mpr (sender_iff.mpr ⟨id, h⟩)

/-- A `C_ROOM_ENTER` comes from the lobby, or names the room its sender is in. -/
def entersFromLobby (s : Server) : Action → Bool
  | .process ⟨session, .cRoomEnter rid⟩ =>
    match s.senderOf session with
    | .ok (_, u) => u.currRoom = none ∨ u.currRoom = s.getRoom rid
    | .error _ => true
  | _ => true

theorem membership_init : Membership init := by
  intro r v
  simp [init, Registered]

theorem currRoom_setUser (s : Server) (v w : UserPtr) (u : User) :
    (s.setUser v (.live u)).currRoom w = if w = v then u.currRoom else s.currRoom w := by
  split
  · rename_i h
    subst h
    exact currRoom_of_live (user_setUser_self ..)
  · rename_i h
    rw [currRoom, user_setUser_of_ne s h, currRoom]

theorem mem_setRoom {s : Server} {r t : RoomPtr} {x : Room} {w : UserPtr} :
    w ∈ ((s.setRoom r x).room t).users ↔
      if t = r then w ∈ x.users else w ∈ (s.room t).users := by
  split
  · rename_i h
    rw [h, room_setRoom_self]
  · rename_i h
    rw [room_setRoom_of_ne s h]

theorem mem_entered {s : Server} {r t : RoomPtr} {v w : UserPtr} {u : User} :
    w ∈ ((s.entered r v u).room t).users ↔ t = r ∧ w = v ∨ w ∈ (s.room t).users := by
  simp only [entered, pushPackages]
  rw [mem_setRoom]
  split
  · rename_i h
    rw [StdSet.mem_insert, h]
    simp [setUser]
  · rename_i h
    simp [h, setUser]

theorem currRoom_entered (s : Server) (r : RoomPtr) (v w : UserPtr) (u : User) :
    (s.entered r v u).currRoom w = if w = v then some r else s.currRoom w :=
  currRoom_setUser s v w { u with currRoom := some r }

theorem mem_left {s : Server} {r t : RoomPtr} {v w : UserPtr} {u : User}
    {recvers : List UserPtr} :
    w ∈ ((s.left r v u recvers).room t).users ↔ ¬ (t = r ∧ w = v) ∧ w ∈ (s.room t).users := by
  simp only [left]
  rw [mem_setRoom]
  split
  · rename_i h
    rw [StdSet.mem_erase, h]
    simp [and_comm]
  · rename_i h
    simp [h, setUser, pushPackages]

theorem currRoom_left (s : Server) (r : RoomPtr) (v w : UserPtr) (u : User)
    (recvers : List UserPtr) :
    (s.left r v u recvers).currRoom w = if w = v then none else s.currRoom w :=
  currRoom_setUser (s.pushPackages _) v w { u with currRoom := none }

theorem Membership.entered {s : Server} (h : Membership s) {r : RoomPtr} {v : UserPtr} {u : User}
    (hv : s.Registered v) (hfrom : s.currRoom v = none ∨ s.currRoom v = some r) :
    Membership (s.entered r v u) := by
  intro t w
  have hreg : (s.entered r v u).Registered w ↔ s.Registered w := Iff.rfl
  rw [mem_entered, currRoom_entered, hreg, h t w]
  by_cases hw : w = v
  · subst hw
    rcases hfrom with hfrom | hfrom <;> simp [hv, hfrom, eq_comm]
  · simp [hw]

theorem Membership.left {s : Server} (h : Membership s) {r : RoomPtr} {v : UserPtr} {u : User}
    (hr : s.currRoom v = some r) (recvers : List UserPtr) :
    Membership (s.left r v u recvers) := by
  intro t w
  have hreg : (s.left r v u recvers).Registered w ↔ s.Registered w := Iff.rfl
  rw [mem_left, currRoom_left, hreg, h t w]
  by_cases hw : w = v
  · subst hw
    simpa [hr, eq_comm] using fun h _ => h
  · simp [hw]

theorem registered_deleteUser {s : Server} (h : Registry s) {v w : UserPtr} {u : User}
    (hreg : s.userList.find u.userId = some v) :
    (s.deleteUser v u).Registered w ↔ s.Registered w ∧ w ≠ v := by
  simp only [Registered, deleteUser, StdMap.find_erase]
  constructor
  · rintro ⟨id, hid⟩
    split at hid
    · contradiction
    · rename_i hne
      refine ⟨⟨id, hid⟩, ?_⟩
      rintro rfl
      obtain ⟨x, hx, hxid, -⟩ := h.user hid
      obtain ⟨y, hy, hyid, -⟩ := h.user hreg
      rw [hx] at hy
      cases hy
      exact hne (hyid.symm.trans hxid)
  · rintro ⟨⟨id, hid⟩, hne⟩
    refine ⟨id, ?_⟩
    rw [if_neg, hid]
    rintro rfl
    exact hne (Option.some.inj (hid.symm.trans hreg))

theorem registered_removed {s : Server} (h : Registry s) {v w : UserPtr} {u : User}
    (hu : s.user v = .live u) (hv : s.userList.find u.userId = some v) :
    (s.removed v u).Registered w ↔ s.Registered w ∧ w ≠ v := by
  unfold removed
  split
  · exact registered_deleteUser (h.removeFromLobby v) hv
  · exact registered_deleteUser (h.left hu _) hv

theorem currRoom_deleteUser (s : Server) (v w : UserPtr) (u : User) :
    (s.deleteUser v u).currRoom w = if w = v then none else s.currRoom w := by
  split
  · rename_i h
    subst h
    simp [currRoom, deleteUser]
  · rename_i h
    rw [currRoom, deleteUser, user_setUser_of_ne s h, currRoom]

theorem Membership.deleteUser {s : Server} (h : Membership s) (hreg : Registry s) {v : UserPtr}
    {u : User} (hu : s.userList.find u.userId = some v) (hout : s.currRoom v = none) :
    Membership (s.deleteUser v u) := by
  intro t w
  have hmem : w ∈ ((s.deleteUser v u).room t).users ↔ w ∈ (s.room t).users := Iff.rfl
  rw [hmem, h t w, registered_deleteUser hreg hu, currRoom_deleteUser]
  by_cases hw : w = v
  · subst hw
    simp [hout]
  · simp [hw]

theorem Membership.removed {s : Server} (h : Membership s) (hreg : Registry s) {v : UserPtr}
    {u : User} (hu : s.user v = .live u) (hv : s.userList.find u.userId = some v) :
    Membership (s.removed v u) := by
  have hroom := currRoom_of_live hu
  unfold Server.removed
  split
  · rename_i hout
    have hlobby : Membership (s.removeFromLobby v) := h
    exact hlobby.deleteUser (hreg.removeFromLobby v) hv (hroom.trans hout)
  · rename_i r hr
    apply (h.left (hroom.trans hr) _).deleteUser (hreg.left hu _) hv
    rw [currRoom_left, if_pos rfl]

theorem Membership.newRoom {s : Server} (h : Membership s) (hreg : Registry s) (roomName : Str) :
    Membership (s.newRoom roomName) := by
  intro t w
  have hsame : (s.newRoom roomName).Registered w ∧ (s.newRoom roomName).currRoom w = some t ↔
      s.Registered w ∧ s.currRoom w = some t := Iff.rfl
  rw [hsame, ← h t w]
  by_cases ht : t = s.nextRoom
  · subst ht
    have hempty : w ∉ (s.room s.nextRoom).users := fun hw =>
      Nat.lt_irrefl _ (hreg.member hw).1
    simp [Server.newRoom, hempty]
  · simp [Server.newRoom, Function.update_of_ne ht]

theorem currRoom_accepted {s : Server} {v : UserPtr} {u : User} (hu : s.user v = .live u)
    (session : UserPtr) (id : UInt32) (nickname : Str) (w : UserPtr) :
    (s.accepted session id v u nickname).currRoom w = s.currRoom w := by
  apply (currRoom_setUser s v w { u with nickname }).trans
  split
  · rename_i hw
    rw [hw, currRoom_of_live hu]
  · rfl

theorem Membership.accepted {s : Server} (h : Membership s) {session v : UserPtr} {id : UInt32}
    {u : User} (hu : s.user v = .live u) (nickname : Str) :
    Membership (s.accepted session id v u nickname) := by
  intro t w
  rw [currRoom_accepted hu]
  exact h t w

theorem currRoom_setUnused {s : Server} {addr : UserPtr} (haddr : s.user addr = .unused)
    (cell : Cell) (hcell : ∀ u, cell = .live u → u.currRoom = none) (w : UserPtr) :
    (s.setUser addr cell).currRoom w = s.currRoom w := by
  by_cases hw : w = addr
  · subst hw
    have hnone : s.currRoom w = none := by rw [currRoom, haddr]
    rw [hnone, currRoom, user_setUser_self]
    split
    · exact hcell _ rfl
    · rfl
  · rw [currRoom, user_setUser_of_ne s hw, currRoom]

theorem Membership.accept {s s' : Server} (h : Membership s) {addr : UserPtr} {socket : Socket}
    {outcome : ConnectOutcome} (haddr : s.user addr = .unused)
    (hs : Accepted s addr socket outcome s') : Membership s' := by
  have hnone : s.currRoom addr = none := by rw [currRoom, haddr]
  intro t w
  cases hs with
  | connected =>
    have hroom := currRoom_setUnused haddr
      (.live ⟨⟨some socket, s.userId⟩, s.userId, none, []⟩) (by rintro u ⟨⟩; rfl) w
    refine (h t w).trans ⟨?_, ?_⟩
    · rintro ⟨⟨id, hid⟩, hr⟩
      exact ⟨⟨id, StdMap.find_insert_of_some hid ..⟩, hroom.trans hr⟩
    · rintro ⟨⟨id, hid⟩, hr⟩
      have hr' : s.currRoom w = some t := hroom.symm.trans hr
      rcases StdMap.find_of_find_insert hid with hid | ⟨rfl, -⟩
      · exact ⟨⟨id, hid⟩, hr'⟩
      · rw [hnone] at hr'
        contradiction
  | failed _ closed =>
    have hroom := currRoom_setUnused haddr .freed (by rintro u ⟨⟩) w
    exact (h t w).trans (and_congr_right fun _ => by rw [← hroom]; rfl)

theorem Membership.processed {s s' : Server} (h : Membership s) (hreg : Registry s)
    {session : UserPtr} {packet : Packet}
    (hg : s.entersFromLobby (.process ⟨session, packet⟩) = true)
    (hp : s.Processed session packet s') : Membership s' := by
  cases hp with
  | serverEnter sender nickname => exact h.accepted sender.live nickname
  | serverExit sender members =>
    exact h.removed hreg sender.live (hreg.sender_id sender ▸ sender.registered)
  | lobbyRoomInfo => exact h
  | roomCreate _ roomName => exact h.newRoom hreg roomName
  | roomEnter sender room =>
    apply h.entered ⟨_, sender.registered⟩
    simpa [entersFromLobby, sender.senderOf, room, currRoom_of_live sender.live] using hg
  | roomExit sender room => exact h.left ((currRoom_of_live sender.live).trans room) _
  | unicast sender _ text => exact h
  | multicast sender room text => exact h
  | broadcast sender text =>
    rw [broadCast_eq]
    exact h
  | unhandled _ => exact h

theorem Membership.step {s s' : Server} (h : Membership s) (hreg : Registry s) {a : Action}
    (hg : s.entersFromLobby a = true) (hs : s.step a = .ok s') : Membership s' := by
  cases a with
  | accept addr socket outcome =>
    obtain ⟨haddr, hacc⟩ := accepted_of_ok hs
    exact h.accept haddr hacc
  | removeUser id =>
    rcases hreg.removedById hs with ⟨-, rfl⟩ | ⟨v, u, -, hid, hu, rfl⟩
    · exact h
    · exact h.removed hreg hu hid
  | process package => exact h.processed hreg hg (processed_of_ok hs)

theorem membership_of_reach {s : Server}
    (h : system.Reach (fun s a => s.entersFromLobby a = true) s) : Membership s :=
  h.invariant membership_init fun _ _ _ hr hm hg hs => hm.step (registry_of_reach hr) hg hs

theorem mem_roomCast {s : Server} (h : Membership s) (r : RoomPtr) :
    (s.room r).users.elems.Nodup ∧
      ∀ w, w ∈ (s.room r).users.elems ↔ s.Registered w ∧ s.currRoom w = some r :=
  ⟨StdSet.nodup _, h r⟩

theorem mem_broadCast {s : Server} (h : Membership s) (hreg : Registry s) :
    (s.roomList.values.flatMap fun r => (s.room r).users.elems).Nodup ∧
      ∀ w, w ∈ s.roomList.values.flatMap (fun r => (s.room r).users.elems) ↔
        s.Registered w ∧ ∃ r, s.currRoom w = some r := by
  constructor
  · refine List.nodup_flatMap.mpr ⟨fun r _ => StdSet.nodup _, ?_⟩
    have hnodup : s.roomList.values.Nodup := StdMap.values_nodup fun _ _ _ => hreg.roomId
    refine hnodup.imp fun {r t} hne w hr ht => hne ?_
    exact Option.some.inj (((h r w).mp hr).2.symm.trans ((h t w).mp ht).2)
  · intro w
    simp only [List.mem_flatMap]
    constructor
    · rintro ⟨r, -, hw⟩
      exact ⟨((h r w).mp hw).1, r, ((h r w).mp hw).2⟩
    · rintro ⟨hw, r, hr⟩
      exact ⟨r, StdMap.mem_values_iff.mpr (hreg.currRoom hr), (h r w).mpr ⟨hw, hr⟩⟩

/-- Rooms and users agree, and a chat goes once to each user it is meant for, as long as nobody
enters a room from another one. -/
theorem members_iff {s : Server} (h : system.Reach (fun s a => s.entersFromLobby a = true) s) :
    (∀ r v, v ∈ (s.room r).users ↔ s.Registered v ∧ s.currRoom v = some r) ∧
    (∀ v u r text, s.Registered v → s.user v = .live u → u.currRoom = some r →
      ∃ recvs : List UserPtr, recvs.Nodup ∧
        (∀ w, w ∈ recvs ↔ s.Registered w ∧ s.currRoom w = some r) ∧
        s.process ⟨v, .cMulticast text⟩ =
          .ok (s.pushPackages (casts recvs (.sMulticast u.nickname text)))) ∧
    (∀ v u text, s.Registered v → s.user v = .live u →
      ∃ recvs : List UserPtr, recvs.Nodup ∧
        (∀ w, w ∈ recvs ↔ s.Registered w ∧ ∃ r, s.currRoom w = some r) ∧
        s.process ⟨v, .cBroadcast text⟩ =
          .ok (s.pushPackages (casts recvs (.sBroadcast u.nickname text)))) := by
  have hm := membership_of_reach h
  have hreg := registry_of_reach h
  have sender : ∀ {v u}, s.Registered v → s.user v = .live u → s.senderOf v = .ok (v, u) := by
    intro v u hv hu
    obtain ⟨u', hs⟩ := hreg.sender hv
    have := hs.live
    rw [hu] at this
    cases this
    exact hs.senderOf
  refine ⟨hm, fun v u r text hv hu hr => ?_, fun v u text hv hu => ?_⟩
  · obtain ⟨hnodup, hmem⟩ := mem_roomCast hm r
    refine ⟨_, hnodup, hmem, ?_⟩
    obtain ⟨p, hp, hv'⟩ := bind_eq_ok_iff.mp (sender hv hu)
    simp [process, cMulticast, hp, hv', hr, roomCast]
  · obtain ⟨hnodup, hmem⟩ := mem_broadCast hm hreg
    refine ⟨_, hnodup, hmem, ?_⟩
    obtain ⟨p, hp, hv'⟩ := bind_eq_ok_iff.mp (sender hv hu)
    simp [process, cBroadcast, hp, hv', broadCast_eq, casts, List.map_flatMap]

theorem members_of_one_room :
    ∃ s, system.Reachable s ∧ 0 ∈ (s.room 0).users ∧ s.Registered 0 ∧ s.currRoom 0 = some 0 := by
  obtain ⟨s, hs, hp⟩ := System.exists_of_runWith (fun _ _ h => h)
    (p := fun s : Server => decide (0 ∈ (s.room 0).users))
    [.accept 0 7 .connected, .process ⟨0, .cRoomCreate [97]⟩, .process ⟨0, .cRoomEnter 1⟩]
    (by decide : (system.runWith entersFromLobby _ _).any _ = true)
  have hmem := of_decide_eq_true hp
  exact ⟨s, hs.reachable, hmem, ((members_iff hs).1 0 0).mp hmem⟩

/-- A user that enters a second room stays a member of the first one. -/
theorem not_members_iff :
    ¬ ∀ s, system.Reachable s →
      ∀ r v, v ∈ (s.room r).users ↔ s.Registered v ∧ s.currRoom v = some r := by
  intro h
  obtain ⟨s, hs, hp⟩ := System.exists_of_run
    (p := fun s : Server => decide (0 ∈ (s.room 0).users) && decide (s.currRoom 0 = some 1))
    [.accept 0 7 .connected, .process ⟨0, .cRoomCreate [97]⟩, .process ⟨0, .cRoomCreate [98]⟩,
      .process ⟨0, .cRoomEnter 1⟩, .process ⟨0, .cRoomEnter 2⟩]
    (by decide : (system.run init _).any _ = true)
  simp only [Bool.and_eq_true, decide_eq_true_eq] at hp
  have := ((h s hs 0 0).mp hp.1).2
  rw [hp.2] at this
  contradiction

end Server

end ChattingServer.V11
