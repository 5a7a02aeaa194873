import ChattingServer.V11.Server.Commute

namespace ChattingServer.V11

open Lib

namespace Server

theorem Processed.ok {s s' : Server} {session : UserPtr} {packet : Packet}
    (hp : s.Processed session packet s') : s.process ⟨session, packet⟩ = .ok s' := by
  have deref_of_live : ∀ {v u}, s.user v = .live u → s.deref (some v) = .ok (v, u) := fun hu =>
    deref_ok_iff.mpr ⟨rfl, hu⟩
  cases hp with
  | @serverEnter id v u sender nickname =>
    have hid := (sessionId_setUser sender.live { u with nickname } rfl session).trans sender.session
    simp only [process, cServerEnter, sessionUser_of_sender sender, deref_of_live sender.live,
      ok_bind]
    change ((s.setUser v (.live { u with nickname })).sessionId session >>= _) = _
    rw [hid]
    rfl
  | serverExit sender members =>
    simp only [process, cServerExit, sessionUser_of_sender sender, ok_bind]
    exact removeUser_ok_iff.mpr ⟨_, _, rfl, sender.live, members, rfl⟩
  | lobbyRoomInfo => rfl
  | roomCreate hid roomName =>
    simp only [process, cRoomCreate, hid, ok_bind]
    rfl
  | roomEnter sender room =>
    simp only [process, cRoomEnter, sessionUser_of_sender sender, ok_bind, room]
    exact enterRoom_ok_iff.mpr ⟨_, _, rfl, sender.live, rfl⟩
  | @roomExit id v u r sender room =>
    have hexit : s.exitRoom r v false = .ok (s.left r v u (s.room r).users.elems) :=
      exitRoom_ok_iff.mpr ⟨u, sender.live, by rintro ⟨⟩, rfl⟩
    simp only [process, cRoomExit, sessionUser_of_sender sender, deref_of_live sender.live, ok_bind,
      room, hexit]
    rfl
  | @unicast id v u sender recver found found_eq text =>
    simp only [process, cUnicast, sessionUser_of_sender sender, deref_of_live sender.live, ok_bind,
      found_eq]
    cases found <;> rfl
  | multicast sender room text =>
    simp only [process, cMulticast, sessionUser_of_sender sender, deref_of_live sender.live,
      ok_bind, room]
    rfl
  | broadcast sender text =>
    simp only [process, cBroadcast, sessionUser_of_sender sender, deref_of_live sender.live,
      ok_bind]
    rfl
  | unhandled h => cases packet <;> first | rfl | contradiction

/-! No handler reads the send queue. -/

theorem Sender.queued {s : Server} {session v : UserPtr} {id : UInt32} {u : User}
    (h : s.Sender session id v u) (packages : List SendPackage) :
    Sender { s with packages } session id v u :=
  ⟨h.session, h.registered, h.live⟩

theorem findByNickname_queued (s : Server) (packages : List SendPackage) (name : Str)
    (users : List UserPtr) :
    Server.findByNickname { s with packages } name users = s.findByNickname name users := by
  induction users with
  | nil => rfl
  | cons v users ih =>
    simp only [findByNickname, ih]
    rfl

theorem removed_queued (s : Server) (v : UserPtr) (u : User) :
    ∃ ps, (s.removed v u).packages = s.packages ++ ps ∧ ∀ packages,
      Server.removed { s with packages } v u =
        { s.removed v u with packages := packages ++ ps } := by
  unfold removed
  cases u.currRoom with
  | none =>
    refine ⟨[], (List.append_nil _).symm, fun q => ?_⟩
    simp [removeFromLobby, deleteUser, setUser]
  | some r => exact ⟨_, rfl, fun q => rfl⟩

theorem Processed.queued {s s' : Server} {session : UserPtr} {packet : Packet}
    (hp : s.Processed session packet s') :
    ∃ ps, s'.packages = s.packages ++ ps ∧ ∀ packages,
      Processed { s with packages } session packet { s' with packages := packages ++ ps } := by
  cases hp with
  | serverEnter sender nickname =>
    refine ⟨_, List.append_assoc .., fun q => ?_⟩
    rw [← List.append_assoc]
    exact .serverEnter (sender.queued q) nickname
  | serverExit sender members =>
    obtain ⟨ps, hps, hremoved⟩ := s.removed_queued _ _
    refine ⟨ps, hps, fun q => ?_⟩
    rw [← hremoved]
    exact .serverExit (sender.queued q) members
  | lobbyRoomInfo => exact ⟨_, rfl, fun q => .lobbyRoomInfo⟩
  | @roomCreate id hid roomName =>
    have hid' : ∀ q, Server.sessionId { s with packages := q } session = .ok id := fun _ => hid
    exact ⟨_, rfl, fun q => .roomCreate (hid' q) roomName⟩
  | roomEnter sender room => exact ⟨_, rfl, fun q => .roomEnter (sender.queued q) room⟩
  | roomExit sender room => exact ⟨_, rfl, fun q => .roomExit (sender.queued q) room⟩
  | unicast sender found_eq text =>
    exact ⟨_, rfl, fun q =>
      .unicast (sender.queued q) ((s.findByNickname_queued q ..).trans found_eq) text⟩
  | multicast sender room text => exact ⟨_, rfl, fun q => .multicast (sender.queued q) room text⟩
  | @broadcast id v u sender text =>
    rw [broadCast_eq]
    refine ⟨_, rfl, fun q => ?_⟩
    have h := Processed.broadcast (sender.queued q) text
    rw [broadCast_eq] at h
    exact h
  | unhandled h => exact ⟨[], (List.append_nil _).symm, fun q => by
      rw [List.append_nil]
      exact .unhandled h⟩

theorem step_queued {s s' : Server} {a : Action} (h : s.step a = .ok s') :
    ∃ ps, s'.packages = s.packages ++ ps ∧ ∀ packages,
      step { s with packages } a = .ok { s' with packages := packages ++ ps } := by
  cases a with
  | accept addr socket outcome =>
    refine ⟨[], (accepted_of_ok h).2.packages.trans (List.append_nil _).symm, fun q => ?_⟩
    have haddr := (accepted_of_ok h).1
    rw [List.append_nil]
    simp only [step, accept, createUser, newUser, haddr, ok_bind] at h ⊢
    cases outcome with
    | connected | bindFailed | recvFailed =>
      rw [← Except.ok.inj h]
      rfl
  | removeUser id =>
    rcases removedById_of_ok h with ⟨hnone, rfl⟩ | ⟨v, u, hid, hu, members, rfl⟩
    · refine ⟨[], (List.append_nil _).symm, fun q => ?_⟩
      simp [step, removeUserById, hnone]
    · obtain ⟨ps, hps, hremoved⟩ := s.removed_queued v u
      refine ⟨ps, hps, fun q => ?_⟩
      simp only [step, removeUserById, hid]
      exact removeUser_ok_iff.mpr ⟨v, u, rfl, hu, members, (hremoved q).symm⟩
  | process package =>
    obtain ⟨ps, hps, hqueued⟩ := (processed_of_ok h).queued
    exact ⟨ps, hps, fun q => (hqueued q).ok⟩

end Server

end ChattingServer.V11
