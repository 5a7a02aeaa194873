import ChattingServer.V11.Server.SessionSafety

namespace ChattingServer.V11

open Lib

namespace Server

def sendRoomListToAll (s : Server) : Server :=
  s.pushPackages (casts s.userInLobby.elems s.roomListPacket)

/-- `userInLobby_` holds the registered users that are in no room, and a list for everyone in the
lobby goes to these users and to no pointer left behind. -/
structure LobbySet (s : Server) : Prop where
  mem : ∀ v, v ∈ s.userInLobby ↔ s.Registered v ∧ s.currRoom v = none
  addressed : ∃ recvs : List UserPtr, recvs.Nodup ∧
    (∀ v, v ∈ recvs ↔ s.Registered v ∧ s.currRoom v = none) ∧
    (∀ v ∈ recvs, ∃ u, s.user v = .live u) ∧
    s.sendRoomListToAll = s.pushPackages (casts recvs s.roomListPacket)

theorem lobbySet_iff_mem {s : Server} (h : Registry s) :
    LobbySet s ↔ ∀ v, v ∈ s.userInLobby ↔ s.Registered v ∧ s.currRoom v = none := by
  refine ⟨LobbySet.mem, fun hmem => ⟨hmem, _, s.userInLobby.nodup, hmem, fun v hv => ?_, rfl⟩⟩
  obtain ⟨u, hu, -⟩ := h.live ((hmem v).mp hv).1
  exact ⟨u, hu⟩

/-- No user is taken into a room, and each new one gets an id that is not in use. -/
def keepsLobbySet (s : Server) : Action → Bool
  | .process ⟨_, .cRoomEnter _⟩ => false
  | .accept _ _ .connected => s.userList.find s.userId = none
  | _ => true

def LobbyHolds (s : Server) : Prop := ∀ v, s.Registered v → v ∈ s.userInLobby

theorem lobbyHolds_init : LobbyHolds init := by
  rintro v ⟨id, hid⟩
  simp [init] at hid

theorem userInLobby_removed (s : Server) (v : UserPtr) (u : User) :
    (s.removed v u).userInLobby =
      if u.currRoom = none then s.userInLobby.erase v else s.userInLobby := by
  unfold removed
  split
  · rename_i h
    simp [h, deleteUser, removeFromLobby, setUser]
  · rename_i r h
    simp [h, deleteUser, left, setUser, setRoom, pushPackages]

theorem LobbyHolds.removed {s : Server} (h : LobbyHolds s) (hreg : Registry s) {v : UserPtr}
    {u : User} (hu : s.user v = .live u) (hv : s.userList.find u.userId = some v) :
    LobbyHolds (s.removed v u) := by
  intro w hw
  obtain ⟨hw, hne⟩ := (registered_removed hreg hu hv).mp hw
  rw [userInLobby_removed]
  split
  · exact StdSet.mem_erase.mpr ⟨h w hw, hne⟩
  · exact h w hw

theorem LobbyHolds.processed {s s' : Server} (h : LobbyHolds s) (hreg : Registry s)
    {session : UserPtr} {packet : Packet} (hp : s.Processed session packet s') :
    LobbyHolds s' := by
  cases hp with
  | serverExit sender members =>
    exact h.removed hreg sender.live (hreg.sender_id sender ▸ sender.registered)
  | roomExit sender room => exact fun w hw => StdSet.mem_insert.mpr (.inr (h w hw))
  | broadcast sender text =>
    rw [broadCast_eq]
    exact h
  | serverEnter | lobbyRoomInfo | roomCreate | roomEnter | unicast | multicast | unhandled =>
    exact h

theorem LobbyHolds.step {s s' : Server} (h : LobbyHolds s) (hreg : Registry s) {a : Action}
    (hs : s.step a = .ok s') : LobbyHolds s' := by
  cases a with
  | accept addr socket outcome =>
    obtain ⟨-, hacc⟩ := accepted_of_ok hs
    cases hacc with
    | connected =>
      rintro w ⟨id, hid⟩
      refine StdSet.mem_insert.mpr ?_
      rcases StdMap.find_of_find_insert hid with hid | ⟨rfl, -⟩
      · exact .inr (h w ⟨id, hid⟩)
      · exact .inl rfl
    | failed => exact h
  | removeUser id =>
    rcases hreg.removedById hs with ⟨-, rfl⟩ | ⟨v, u, -, hid, hu, rfl⟩
    · exact h
    · exact h.removed hreg hu hid
  | process package => exact h.processed hreg (processed_of_ok hs)

theorem lobbyHolds_of_reachable {s : Server} (h : system.Reachable s) : LobbyHolds s :=
  h.invariant lobbyHolds_init fun _ _ _ hr hl _ hs => hl.step (registry_of_reach hr) hs

theorem LobbyHolds.currRoom_eq_none {s : Server} (h : LobbyHolds s) (hset : LobbySet s)
    {v : UserPtr} (hv : s.Registered v) : s.currRoom v = none :=
  ((hset.mem v).mp (h v hv)).2

theorem LobbySet.of_same {s s' : Server} (h : LobbySet s) (hreg : Registry s')
    (hlobby : s'.userInLobby = s.userInLobby) (hlist : s'.userList = s.userList)
    (hroom : ∀ v, s'.currRoom v = s.currRoom v) : LobbySet s' := by
  refine (lobbySet_iff_mem hreg).mpr fun v => ?_
  rw [hlobby, h.mem v, hroom, Registered, Registered, hlist]

theorem LobbySet.removed {s : Server} (h : LobbySet s) (hl : LobbyHolds s) (hreg : Registry s)
    {v : UserPtr} {u : User} (hu : s.user v = .live u)
    (hv : s.userList.find u.userId = some v) : LobbySet (s.removed v u) := by
  have hout : u.currRoom = none :=
    (currRoom_of_live hu).symm.trans (hl.currRoom_eq_none h ⟨_, hv⟩)
  refine (lobbySet_iff_mem (hreg.removed hu hv)).mpr fun w => ?_
  rw [userInLobby_removed, if_pos hout, StdSet.mem_erase, h.mem w, registered_removed hreg hu hv]
  have hroom : w ≠ v → (s.removed v u).currRoom w = s.currRoom w := fun hne => by
    rw [currRoom, user_removed, if_neg hne, currRoom]
  constructor
  · rintro ⟨⟨hw, hr⟩, hne⟩
    exact ⟨⟨hw, hne⟩, (hroom hne).trans hr⟩
  · rintro ⟨⟨hw, hne⟩, hr⟩
    exact ⟨⟨hw, (hroom hne).symm.trans hr⟩, hne⟩

theorem lobbySet_accept_iff {s s' : Server} (h : LobbySet s) (hreg : Registry s) {addr : UserPtr}
    {socket : Socket} {outcome : ConnectOutcome} (haddr : s.user addr = .unused)
    (hacc : Accepted s addr socket outcome s') :
    LobbySet s' ↔ s.keepsLobbySet (.accept addr socket outcome) = true := by
  have hreg' := hreg.accept haddr hacc
  cases hacc with
  | failed hne closed =>
    refine iff_of_true (h.of_same hreg' rfl rfl ?_) ?_
    · exact currRoom_setUnused haddr .freed nofun
    · cases outcome with
      | connected => exact absurd rfl hne
      | bindFailed | recvFailed => rfl
  | connected =>
    have hnot : ¬ s.Registered addr := by
      intro hr
      obtain ⟨u, hu, -⟩ := hreg.live hr
      rw [haddr] at hu
      contradiction
    have hroom := currRoom_setUnused haddr
      (.live ⟨⟨some socket, s.userId⟩, s.userId, none, []⟩) (by rintro u ⟨⟩; rfl)
    rw [lobbySet_iff_mem hreg']
    simp only [keepsLobbySet, decide_eq_true_eq]
    cases hid : s.userList.find s.userId with
    | some w =>
      refine iff_of_false (fun hmem => hnot ?_) nofun
      obtain ⟨⟨id, hfind⟩, -⟩ := (hmem addr).mp (StdSet.mem_insert.mpr (.inl rfl))
      refine ⟨id, ?_⟩
      rwa [StdMap.insert_of_some hid] at hfind
    | none =>
      refine iff_of_true (fun w => ?_) rfl
      have hregw : (∃ id, (s.userList.insert s.userId addr).find id = some w) ↔
          w = addr ∨ s.Registered w := StdMap.exists_find_insert_iff hid
      have hlobby : w ∈ s.userInLobby.insert addr ↔
          (w = addr ∨ s.Registered w) ∧ s.currRoom w = none := by
        rw [StdSet.mem_insert, h.mem w]
        constructor
        · rintro (rfl | ⟨hw, hr⟩)
          · exact ⟨.inl rfl, by rw [currRoom, haddr]⟩
          · exact ⟨.inr hw, hr⟩
        · rintro ⟨rfl | hw, hr⟩
          · exact .inl rfl
          · exact .inr ⟨hw, hr⟩
      exact hlobby.trans (and_congr hregw.symm (Eq.congr_left (hroom w).symm))

theorem keepsLobbySet_of_ne {s : Server} {session : UserPtr} {packet : Packet}
    (h : ∀ rid, packet ≠ .cRoomEnter rid) :
    s.keepsLobbySet (.process ⟨session, packet⟩) = true := by
  cases packet with
  | cRoomEnter rid => exact absurd rfl (h rid)
  | _ => rfl

theorem lobbySet_processed_iff {s s' : Server} (h : LobbySet s) (hl : LobbyHolds s)
    (hreg : Registry s) {session : UserPtr} {packet : Packet}
    (hp : s.Processed session packet s') :
    LobbySet s' ↔ s.keepsLobbySet (.process ⟨session, packet⟩) = true := by
  have hreg' := hreg.processed hp
  cases hp with
  | @roomEnter id v u rid r sender room =>
    refine iff_of_false (fun hset => ?_) nofun
    have hv : s.Registered v := ⟨id, sender.registered⟩
    have hnone := ((hset.mem v).mp (hl v hv)).2
    rw [currRoom_entered, if_pos rfl] at hnone
    contradiction
  | @roomExit id v u r sender room =>
    have hnone := hl.currRoom_eq_none h ⟨id, sender.registered⟩
    rw [currRoom_of_live sender.live, room] at hnone
    contradiction
  | serverExit sender members =>
    exact iff_of_true
      (h.removed hl hreg sender.live (hreg.sender_id sender ▸ sender.registered)) rfl
  | serverEnter sender nickname =>
    exact iff_of_true (h.of_same hreg' rfl rfl (currRoom_accepted sender.live _ _ _)) rfl
  | broadcast sender text =>
    rw [broadCast_eq] at hreg' ⊢
    exact iff_of_true (h.of_same hreg' rfl rfl fun _ => rfl) rfl
  | unhandled hh =>
    refine iff_of_true h (keepsLobbySet_of_ne ?_)
    rintro rid rfl
    cases hh
  | lobbyRoomInfo | roomCreate | unicast | multicast =>
    exact iff_of_true (h.of_same hreg' rfl rfl fun _ => rfl) rfl

theorem lobbySet_step_iff {s s' : Server} (hr : system.Reachable s) (h : LobbySet s) {a : Action}
    (hs : s.step a = .ok s') : LobbySet s' ↔ s.keepsLobbySet a = true := by
  have hreg := registry_of_reach hr
  have hl := lobbyHolds_of_reachable hr
  cases a with
  | accept addr socket outcome =>
    obtain ⟨haddr, hacc⟩ := accepted_of_ok hs
    exact lobbySet_accept_iff h hreg haddr hacc
  | removeUser id =>
    refine iff_of_true ?_ rfl
    rcases hreg.removedById hs with ⟨-, rfl⟩ | ⟨v, u, -, hid, hu, rfl⟩
    · exact h
    · exact h.removed hl hreg hu hid
  | process package => exact lobbySet_processed_iff h hl hreg (processed_of_ok hs)

theorem lobbySet_init : LobbySet init := by
  refine (lobbySet_iff_mem registry_init).mpr fun v => ?_
  simp [init, Registered]

/-- The lobby's set is right all along a run exactly when the run takes nobody into a room. -/
theorem lobbySet_iff {t : List (Server × Action)} {s : Server} (h : system.Trace t s) :
    System.Always LobbySet t s ↔ ∀ x ∈ t, x.1.keepsLobbySet x.2 = true :=
  h.always_iff (G := fun s a => s.keepsLobbySet a = true) lobbySet_init
    fun _ _ _ hr hset hs => lobbySet_step_iff hr hset hs

theorem lobbySet_of_two :
    ∃ t s, system.Trace t s ∧ s.userInLobby.elems = [1] ∧ System.Always LobbySet t s := by
  obtain ⟨t, s, ht, hg, hp⟩ := System.exists_trace_of_runWith (S := system) (g := keepsLobbySet)
    (p := fun s => decide (s.userInLobby.elems = [1]))
    [.accept 0 7 .connected, .accept 1 8 .connected, .process ⟨1, .cServerEnter [97]⟩,
      .process ⟨1, .cRoomCreate [98]⟩, .removeUser 1] (by decide)
  exact ⟨t, s, ht, of_decide_eq_true hp, (lobbySet_iff ht).mpr hg⟩

/-- A user that leaves the server from a room stays in `userInLobby_`. -/
theorem not_lobbySet : ¬ ∀ s, system.Reachable s → LobbySet s := by
  intro h
  obtain ⟨s, hs, hp⟩ := System.exists_of_run (S := system)
    (p := fun s => decide (0 ∈ s.userInLobby) && decide (0 ∉ s.userList.values))
    [.accept 0 7 .connected, .process ⟨0, .cRoomCreate [97]⟩, .process ⟨0, .cRoomEnter 1⟩,
      .process ⟨0, .cServerExit⟩] (by decide)
  simp only [Bool.and_eq_true, decide_eq_true_eq] at hp
  exact hp.2 (StdMap.mem_values_iff.mpr (((h s hs).mem 0).mp hp.1).1)

end Server

end ChattingServer.V11
