import ChattingServer.V11.Server.Logic

namespace ChattingServer.V11

open Lib

namespace Server

def Registered (s : Server) (v : UserPtr) : Prop := ∃ id, s.userList.find id = some v

def currRoom (s : Server) (v : UserPtr) : Option RoomPtr :=
  match s.user v with
  | .live u => u.currRoom
  | _ => none

theorem currRoom_of_live {s : Server} {v : UserPtr} {u : User} (h : s.user v = .live u) :
    s.currRoom v = u.currRoom := by
  simp [currRoom, h]

theorem live_of_currRoom {s : Server} {v : UserPtr} {r : RoomPtr} (h : s.currRoom v = some r) :
    ∃ u, s.user v = .live u ∧ u.currRoom = some r := by
  unfold currRoom at h
  split at h
  · exact ⟨_, ‹_›, h⟩
  · contradiction

structure Registry (s : Server) : Prop where
  user : ∀ {id v}, s.userList.find id = some v →
    ∃ u, s.user v = .live u ∧ u.userId = id ∧ u.session.userId = id
  roomId : ∀ {i j r}, s.roomList.find i = some r → s.roomList.find j = some r → i = j
  room : ∀ {i r}, s.roomList.find i = some r → r < s.nextRoom
  currRoom : ∀ {v r}, s.currRoom v = some r → ∃ i, s.roomList.find i = some r
  member : ∀ {r v}, v ∈ (s.room r).users → r < s.nextRoom ∧ s.user v ≠ .unused

theorem registry_init : Registry init where
  user h := by simp [init] at h
  roomId h := by simp [init] at h
  room h := by simp [init] at h
  currRoom h := by simp [Server.currRoom, init] at h
  member h := by simp [init] at h

theorem Registry.queue {s : Server} (h : Registry s) (packages : List SendPackage)
    (closed : List Socket) : Registry { s with packages, closed } :=
  ⟨h.user, h.roomId, h.room, h.currRoom, h.member⟩

theorem Registry.pushPackages {s : Server} (h : Registry s) (ps : List SendPackage) :
    Registry (s.pushPackages ps) :=
  h.queue _ _

theorem Registry.live {s : Server} (h : Registry s) {v : UserPtr} (hv : s.Registered v) :
    ∃ u, s.user v = .live u ∧ s.userList.find u.userId = some v ∧
      s.userList.find u.session.userId = some v := by
  obtain ⟨id, hid⟩ := hv
  obtain ⟨u, hu, rfl, hs⟩ := h.user hid
  exact ⟨u, hu, hid, hs ▸ hid⟩

theorem Registry.sender {s : Server} (h : Registry s) {v : UserPtr} (hv : s.Registered v) :
    ∃ u, s.Sender v u.userId v u := by
  obtain ⟨id, hid⟩ := hv
  obtain ⟨u, hu, rfl, hs⟩ := h.user hid
  exact ⟨u, sessionId_ok_iff.mpr ⟨u, hu, hs⟩, hid, hu⟩

theorem Registry.sender_eq {s : Server} (h : Registry s) {session v : UserPtr} {u : User}
    {id : UInt32} (hs : s.Sender session id v u) (hv : s.Registered session) : v = session := by
  obtain ⟨u', hs'⟩ := h.sender hv
  have hid : id = u'.userId := Except.ok.inj (hs.session.symm.trans hs'.session)
  exact Option.some.inj (hs.registered.symm.trans (hid ▸ hs'.registered))

theorem Registry.sender_id {s : Server} (h : Registry s) {session v : UserPtr} {u : User}
    {id : UInt32} (hs : s.Sender session id v u) : u.userId = id := by
  obtain ⟨u', hu', hid, -⟩ := h.user hs.registered
  rw [hs.live] at hu'
  cases hu'
  exact hid

theorem Registry.setUser {s : Server} (h : Registry s) {v : UserPtr} {u : User}
    (hu : s.user v = .live u) (u' : User) (hid : u'.userId = u.userId)
    (hs : u'.session = u.session)
    (hroom : ∀ r, u'.currRoom = some r → ∃ i, s.roomList.find i = some r) :
    Registry (s.setUser v (.live u')) where
  user {id w} hw := by
    obtain ⟨x, hx, hxid, hxs⟩ := h.user hw
    by_cases hwv : w = v
    · subst hwv
      rw [hu] at hx
      cases hx
      exact ⟨u', user_setUser_self .., hid.trans hxid, by rw [hs, hxs]⟩
    · exact ⟨x, (user_setUser_of_ne s hwv _).trans hx, hxid, hxs⟩
  roomId := h.roomId
  room := h.room
  currRoom {w r} hw := by
    by_cases hwv : w = v
    · subst hwv
      rw [currRoom_of_live (user_setUser_self ..)] at hw
      exact hroom r hw
    · apply h.currRoom (v := w)
      rwa [Server.currRoom, user_setUser_of_ne s hwv] at hw
  member {r w} hw := by
    refine ⟨(h.member hw).1, ?_⟩
    by_cases hwv : w = v
    · subst hwv
      simp
    · rw [user_setUser_of_ne s hwv]
      exact (h.member hw).2

theorem Registry.setRoom {s : Server} (h : Registry s) {r : RoomPtr} {x : Room}
    (hx : ∀ v ∈ x.users, r < s.nextRoom ∧ s.user v ≠ .unused) : Registry (s.setRoom r x) where
  user := h.user
  roomId := h.roomId
  room := h.room
  currRoom := h.currRoom
  member {r' v} hv := by
    by_cases hr : r' = r
    · subst hr
      exact hx v (by simpa using hv)
    · exact h.member (by simpa [room_setRoom_of_ne s hr] using hv)

theorem Registry.entered {s : Server} (h : Registry s) {r : RoomPtr} {v : UserPtr} {u : User}
    {rid : UInt16} (hu : s.user v = .live u) (hr : s.roomList.find rid = some r) :
    Registry (s.entered r v u) := by
  have huser : Registry (s.setUser v (.live { u with currRoom := some r })) :=
    h.setUser hu _ rfl rfl fun _ h => ⟨rid, by rw [hr, ← Option.some.inj h]⟩
  refine (huser.setRoom fun w hw => ?_).pushPackages _
  refine ⟨h.room hr, ?_⟩
  rcases StdSet.mem_insert.mp hw with rfl | hw
  · simp
  · exact (huser.member hw).2

theorem Registry.left {s : Server} (h : Registry s) {r : RoomPtr} {v : UserPtr} {u : User}
    (hu : s.user v = .live u) (recvers : List UserPtr) : Registry (s.left r v u recvers) := by
  have huser := (h.pushPackages (casts recvers (.sRoomExit u.userId))).setUser hu
    { u with currRoom := none } rfl rfl nofun
  exact huser.setRoom fun w hw => huser.member (StdSet.mem_erase.mp hw).1

theorem Registry.pushIntoLobby {s : Server} (h : Registry s) (v : UserPtr) :
    Registry (s.pushIntoLobby v) :=
  ⟨h.user, h.roomId, h.room, h.currRoom, h.member⟩

theorem Registry.removeFromLobby {s : Server} (h : Registry s) (v : UserPtr) :
    Registry (s.removeFromLobby v) :=
  ⟨h.user, h.roomId, h.room, h.currRoom, h.member⟩

theorem currRoom_freed_le {s : Server} {v w : UserPtr} {r : RoomPtr}
    (h : (s.setUser v .freed).currRoom w = some r) : s.currRoom w = some r := by
  by_cases hwv : w = v
  · subst hwv
    simp [Server.currRoom] at h
  · rwa [Server.currRoom, user_setUser_of_ne s hwv] at h

theorem Registry.deleteUser {s : Server} (h : Registry s) {v : UserPtr} {u : User}
    (hreg : s.userList.find u.userId = some v) : Registry (s.deleteUser v u) where
  user {id w} hw := by
    simp only [Server.deleteUser, StdMap.find_erase] at hw
    split at hw
    · contradiction
    · rename_i hid
      obtain ⟨x, hx, hxid, hxs⟩ := h.user hw
      refine ⟨x, ?_, hxid, hxs⟩
      have hwv : w ≠ v := by
        rintro rfl
        obtain ⟨y, hy, hyid, -⟩ := h.user hreg
        rw [hx] at hy
        cases hy
        exact hid (hyid.symm.trans hxid)
      exact (user_setUser_of_ne s hwv _).trans hx
  roomId := h.roomId
  room := h.room
  currRoom hw := h.currRoom (currRoom_freed_le hw)
  member {r w} hw := by
    refine ⟨(h.member hw).1, ?_⟩
    by_cases hwv : w = v
    · subst hwv
      exact (user_setUser_self s w _).trans_ne nofun
    · exact (user_setUser_of_ne s hwv _).trans_ne (h.member hw).2

theorem Registry.removed {s : Server} (h : Registry s) {v : UserPtr} {u : User}
    (hu : s.user v = .live u) (hreg : s.userList.find u.userId = some v) :
    Registry (s.removed v u) := by
  unfold Server.removed
  split
  · exact (h.removeFromLobby v).deleteUser hreg
  · exact (h.left hu _).deleteUser hreg

theorem Registry.newRoom {s : Server} (h : Registry s) (roomName : Str) :
    Registry (s.newRoom roomName) where
  user := h.user
  roomId {i j r} hi hj := by
    rcases StdMap.find_of_find_insert hi with hi | ⟨rfl, rfl, -⟩
    · rcases StdMap.find_of_find_insert hj with hj | ⟨rfl, -⟩
      · exact h.roomId hi hj
      · exact absurd (h.room hi) (Nat.lt_irrefl _)
    · rcases StdMap.find_of_find_insert hj with hj | ⟨-, rfl, -⟩
      · exact absurd (h.room hj) (Nat.lt_irrefl _)
      · rfl
  room {i r} hi := by
    rcases StdMap.find_of_find_insert hi with hi | ⟨rfl, -⟩
    · exact Nat.lt_succ_of_lt (h.room hi)
    · exact Nat.lt_succ_self _
  currRoom hw := by
    obtain ⟨i, hi⟩ := h.currRoom hw
    exact ⟨i, StdMap.find_insert_of_some hi ..⟩
  member {r w} hw := by
    by_cases hr : r = s.nextRoom
    · subst hr
      simp [Server.newRoom] at hw
    · have hw' : w ∈ (s.room r).users := by
        simpa [Server.newRoom, Function.update_of_ne hr] using hw
      exact ⟨Nat.lt_succ_of_lt (h.member hw').1, (h.member hw').2⟩

theorem Registry.createRoom {s : Server} (h : Registry s) (uid : UInt32) (roomName : Str) :
    Registry (s.createRoom uid roomName) :=
  (h.newRoom roomName).pushPackages _

theorem Registry.accepted {s : Server} (h : Registry s) {session v : UserPtr} {id : UInt32}
    {u : User} (hs : s.Sender session id v u) (nickname : Str) :
    Registry (s.accepted session id v u nickname) :=
  ((h.setUser hs.live { u with nickname } rfl rfl fun _ hr => h.currRoom
    ((currRoom_of_live hs.live).trans hr)).pushPackages _).pushPackages _

theorem Registry.processed {s s' : Server} (h : Registry s) {session : UserPtr} {packet : Packet}
    (hp : s.Processed session packet s') : Registry s' := by
  cases hp with
  | serverEnter sender nickname => exact h.accepted sender nickname
  | serverExit sender members =>
    exact h.removed sender.live (h.sender_id sender ▸ sender.registered)
  | lobbyRoomInfo => exact h.pushPackages _
  | roomCreate _ roomName => exact h.createRoom _ roomName
  | roomEnter sender room => exact h.entered sender.live room
  | roomExit sender room => exact (h.left sender.live _).pushIntoLobby _
  | unicast sender _ text => exact h.pushPackages _
  | multicast sender room text => exact h.pushPackages _
  | broadcast sender text =>
    rw [broadCast_eq]
    exact h.pushPackages _
  | unhandled _ => exact h

inductive Accepted (s : Server) (addr : UserPtr) (socket : Socket) :
    ConnectOutcome → Server → Prop
  | connected : Accepted s addr socket .connected
      (Server.pushIntoLobby
        { s.setUser addr (.live ⟨⟨some socket, s.userId⟩, s.userId, none, []⟩) with
          userList := s.userList.insert s.userId addr
          userId := s.userId + 1 } addr)
  | failed {outcome : ConnectOutcome} (h : outcome ≠ .connected) (closed : List Socket) :
    Accepted s addr socket outcome
      { s.setUser addr .freed with closed, deleted := s.deleted ++ [addr] }

theorem Accepted.packages {s s' : Server} {addr : UserPtr} {socket : Socket}
    {outcome : ConnectOutcome} (h : Accepted s addr socket outcome s') :
    s'.packages = s.packages := by
  cases h with
  | connected => rfl
  | failed _ _ => rfl

theorem Accepted.user_of_ne {s s' : Server} {addr : UserPtr} {socket : Socket}
    {outcome : ConnectOutcome} (h : Accepted s addr socket outcome s') {w : UserPtr}
    (hw : w ≠ addr) : s'.user w = s.user w := by
  cases h with
  | connected => exact user_setUser_of_ne s hw _
  | failed _ _ => exact user_setUser_of_ne s hw _

theorem Accepted.user_ne_unused {s s' : Server} {addr : UserPtr} {socket : Socket}
    {outcome : ConnectOutcome} (h : Accepted s addr socket outcome s') :
    s'.user addr ≠ .unused := by
  cases h with
  | connected => simp [pushIntoLobby]
  | failed _ _ => simp

theorem accepted_of_createUser {s s' : Server} {addr : UserPtr} {socket : Socket}
    {outcome : ConnectOutcome} {created : Bool}
    (h : s.createUser addr socket outcome = .ok (created, s')) :
    s.user addr = .unused ∧ created = decide (outcome = .connected) ∧
      Accepted s addr socket outcome s' := by
  cases haddr : s.user addr with
  | unused =>
    refine ⟨rfl, ?_⟩
    simp only [createUser, newUser, haddr, ok_bind] at h
    cases outcome with
    | connected =>
      cases h
      exact ⟨rfl, .connected⟩
    | bindFailed | recvFailed =>
      obtain ⟨rfl, hs⟩ := Prod.ext_iff.mp (Except.ok.inj h)
      simp only [setUser, Function.update_idem] at hs
      rw [← hs]
      exact ⟨rfl, .failed (by decide) _⟩
  | live _ | freed => simp [createUser, newUser, haddr, bind, Except.bind] at h

theorem accepted_of_ok {s s' : Server} {addr : UserPtr} {socket : Socket}
    {outcome : ConnectOutcome} (h : s.accept addr socket outcome = .ok s') :
    s.user addr = .unused ∧ Accepted s addr socket outcome s' := by
  simp only [accept, bind_eq_ok_iff, Prod.exists] at h
  obtain ⟨created, t, ht, h⟩ := h
  obtain ⟨haddr, rfl, hacc⟩ := accepted_of_createUser ht
  refine ⟨haddr, ?_⟩
  cases hacc with
  | connected =>
    cases h
    exact .connected
  | failed hne closed =>
    rw [if_neg (by simpa using hne)] at h
    cases h
    exact .failed hne _

theorem Registry.setUnused {s : Server} (h : Registry s) {addr : UserPtr}
    (haddr : s.user addr = .unused) (cell : Cell)
    (hroom : ∀ u, cell = .live u → u.currRoom = none) : Registry (s.setUser addr cell) where
  user {id w} hw := by
    obtain ⟨x, hx, hid⟩ := h.user hw
    have hne : w ≠ addr := by
      rintro rfl
      rw [haddr] at hx
      contradiction
    exact ⟨x, (user_setUser_of_ne s hne _).trans hx, hid⟩
  roomId := h.roomId
  room := h.room
  currRoom {w r} hw := by
    by_cases hne : w = addr
    · subst hne
      obtain ⟨u, hu, hr⟩ := live_of_currRoom hw
      rw [user_setUser_self] at hu
      rw [hroom u hu] at hr
      contradiction
    · rw [Server.currRoom, user_setUser_of_ne s hne] at hw
      exact h.currRoom hw
  member {r w} hw := by
    refine ⟨(h.member hw).1, ?_⟩
    have hne : w ≠ addr := by
      rintro rfl
      exact (h.member hw).2 haddr
    rw [user_setUser_of_ne s hne]
    exact (h.member hw).2

theorem Registry.accept {s s' : Server} (h : Registry s) {addr : UserPtr} {socket : Socket}
    {outcome : ConnectOutcome} (haddr : s.user addr = .unused)
    (hs : Accepted s addr socket outcome s') : Registry s' := by
  cases hs with
  | connected =>
    have hnew := h.setUnused haddr (.live ⟨⟨some socket, s.userId⟩, s.userId, none, []⟩)
      (by rintro u ⟨⟩; rfl)
    refine ⟨fun {id w} hw => ?_, hnew.roomId, hnew.room, hnew.currRoom, hnew.member⟩
    rcases StdMap.find_of_find_insert hw with hw | ⟨rfl, rfl, -⟩
    · exact hnew.user hw
    · exact ⟨_, user_setUser_self .., rfl, rfl⟩
  | failed _ closed =>
    have hnew := h.setUnused haddr .freed nofun
    exact ⟨hnew.user, hnew.roomId, hnew.room, hnew.currRoom, hnew.member⟩

theorem removedById_of_ok {s s' : Server} {id : UInt32} (h : s.removeUserById id = .ok s') :
    s.userList.find id = none ∧ s' = s ∨
      ∃ v u, s.userList.find id = some v ∧ s.user v = .live u ∧
        (∀ r, u.currRoom = some r → ∀ w ∈ (s.room r).users.elems, ∃ u, s.user w = .live u) ∧
        s' = s.removed v u := by
  unfold removeUserById at h
  split at h
  · rename_i hid
    exact .inl ⟨hid, (Except.ok.inj h).symm⟩
  · rename_i v hid
    obtain ⟨_, u, ⟨⟩, hu, hlive, rfl⟩ := removeUser_ok_iff.mp h
    exact .inr ⟨v, u, hid, hu, hlive, rfl⟩

theorem Registry.removedById {s s' : Server} (h : Registry s) {id : UInt32}
    (hs : s.removeUserById id = .ok s') :
    s.userList.find id = none ∧ s' = s ∨
      ∃ v u, id = u.userId ∧ s.userList.find u.userId = some v ∧ s.user v = .live u ∧
        s' = s.removed v u := by
  rcases removedById_of_ok hs with hnone | ⟨v, u, hid, hu, -, hremoved⟩
  · exact .inl hnone
  · obtain ⟨u', hu', rfl, -⟩ := h.user hid
    obtain rfl := Cell.live.inj (hu.symm.trans hu')
    exact .inr ⟨v, u, rfl, hid, hu, hremoved⟩

theorem userId_removed (s : Server) (v : UserPtr) (u : User) :
    (s.removed v u).userId = s.userId := by
  unfold removed
  split <;> rfl

theorem user_removed (s : Server) (v w : UserPtr) (u : User) :
    (s.removed v u).user w = if w = v then .freed else s.user w := by
  by_cases hw : w = v
  · subst hw
    unfold removed
    split <;> simp [deleteUser]
  · unfold removed
    split <;> simp [deleteUser, left, setUser, setRoom, pushPackages, removeFromLobby, hw]

theorem Processed.user_eq {s s' : Server} {session : UserPtr} {packet : Packet}
    (hp : s.Processed session packet s') (w : UserPtr) :
    s'.user w = s.user w ∨ (∃ u, s.user w = .live u) ∧ s'.user w ≠ .unused := by
  have hset : ∀ {v u u'}, s.user v = .live u → (s.setUser v (.live u')).user w = s.user w ∨
      (∃ u, s.user w = .live u) ∧ (s.setUser v (.live u')).user w ≠ .unused := by
    intro v u u' hu
    by_cases hw : w = v
    · subst hw
      exact .inr ⟨⟨u, hu⟩, (user_setUser_self s w _).trans_ne nofun⟩
    · exact .inl (user_setUser_of_ne s hw _)
  cases hp with
  | serverEnter sender | roomEnter sender | roomExit sender => exact hset sender.live
  | @serverExit id v u sender members =>
    rw [user_removed]
    split
    · rename_i hw
      exact .inr ⟨⟨u, hw ▸ sender.live⟩, nofun⟩
    · exact .inl rfl
  | broadcast =>
    rw [broadCast_eq]
    exact .inl rfl
  | lobbyRoomInfo | roomCreate | unicast | multicast | unhandled => exact .inl rfl

theorem Processed.unused {s s' : Server} {session : UserPtr} {packet : Packet}
    (hp : s.Processed session packet s') {w : UserPtr} (hw : s'.user w = .unused) :
    s.user w = .unused := by
  rcases hp.user_eq w with heq | ⟨-, hne⟩
  · exact heq.symm.trans hw
  · exact absurd hw hne

theorem freed_of_step {s s' : Server} {a : Action} (hs : s.step a = .ok s') {w : UserPtr}
    (hw : s.user w = .freed) : s'.user w = .freed := by
  cases a with
  | accept addr socket outcome =>
    obtain ⟨haddr, hacc⟩ := accepted_of_ok hs
    have hne : w ≠ addr := by
      rintro rfl
      rw [hw] at haddr
      contradiction
    exact (hacc.user_of_ne hne).trans hw
  | removeUser id =>
    rcases removedById_of_ok hs with ⟨-, rfl⟩ | ⟨v, u, -, -, -, rfl⟩
    · exact hw
    · rw [user_removed, hw, ite_self]
  | process package =>
    rcases (processed_of_ok hs).user_eq w with heq | ⟨⟨u, hu⟩, -⟩
    · exact heq.trans hw
    · rw [hw] at hu
      contradiction

theorem Registry.step {s s' : Server} (h : Registry s) {a : Action}
    (hs : s.step a = .ok s') : Registry s' := by
  cases a with
  | accept addr socket outcome =>
    obtain ⟨haddr, hacc⟩ := accepted_of_ok hs
    exact h.accept haddr hacc
  | removeUser id =>
    rcases h.removedById hs with ⟨-, rfl⟩ | ⟨v, u, -, hid, hu, rfl⟩
    · exact h
    · exact h.removed hu hid
  | process package => exact h.processed (processed_of_ok hs)

theorem registry_of_reach {G : Server → Action → Prop} {s : Server} (h : system.Reach G s) :
    Registry s :=
  h.invariant registry_init fun _ _ _ _ hr _ hs => hr.step hs

end Server

end ChattingServer.V11
