import ChattingServer.Lib.Transition
import ChattingServer.V11.Server.State

namespace ChattingServer.V11

open Lib

namespace Server

def sessionUser (s : Server) (session : UserPtr) : Except Fault (Option UserPtr) := do
  let id ← s.sessionId session
  return s.getUser id

def cServerEnter (s : Server) (session : UserPtr) (nickname : Str) : Except Fault Server := do
  let (v, u) ← s.deref (← s.sessionUser session)
  let s := s.setUser v (.live { u with nickname })
  let s := s.pushPackages [⟨some session, .sServerEnterOk (← s.sessionId session)⟩]
  return s.sendRoomListToOne (some session)

def cServerExit (s : Server) (session : UserPtr) : Except Fault Server := do
  s.removeUser (← s.sessionUser session)

def cLobbyRoomInfo (s : Server) (session : UserPtr) : Except Fault Server :=
  return s.sendRoomListToOne (some session)

def cRoomCreate (s : Server) (session : UserPtr) (roomName : Str) : Except Fault Server := do
  return s.createRoom (← s.sessionId session) roomName

def cRoomEnter (s : Server) (session : UserPtr) (rid : UInt16) : Except Fault Server := do
  let user ← s.sessionUser session
  match s.getRoom rid with
  | none => throw .nullRoom
  | some r => s.enterRoom r user

def cRoomExit (s : Server) (session : UserPtr) : Except Fault Server := do
  let (v, u) ← s.deref (← s.sessionUser session)
  match u.currRoom with
  | none => throw .nullRoom
  | some r => return (← s.exitRoom r v false).pushIntoLobby v

def cUnicast (s : Server) (session : UserPtr) (recver text : Str) : Except Fault Server := do
  let sender ← s.sessionUser session
  let found ← s.findByNickname recver s.userList.values
  let (v, u) ← s.deref sender
  match found with
  | none => return s.pushPackages [⟨some v, .sUnicastNo⟩]
  | some w =>
    let packet := .sUnicastOk u.nickname text
    return s.pushPackages [⟨some v, packet⟩, ⟨some w, packet⟩]

def cMulticast (s : Server) (session : UserPtr) (text : Str) : Except Fault Server := do
  let (_, u) ← s.deref (← s.sessionUser session)
  match u.currRoom with
  | none => throw .nullRoom
  | some r => return s.roomCast r (.sMulticast u.nickname text)

def cBroadcast (s : Server) (session : UserPtr) (text : Str) : Except Fault Server := do
  let (_, u) ← s.deref (← s.sessionUser session)
  return s.broadCast (.sBroadcast u.nickname text)

def process (s : Server) (package : RecvPackage) : Except Fault Server :=
  match package.packet with
  | .cServerEnter nickname => s.cServerEnter package.session nickname
  | .cServerExit => s.cServerExit package.session
  | .cLobbyRoomInfo => s.cLobbyRoomInfo package.session
  | .cRoomCreate roomName => s.cRoomCreate package.session roomName
  | .cRoomEnter rid => s.cRoomEnter package.session rid
  | .cRoomExit => s.cRoomExit package.session
  | .cUnicast recver text => s.cUnicast package.session recver text
  | .cMulticast text => s.cMulticast package.session text
  | .cBroadcast text => s.cBroadcast package.session text
  | _ => return s

inductive Action
  | accept (addr : UserPtr) (socket : Socket) (outcome : ConnectOutcome)
  | removeUser (id : UInt32)
  | process (package : RecvPackage)

def step (s : Server) : Action → Except Fault Server
  | .accept addr socket outcome => s.accept addr socket outcome
  | .removeUser id => s.removeUserById id
  | .process package => s.process package

def system : System Server Action Fault where
  init := init
  step := step

/-! What each operation does when it returns. -/

theorem deref_ok_iff {s : Server} {p : Option UserPtr} {v : UserPtr} {u : User} :
    s.deref p = .ok (v, u) ↔ p = some v ∧ s.user v = .live u := by
  cases p with
  | none => simp [deref]
  | some w =>
    cases hw : s.user w with
    | live u' =>
      simp only [deref, hw, Except.ok.injEq, Prod.mk.injEq, Option.some.injEq]
      constructor
      · rintro ⟨rfl, rfl⟩
        exact ⟨rfl, hw⟩
      · rintro ⟨rfl, hv⟩
        rw [hw] at hv
        cases hv
        exact ⟨rfl, rfl⟩
    | _ =>
      simp only [deref, hw, reduceCtorEq, Option.some.injEq, false_iff, not_and]
      rintro rfl
      simp [hw]

def entered (s : Server) (r : RoomPtr) (v : UserPtr) (u : User) : Server :=
  let s := s.setUser v (.live { u with currRoom := some r })
  let s := s.setRoom r { s.room r with users := (s.room r).users.insert v }
  s.pushPackages (casts (s.room r).users.elems (.sRoomEnter u.userId u.nickname) ++
    [⟨some v, .sRoomName (s.room r).roomName⟩])

theorem enterRoom_ok_iff {s s' : Server} {r : RoomPtr} {user : Option UserPtr} :
    s.enterRoom r user = .ok s' ↔
      ∃ v u, user = some v ∧ s.user v = .live u ∧ s' = s.entered r v u := by
  simp only [enterRoom, bind_eq_ok_iff, Prod.exists, deref_ok_iff, pure_eq_ok, Except.ok.injEq]
  simp only [entered, roomCast, pushPackages, setRoom, setUser, List.append_assoc, and_assoc,
    eq_comm (a := s')]

def left (s : Server) (r : RoomPtr) (v : UserPtr) (u : User) (recvers : List UserPtr) : Server :=
  ((s.pushPackages (casts recvers (.sRoomExit u.userId))).setUser v
    (.live { u with currRoom := none })).setRoom r
      { s.room r with users := (s.room r).users.erase v }

def hasId (s : Server) (uid : UInt32) (v : UserPtr) : Bool :=
  match s.user v with
  | .live u => u.userId = uid
  | _ => false

theorem exitRecvers_ok_iff {s : Server} {uid : UInt32} {users recvers : List UserPtr} :
    s.exitRecvers uid users = .ok recvers ↔
      (∀ v ∈ users, ∃ u, s.user v = .live u) ∧
        recvers = users.filter (!s.hasId uid ·) := by
  induction users generalizing recvers with
  | nil => simp [exitRecvers, eq_comm]
  | cons v users ih =>
    simp only [exitRecvers, bind_eq_ok_iff, Prod.exists, deref_ok_iff, ih, pure_eq_ok,
      Except.ok.injEq, List.forall_mem_cons]
    constructor
    · rintro ⟨_, u, ⟨⟨⟩, hu⟩, recvers, ⟨hlive, rfl⟩, rfl⟩
      refine ⟨⟨⟨u, hu⟩, hlive⟩, ?_⟩
      by_cases hid : u.userId = uid <;> simp [hasId, hu, hid]
    · rintro ⟨⟨⟨u, hu⟩, hlive⟩, rfl⟩
      refine ⟨v, u, ⟨rfl, hu⟩, _, ⟨hlive, rfl⟩, ?_⟩
      by_cases hid : u.userId = uid <;> simp [hasId, hu, hid]

def exitCasts (s : Server) (uid : UInt32) (users : List UserPtr) : Bool → List UserPtr
  | true => users.filter (!s.hasId uid ·)
  | false => users

theorem castRecvers_ok_iff {s : Server} {uid : UInt32} {users recvers : List UserPtr}
    {excl : Bool} :
    s.castRecvers uid users excl = .ok recvers ↔
      (excl = true → ∀ w ∈ users, ∃ u, s.user w = .live u) ∧
        recvers = s.exitCasts uid users excl := by
  cases excl with
  | true => simp [castRecvers, exitCasts, exitRecvers_ok_iff]
  | false => simp [castRecvers, exitCasts, eq_comm]

theorem exitRoom_ok_iff {s s' : Server} {r : RoomPtr} {v : UserPtr} {excl : Bool} :
    s.exitRoom r v excl = .ok s' ↔
      ∃ u, s.user v = .live u ∧
        (excl = true → ∀ w ∈ (s.room r).users.elems, ∃ u, s.user w = .live u) ∧
        s' = s.left r v u (s.exitCasts u.userId (s.room r).users.elems excl) := by
  simp only [exitRoom, bind_eq_ok_iff, Prod.exists, deref_ok_iff, Option.some.injEq,
    castRecvers_ok_iff, pure_eq_ok, Except.ok.injEq]
  constructor
  · rintro ⟨_, u, ⟨rfl, hu⟩, _, ⟨hlive, rfl⟩, rfl⟩
    exact ⟨u, hu, hlive, rfl⟩
  · rintro ⟨u, hu, hlive, rfl⟩
    exact ⟨v, u, ⟨rfl, hu⟩, _, ⟨hlive, rfl⟩, rfl⟩

def removed (s : Server) (v : UserPtr) (u : User) : Server :=
  match u.currRoom with
  | none => (s.removeFromLobby v).deleteUser v u
  | some r =>
    (s.left r v u (s.exitCasts u.userId (s.room r).users.elems true)).deleteUser v u

theorem removeUser_ok_iff {s s' : Server} {user : Option UserPtr} :
    s.removeUser user = .ok s' ↔
      ∃ v u, user = some v ∧ s.user v = .live u ∧
        (∀ r, u.currRoom = some r → ∀ w ∈ (s.room r).users.elems, ∃ u, s.user w = .live u) ∧
        s' = s.removed v u := by
  simp only [removeUser, bind_eq_ok_iff, Prod.exists, deref_ok_iff, and_assoc, pure_eq_ok,
    Except.ok.injEq]
  refine exists_congr fun v => exists_congr fun u => and_congr_right fun _ =>
    and_congr_right fun hu => ?_
  cases hroom : u.currRoom with
  | none => simp [leavePlace, removed, hroom, eq_comm]
  | some r =>
    simp only [leavePlace, removed, hroom, exitRoom_ok_iff, hu, Cell.live.injEq,
      exists_eq_left', forall_const, Option.some.injEq, forall_eq']
    constructor
    · rintro ⟨_, ⟨hlive, rfl⟩, rfl⟩
      exact ⟨hlive, rfl⟩
    · rintro ⟨hlive, rfl⟩
      exact ⟨_, ⟨hlive, rfl⟩, rfl⟩

theorem sessionId_ok_iff {s : Server} {session : UserPtr} {id : UInt32} :
    s.sessionId session = .ok id ↔ ∃ w, s.user session = .live w ∧ w.session.userId = id := by
  simp [sessionId, bind_eq_ok_iff, deref_ok_iff]

theorem sessionId_setUser {s : Server} {v : UserPtr} {u : User} (hu : s.user v = .live u)
    (u' : User) (h : u'.session = u.session) (session : UserPtr) :
    (s.setUser v (.live u')).sessionId session = s.sessionId session := by
  by_cases hv : session = v
  · subst hv
    simp [sessionId, deref, setUser, hu, h]
  · simp [sessionId, deref, setUser, Function.update_of_ne hv]

structure Sender (s : Server) (session : UserPtr) (id : UInt32) (v : UserPtr) (u : User) :
    Prop where
  session : s.sessionId session = .ok id
  registered : s.getUser id = some v
  live : s.user v = .live u

theorem sender_iff {s : Server} {session v : UserPtr} {u : User} :
    (∃ p, s.sessionUser session = .ok p ∧ s.deref p = .ok (v, u)) ↔
      ∃ id, s.Sender session id v u := by
  simp only [sessionUser, bind_eq_ok_iff, deref_ok_iff, pure_eq_ok, Except.ok.injEq]
  constructor
  · rintro ⟨_, ⟨id, hid, rfl⟩, hv, hu⟩
    exact ⟨id, hid, hv, hu⟩
  · rintro ⟨id, hid, hv, hu⟩
    exact ⟨_, ⟨id, hid, rfl⟩, hv, hu⟩

theorem broadCast_eq (s : Server) (packet : Packet) :
    s.broadCast packet =
      s.pushPackages (s.roomList.values.flatMap fun r => casts (s.room r).users.elems packet) := by
  have h : ∀ (rs : List RoomPtr) (t : Server), t.room = s.room →
      rs.foldl (fun s r => s.roomCast r packet) t =
        t.pushPackages (rs.flatMap fun r => casts (s.room r).users.elems packet) := by
    intro rs
    induction rs with
    | nil =>
      intro t _
      simp [pushPackages]
    | cons r rs ih =>
      intro t ht
      rw [List.foldl_cons, ih (t.roomCast r packet) ht]
      simp [roomCast, pushPackages, ht]
  exact h _ s rfl

def unicastPackages (v : UserPtr) (u : User) (text : Str) : Option UserPtr → List SendPackage
  | none => [⟨some v, .sUnicastNo⟩]
  | some w => [⟨some v, .sUnicastOk u.nickname text⟩, ⟨some w, .sUnicastOk u.nickname text⟩]

def accepted (s : Server) (session : UserPtr) (id : UInt32) (v : UserPtr) (u : User)
    (nickname : Str) : Server :=
  ((s.setUser v (.live { u with nickname })).pushPackages
    [⟨some session, .sServerEnterOk id⟩]).sendRoomListToOne (some session)

def handled : Packet → Bool
  | .cServerEnter _ | .cServerExit | .cLobbyRoomInfo | .cRoomCreate _ | .cRoomEnter _
  | .cRoomExit | .cUnicast _ _ | .cMulticast _ | .cBroadcast _ => true
  | _ => false

/-- All that processing a package can do. -/
inductive Processed (s : Server) (session : UserPtr) : Packet → Server → Prop
  | serverEnter {id : UInt32} {v : UserPtr} {u : User} (sender : s.Sender session id v u)
      (nickname : Str) :
      Processed s session (.cServerEnter nickname) (s.accepted session id v u nickname)
  | serverExit {id : UInt32} {v : UserPtr} {u : User} (sender : s.Sender session id v u)
      (members : ∀ r, u.currRoom = some r →
        ∀ w ∈ (s.room r).users.elems, ∃ u, s.user w = .live u) :
      Processed s session .cServerExit (s.removed v u)
  | lobbyRoomInfo : Processed s session .cLobbyRoomInfo (s.sendRoomListToOne (some session))
  | roomCreate {id : UInt32} (hid : s.sessionId session = .ok id) (roomName : Str) :
      Processed s session (.cRoomCreate roomName) (s.createRoom id roomName)
  | roomEnter {id : UInt32} {v : UserPtr} {u : User} {rid : UInt16} {r : RoomPtr}
      (sender : s.Sender session id v u) (room : s.getRoom rid = some r) :
      Processed s session (.cRoomEnter rid) (s.entered r v u)
  | roomExit {id : UInt32} {v : UserPtr} {u : User} {r : RoomPtr}
      (sender : s.Sender session id v u) (room : u.currRoom = some r) :
      Processed s session .cRoomExit
        ((s.left r v u (s.room r).users.elems).pushIntoLobby v)
  | unicast {id : UInt32} {v : UserPtr} {u : User} (sender : s.Sender session id v u)
      {recver : Str} {found : Option UserPtr}
      (found_eq : s.findByNickname recver s.userList.values = .ok found) (text : Str) :
      Processed s session (.cUnicast recver text) (s.pushPackages (unicastPackages v u text found))
  | multicast {id : UInt32} {v : UserPtr} {u : User} {r : RoomPtr}
      (sender : s.Sender session id v u) (room : u.currRoom = some r) (text : Str) :
      Processed s session (.cMulticast text) (s.roomCast r (.sMulticast u.nickname text))
  | broadcast {id : UInt32} {v : UserPtr} {u : User} (sender : s.Sender session id v u)
      (text : Str) :
      Processed s session (.cBroadcast text) (s.broadCast (.sBroadcast u.nickname text))
  | unhandled {packet : Packet} (h : handled packet = false) : Processed s session packet s

theorem sender_of_ok {s : Server} {session v : UserPtr} {u : User} {p : Option UserPtr}
    (hp : s.sessionUser session = .ok p) (hv : s.deref p = .ok (v, u)) :
    ∃ id, s.Sender session id v u :=
  sender_iff.mp ⟨p, hp, hv⟩

theorem processed_of_ok {s s' : Server} {session : UserPtr} {packet : Packet}
    (h : s.process ⟨session, packet⟩ = .ok s') : Processed s session packet s' := by
  cases packet with
  | cServerEnter nickname =>
    simp only [process, cServerEnter, bind_eq_ok_iff, Prod.exists, pure_eq_ok,
      Except.ok.injEq] at h
    obtain ⟨p, hp, v, u, hv, id, hid, rfl⟩ := h
    obtain ⟨id', hs⟩ := sender_of_ok hp hv
    rw [sessionId_setUser hs.live { u with nickname } rfl, hs.session] at hid
    cases hid
    exact .serverEnter hs nickname
  | cServerExit =>
    simp only [process, cServerExit, bind_eq_ok_iff, removeUser_ok_iff] at h
    obtain ⟨_, hp, v, u, rfl, hu, hlive, rfl⟩ := h
    obtain ⟨id, hs⟩ := sender_of_ok hp (deref_ok_iff.mpr ⟨rfl, hu⟩)
    exact .serverExit hs hlive
  | cLobbyRoomInfo =>
    cases h
    exact .lobbyRoomInfo
  | cRoomCreate roomName =>
    simp only [process, cRoomCreate, bind_eq_ok_iff, pure_eq_ok, Except.ok.injEq] at h
    obtain ⟨id, hid, rfl⟩ := h
    exact .roomCreate hid roomName
  | cRoomEnter rid =>
    simp only [process, cRoomEnter, bind_eq_ok_iff] at h
    obtain ⟨p, hp, h⟩ := h
    cases hroom : s.getRoom rid with
    | none => simp [hroom, throw, throwThe, MonadExceptOf.throw] at h
    | some r =>
      simp only [hroom, enterRoom_ok_iff] at h
      obtain ⟨v, u, rfl, hu, rfl⟩ := h
      obtain ⟨id, hs⟩ := sender_of_ok hp (deref_ok_iff.mpr ⟨rfl, hu⟩)
      exact .roomEnter hs hroom
  | cRoomExit =>
    simp only [process, cRoomExit, bind_eq_ok_iff, Prod.exists] at h
    obtain ⟨p, hp, v, u, hv, h⟩ := h
    obtain ⟨id, hs⟩ := sender_of_ok hp hv
    cases hroom : u.currRoom with
    | none => simp [hroom, throw, throwThe, MonadExceptOf.throw] at h
    | some r =>
      simp only [hroom, bind_eq_ok_iff, exitRoom_ok_iff, hs.live, Cell.live.injEq,
        exists_eq_left', pure_eq_ok, Except.ok.injEq] at h
      obtain ⟨_, ⟨-, rfl⟩, rfl⟩ := h
      exact .roomExit hs hroom
  | cUnicast recver text =>
    simp only [process, cUnicast, bind_eq_ok_iff, Prod.exists] at h
    obtain ⟨p, hp, found, hfound, v, u, hv, h⟩ := h
    obtain ⟨id, hs⟩ := sender_of_ok hp hv
    have heq : s' = s.pushPackages (unicastPackages v u text found) := by
      cases found <;> exact (Except.ok.inj h).symm
    rw [heq]
    exact .unicast hs hfound text
  | cMulticast text =>
    simp only [process, cMulticast, bind_eq_ok_iff, Prod.exists] at h
    obtain ⟨p, hp, v, u, hv, h⟩ := h
    obtain ⟨id, hs⟩ := sender_of_ok hp hv
    cases hroom : u.currRoom with
    | none => simp [hroom, throw, throwThe, MonadExceptOf.throw] at h
    | some r =>
      simp only [hroom, pure_eq_ok, Except.ok.injEq] at h
      rw [← h]
      exact .multicast hs hroom text
  | cBroadcast text =>
    simp only [process, cBroadcast, bind_eq_ok_iff, Prod.exists, pure_eq_ok,
      Except.ok.injEq] at h
    obtain ⟨p, hp, v, u, hv, rfl⟩ := h
    obtain ⟨id, hs⟩ := sender_of_ok hp hv
    exact .broadcast hs text
  | _ =>
    cases h
    exact .unhandled rfl

end Server

end ChattingServer.V11
