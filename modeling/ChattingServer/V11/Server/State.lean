import Mathlib.Logic.Function.Basic
import ChattingServer.Lib.Except
import ChattingServer.Lib.StdMap
import ChattingServer.V11.NetworkLib.Packet

namespace ChattingServer.V11

open Lib

/-- The address of a `User`, which is also that of the `Session` embedded in it. -/
abbrev UserPtr := Nat

abbrev RoomPtr := Nat

abbrev Socket := Nat

structure Session where
  socket : Option Socket
  userId : UInt32

structure User where
  session : Session
  userId : UInt32
  currRoom : Option RoomPtr
  nickname : Str

/-- What an address of the heap holds.  An address that has been freed is not given out again, so
that a pointer left behind can be told from a pointer to a later user. -/
inductive Cell
  | unused
  | live (user : User)
  | freed

def Cell.status : Cell → Option Bool
  | .unused => none
  | .live _ => some true
  | .freed => some false

theorem Cell.status_eq_live_iff {x : Cell} : x.status = some true ↔ ∃ u, x = .live u := by
  cases x <;> simp [status]

structure Room where
  roomId : UInt16
  roomName : Str
  users : StdSet UserPtr

structure SendPackage where
  session : Option UserPtr
  packet : Packet
  deriving DecidableEq

structure RecvPackage where
  session : UserPtr
  packet : Packet
  deriving DecidableEq

inductive Fault
  | nullUser
  | nullRoom
  /-- A deleted `User` is read, written or deleted again. -/
  | freed
  /-- Not a fault of the program: the action cannot happen in this state. -/
  | disabled
  deriving DecidableEq

/-- The state of `UserManager`, `RoomManager` and `SendServer`, with the objects they point to.
Rooms are never deleted. -/
structure Server where
  user : UserPtr → Cell
  room : RoomPtr → Room
  nextRoom : RoomPtr
  userList : StdMap UInt32 UserPtr
  userId : UInt32
  roomList : StdMap UInt16 RoomPtr
  roomId : UInt16
  userInLobby : StdSet UserPtr
  packages : List SendPackage
  /-- The calls of `closesocket` and of `delete` on a `User`, in order. -/
  closed : List Socket
  deleted : List UserPtr

namespace Server

def init : Server where
  user _ := .unused
  room _ := ⟨0, [], .empty⟩
  nextRoom := 0
  userList := .empty
  userId := 1
  roomList := .empty
  roomId := 1
  userInLobby := .empty
  packages := []
  closed := []
  deleted := []

def setUser (s : Server) (v : UserPtr) (cell : Cell) : Server :=
  { s with user := Function.update s.user v cell }

def setRoom (s : Server) (r : RoomPtr) (room : Room) : Server :=
  { s with room := Function.update s.room r room }

@[simp] theorem user_setUser_self (s : Server) (v : UserPtr) (cell : Cell) :
    (s.setUser v cell).user v = cell :=
  Function.update_self ..

theorem user_setUser_of_ne (s : Server) {v w : UserPtr} (h : w ≠ v) (cell : Cell) :
    (s.setUser v cell).user w = s.user w :=
  Function.update_of_ne h ..

@[simp] theorem room_setRoom_self (s : Server) (r : RoomPtr) (room : Room) :
    (s.setRoom r room).room r = room :=
  Function.update_self ..

theorem room_setRoom_of_ne (s : Server) {r t : RoomPtr} (h : t ≠ r) (room : Room) :
    (s.setRoom r room).room t = s.room t :=
  Function.update_of_ne h ..

theorem room_setUsers (s : Server) (r : RoomPtr) (users : StdSet UserPtr) (t : RoomPtr) :
    ((s.setRoom r { s.room r with users }).room t).roomId = (s.room t).roomId ∧
      ((s.setRoom r { s.room r with users }).room t).roomName = (s.room t).roomName := by
  by_cases ht : t = r
  · subst ht
    rw [room_setRoom_self]
    exact ⟨rfl, rfl⟩
  · rw [room_setRoom_of_ne s ht]
    exact ⟨rfl, rfl⟩

def pushPackages (s : Server) (packages : List SendPackage) : Server :=
  { s with packages := s.packages ++ packages }

def deref (s : Server) : Option UserPtr → Except Fault (UserPtr × User)
  | none => .error .nullUser
  | some v =>
    match s.user v with
    | .live u => .ok (v, u)
    | _ => .error .freed

def sessionId (s : Server) (session : UserPtr) : Except Fault UInt32 := do
  let (_, u) ← s.deref (some session)
  return u.session.userId

/-! `Room` -/

def casts (users : List UserPtr) (packet : Packet) : List SendPackage :=
  users.map fun v => ⟨some v, packet⟩

def roomCast (s : Server) (r : RoomPtr) (packet : Packet) : Server :=
  s.pushPackages (casts (s.room r).users.elems packet)

def enterRoom (s : Server) (r : RoomPtr) (user : Option UserPtr) : Except Fault Server := do
  let (v, u) ← s.deref user
  let s := s.setUser v (.live { u with currRoom := some r })
  let s := s.setRoom r { s.room r with users := (s.room r).users.insert v }
  let s := s.roomCast r (.sRoomEnter u.userId u.nickname)
  return s.pushPackages [⟨some v, .sRoomName (s.room r).roomName⟩]

def exitRecvers (s : Server) (uid : UInt32) : List UserPtr → Except Fault (List UserPtr)
  | [] => return []
  | recver :: users => do
    let (_, u) ← s.deref (some recver)
    let recvers ← s.exitRecvers uid users
    return if u.userId = uid then recvers else recver :: recvers

def castRecvers (s : Server) (uid : UInt32) (users : List UserPtr) :
    Bool → Except Fault (List UserPtr)
  | true => s.exitRecvers uid users
  | false => return users

def exitRoom (s : Server) (r : RoomPtr) (user : UserPtr) (senderExclusive : Bool) :
    Except Fault Server := do
  let (_, u) ← s.deref (some user)
  let recvers ← s.castRecvers u.userId (s.room r).users.elems senderExclusive
  let s := s.pushPackages (casts recvers (.sRoomExit u.userId))
  let s := s.setUser user (.live { u with currRoom := none })
  return s.setRoom r { s.room r with users := (s.room r).users.erase user }

/-! `RoomManager` -/

def getRoom (s : Server) (roomId : UInt16) : Option RoomPtr := s.roomList.find roomId

def pushIntoLobby (s : Server) (v : UserPtr) : Server :=
  { s with userInLobby := s.userInLobby.insert v }

def removeFromLobby (s : Server) (v : UserPtr) : Server :=
  { s with userInLobby := s.userInLobby.erase v }

def roomListPacket (s : Server) : Packet :=
  let rooms := s.roomList.values.map s.room
  .sLobbyRoomInfo (UInt16.ofNat s.roomList.size) (rooms.map (·.roomId)) (rooms.map (·.roomName))

def sendRoomListToOne (s : Server) (session : Option UserPtr) : Server :=
  s.pushPackages [⟨session, s.roomListPacket⟩]

def newRoom (s : Server) (roomName : Str) : Server :=
  { s with
    room := Function.update s.room s.nextRoom ⟨s.roomId, roomName, .empty⟩
    nextRoom := s.nextRoom + 1
    roomList := s.roomList.insert s.roomId s.nextRoom
    roomId := s.roomId + 1 }

def broadCast (s : Server) (packet : Packet) : Server :=
  s.roomList.values.foldl (fun s r => s.roomCast r packet) s

/-! `UserManager` -/

def getUser (s : Server) (id : UInt32) : Option UserPtr := s.userList.find id

def getSession (s : Server) (id : UInt32) : Option UserPtr := s.userList.find id

def createRoom (s : Server) (uid : UInt32) (roomName : Str) : Server :=
  let s := s.newRoom roomName
  s.sendRoomListToOne (s.getSession uid)

def findByNickname (s : Server) (name : Str) : List UserPtr → Except Fault (Option UserPtr)
  | [] => return none
  | v :: users => do
    let (_, u) ← s.deref (some v)
    if name = u.nickname then return some v else s.findByNickname name users

inductive ConnectOutcome
  | connected
  | bindFailed
  | recvFailed
  deriving DecidableEq

def newUser (s : Server) (addr : UserPtr) (socket : Socket) : Except Fault Server :=
  match s.user addr with
  | .unused => .ok (s.setUser addr (.live ⟨⟨some socket, s.userId⟩, s.userId, none, []⟩))
  | _ => .error .disabled

/-- `UserManager::CreateUser` for an accepted socket, with the address that `new User` returns. -/
def createUser (s : Server) (addr : UserPtr) (socket : Socket) (outcome : ConnectOutcome) :
    Except Fault (Bool × Server) := do
  let s ← s.newUser addr socket
  match outcome with
  | .connected =>
    let s := { s with userList := s.userList.insert s.userId addr, userId := s.userId + 1 }
    return (true, s.pushIntoLobby addr)
  | .bindFailed => return (false, { s.setUser addr .freed with deleted := s.deleted ++ [addr] })
  | .recvFailed =>
    -- both `BindRecv` and `Connect` close the socket
    return (false, { s.setUser addr .freed with
      deleted := s.deleted ++ [addr], closed := s.closed ++ [socket, socket] })

def accept (s : Server) (addr : UserPtr) (socket : Socket) (outcome : ConnectOutcome) :
    Except Fault Server := do
  let (created, s) ← s.createUser addr socket outcome
  return if created then s else { s with closed := s.closed ++ [socket] }

def deleteUser (s : Server) (v : UserPtr) (u : User) : Server :=
  { s.setUser v .freed with
    userList := s.userList.erase u.userId
    closed := s.closed ++ u.session.socket.toList
    deleted := s.deleted ++ [v] }

def leavePlace (s : Server) (v : UserPtr) : Option RoomPtr → Except Fault Server
  | none => return s.removeFromLobby v
  | some r => s.exitRoom r v true

def removeUser (s : Server) (user : Option UserPtr) : Except Fault Server := do
  let (v, u) ← s.deref user
  let s ← s.leavePlace v u.currRoom
  return s.deleteUser v u

def removeUserById (s : Server) (id : UInt32) : Except Fault Server :=
  match s.userList.find id with
  | none => return s
  | some v => s.removeUser (some v)

end Server

end ChattingServer.V11
