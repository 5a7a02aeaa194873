import ChattingServer.Lib.LittleEndian
import ChattingServer.V10.Server.ClientManager

namespace ChattingServer.V10

open Lib

inductive Request
  | serverEnter
  | serverExit
  | roomEnter
  | roomExit
  | chatBroadcast
  | chatMulticast
  | chatUnicast
  deriving DecidableEq

namespace Request

def code : Request → Nat
  | .serverEnter => 11
  | .serverExit => 12
  | .roomEnter => 21
  | .roomExit => 22
  | .chatBroadcast => 31
  | .chatMulticast => 32
  | .chatUnicast => 33

def all : List Request :=
  [.serverEnter, .serverExit, .roomEnter, .roomExit, .chatBroadcast, .chatMulticast, .chatUnicast]

def ofCode (type : Nat) : Option Request := all.find? (·.code = type)

theorem ofCode_code (r : Request) : ofCode r.code = some r := by
  cases r <;> rfl

end Request

/-! The fields that a handler reads through a pointer to the packet struct. -/

namespace Packet

def type (buf : Bytes) : Nat := LittleEndian.ofBytes ((buf.drop 2).take 2)

def request (buf : Bytes) : Option Request := Request.ofCode (type buf)

def nickname (buf : Bytes) : Bytes := (buf.drop 4).takeWhile (· ≠ 0)

def roomNo (buf : Bytes) : Int32 :=
  (UInt32.ofNat (LittleEndian.ofBytes ((buf.drop 36).take 4))).toInt32

def nicknameCreated : Nat := 2

def nicknameAlreadyExist : Nat := 1

def nicknameNotFound : Nat := 3

def serverMessage (message : Nat) : Bytes :=
  LittleEndian.toBytes 2 8 ++ LittleEndian.toBytes 2 51 ++ LittleEndian.toBytes 4 message

end Packet

inductive SendType
  | uninitialized
  | multi
  | uni
  | broad
  deriving DecidableEq

structure PacketInfo where
  clientIndex : Nat
  dataSize : Nat
  sendType : SendType
  isClose : Bool
  packetData : Bytes
  deriving DecidableEq

namespace PacketInfo

def set (clientIndex dataSize : Nat) (data : Bytes) : PacketInfo :=
  ⟨clientIndex, dataSize, .uninitialized, false, data⟩

def copy (p : PacketInfo) : PacketInfo := { p with packetData := p.packetData.take p.dataSize }

end PacketInfo

/-- A call of `WSASend`. -/
structure Send where
  index : Nat
  socket : Option Socket
  data : Bytes
  ioType : IOOperation
  deriving DecidableEq

/-- The clients, the queue of `PacketManager` and the sends so far, in order. -/
structure ChatServer where
  clientMgr : ClientManager
  packetQueue : List PacketInfo
  sends : List Send

namespace ChatServer

def enqueuePacket (s : ChatServer) (p : PacketInfo) : ChatServer :=
  { s with packetQueue := s.packetQueue ++ [p] }

def updateClient (s : ChatServer) (index : Nat) (f : UserInfo → UserInfo) :
    Except Fault ChatServer := do
  let c ← s.clientMgr.getClientByIndex index
  return { s with clientMgr := s.clientMgr.setClient index (f c) }

/-! `ChatClientManager` -/

/-- The search that follows is not reached. -/
def findNickname (_ : ChatServer) (_ : Bytes) : Option Nat := none

/-- A nickname that its field cannot hold would be written past the end of it. -/
def setNickname (s : ChatServer) (p : PacketInfo) : Except Fault ChatServer :=
  let nickname := Packet.nickname p.packetData
  if UserInfo.maxNicknameLen < nickname.length then .error .outOfRange
  else s.updateClient p.clientIndex (·.setNickname nickname)

def sendMsg (s : ChatServer) (index : Nat) (p : PacketInfo) (ioType : IOOperation) (sent : Bool) :
    Except Fault ChatServer := do
  let c ← s.clientMgr.getClientByIndex index
  let clientMgr ← s.clientMgr.sendMsg index sent
  return { s with
    clientMgr
    sends := s.sends ++ [⟨index, c.socketClient, p.packetData.take p.dataSize, ioType⟩] }

def uniCast (s : ChatServer) (p : PacketInfo) (failed : List Nat) : Except Fault ChatServer :=
  s.sendMsg p.clientIndex p .send (p.clientIndex ∉ failed)

def castLoop (p : PacketInfo) (test : UserInfo → Bool) (ioType : Nat → IOOperation)
    (failed : List Nat) : List Nat → ChatServer → Except Fault ChatServer
  | [], s => return s
  | i :: is, s => do
    let c ← s.clientMgr.getClientByIndex i
    let s ← if test c then s.sendMsg i p (ioType i) (i ∉ failed) else pure s
    castLoop p test ioType failed is s

def broadCast (s : ChatServer) (p : PacketInfo) (failed : List Nat) : Except Fault ChatServer :=
  castLoop p (·.isConnected) (fun _ => .send) failed (List.range s.clientMgr.currentCapacity) s

/-- The room that a packet is sent to is that of its sender, or the one that a sender in the lobby
was last in. -/
def senderRoom (c : UserInfo) : Option Int32 :=
  if c.room = UserInfo.lobby ∧ c.prevRoom = UserInfo.lobby then none
  else if c.room = UserInfo.lobby then some c.prevRoom
  else some c.room

def multiCast (s : ChatServer) (p : PacketInfo) (ioType : IOOperation) (failed : List Nat) :
    Except Fault ChatServer := do
  let c ← s.clientMgr.getClientByIndex p.clientIndex
  match senderRoom c with
  | none => return s
  | some room =>
    castLoop p (fun c => c.isConnected ∧ c.room = room)
      (fun i => if ioType = .close ∧ i = p.clientIndex then .close else .send) failed
      (List.range s.clientMgr.currentCapacity) s

/-! `PacketManager` -/

def processServerEnter (s : ChatServer) (p : PacketInfo) : Except Fault ChatServer := do
  let existIndex := s.findNickname (Packet.nickname p.packetData)
  let s ← if existIndex = none then s.setNickname p else pure s
  let message := if existIndex = none then Packet.nicknameCreated else Packet.nicknameAlreadyExist
  return s.enqueuePacket
    { p with dataSize := 8, sendType := .uni, packetData := Packet.serverMessage message }

def processServerExit (s : ChatServer) (p : PacketInfo) : Except Fault ChatServer :=
  return s.enqueuePacket { p.copy with sendType := .multi, isClose := true }

def processRoomEnter (s : ChatServer) (p : PacketInfo) : Except Fault ChatServer := do
  let s ← s.updateClient p.clientIndex fun c => (c.enterRoom (Packet.roomNo p.packetData)).2
  return s.enqueuePacket { p.copy with sendType := .multi }

def processRoomExit (s : ChatServer) (p : PacketInfo) : Except Fault ChatServer := do
  let s ← s.updateClient p.clientIndex fun c => c.exitRoom.2
  return s.enqueuePacket { p.copy with sendType := .multi }

def processChatBroadcast (s : ChatServer) (p : PacketInfo) : Except Fault ChatServer :=
  return s.enqueuePacket { p.copy with sendType := .broad }

def processChatMulticast (s : ChatServer) (p : PacketInfo) : Except Fault ChatServer :=
  return s.enqueuePacket { p.copy with sendType := .multi }

def processChatUnicast (s : ChatServer) (p : PacketInfo) : Except Fault ChatServer :=
  match s.findNickname (Packet.nickname p.packetData) with
  | some findIndex =>
    let copied := { p.copy with sendType := .uni }
    return (s.enqueuePacket copied).enqueuePacket { copied with clientIndex := findIndex }
  | none =>
    return s.enqueuePacket { p with
      dataSize := 8
      sendType := .uni
      packetData := Packet.serverMessage Packet.nicknameNotFound }

def classifyPacket (s : ChatServer) (p : PacketInfo) : Except Fault ChatServer :=
  match Packet.request p.packetData with
  | some .serverEnter => s.processServerEnter p
  | some .serverExit => s.processServerExit p
  | some .roomEnter => s.processRoomEnter p
  | some .roomExit => s.processRoomExit p
  | some .chatBroadcast => s.processChatBroadcast p
  | some .chatMulticast => s.processChatMulticast p
  | some .chatUnicast => s.processChatUnicast p
  | none => return s

def sendPacket (s : ChatServer) (p : PacketInfo) (failed : List Nat) : Except Fault ChatServer :=
  match p.sendType with
  | .broad => s.broadCast p failed
  | .multi => s.multiCast p (if p.isClose then .close else .send) failed
  | .uni => s.uniCast p failed
  | .uninitialized => return s

/-- One round of `PacketManager::Run`, in which the sends to the clients `failed` fail. -/
def run (s : ChatServer) (failed : List Nat) : Except Fault ChatServer :=
  match s.packetQueue with
  | [] => return s
  | p :: packetQueue =>
    let s := { s with packetQueue }
    if p.dataSize = 0 then return s else s.sendPacket p failed

/-! `ChatServer` -/

inductive Action
  /-- A round of the accepter. -/
  | accept (socket : Socket) (outcome : ConnectOutcome)
  /-- A worker has received data from a client. -/
  | receive (index : Nat) (data : Bytes) (bound : Bool)
  /-- A worker finds that a client has gone, or that the last packet to it has been sent. -/
  | close (index : Nat)
  | run (failed : List Nat)

def accept (s : ChatServer) (socket : Socket) (outcome : ConnectOutcome) :
    Except Fault ChatServer := do
  let (_, clientMgr) ← s.clientMgr.createClient socket outcome
  return { s with clientMgr }

def onReceive (s : ChatServer) (index size : Nat) (data : Bytes) : Except Fault ChatServer :=
  s.classifyPacket (.set index size data)

def receive (s : ChatServer) (index : Nat) (data : Bytes) (bound : Bool) :
    Except Fault ChatServer := do
  if data = [] ∨ maxSockbuf < data.length then throw .disabled
  let s ← s.updateClient index (·.received data)
  let c ← s.clientMgr.getClientByIndex index
  let s ← s.onReceive index data.length c.recvBuf
  let clientMgr ← s.clientMgr.bindRecv index bound
  return { s with clientMgr }

def close (s : ChatServer) (index : Nat) : Except Fault ChatServer := do
  let clientMgr ← s.clientMgr.closeClient index
  return { s with clientMgr }

def step (s : ChatServer) : Action → Except Fault ChatServer
  | .accept socket outcome => s.accept socket outcome
  | .receive index data bound => s.receive index data bound
  | .close index => s.close index
  | .run failed => s.run failed

def init (maxClient : Nat) : ChatServer where
  clientMgr := .new maxClient
  packetQueue := []
  sends := []

def system (maxClient : Nat) : System ChatServer Action Fault where
  init := init maxClient
  step := step

end ChatServer

end ChattingServer.V10
