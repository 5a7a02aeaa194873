import Mathlib.Data.List.Basic
import ChattingServer.Lib.Loop
import ChattingServer.V10.Client.Packet

namespace ChattingServer.V10.Client

open Lib

def slash : UInt8 := 47

def space : UInt8 := 32

/-- `"/quit"`, `"/lobby"` and, in the encoding of the source, the prefix of a chat to all rooms -/
def quitCommand : Bytes := [47, 113, 117, 105, 116]

def lobbyCommand : Bytes := [47, 108, 111, 98, 98, 121]

def wholeChatPrefix : Bytes := [47, 0xC0, 0xFC, 0xC3, 0xBC, 32]

structure IOCPClient where
  nickname : Bytes
  workerRun : Bool
  room : Int32

/-- A packet struct that has been filled in on the stack: its size, the copies into its fields, the
string that went into `Content` and the length that is passed to `send`. -/
structure Outgoing where
  packet : Memory UInt8
  size : Nat
  copies : List Access
  content : Bytes
  sent : Nat

structure Outgoing.Fits (o : Outgoing) : Prop where
  copies : ∀ a ∈ o.copies, a.Inside
  sent : o.sent ≤ o.size

def Outgoing.bytes (o : Outgoing) : Bytes := o.packet.read 0 o.sent

def uint16 (n : Nat) : Nat := n % 65536

def systemPacket (type : Action) (nickname : Bytes) (stack : Memory UInt8) : Outgoing :=
  let length := uint16 (nickname.length + 1)
  let packet := stack.write 2 (LittleEndian.toBytes 2 type.code)
  let packet := packet.write 4 (nickname ++ [0])
  let packet := packet.write 0 (LittleEndian.toBytes 2 length)
  ⟨packet, 36, [⟨maxNicknameLen, 0, nickname.length + 1⟩], [], length + packetHeaderLength⟩

def castPacket (type : Action) (nickname content : Bytes) (stack : Memory UInt8) : Outgoing :=
  let length := uint16 (maxNicknameLen + content.length)
  let packet := stack.write 2 (LittleEndian.toBytes 2 type.code)
  let packet := packet.write chatSender (nickname ++ [0])
  let packet := packet.write chatContent content
  let packet := packet.write 0 (LittleEndian.toBytes 2 length)
  ⟨packet, chatPacketLength,
    [⟨maxNicknameLen, 0, nickname.length + 1⟩, ⟨maxContentLen, 0, content.length⟩], content,
    length + packetHeaderLength⟩

def broadCast (nickname content : Bytes) (stack : Memory UInt8) : Outgoing :=
  castPacket .chatBroadcast nickname content stack

def multiCast (nickname content : Bytes) (stack : Memory UInt8) : Outgoing :=
  castPacket .chatMulticast nickname content stack

def whisperRecver (content : Bytes) : Bytes := (content.take (content.idxOf space)).drop 1

def whisperText (content : Bytes) : Bytes :=
  if space ∈ content then content.drop (content.idxOf space + 1) else content

def unicastPacket (nickname recver content : Bytes) (stack : Memory UInt8) : Outgoing :=
  let length := uint16 (cString content 0).length
  let packet := stack.write 2 (LittleEndian.toBytes 2 Action.chatUnicast.code)
  let packet := packet.write unicastSender (nickname ++ [0])
  let packet := packet.write unicastContent (content ++ [0])
  let packet := packet.write unicastRecver (recver ++ [0])
  let packet := packet.write 0 (LittleEndian.toBytes 2 length)
  ⟨packet, unicastPacketLength,
    [⟨maxNicknameLen, 0, nickname.length + 1⟩, ⟨maxContentLen, 0, content.length + 1⟩,
      ⟨maxNicknameLen, 0, recver.length + 1⟩], content, unicastContent + length⟩

def limitSize : Nat := 600

structure Splitting where
  content : Bytes
  strVector : List Bytes

def Splitting.body (s : Splitting) : Turn Splitting :=
  if s.content = [] then .done s
  else
    let endPtr := if s.content.length < limitSize then s.content.length else limitSize
    .again ⟨s.content.drop limitSize, s.strVector ++ [s.content.take endPtr]⟩

/-- `none` stands for a loop that has not ended after a turn for each byte and one more. -/
def splitContent (content : Bytes) : Option (List Bytes) :=
  if limitSize < content.length then
    (Turn.iterate Splitting.body (content.length + 1) ⟨content, []⟩).map (·.strVector)
  else some []

structure Sending where
  client : IOCPClient
  action : Option Action
  outgoing : List Outgoing

namespace IOCPClient

def failed (c : IOCPClient) (o : Outgoing) : Sending := ⟨{ c with workerRun := false }, none, [o]⟩

def sendPacket (c : IOCPClient) (action : Action) (o : Outgoing) (success : Bool) : Sending :=
  if success then ⟨c, some action, [o]⟩ else c.failed o

def castAll (c : IOCPClient) (action : Action) (cast : Bytes → Memory UInt8 → Outgoing)
    (stack : Nat → Memory UInt8) (success : Nat → Bool) : Nat → List Bytes → Sending
  | _, [] => ⟨c, some action, []⟩
  | k, content :: strBufs =>
    let o := cast content (stack k)
    if success k then
      let r := castAll c action cast stack success (k + 1) strBufs
      { r with outgoing := o :: r.outgoing }
    else c.failed o

def processSendMsg (c : IOCPClient) (content : Bytes) (stack : Nat → Memory UInt8)
    (success : Nat → Bool) : Option Sending :=
  if content = quitCommand then
    some (c.sendPacket .serverExit (systemPacket .serverExit c.nickname (stack 0)) (success 0))
  else if content = lobbyCommand then
    let c := { c with room := 0 }
    some (c.sendPacket .roomExit (systemPacket .roomExit c.nickname (stack 0)) (success 0))
  else if wholeChatPrefix <+: content then
    let cast := c.castAll .chatBroadcast (broadCast c.nickname) stack success 0
    if limitSize < content.length then
      (splitContent content).map fun strBufs => cast (strBufs.modifyHead (·.drop 6))
    else some (cast [content.drop 6])
  else if content.head? = some slash then
    some (c.sendPacket .chatUnicast
      (unicastPacket c.nickname (whisperRecver content) (whisperText content) (stack 0))
      (success 0))
  else
    let cast := c.castAll .chatMulticast (multiCast c.nickname) stack success 0
    if limitSize < content.length then (splitContent content).map fun strBufs => cast strBufs
    else some (cast [content])

end IOCPClient

inductive NicknameMessage
  | tooLong
  | alreadyExist
  | trimNeeded
  | createSuccess
  deriving DecidableEq

def nicknameTest (nickname : Bytes) : Option NicknameMessage :=
  if 31 ≤ nickname.length then some .tooLong
  else if space ∈ nickname then some .trimNeeded
  else none

/-- `IOCPClient::NicknameCheck`, for the nickname before its NUL.  `success` is what becomes of the
send and `reply` what `recv` returns then; no message stands for the result 0. -/
def IOCPClient.nicknameCheck (c : IOCPClient) (nickname : Bytes) (stack : Memory UInt8)
    (success : Bool) (reply : Bytes) : Option NicknameMessage × IOCPClient × List Outgoing :=
  match nicknameTest nickname with
  | some message => (some message, c, [])
  | none =>
    let o := systemPacket .serverEnter nickname stack
    if success = false ∨ reply = [] then (none, { c with workerRun := false }, [o])
    else if LittleEndian.ofBytes ((reply.drop 4).take 4) = 1 then (some .alreadyExist, c, [o])
    else (some .createSuccess, { c with nickname }, [o])

end ChattingServer.V10.Client
