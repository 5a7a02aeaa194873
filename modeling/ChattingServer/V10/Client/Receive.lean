import ChattingServer.V10.Client.Packet

namespace ChattingServer.V10.Client

open Lib

inductive Shown
  | room (sender : Bytes) (action : Action)
  | message (sender content : Bytes) (action : Action)
  | server (message : Nat)
  deriving DecidableEq

structure Processed where
  accesses : List Access
  content : Bytes
  shown : Option Shown

def recvBufSize : Nat := 1024

def copyContent (received content : Bytes) (offset count : Nat) : Bytes :=
  (received.drop offset).take count ++ content.drop count

def copyAccesses (offset count : Nat) : List Access :=
  [⟨recvBufSize, offset, count⟩, ⟨recvBufSize, 0, count⟩]

def headerLength (received : Bytes) : Nat := LittleEndian.ofBytes (received.take 2)

def headerType (received : Bytes) : Nat := LittleEndian.ofBytes ((received.drop 2).take 2)

def typeAccess : Access := ⟨recvBufSize, 2, 2⟩

def processRoom (received content : Bytes) (action : Action) : Processed :=
  ⟨[typeAccess], content, some (.room (cString received 4) action)⟩

def processChat (received content : Bytes) (action : Action) : Processed :=
  let length := headerLength received
  let content := copyContent received content chatContent length
  ⟨typeAccess :: ⟨recvBufSize, 0, 2⟩ :: copyAccesses chatContent length, content,
    some (.message (cString received chatSender) (cString content 0) action)⟩

/-- Of a `UNICAST_PACKET` a string is copied.  Where it has no end in `received`, the search for it
leaves `received` with the first byte after it. -/
def processUnicast (received content : Bytes) : Processed :=
  let count := (cString received unicastContent).length + 1
  let content := copyContent received content unicastContent count
  ⟨typeAccess :: copyAccesses unicastContent count, content,
    some (.message (cString received unicastSender) (cString content 0) .chatUnicast)⟩

def processRecvMsg (received content : Bytes) : Processed :=
  match Action.ofCode (headerType received) with
  | some .serverExit => processRoom received content .serverExit
  | some .roomEnter => processRoom received content .roomEnter
  | some .roomExit => processRoom received content .roomExit
  | some .chatBroadcast => processChat received content .chatBroadcast
  | some .chatMulticast => processChat received content .chatMulticast
  | some .chatUnicast => processUnicast received content
  | some .serverMessage =>
    ⟨[typeAccess, ⟨recvBufSize, 4, 4⟩], content,
      some (.server (LittleEndian.ofBytes ((received.drop 4).take 4)))⟩
  | some .serverEnter | none => ⟨[typeAccess], content, none⟩

def receivedBuf (data : Bytes) : Bytes := data ++ List.replicate (recvBufSize - data.length) 0

def recvThread (data content : Bytes) : Processed :=
  let p := processRecvMsg (receivedBuf data) content
  { p with
    accesses := ⟨recvBufSize, 0, data.length⟩ :: ⟨recvBufSize, data.length, 1⟩ :: p.accesses }

def Processed.Safe (p : Processed) : Prop := ∀ a ∈ p.accesses, a.Inside

def IsChat (received : Bytes) : Prop :=
  Action.ofCode (headerType received) = some .chatBroadcast ∨
    Action.ofCode (headerType received) = some .chatMulticast

theorem length_receivedBuf {data : Bytes} (h : data.length ≤ recvBufSize) :
    (receivedBuf data).length = recvBufSize := by
  simp only [receivedBuf, List.length_append, List.length_replicate]
  omega

theorem cString_receivedBuf {data : Bytes} (h : data.length < recvBufSize) {offset : Nat}
    (hoffset : offset < recvBufSize) :
    offset + (cString (receivedBuf data) offset).length < recvBufSize := by
  have hlen := length_receivedBuf (Nat.le_of_lt h)
  have hlast : 0 ∈ (receivedBuf data).drop offset := by
    rw [List.mem_drop_iff_getElem]
    refine ⟨recvBufSize - 1 - offset, by omega, ?_⟩
    simp only [receivedBuf]
    rw [List.getElem_append_right (by omega), List.getElem_replicate]
  have := length_cString_lt hlast
  omega

theorem safe_processRoom (received content : Bytes) (action : Action) :
    (processRoom received content action).Safe := by
  simp [processRoom, Processed.Safe, typeAccess, recvBufSize]

theorem safe_processChat_iff (received content : Bytes) (action : Action) :
    (processChat received content action).Safe ↔ headerLength received ≤ 988 := by
  simp only [processChat, Processed.Safe, copyAccesses, typeAccess, recvBufSize, chatContent,
    chatSender, packetHeaderLength, maxNicknameLen, List.forall_mem_cons, Access.inside_mk]
  simp
  omega

theorem safe_processUnicast {data : Bytes} (h : data.length < recvBufSize) (content : Bytes) :
    (processUnicast (receivedBuf data) content).Safe := by
  have hlt := cString_receivedBuf h (by decide : unicastContent < recvBufSize)
  simp only [processUnicast, Processed.Safe, copyAccesses, typeAccess, List.forall_mem_cons,
    Access.inside_mk]
  refine ⟨by decide, by omega, by omega, List.forall_mem_nil _⟩

theorem safe_processRecvMsg_iff {data : Bytes} (h : data.length < recvBufSize) (content : Bytes) :
    (processRecvMsg (receivedBuf data) content).Safe ↔
      (IsChat (receivedBuf data) → headerLength (receivedBuf data) ≤ 988) := by
  unfold processRecvMsg IsChat
  cases Action.ofCode (headerType (receivedBuf data)) with
  | none => simp [Processed.Safe, typeAccess, recvBufSize]
  | some action =>
    cases action with
    | chatBroadcast | chatMulticast => simpa using safe_processChat_iff ..
    | chatUnicast => simpa using safe_processUnicast h content
    | serverExit | roomEnter | roomExit => simpa using safe_processRoom _ content _
    | serverEnter | serverMessage => simp [Processed.Safe, typeAccess, recvBufSize]

/-- The NUL is written past `received` when the message fills it, and the length that the sender of
a `CHAT_PACKET` has put into it is not checked. -/
theorem safe_recvThread_iff {data : Bytes} (hdata : data.length ≤ recvBufSize) (content : Bytes) :
    (recvThread data content).Safe ↔
      data.length < recvBufSize ∧
        (IsChat (receivedBuf data) → headerLength (receivedBuf data) ≤ 988) := by
  have hsafe : (recvThread data content).Safe ↔
      data.length + 1 ≤ recvBufSize ∧ (processRecvMsg (receivedBuf data) content).Safe := by
    simp only [recvThread, Processed.Safe, List.forall_mem_cons, Access.inside_mk, Nat.zero_add,
      hdata, true_and]
  rw [hsafe]
  exact and_congr_right fun h => safe_processRecvMsg_iff h content

theorem safe_recvThread_empty : (recvThread [32, 0, 32, 0] []).Safe :=
  (safe_recvThread_iff (by decide) []).mpr ⟨by decide, fun _ => by decide⟩

theorem not_safe_recvThread : ¬ ∀ data content : Bytes, 1 ≤ data.length →
    data.length ≤ recvBufSize → (recvThread data content).Safe := by
  intro h
  have hsafe := h [255, 255, 32, 0] [] (by decide) (by decide) ⟨recvBufSize, 36, 65535⟩ (by decide)
  exact absurd hsafe (by decide)

end ChattingServer.V10.Client
