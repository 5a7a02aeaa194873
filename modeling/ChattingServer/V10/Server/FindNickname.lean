import Mathlib.Data.List.TakeWhile
import ChattingServer.V10.Server.Effects

namespace ChattingServer.V10

open Lib

theorem Packet.ne_zero_of_mem_nickname {buf : Bytes} {b : UInt8} (h : b ∈ Packet.nickname buf) :
    b ≠ 0 := by
  simpa using List.mem_takeWhile_imp h

namespace ChatServer

/-! `FindNickname` starts with a `return -1` that is there for the stress test and is to be
commented out where nicknames are to be unique.  `search` says whether it is. -/

def hasNickname (s : ChatServer) (nickname : Bytes) (i : Nat) : Bool :=
  s.clientMgr.clientInfos[i]?.any fun c => c.isConnected ∧ c.nicknameString = nickname

/-- The loop after that line. -/
def searchNickname (s : ChatServer) (nickname : Bytes) : Option Nat :=
  (List.range s.clientMgr.currentCapacity).find? (s.hasNickname nickname)

def findNicknameIf (search : Bool) (s : ChatServer) (nickname : Bytes) : Option Nat :=
  if search then s.searchNickname nickname else s.findNickname nickname

def processServerEnterIf (search : Bool) (s : ChatServer) (p : PacketInfo) :
    Except Fault ChatServer := do
  let existIndex := s.findNicknameIf search (Packet.nickname p.packetData)
  let s ← if existIndex = none then s.setNickname p else pure s
  let message := if existIndex = none then Packet.nicknameCreated else Packet.nicknameAlreadyExist
  return s.enqueuePacket
    { p with dataSize := 8, sendType := .uni, packetData := Packet.serverMessage message }

def processChatUnicastIf (search : Bool) (s : ChatServer) (p : PacketInfo) :
    Except Fault ChatServer :=
  match s.findNicknameIf search (Packet.nickname p.packetData) with
  | some findIndex =>
    let copied := { p.copy with sendType := .uni }
    return (s.enqueuePacket copied).enqueuePacket { copied with clientIndex := findIndex }
  | none =>
    return s.enqueuePacket { p with
      dataSize := 8
      sendType := .uni
      packetData := Packet.serverMessage Packet.nicknameNotFound }

def classifyPacketIf (search : Bool) (s : ChatServer) (p : PacketInfo) : Except Fault ChatServer :=
  match Packet.request p.packetData with
  | some .serverEnter => s.processServerEnterIf search p
  | some .chatUnicast => s.processChatUnicastIf search p
  | _ => s.classifyPacket p

def onReceiveIf (search : Bool) (s : ChatServer) (index size : Nat) (data : Bytes) :
    Except Fault ChatServer :=
  s.classifyPacketIf search (.set index size data)

def receiveIf (search : Bool) (s : ChatServer) (index : Nat) (data : Bytes) (bound : Bool) :
    Except Fault ChatServer := do
  if data = [] ∨ maxSockbuf < data.length then throw .disabled
  let s ← s.updateClient index (·.received data)
  let c ← s.clientMgr.getClientByIndex index
  let s ← s.onReceiveIf search index data.length c.recvBuf
  let clientMgr ← s.clientMgr.bindRecv index bound
  return { s with clientMgr }

def stepIf (search : Bool) (s : ChatServer) : Action → Except Fault ChatServer
  | .receive index data bound => s.receiveIf search index data bound
  | a => s.step a

def systemIf (search : Bool) (maxClient : Nat) : System ChatServer Action Fault where
  init := init maxClient
  step := stepIf search

theorem classifyPacketIf_false (s : ChatServer) (p : PacketInfo) :
    s.classifyPacketIf false p = s.classifyPacket p := by
  unfold classifyPacketIf classifyPacket
  cases Packet.request p.packetData with
  | none => rfl
  | some r => cases r <;> rfl

theorem systemIf_false (maxClient : Nat) : systemIf false maxClient = system maxClient := by
  have hstep : ∀ s a, stepIf false s a = step s a := by
    intro s a
    cases a with
    | receive index data bound =>
      simp only [stepIf, step, receiveIf, receive, onReceiveIf, onReceive, classifyPacketIf_false]
    | _ => rfl
  rw [systemIf, system, funext₂ hstep]

/-! What the search finds -/

theorem hasNickname_iff {s : ChatServer} {nickname : Bytes} {i : Nat} :
    s.hasNickname nickname i = true ↔
      ∃ c, s.clientMgr.clientInfos[i]? = some c ∧ c.isConnected = true ∧
        c.nicknameString = nickname := by
  simp [hasNickname, Option.any_eq_true]

theorem searchNickname_eq_some_iff {s : ChatServer} (h : s.clientMgr.Sized) {nickname : Bytes}
    {i : Nat} :
    s.searchNickname nickname = some i ↔
      s.hasNickname nickname i = true ∧ ∀ j < i, s.hasNickname nickname j = false := by
  rw [searchNickname, List.find?_range_eq_some, List.mem_range]
  constructor
  · rintro ⟨hi, -, hlt⟩
    exact ⟨hi, fun j hj => by simpa using hlt j hj⟩
  · rintro ⟨hi, hlt⟩
    obtain ⟨c, hc, -⟩ := hasNickname_iff.mp hi
    refine ⟨hi, h.lt_length.mp (List.getElem?_eq_some_iff.mp hc).1, fun j hj => ?_⟩
    rw [hlt j hj]
    rfl

theorem searchNickname_eq_none_iff {s : ChatServer} (h : s.clientMgr.Sized) {nickname : Bytes} :
    s.searchNickname nickname = none ↔ ∀ i, s.hasNickname nickname i = false := by
  rw [searchNickname, List.find?_eq_none]
  constructor
  · intro hno i
    rw [← Bool.not_eq_true, hasNickname_iff]
    rintro ⟨c, hc, hhas⟩
    have hi := h.lt_length.mp (List.getElem?_eq_some_iff.mp hc).1
    exact hno i (List.mem_range.mpr hi) (hasNickname_iff.mpr ⟨c, hc, hhas⟩)
  · intro hno i _
    simp [hno i]

theorem lt_of_findNicknameIf {s : ChatServer} {search : Bool} {nickname : Bytes} {i : Nat}
    (h : s.findNicknameIf search nickname = some i) : i < s.clientMgr.currentCapacity := by
  cases search with
  | false => contradiction
  | true => exact List.mem_range.mp (List.mem_of_find?_eq_some h)

/-! What a request does, whether the search is there or not -/

def handleIf (found : Option Nat) (c : UserInfo) (buf : Bytes) : UserInfo :=
  match Packet.request buf with
  | some .serverEnter => if found = none then handle c buf else c
  | _ => handle c buf

theorem toClientInfo_handleIf (found : Option Nat) (c : UserInfo) (buf : Bytes) :
    (handleIf found c buf).toClientInfo = c.toClientInfo := by
  have hhandle := toClientInfo_handle c buf
  unfold handleIf
  split
  · split
    · exact hhandle
    · rfl
  · exact hhandle

theorem index_handleIf (found : Option Nat) (c : UserInfo) (buf : Bytes) :
    (handleIf found c buf).index = c.index :=
  congrArg ClientInfo.index (toClientInfo_handleIf found c buf)

theorem isConnected_handleIf (found : Option Nat) (c : UserInfo) (buf : Bytes) :
    (handleIf found c buf).isConnected = c.isConnected :=
  isConnected_congr (toClientInfo_handleIf found c buf)

theorem nickname_handleIf (found : Option Nat) (c : UserInfo) (buf : Bytes) :
    (handleIf found c buf).nickname =
      if Packet.request buf = some .serverEnter ∧ found = none then
        Packet.nickname buf ++ c.nickname.drop (Packet.nickname buf).length
      else c.nickname := by
  unfold handleIf handle
  cases Packet.request buf with
  | none => rfl
  | some r =>
    cases r with
    | serverEnter =>
      by_cases hfound : found = none <;> simp [hfound, UserInfo.setNickname]
    | roomEnter => exact UserInfo.nickname_enterRoom c _
    | roomExit => exact UserInfo.nickname_exitRoom c
    | serverExit | chatBroadcast | chatMulticast | chatUnicast => rfl

theorem padded_handleIf {c : UserInfo} (hpad : UserInfo.Padded c.nickname) (found : Option Nat)
    (buf : Bytes) : UserInfo.Padded (handleIf found c buf).nickname := by
  rw [nickname_handleIf]
  split
  · rw [UserInfo.padded_append fun b hb => Packet.ne_zero_of_mem_nickname hb]
    exact hpad.drop _
  · exact hpad

def enqueuedIf (found : Option Nat) (index size : Nat) (buf : Bytes) : List PacketInfo :=
  match Packet.request buf, found with
  | some .serverEnter, some _ =>
    [⟨index, 8, .uni, false, Packet.serverMessage Packet.nicknameAlreadyExist⟩]
  | some .chatUnicast, some i =>
    [⟨index, size, .uni, false, buf.take size⟩, ⟨i, size, .uni, false, buf.take size⟩]
  | _, _ => enqueued index size buf

theorem classifiedIf_of_ok {search : Bool} {s s' : ChatServer} {i size : Nat} {buf : Bytes}
    {c : UserInfo} (hc : s.clientMgr.clientInfos[i]? = some c)
    (h : s.classifyPacketIf search (.set i size buf) = .ok s') :
    s' = { s with
      clientMgr := s.clientMgr.setClient i
        (handleIf (s.findNicknameIf search (Packet.nickname buf)) c buf)
      packetQueue := s.packetQueue ++
        enqueuedIf (s.findNicknameIf search (Packet.nickname buf)) i size buf } := by
  have hself := ClientManager.setClient_self hc
  have hbuf : (PacketInfo.set i size buf).packetData = buf := rfl
  have hplain := @classified_of_ok s s' i size buf c hc
  rw [classifyPacketIf, hbuf] at h
  simp only [handleIf, enqueuedIf]
  cases hr : Packet.request buf with
  | none =>
    rw [hr] at h
    exact hplain h
  | some r =>
    rw [hr] at h
    cases r with
    | serverEnter =>
      cases hfound : s.findNicknameIf search (Packet.nickname buf) with
      | none =>
        refine hplain ?_
        rw [classifyPacket, hbuf, hr]
        simp only [processServerEnterIf, hbuf, hfound] at h
        exact h
      | some j =>
        simp only [processServerEnterIf, hbuf, hfound, reduceCtorEq, if_false] at h
        simp only [reduceCtorEq, if_false, hself]
        exact (Except.ok.inj h).symm
    | chatUnicast =>
      cases hfound : s.findNicknameIf search (Packet.nickname buf) with
      | none =>
        refine hplain ?_
        rw [classifyPacket, hbuf, hr]
        simp only [processChatUnicastIf, hbuf, hfound] at h
        exact h
      | some j =>
        simp only [processChatUnicastIf, hbuf, hfound] at h
        simp only [handle, hr, hself]
        rw [← Except.ok.inj h]
        simp [enqueuePacket, PacketInfo.set, PacketInfo.copy]
    | serverExit | roomEnter | roomExit | chatBroadcast | chatMulticast => exact hplain h

theorem length_of_classifyPacketIf {search : Bool} {s s' : ChatServer} {i size : Nat} {buf : Bytes}
    (h : s.classifyPacketIf search (.set i size buf) = .ok s')
    (hr : Packet.request buf = some .serverEnter)
    (hfound : s.findNicknameIf search (Packet.nickname buf) = none) :
    (Packet.nickname buf).length ≤ UserInfo.maxNicknameLen := by
  have hbuf : (PacketInfo.set i size buf).packetData = buf := rfl
  rw [classifyPacketIf, hbuf, hr] at h
  simp only [processServerEnterIf, hbuf, hfound, if_true, setNickname] at h
  split at h
  · contradiction
  · rename_i hlength
    exact Nat.le_of_not_lt hlength

theorem findNicknameIf_congr {search : Bool} {s s' : ChatServer}
    (hcap : s'.clientMgr.currentCapacity = s.clientMgr.currentCapacity)
    (h : ∀ nickname i, s'.hasNickname nickname i = s.hasNickname nickname i) :
    s'.findNicknameIf search = s.findNicknameIf search := by
  funext nickname
  cases search with
  | false => rfl
  | true =>
    have htest := funext (h nickname)
    change s'.searchNickname nickname = s.searchNickname nickname
    rw [searchNickname, searchNickname, htest, hcap]

theorem hasNickname_setClient {s : ChatServer} {i : Nat} {c c' : UserInfo}
    (hc : s.clientMgr.clientInfos[i]? = some c) (nickname : Bytes) (j : Nat) :
    { s with clientMgr := s.clientMgr.setClient i c' }.hasNickname nickname j =
      if j = i then decide (c'.isConnected = true ∧ c'.nicknameString = nickname)
      else s.hasNickname nickname j := by
  by_cases hj : j = i
  · subst hj
    rw [if_pos rfl, hasNickname, ClientManager.getElem?_setClient_self hc]
    rfl
  · rw [if_neg hj, hasNickname, ClientManager.getElem?_setClient_of_ne hj]
    rfl

theorem findNicknameIf_received {search : Bool} {s : ChatServer} {i : Nat} {c : UserInfo}
    (hc : s.clientMgr.clientInfos[i]? = some c) (data : Bytes) :
    { s with clientMgr := s.clientMgr.setClient i (c.received data) }.findNicknameIf search =
      s.findNicknameIf search := by
  refine findNicknameIf_congr rfl fun nickname j => ?_
  rw [hasNickname_setClient hc]
  split
  · rename_i hj
    subst hj
    rw [hasNickname, hc]
    rfl
  · rfl

abbrev found (search : Bool) (s : ChatServer) (buf : Bytes) : Option Nat :=
  s.findNicknameIf search (Packet.nickname buf)

structure ReceivedIf (search : Bool) (s : ChatServer) (index : Nat) (data : Bytes) (bound : Bool)
    (s' : ChatServer) : Prop where
  size : data ≠ [] ∧ data.length ≤ maxSockbuf
  client : ∃ c, s.clientMgr.clientInfos[index]? = some c ∧
    s' = { s with
      clientMgr := s.clientMgr.setClient index
        ((handleIf (s.found search (c.received data).recvBuf) (c.received data)
          (c.received data).recvBuf).posted bound).2
      packetQueue := s.packetQueue ++ enqueuedIf (s.found search (c.received data).recvBuf) index
        data.length (c.received data).recvBuf }
  fits : ∀ c, s.clientMgr.clientInfos[index]? = some c →
    Packet.request (c.received data).recvBuf = some .serverEnter →
      s.found search (c.received data).recvBuf = none →
        (Packet.nickname (c.received data).recvBuf).length ≤ UserInfo.maxNicknameLen

theorem receivedIf_of_ok {search : Bool} {s s' : ChatServer} {index : Nat} {data : Bytes}
    {bound : Bool} (h : s.receiveIf search index data bound = .ok s') :
    ReceivedIf search s index data bound s' := by
  obtain ⟨hsize, c, t, m, hc, ht, hm, rfl⟩ :=
    exists_client_of_receive (f := onReceiveIf search) h
  have hset := ClientManager.getElem?_setClient_self hc
  have hfits := length_of_classifyPacketIf ht
  obtain rfl := classifiedIf_of_ok (hset _) ht
  simp only [ClientManager.setClient_setClient, bindRecv_eq (hset _), findNicknameIf_received hc,
    Except.ok.injEq] at hm hfits
  subst hm
  refine ⟨hsize, ⟨c, hc, ?_⟩, fun c' hc' => ?_⟩
  · simp only [findNicknameIf_received hc]
  · cases hc'.symm.trans hc
    exact hfits

theorem isConnected_received (found : Option Nat) (c : UserInfo) (data buf : Bytes)
    (bound : Bool) :
    ((handleIf found (c.received data) buf).posted bound).2.isConnected =
      (c.isConnected && bound) := by
  cases bound with
  | true =>
    rw [Bool.and_true]
    exact isConnected_handleIf found (c.received data) buf
  | false => simp [UserInfo.posted]

theorem index_received (found : Option Nat) (c : UserInfo) (data buf : Bytes) (bound : Bool) :
    ((handleIf found (c.received data) buf).posted bound).2.index = c.index := by
  rw [UserInfo.index_posted]
  exact index_handleIf found (c.received data) buf

theorem ReceivedIf.sized {search : Bool} {s s' : ChatServer} {index : Nat} {data : Bytes}
    {bound : Bool} (hs : ReceivedIf search s index data bound s') (h : s.clientMgr.Sized) :
    s'.clientMgr.Sized := by
  obtain ⟨c, hc, rfl⟩ := hs.client
  exact h.setClient hc (index_received ..)

theorem sized_of_stepIf {search : Bool} {s s' : ChatServer} (h : s.clientMgr.Sized) {a : Action}
    (hs : s.stepIf search a = .ok s') : s'.clientMgr.Sized := by
  cases a with
  | accept socket outcome =>
    obtain ⟨created, m, hm, rfl⟩ := created_of_accept h hs
    exact h.created hm
  | receive index data bound => exact (receivedIf_of_ok hs).sized h
  | close index =>
    obtain ⟨c, hc, rfl⟩ := closed_of_ok hs
    exact h.closeClientAt hc
  | run failed => exact (loses_of_run hs).1.sized h

end ChatServer

end ChattingServer.V10
