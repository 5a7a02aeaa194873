import ChattingServer.V10.Server.PacketManager
import ChattingServer.V10.Server.SlotPool

namespace ChattingServer.V10

open Lib

namespace ClientManager

theorem setClient_self {s : ClientManager} {i : Nat} {c : UserInfo}
    (h : s.clientInfos[i]? = some c) : s.setClient i c = s := by
  obtain ⟨hi, rfl⟩ := List.getElem?_eq_some_iff.mp h
  simp [setClient]

theorem setClient_setClient (s : ClientManager) (i : Nat) (c c' : UserInfo) :
    (s.setClient i c).setClient i c' = s.setClient i c' := by
  simp [setClient]

theorem getElem?_setClient_self {s : ClientManager} {i : Nat} {c : UserInfo}
    (h : s.clientInfos[i]? = some c) (c' : UserInfo) :
    (s.setClient i c').clientInfos[i]? = some c' :=
  List.getElem?_set_self (List.getElem?_eq_some_iff.mp h).1

theorem getElem?_setClient_of_ne {s : ClientManager} {i j : Nat} (h : j ≠ i) (c' : UserInfo) :
    (s.setClient i c').clientInfos[j]? = s.clientInfos[j]? :=
  List.getElem?_set_ne (Ne.symm h)

structure Evolves (s s' : ClientManager) : Prop where
  sized : Sized s'
  capacity : s.currentCapacity ≤ s'.currentCapacity
  rooms : ∀ {i : Nat} {c : UserInfo}, s.clientInfos[i]? = some c →
    ∃ c', s'.clientInfos[i]? = some c' ∧ c'.room = c.room ∧ c'.prevRoom = c.prevRoom

theorem Evolves.refl {s : ClientManager} (h : Sized s) : Evolves s s :=
  ⟨h, Nat.le_refl _, fun hc => ⟨_, hc, rfl, rfl⟩⟩

theorem Evolves.trans {s s' s'' : ClientManager} (h : Evolves s s') (h' : Evolves s' s'') :
    Evolves s s'' where
  sized := h'.sized
  capacity := Nat.le_trans h.capacity h'.capacity
  rooms hc := by
    obtain ⟨c', hc', hroom, hprev⟩ := h.rooms hc
    obtain ⟨c'', hc'', hroom', hprev'⟩ := h'.rooms hc'
    exact ⟨c'', hc'', hroom'.trans hroom, hprev'.trans hprev⟩

theorem rooms_close (c : UserInfo) : c.close.room = c.room ∧ c.close.prevRoom = c.prevRoom := by
  unfold UserInfo.close
  split <;> exact ⟨rfl, rfl⟩

theorem rooms_posted (c : UserInfo) (posted : Bool) :
    (c.posted posted).2.room = c.room ∧ (c.posted posted).2.prevRoom = c.prevRoom := by
  cases posted with
  | true => exact ⟨rfl, rfl⟩
  | false => exact rooms_close c

theorem rooms_connect (c : UserInfo) (socket : Socket) (outcome : ConnectOutcome) :
    (c.connect socket outcome).2.room = c.room ∧
      (c.connect socket outcome).2.prevRoom = c.prevRoom := by
  cases outcome with
  | connected | bindFailed => exact ⟨rfl, rfl⟩
  | recvFailed =>
    have h := rooms_close { c with socketClient := some socket }
    have h' := rooms_close { c with socketClient := some socket }.close
    exact ⟨h'.1.trans h.1, h'.2.trans h.2⟩

theorem Evolves.setClient {s t : ClientManager} (h : Evolves s t) {i : Nat} {c c' : UserInfo}
    (hc : t.clientInfos[i]? = some c) (hindex : c'.index = c.index) (hroom : c'.room = c.room)
    (hprev : c'.prevRoom = c.prevRoom) : Evolves s (t.setClient i c') := by
  refine h.trans ⟨h.sized.setClient hc hindex, Nat.le_refl _, fun {j x} hj => ?_⟩
  by_cases hji : j = i
  · subst hji
    rw [hc] at hj
    cases hj
    exact ⟨c', getElem?_setClient_self hc c', hroom, hprev⟩
  · exact ⟨x, (getElem?_setClient_of_ne hji c').trans hj, rfl, rfl⟩

theorem Evolves.grow {s : ClientManager} (h : Sized s) : Evolves s s.grow := by
  refine ⟨h.grow, le_currentCapacity_grow h, fun {i c} hc => ⟨c, ?_, rfl, rfl⟩⟩
  unfold ClientManager.grow
  split
  · rw [getElem?_addClients h.length, if_pos, hc]
    exact h.lt_length.mp (List.getElem?_eq_some_iff.mp hc).1
  · exact hc

theorem Evolves.stepped {s s' : ClientManager} (h : Sized s) {a : Action} (hs : Stepped s a s') :
    Evolves s s' := by
  have hsized := h.stepped hs
  cases hs with
  | @createClient socket outcome created s' hc =>
    cases hc with
    | full => exact .refl h
    | @slot i emptyClients c hnot front client =>
      have hconn := rooms_connect c socket outcome
      have hset := (Evolves.grow h).setClient client (UserInfo.index_connect ..) hconn.1 hconn.2
      exact ⟨hsized, hset.capacity, hset.rooms⟩
  | @close a i c hc action =>
    unfold ClientManager.closeClientAt at hsized ⊢
    split
    · exact .refl h
    · rename_i hup
      rw [if_neg hup] at hsized
      have hclose := rooms_close c
      have hset := (Evolves.refl h).setClient hc (UserInfo.index_close _) hclose.1 hclose.2
      exact ⟨hsized, hset.capacity, hset.rooms⟩
  | @post a i c hc posted action =>
    have hposted := rooms_posted c posted
    exact (Evolves.refl h).setClient hc (UserInfo.index_posted ..) hposted.1 hposted.2

theorem Sized.exists_client {s : ClientManager} (h : Sized s) {i : Nat}
    (hi : i < s.currentCapacity) : ∃ c, s.clientInfos[i]? = some c :=
  ⟨_, List.getElem?_eq_getElem (h.lt_length.mpr hi)⟩

end ClientManager

namespace ChatServer

def handle (c : UserInfo) (buf : Bytes) : UserInfo :=
  match Packet.request buf with
  | some .serverEnter => c.setNickname (Packet.nickname buf)
  | some .roomEnter => (c.enterRoom (Packet.roomNo buf)).2
  | some .roomExit => c.exitRoom.2
  | _ => c

theorem toClientInfo_handle (c : UserInfo) (buf : Bytes) :
    (handle c buf).toClientInfo = c.toClientInfo := by
  unfold handle
  cases Packet.request buf with
  | none => rfl
  | some r =>
    cases r with
    | roomEnter => exact UserInfo.toClientInfo_enterRoom c _
    | roomExit => exact UserInfo.toClientInfo_exitRoom c
    | _ => rfl

theorem index_handle (c : UserInfo) (buf : Bytes) : (handle c buf).index = c.index :=
  congrArg ClientInfo.index (toClientInfo_handle c buf)

theorem isConnected_congr {c c' : UserInfo} (h : c'.toClientInfo = c.toClientInfo) :
    c'.isConnected = c.isConnected :=
  congrArg (fun c => c.socketClient.isSome) h

def enqueued (index size : Nat) (buf : Bytes) : List PacketInfo :=
  let multi : PacketInfo := ⟨index, size, .multi, false, buf.take size⟩
  let reply (message : Nat) : PacketInfo := ⟨index, 8, .uni, false, Packet.serverMessage message⟩
  match Packet.request buf with
  | some .serverEnter => [reply Packet.nicknameCreated]
  | some .serverExit => [{ multi with isClose := true }]
  | some .roomEnter | some .roomExit | some .chatMulticast => [multi]
  | some .chatBroadcast => [{ multi with sendType := .broad }]
  | some .chatUnicast => [reply Packet.nicknameNotFound]
  | none => []

theorem updateClient_eq {s : ChatServer} {i : Nat} {c : UserInfo}
    (hc : s.clientMgr.clientInfos[i]? = some c) (f : UserInfo → UserInfo) :
    s.updateClient i f = .ok { s with clientMgr := s.clientMgr.setClient i (f c) } := by
  rw [updateClient, ClientManager.getClientByIndex_ok_iff.mpr hc, ok_bind, pure_eq_ok]

theorem classified_of_ok {s s' : ChatServer} {i size : Nat} {buf : Bytes} {c : UserInfo}
    (hc : s.clientMgr.clientInfos[i]? = some c)
    (h : s.classifyPacket (.set i size buf) = .ok s') :
    s' = { s with
      clientMgr := s.clientMgr.setClient i (handle c buf)
      packetQueue := s.packetQueue ++ enqueued i size buf } := by
  have hself := ClientManager.setClient_self hc
  have hbuf : (PacketInfo.set i size buf).packetData = buf := rfl
  rw [classifyPacket, hbuf] at h
  simp only [handle, enqueued]
  cases hr : Packet.request buf with
  | none =>
    rw [hr] at h
    simp only [hself, List.append_nil]
    exact (Except.ok.inj h).symm
  | some r =>
    rw [hr] at h
    cases r with
    | serverEnter =>
      simp only [processServerEnter, findNickname, if_true, setNickname, hbuf] at h
      split at h
      · contradiction
      · rw [PacketInfo.set, updateClient_eq hc] at h
        exact (Except.ok.inj h).symm
    | roomEnter =>
      simp only [processRoomEnter, PacketInfo.set, updateClient_eq hc, ok_bind] at h
      exact (Except.ok.inj h).symm
    | roomExit =>
      simp only [processRoomExit, PacketInfo.set, updateClient_eq hc, ok_bind] at h
      exact (Except.ok.inj h).symm
    | serverExit | chatBroadcast | chatMulticast | chatUnicast =>
      simp only [hself]
      exact (Except.ok.inj h).symm

structure Received (s : ChatServer) (index : Nat) (data : Bytes) (bound : Bool) (s' : ChatServer) :
    Prop where
  size : data ≠ [] ∧ data.length ≤ maxSockbuf
  client : ∃ c, s.clientMgr.clientInfos[index]? = some c ∧
    s' = { s with
      clientMgr := s.clientMgr.setClient index
        ((handle (c.received data) (c.received data).recvBuf).posted bound).2
      packetQueue := s.packetQueue ++ enqueued index data.length (c.received data).recvBuf }

theorem bindRecv_eq {s : ClientManager} {i : Nat} {c : UserInfo} (hc : s.clientInfos[i]? = some c)
    (bound : Bool) : s.bindRecv i bound = .ok (s.setClient i (c.posted bound).2) := by
  simp only [ClientManager.bindRecv, ClientManager.post,
    ClientManager.getClientByIndex_ok_iff.mpr hc, ok_bind, pure_eq_ok]

theorem exists_client_of_receive {s s' : ChatServer} {index : Nat} {data : Bytes} {bound : Bool}
    {f : ChatServer → Nat → Nat → Bytes → Except Fault ChatServer}
    (h : (do
      if data = [] ∨ maxSockbuf < data.length then throw .disabled
      let s ← s.updateClient index (·.received data)
      let c ← s.clientMgr.getClientByIndex index
      let s ← f s index data.length c.recvBuf
      let clientMgr ← s.clientMgr.bindRecv index bound
      return { s with clientMgr } : Except Fault ChatServer) = .ok s') :
    (data ≠ [] ∧ data.length ≤ maxSockbuf) ∧ ∃ c t m, s.clientMgr.clientInfos[index]? = some c ∧
      f { s with clientMgr := s.clientMgr.setClient index (c.received data) } index
        data.length (c.received data).recvBuf = .ok t ∧
      t.clientMgr.bindRecv index bound = .ok m ∧ s' = { t with clientMgr := m } := by
  split at h
  · contradiction
  · rename_i hsize
    simp only [not_or, Nat.not_lt] at hsize
    cases hc : s.clientMgr.clientInfos[index]? with
    | none =>
      simp [updateClient, ClientManager.getClientByIndex, hc, bind, Except.bind] at h
    | some c =>
      have hset := ClientManager.getElem?_setClient_self hc (c.received data)
      simp only [pure_eq_ok, ok_bind, updateClient_eq hc,
        ClientManager.getClientByIndex_ok_iff.mpr hset, bind_eq_ok_iff] at h
      obtain ⟨t, ht, m, hm, hs⟩ := h
      exact ⟨hsize, c, t, m, rfl, ht, hm, (Except.ok.inj hs).symm⟩

theorem received_of_ok {s s' : ChatServer} {index : Nat} {data : Bytes} {bound : Bool}
    (h : s.receive index data bound = .ok s') : Received s index data bound s' := by
  obtain ⟨hsize, c, t, m, hc, ht, hm, rfl⟩ := exists_client_of_receive h
  have hset := ClientManager.getElem?_setClient_self hc
  obtain rfl := classified_of_ok (hset _) ht
  simp only [ClientManager.setClient_setClient, bindRecv_eq (hset _), Except.ok.injEq] at hm
  subst hm
  exact ⟨hsize, c, hc, rfl⟩

def Overlong (buf : Bytes) : Prop :=
  Packet.request buf = some .serverEnter ∧ UserInfo.maxNicknameLen < (Packet.nickname buf).length

instance : DecidablePred Overlong := fun _ => inferInstanceAs (Decidable (_ ∧ _))

theorem classifyPacket_of_overlong (s : ChatServer) (i size : Nat) {buf : Bytes}
    (h : Overlong buf) : s.classifyPacket (.set i size buf) = .error .outOfRange := by
  have hbuf : (PacketInfo.set i size buf).packetData = buf := rfl
  simp only [classifyPacket, hbuf, h.1, processServerEnter, findNickname, if_true, setNickname,
    if_pos h.2, bind, Except.bind]

theorem exists_classifyPacket {s : ChatServer} {i : Nat} {c : UserInfo}
    (hc : s.clientMgr.clientInfos[i]? = some c) (size : Nat) {buf : Bytes} (h : ¬ Overlong buf) :
    ∃ s', s.classifyPacket (.set i size buf) = .ok s' := by
  have hbuf : (PacketInfo.set i size buf).packetData = buf := rfl
  rw [classifyPacket, hbuf]
  cases hr : Packet.request buf with
  | none => exact ⟨_, rfl⟩
  | some r =>
    cases r with
    | serverEnter =>
      have hshort : ¬ UserInfo.maxNicknameLen < (Packet.nickname buf).length :=
        fun hlt => h ⟨hr, hlt⟩
      simp only [processServerEnter, findNickname, if_true, setNickname, hbuf, if_neg hshort]
      rw [PacketInfo.set, updateClient_eq hc]
      exact ⟨_, rfl⟩
    | roomEnter =>
      simp only [processRoomEnter, PacketInfo.set, updateClient_eq hc, ok_bind]
      exact ⟨_, rfl⟩
    | roomExit =>
      simp only [processRoomExit, PacketInfo.set, updateClient_eq hc, ok_bind]
      exact ⟨_, rfl⟩
    | serverExit | chatBroadcast | chatMulticast | chatUnicast => exact ⟨_, rfl⟩

theorem receive_eq {s : ChatServer} {i : Nat} {c : UserInfo}
    (hc : s.clientMgr.clientInfos[i]? = some c) {data : Bytes} (hne : data ≠ [])
    (hle : data.length ≤ maxSockbuf) (bound : Bool) :
    s.receive i data bound =
      if Overlong (c.received data).recvBuf then .error .outOfRange
      else .ok { s with
        clientMgr := s.clientMgr.setClient i
          ((handle (c.received data) (c.received data).recvBuf).posted bound).2
        packetQueue := s.packetQueue ++ enqueued i data.length (c.received data).recvBuf } := by
  have hset := ClientManager.getElem?_setClient_self hc
  have hsize : ¬ (data = [] ∨ maxSockbuf < data.length) := by
    rintro (h | h)
    · exact hne h
    · omega
  simp only [receive, if_neg hsize, pure_eq_ok, ok_bind, updateClient_eq hc, onReceive,
    ClientManager.getClientByIndex_ok_iff.mpr (hset (c.received data))]
  split
  · rw [classifyPacket_of_overlong _ _ _ ‹_›]
    rfl
  · obtain ⟨t, ht⟩ := exists_classifyPacket (s := { s with
      clientMgr := s.clientMgr.setClient i (c.received data) }) (hset _) data.length ‹_›
    rw [ht, ok_bind]
    obtain rfl := classified_of_ok (hset _) ht
    simp only [ClientManager.setClient_setClient, bindRecv_eq (hset _), ok_bind]

theorem getElem?_init : (init 4).clientMgr.clientInfos[0]? = some (.new 0) := by rfl

theorem created_of_accept {s s' : ChatServer} (h : s.clientMgr.Sized) {socket : Socket}
    {outcome : ConnectOutcome} (hs : s.accept socket outcome = .ok s') :
    ∃ created m, ClientManager.Created s.clientMgr socket outcome created m ∧
      s' = { s with clientMgr := m } := by
  simp only [accept, bind_eq_ok_iff, Prod.exists] at hs
  obtain ⟨created, m, hm, hs⟩ := hs
  exact ⟨created, m, ClientManager.created_of_ok h hm, (Except.ok.inj hs).symm⟩

theorem closed_of_ok {s s' : ChatServer} {i : Nat} (hs : s.close i = .ok s') :
    ∃ c, s.clientMgr.clientInfos[i]? = some c ∧
      s' = { s with clientMgr := s.clientMgr.closeClientAt i i c } := by
  simp only [close, ClientManager.closeClient, bind_eq_ok_iff,
    ClientManager.getClientByIndex_ok_iff] at hs
  obtain ⟨_, ⟨c, hc, hm⟩, hs⟩ := hs
  rw [← Except.ok.inj hm] at hs
  exact ⟨c, hc, (Except.ok.inj hs).symm⟩

/-! Casts -/

def castSends (m : ClientManager) (p : PacketInfo) (test : UserInfo → Bool)
    (ioType : Nat → IOOperation) (is : List Nat) : List Send :=
  is.filterMap fun i => m.clientInfos[i]?.bind fun c =>
    if test c then some ⟨i, c.socketClient, p.packetData.take p.dataSize, ioType i⟩ else none

theorem mem_castSends {m : ClientManager} {p : PacketInfo} {test : UserInfo → Bool}
    {ioType : Nat → IOOperation} {is : List Nat} {x : Send} :
    x ∈ castSends m p test ioType is ↔
      ∃ i ∈ is, ∃ c, m.clientInfos[i]? = some c ∧ test c = true ∧
        x = ⟨i, c.socketClient, p.packetData.take p.dataSize, ioType i⟩ := by
  simp only [castSends, List.mem_filterMap, Option.bind_eq_some_iff]
  refine exists_congr fun i => and_congr_right fun _ => exists_congr fun c =>
    and_congr_right fun _ => ?_
  cases test c <;> simp [eq_comm]

theorem filter_castSends {m : ClientManager} {p : PacketInfo} {test : UserInfo → Bool}
    {ioType : Nat → IOOperation} {is : List Nat} (hnodup : is.Nodup) (i : Nat) :
    (castSends m p test ioType is).filter (·.index = i) =
      if i ∈ is then castSends m p test ioType [i] else [] := by
  have single : ∀ j, ∀ send ∈ castSends m p test ioType [j], send.index = j := by
    intro j send hsend
    obtain ⟨k, hk, c, -, -, rfl⟩ := mem_castSends.mp hsend
    exact List.mem_singleton.mp hk
  induction is with
  | nil => rfl
  | cons j is ih =>
    obtain ⟨hnot, hnodup⟩ := List.nodup_cons.mp hnodup
    have hcons : castSends m p test ioType (j :: is) =
        castSends m p test ioType [j] ++ castSends m p test ioType is := by
      rw [castSends, castSends, castSends, ← List.filterMap_append]
      rfl
    rw [hcons, List.filter_append, ih hnodup]
    by_cases hij : i = j
    · subst hij
      have hall : (castSends m p test ioType [i]).filter (·.index = i) =
          castSends m p test ioType [i] :=
        List.filter_eq_self.mpr fun send hsend => decide_eq_true (single i send hsend)
      rw [hall, if_neg hnot, if_pos List.mem_cons_self, List.append_nil]
    · have hnone : (castSends m p test ioType [j]).filter (·.index = i) = [] :=
        List.filter_eq_nil_iff.mpr fun send hsend => by
          simpa [single j send hsend] using Ne.symm hij
      rw [hnone, List.nil_append]
      simp only [List.mem_cons, hij, false_or]

theorem castSends_singleton {m : ClientManager} {p : PacketInfo} {test : UserInfo → Bool}
    {ioType : Nat → IOOperation} {i : Nat} {c : UserInfo} (hc : m.clientInfos[i]? = some c) :
    castSends m p test ioType [i] =
      if test c then [⟨i, c.socketClient, p.packetData.take p.dataSize, ioType i⟩] else [] := by
  cases htest : test c <;> simp [castSends, hc, htest]

theorem castSends_setClient {m : ClientManager} {p : PacketInfo} {test : UserInfo → Bool}
    {ioType : Nat → IOOperation} {is : List Nat} {i : Nat} (h : i ∉ is) (c : UserInfo) :
    castSends (m.setClient i c) p test ioType is = castSends m p test ioType is := by
  refine List.filterMap_congr fun j hj => ?_
  rw [ClientManager.getElem?_setClient_of_ne (ne_of_mem_of_not_mem hj h)]

theorem sendMsg_eq {s : ChatServer} {i : Nat} {c : UserInfo}
    (hc : s.clientMgr.clientInfos[i]? = some c) (p : PacketInfo) (ioType : IOOperation)
    (sent : Bool) :
    s.sendMsg i p ioType sent = .ok { s with
      clientMgr := s.clientMgr.setClient i (c.posted sent).2
      sends := s.sends ++ [⟨i, c.socketClient, p.packetData.take p.dataSize, ioType⟩] } := by
  simp only [sendMsg, ClientManager.sendMsg, ClientManager.post,
    ClientManager.getClientByIndex_ok_iff.mpr hc, ok_bind, pure_eq_ok]

theorem castLoop_ok {s : ChatServer} (hsize : s.clientMgr.Sized) (p : PacketInfo)
    (test : UserInfo → Bool) (ioType : Nat → IOOperation) (failed : List Nat) {is : List Nat}
    (hnodup : is.Nodup) (his : ∀ i ∈ is, i < s.clientMgr.currentCapacity) :
    ∃ m, s.clientMgr.Evolves m ∧ castLoop p test ioType failed is s =
      .ok { s with
        clientMgr := m, sends := s.sends ++ castSends s.clientMgr p test ioType is } := by
  induction is generalizing s with
  | nil => exact ⟨s.clientMgr, .refl hsize, by simp [castLoop, castSends]⟩
  | cons i is ih =>
    obtain ⟨hnot, hnodup⟩ := List.nodup_cons.mp hnodup
    obtain ⟨c, hc⟩ := hsize.exists_client (his i List.mem_cons_self)
    have hrest := fun j hj => his j (List.mem_cons_of_mem _ hj)
    rw [castLoop, ClientManager.getClientByIndex_ok_iff.mpr hc, ok_bind]
    cases htest : test c with
    | false =>
      obtain ⟨m, hm, hok⟩ := ih hsize hnodup hrest
      refine ⟨m, hm, ?_⟩
      simp only [Bool.false_eq_true, if_false, pure_eq_ok, ok_bind, hok]
      simp [castSends, hc, htest]
    | true =>
      have hpost : s.clientMgr.Evolves (s.clientMgr.setClient i (c.posted (i ∉ failed)).2) :=
        .stepped hsize (.post hc _ (.inl rfl))
      obtain ⟨m, hm, hok⟩ := ih (s := { s with
        clientMgr := s.clientMgr.setClient i (c.posted (i ∉ failed)).2
        sends := s.sends ++ [⟨i, c.socketClient, p.packetData.take p.dataSize, ioType i⟩] })
        hpost.sized hnodup hrest
      refine ⟨m, hpost.trans hm, ?_⟩
      simp only [if_true, sendMsg_eq hc, ok_bind, hok, castSends_setClient hnot]
      simp [castSends, hc, htest]

end ChatServer

end ChattingServer.V10
