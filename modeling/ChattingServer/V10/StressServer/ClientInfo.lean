import ChattingServer.V10.Client.Fields
import ChattingServer.V10.Server.Requests

namespace ChattingServer.V10.StressServer

open Lib Client

/-! What `StressServer` sends.  Its `Packet.h` is that of the chat client. -/

structure ClientInfo where
  nickname : Bytes
  index : Nat

/-- The `SERVER_ENTER_PACKET` of `InitPacket`, of which the header is not counted in what is sent -/
def serverPacket (name : Bytes) (stack : Memory UInt8) : Outgoing :=
  let name := cString name 0
  let length := uint16 (uint16 name.length + 1)
  let packet := stack.write 0 (LittleEndian.toBytes 2 length)
  let packet := packet.write 4 ((name ++ [0]).take length)
  let packet := packet.write 2 (LittleEndian.toBytes 2 Client.Action.serverEnter.code)
  ⟨packet, 36, [⟨maxNicknameLen, 0, length⟩], [], length⟩

def roomPacket (name : Bytes) (index : Nat) (stack : Memory UInt8) : Outgoing :=
  let name := cString name 0
  let packet := stack.write 2 (LittleEndian.toBytes 2 Client.Action.roomEnter.code)
  let packet := packet.write 36 (LittleEndian.toBytes 4 (index % 5 + 1))
  let packet := packet.write 4 (name ++ [0])
  let packet := packet.write 0 (LittleEndian.toBytes 2 name.length)
  ⟨packet, 40, [⟨maxNicknameLen, 0, name.length + 1⟩], [], 40⟩

def ClientInfo.initPacket (c : ClientInfo) (name : Bytes) (stack : Nat → Memory UInt8) :
    ClientInfo × List Outgoing :=
  ({ c with nickname := name }, [serverPacket name (stack 0), roomPacket name c.index (stack 1)])

/-- The `CHAT_PACKET` of one turn of `SenderThread`, of which the header is not counted either -/
def senderPacket (castType : Nat) (nickname content : Bytes) (stack : Memory UInt8) : Outgoing :=
  let nickname := cString nickname 0
  let content := cString content 0
  let length := uint16 (maxNicknameLen + content.length)
  let type := if castType = 0 then Client.Action.chatBroadcast else Client.Action.chatMulticast
  let packet := stack.write chatSender (nickname ++ [0])
  let packet := packet.write chatContent (content ++ [0])
  let packet := packet.write 0 (LittleEndian.toBytes 2 length)
  let packet := packet.write 2 (LittleEndian.toBytes 2 type.code)
  ⟨packet, chatPacketLength,
    [⟨maxNicknameLen, 0, nickname.length + 1⟩, ⟨maxContentLen, 0, content.length + 1⟩], content,
    length⟩

/-! What the chat server makes of the bytes -/

structure Fresh (c : UserInfo) : Prop where
  recvBuf : c.recvBuf = List.replicate maxSockbuf 0
  nickname : c.nickname = List.replicate UserInfo.maxNicknameLen 0

def Stores (s : ChatServer) (i : Nat) (bytes nickname : Bytes) : Prop :=
  ∃ s' c', s.receive i bytes true = .ok s' ∧ s'.clientMgr.clientInfos[i]? = some c' ∧
    c'.nicknameString = nickname

def Relays (s : ChatServer) (i : Nat) (bytes : Bytes) (sendType : SendType) (content : Bytes) :
    Prop :=
  ∃ s' p, s.receive i bytes true = .ok s' ∧ s'.packetQueue = s.packetQueue ++ [p] ∧
    p.sendType = sendType ∧ (p.packetData.take p.dataSize).drop chatContent = content

open ChatServer

theorem Fresh.received {c : UserInfo} (h : Fresh c) (m : Bytes) :
    (c.received m).recvBuf = m ++ List.replicate (maxSockbuf - m.length) 0 := by
  simp only [UserInfo.received, h.recvBuf, List.drop_replicate]

theorem stores_iff {s : ChatServer} {i : Nat} {c : UserInfo}
    (hc : s.clientMgr.clientInfos[i]? = some c) {m : Bytes} (hne : m ≠ [])
    (hle : m.length ≤ maxSockbuf) (nickname : Bytes) :
    Stores s i m nickname ↔ ¬ Overlong (c.received m).recvBuf ∧
      (handle (c.received m) (c.received m).recvBuf).nicknameString = nickname := by
  have hset := ClientManager.getElem?_setClient_self hc
  constructor
  · rintro ⟨s', c', hs, hc', rfl⟩
    rw [receive_eq hc hne hle] at hs
    split at hs
    · cases hs
    · obtain rfl := Except.ok.inj hs
      obtain rfl := Option.some.inj ((hset _).symm.trans hc')
      exact ⟨‹_›, rfl⟩
  · rintro ⟨hover, rfl⟩
    exact ⟨_, _, by rw [receive_eq hc hne hle, if_neg hover], hset _, rfl⟩

theorem relays_iff {s : ChatServer} {i : Nat} {c : UserInfo}
    (hc : s.clientMgr.clientInfos[i]? = some c) {m : Bytes} (hne : m ≠ [])
    (hle : m.length ≤ maxSockbuf) (sendType : SendType) (content : Bytes) :
    Relays s i m sendType content ↔ ¬ Overlong (c.received m).recvBuf ∧
      ∃ p, enqueued i m.length (c.received m).recvBuf = [p] ∧ p.sendType = sendType ∧
        (p.packetData.take p.dataSize).drop chatContent = content := by
  constructor
  · rintro ⟨s', p, hs, hqueue, hp⟩
    rw [receive_eq hc hne hle] at hs
    split at hs
    · cases hs
    · obtain rfl := Except.ok.inj hs
      exact ⟨‹_›, p, List.append_cancel_left hqueue, hp⟩
  · rintro ⟨hover, p, hp, hrest⟩
    exact ⟨_, p, by rw [receive_eq hc hne hle, if_neg hover], by rw [hp], hrest⟩

theorem takeWhile_append_zeros (l : Bytes) (n : Nat) :
    (l ++ List.replicate n 0).takeWhile (· ≠ 0) = l.takeWhile (· ≠ 0) := by
  rw [List.takeWhile_append, List.takeWhile_replicate]
  simp only [ne_eq, decide_not, decide_true, Bool.not_true, Bool.false_eq_true, if_false,
    List.append_nil]
  split
  · exact ((List.takeWhile_sublist _).eq_of_length ‹_›).symm
  · rfl

theorem Fresh.packetNickname {c : UserInfo} (h : Fresh c) (m : Bytes) :
    Packet.nickname (c.received m).recvBuf = (m.drop 4).takeWhile (· ≠ 0) := by
  rw [Packet.nickname, h.received, List.drop_append, List.drop_replicate, takeWhile_append_zeros]

theorem Fresh.nicknameString_handle {c : UserInfo} (h : Fresh c) (m : Bytes) :
    (handle (c.received m) (c.received m).recvBuf).nicknameString =
      if Packet.request (c.received m).recvBuf = some .serverEnter then
        (m.drop 4).takeWhile (· ≠ 0)
      else [] := by
  have hzeros : ∀ n, (List.replicate n (0 : UInt8)).takeWhile (· ≠ 0) = [] := fun n => by
    rw [List.takeWhile_replicate]
    rfl
  have hkeep : (c.received m).nicknameString = [] := by
    rw [UserInfo.nicknameString]
    exact (congrArg _ h.nickname).trans (hzeros _)
  unfold handle
  cases hr : Packet.request (c.received m).recvBuf with
  | none => exact hkeep
  | some r =>
    cases r with
    | serverEnter =>
      change (Packet.nickname _ ++ List.drop _ c.nickname).takeWhile _ = _
      rw [h.nickname, List.drop_replicate, takeWhile_append_zeros, h.packetNickname, if_pos rfl,
        List.takeWhile_takeWhile]
      simp
    | roomEnter =>
      rw [UserInfo.nicknameString, UserInfo.nickname_enterRoom]
      exact hkeep
    | roomExit =>
      rw [UserInfo.nicknameString, UserInfo.nickname_exitRoom]
      exact hkeep
    | _ => exact hkeep

theorem length_le_of_stores {s : ChatServer} {i : Nat} {c : UserInfo}
    (hc : s.clientMgr.clientInfos[i]? = some c) (hfresh : Fresh c) {m nickname : Bytes}
    (h : Stores s i m nickname) : nickname.length ≤ m.length - 4 := by
  obtain ⟨s', _, hs, -, -⟩ := id h
  obtain ⟨hne, hle⟩ := (received_of_ok hs).size
  obtain ⟨-, rfl⟩ := (stores_iff hc hne hle _).mp h
  rw [hfresh.nicknameString_handle]
  split
  · exact (List.takeWhile_sublist _).length_le.trans_eq List.length_drop
  · exact Nat.zero_le _

theorem length_le_of_relays {s : ChatServer} {i : Nat} {c : UserInfo}
    (hc : s.clientMgr.clientInfos[i]? = some c) {m : Bytes} {sendType : SendType}
    {content : Bytes} (h : Relays s i m sendType content) (htype : sendType ≠ .uni) :
    content.length ≤ m.length - chatContent := by
  obtain ⟨s', _, hs, -, -⟩ := id h
  obtain ⟨hne, hle⟩ := (received_of_ok hs).size
  obtain ⟨-, p, hp, rfl, rfl⟩ := (relays_iff hc hne hle ..).mp h
  have hsize : p.dataSize ≤ m.length := by
    simp only [enqueued] at hp
    split at hp <;> cases hp
    all_goals first | exact Nat.le_refl _ | exact absurd rfl htype
  rw [List.length_drop, List.length_take]
  omega

/-! The bytes of each side -/

theorem request_bytes {o : Outgoing} {r : Request} (hsent : 4 ≤ o.sent)
    (htype : o.packet.read 2 2 = LittleEndian.toBytes 2 r.code) (rest : Bytes) :
    Packet.request (o.bytes ++ rest) = some r := by
  have hlen : 4 ≤ o.bytes.length := by rwa [Outgoing.bytes, Memory.length_read]
  have hmin : min 2 (o.sent - 2) = 2 := by omega
  have hcode : r.code < 256 ^ 2 := by cases r <;> decide
  rw [Packet.request, Packet.type, List.drop_append_of_le_length (by omega),
    List.take_append_of_le_length (by rw [List.length_drop]; omega), Outgoing.bytes,
    Memory.drop_read, Memory.take_read, hmin, Nat.zero_add, htype,
    LittleEndian.ofBytes_toBytes hcode, Request.ofCode_code]

theorem sent_systemPacket {name : Bytes} (h : name.length ≤ 30) (type : Client.Action)
    (stack : Memory UInt8) : (systemPacket type name stack).sent = name.length + 5 := by
  simp only [systemPacket, packetHeaderLength]
  rw [uint16_of_lt (by omega)]

theorem read_type_systemPacket (type : Client.Action) (name : Bytes) (stack : Memory UInt8) :
    (systemPacket type name stack).packet.read 2 2 = LittleEndian.toBytes 2 type.code := by
  simp only [systemPacket]
  rw [Memory.read_write_of_disjoint (.inr (by rw [LittleEndian.length_toBytes])),
    Memory.read_write_of_disjoint (.inl (by decide))]
  exact Memory.read_write_self stack 2 (LittleEndian.toBytes 2 type.code)

theorem drop_systemPacket {name : Bytes} (h : name.length ≤ 30) (type : Client.Action)
    (stack : Memory UInt8) : (systemPacket type name stack).bytes.drop 4 = name ++ [0] := by
  rw [Outgoing.bytes, sent_systemPacket h, Memory.drop_read, Nat.zero_add]
  simp only [systemPacket]
  rw [Memory.read_write_of_disjoint (.inr (by rw [LittleEndian.length_toBytes]; decide))]
  have hlen : name.length + 5 - 4 = (name ++ [0]).length := by simp
  rw [hlen, Memory.read_write_self]

theorem read_type_castPacket (type : Client.Action) (nickname content : Bytes)
    (stack : Memory UInt8) :
    (castPacket type nickname content stack).packet.read 2 2 =
      LittleEndian.toBytes 2 type.code := by
  simp only [castPacket]
  rw [Memory.read_write_of_disjoint (.inr (by rw [LittleEndian.length_toBytes])),
    Memory.read_write_of_disjoint (.inl (by decide)),
    Memory.read_write_of_disjoint (.inl (by decide))]
  exact Memory.read_write_self stack 2 (LittleEndian.toBytes 2 type.code)

theorem stores_systemPacket {s : ChatServer} {i : Nat} {c : UserInfo}
    (hc : s.clientMgr.clientInfos[i]? = some c) (hfresh : Fresh c) {name : Bytes}
    (hlen : name.length ≤ 30) (hnul : 0 ∉ name) (stack : Memory UInt8) :
    Stores s i (systemPacket .serverEnter name stack).bytes name := by
  have hsize : (systemPacket .serverEnter name stack).bytes.length = name.length + 5 := by
    rw [Outgoing.bytes, Memory.length_read, sent_systemPacket hlen]
  have hstring : ((systemPacket .serverEnter name stack).bytes.drop 4).takeWhile (· ≠ 0) =
      name := by
    rw [drop_systemPacket hlen]
    refine (takeWhile_append_zeros name 1).trans (List.takeWhile_eq_self_iff.mpr fun b hb => ?_)
    simpa using ne_of_mem_of_not_mem hb hnul
  have hreq : ∀ rest, Packet.request ((systemPacket .serverEnter name stack).bytes ++ rest) =
      some .serverEnter :=
    request_bytes (by rw [sent_systemPacket hlen]; omega) (read_type_systemPacket ..)
  refine (stores_iff hc (List.length_pos_iff.mp (by omega)) (by
    have : 35 ≤ maxSockbuf := by decide
    omega) name).mpr ⟨?_, ?_⟩
  · rintro ⟨-, hlong⟩
    rw [hfresh.packetNickname, hstring] at hlong
    exact absurd (Nat.lt_of_lt_of_le hlong hlen) (by decide)
  · rw [hfresh.nicknameString_handle, if_pos, hstring]
    exact hreq _

theorem relays_of_request {s : ChatServer} {i : Nat} {c : UserInfo}
    (hc : s.clientMgr.clientInfos[i]? = some c) {m : Bytes} (hne : m ≠ [])
    (hle : m.length ≤ maxSockbuf) {r : Request} (hr : ∀ rest, Packet.request (m ++ rest) = some r)
    {sendType : SendType}
    (hsend : r = .chatBroadcast ∧ sendType = .broad ∨ r = .chatMulticast ∧ sendType = .multi) :
    Relays s i m sendType (m.drop chatContent) := by
  have hbuf : (c.received m).recvBuf = m ++ c.recvBuf.drop m.length := rfl
  have htake : ((m ++ c.recvBuf.drop m.length).take m.length).take m.length = m := by
    rw [List.take_left' rfl, List.take_length]
  rw [relays_iff hc hne hle, hbuf]
  rcases hsend with ⟨rfl, rfl⟩ | ⟨rfl, rfl⟩ <;>
  · refine ⟨fun hover => ?_, _, by rw [enqueued, hr], rfl, congrArg _ htake⟩
    cases (hr _).symm.trans hover.1

theorem relays_castPacket {s : ChatServer} {i : Nat} {c : UserInfo}
    (hc : s.clientMgr.clientInfos[i]? = some c) (nickname : Bytes) {content : Bytes}
    (hlen : content.length ≤ limitSize) {type : Client.Action} {r : Request}
    (hcode : type.code = r.code) {sendType : SendType}
    (hsend : r = .chatBroadcast ∧ sendType = .broad ∨ r = .chatMulticast ∧ sendType = .multi)
    (stack : Memory UInt8) :
    Relays s i (castPacket type nickname content stack).bytes sendType content := by
  have hsent := sent_castPacket hlen type nickname stack
  have hsize : (castPacket type nickname content stack).bytes.length =
      chatContent + content.length := by
    rw [Outgoing.bytes, Memory.length_read, hsent]
  have hne : (castPacket type nickname content stack).bytes ≠ [] := List.length_pos_iff.mp (by
    rw [hsize]
    exact Nat.add_pos_left (by decide) _)
  have hle : (castPacket type nickname content stack).bytes.length ≤ maxSockbuf := by
    rw [hsize]
    exact Nat.le_trans (Nat.add_le_add_left hlen _) (by decide)
  have hr : ∀ rest, Packet.request ((castPacket type nickname content stack).bytes ++ rest) =
      some r := request_bytes (by rw [hsent]; exact Nat.le_add_right_of_le (by decide))
    (hcode ▸ read_type_castPacket type nickname content stack)
  have hrelays := relays_of_request hc hne hle hr hsend
  have hpart := contentPart_castPacket hlen type nickname stack
  rw [Outgoing.contentPart] at hpart
  rwa [hpart] at hrelays

/-- The nickname is stored and the content is relayed, by a broadcast and by a multicast. -/
structure Speaks (s : ChatServer) (i : Nat) (nickname content enter broadcast multicast : Bytes) :
    Prop where
  stores : Stores s i enter nickname
  broadcast : Relays s i broadcast .broad content
  multicast : Relays s i multicast .multi content

theorem length_serverPacket_le (name : Bytes) (stack : Memory UInt8) :
    (serverPacket name stack).bytes.length ≤ name.length + 1 := by
  rw [Outgoing.bytes, Memory.length_read]
  have hle : (cString name 0).length ≤ name.length := (List.takeWhile_sublist _).length_le
  simp only [serverPacket, uint16]
  omega

theorem length_senderPacket_le (castType : Nat) (nickname content : Bytes)
    (stack : Memory UInt8) :
    (senderPacket castType nickname content stack).bytes.length ≤
      maxNicknameLen + content.length := by
  rw [Outgoing.bytes, Memory.length_read]
  have hle : (cString content 0).length ≤ content.length := (List.takeWhile_sublist _).length_le
  exact Nat.le_trans (Nat.mod_le ..) (Nat.add_le_add_left hle _)

/-- What a test client sends is too short for its nickname and for its content, by a header each;
what the chat client sends is not. -/
theorem stress_never_speaks {s : ChatServer} {i : Nat} {c : UserInfo}
    (hc : s.clientMgr.clientInfos[i]? = some c) (hfresh : Fresh c) {name content : Bytes}
    (hname : name ≠ []) (hlen : name.length ≤ 30) (hspace : space ∉ name) (hnul : 0 ∉ name)
    (hcontent : content ≠ []) (hsize : content.length ≤ limitSize)
    (stack : Nat → Memory UInt8) :
    (∀ (k : ClientInfo), ∀ o ∈ (k.initPacket name stack).2.head?, ¬ Stores s i o.bytes name) ∧
      (∀ castType sendType, sendType ≠ .uni →
        ¬ Relays s i (senderPacket castType name content (stack 2)).bytes sendType content) ∧
      ∀ (k : IOCPClient) success reply, ∃ enter,
        (k.nicknameCheck name (stack 0) success reply).2.2 = [enter] ∧
          Speaks s i name content enter.bytes (broadCast name content (stack 1)).bytes
            (multiCast name content (stack 2)).bytes := by
  have hpos := List.length_pos_iff.mpr hname
  have hcpos := List.length_pos_iff.mpr hcontent
  refine ⟨fun k o ho hstores => ?_, fun castType sendType htype hrelays => ?_,
    fun k success reply => ⟨systemPacket .serverEnter name (stack 0), ?_, ?_, ?_, ?_⟩⟩
  · obtain rfl : serverPacket name (stack 0) = o := Option.some.inj ho
    have := length_le_of_stores hc hfresh hstores
    have := length_serverPacket_le name (stack 0)
    omega
  · have := length_le_of_relays hc hrelays htype
    have := length_senderPacket_le castType name content (stack 2)
    have : maxNicknameLen + content.length < chatContent + content.length :=
      Nat.add_lt_add_right (by decide) _
    omega
  · have htest : nicknameTest name = none := by
      rw [nicknameTest, if_neg (by omega), if_neg hspace]
    simp only [IOCPClient.nicknameCheck, htest]
    split
    · rfl
    · split <;> rfl
  · exact stores_systemPacket hc hfresh hlen hnul _
  · exact relays_castPacket hc name hsize rfl (.inl ⟨rfl, rfl⟩) _
  · exact relays_castPacket hc name hsize rfl (.inr ⟨rfl, rfl⟩) _

theorem fresh_new (i : Nat) : Fresh (.new i) := ⟨rfl, rfl⟩

theorem stress_never_speaks_single :
    ¬ Relays (.init 4) 0 (senderPacket 0 [97] [98] fun _ => 0).bytes .broad [98] :=
  (stress_never_speaks getElem?_init (fresh_new 0) (by decide) (by decide) (by decide)
    (by decide) (by decide : ([98] : Bytes) ≠ []) (by decide) fun _ _ => 0).2.1 _ _ (by decide)

/-- On a stack full of zeros the nickname `"a"` is not stored. -/
theorem not_stores_serverPacket : ¬ ∀ (s : ChatServer) (i : Nat) (c : UserInfo) (name : Bytes)
    (stack : Memory UInt8), s.clientMgr.clientInfos[i]? = some c → Fresh c → name ≠ [] →
      name.length ≤ 30 → space ∉ name → 0 ∉ name →
        Stores s i (serverPacket name stack).bytes name := by
  intro h
  have hstores := h (.init 4) 0 (.new 0) [97] (fun _ => 0) getElem?_init (fresh_new 0)
    (by decide) (by decide) (by decide) (by decide)
  have hle := length_le_of_stores getElem?_init (fresh_new 0) hstores
  exact absurd hle (by decide)

end ChattingServer.V10.StressServer
