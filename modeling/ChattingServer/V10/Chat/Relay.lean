import ChattingServer.V10.Client.Receive
import ChattingServer.V10.Server.Relay
import ChattingServer.V10.StressServer.ClientInfo

namespace ChattingServer.V10

open Lib Client StressServer

def roomEnterPacket (nickname : Bytes) (roomNo : Int32) (stack : Memory UInt8) : Outgoing :=
  let length := uint16 (nickname.length + 1)
  let packet := stack.write 2 (LittleEndian.toBytes 2 Client.Action.roomEnter.code)
  let packet := packet.write 36 (LittleEndian.toBytes 4 roomNo.toUInt32.toNat)
  let packet := packet.write 0 (LittleEndian.toBytes 2 length)
  let packet := packet.write 4 (nickname ++ [0])
  ⟨packet, 40, [⟨maxNicknameLen, 0, nickname.length + 1⟩], [], 40⟩

inductive Message
  | serverEnter (nickname : Bytes)
  | serverExit (nickname : Bytes)
  | roomEnter (nickname : Bytes) (roomNo : Int32)
  | roomExit (nickname : Bytes)
  | broadCast (nickname content : Bytes)
  | multiCast (nickname content : Bytes)
  | unicast (nickname recver content : Bytes)

namespace Message

def outgoing : Message → Memory UInt8 → Outgoing
  | .serverEnter nickname => systemPacket .serverEnter nickname
  | .serverExit nickname => systemPacket .serverExit nickname
  | .roomEnter nickname roomNo => roomEnterPacket nickname roomNo
  | .roomExit nickname => systemPacket .roomExit nickname
  | .broadCast nickname content => Client.broadCast nickname content
  | .multiCast nickname content => Client.multiCast nickname content
  | .unicast nickname recver content => unicastPacket nickname recver content

def nickname : Message → Bytes
  | .serverEnter nickname | .serverExit nickname | .roomEnter nickname _ | .roomExit nickname
  | .broadCast nickname _ | .multiCast nickname _ | .unicast nickname _ _ => nickname

def text : Message → Option Bytes
  | .broadCast _ content | .multiCast _ content => some content
  | _ => none

def moves : Message → Bool
  | .serverEnter _ | .roomEnter _ _ | .roomExit _ => true
  | _ => false

def shown : Message → Shown
  | .serverEnter _ => .server Packet.nicknameCreated
  | .serverExit nickname => .room nickname .serverExit
  | .roomEnter nickname _ => .room nickname .roomEnter
  | .roomExit nickname => .room nickname .roomExit
  | .broadCast nickname content => .message nickname content .chatBroadcast
  | .multiCast nickname content => .message nickname content .chatMulticast
  | .unicast _ _ _ => .server Packet.nicknameNotFound

structure Valid (m : Message) : Prop where
  nickname : nicknameTest m.nickname = none ∧ 0 ∉ m.nickname
  text : ∀ b ∈ m.text, b.length ≤ limitSize ∧ 0 ∉ b
  fits : ∀ stack, (m.outgoing stack).Fits

end Message

/-! What a packet reads as -/

theorem headerType_bytes {o : Outgoing} {code : Nat} (hsent : 4 ≤ o.sent) (hcode : code < 65536)
    (htype : o.packet.read 2 2 = LittleEndian.toBytes 2 code) (rest : Bytes) :
    headerType (o.bytes ++ rest) = code := by
  have hlen : 4 ≤ o.bytes.length := by rwa [Outgoing.bytes, Memory.length_read]
  have hmin : min 2 (o.sent - 2) = 2 := by omega
  rw [headerType, List.drop_append_of_le_length (by omega),
    List.take_append_of_le_length (by rw [List.length_drop]; omega), Outgoing.bytes,
    Memory.drop_read, Memory.take_read, hmin, Nat.zero_add, htype,
    LittleEndian.ofBytes_toBytes hcode]

theorem headerLength_bytes {o : Outgoing} {length : Nat} (hsent : 2 ≤ o.sent)
    (hlength : length < 65536) (hread : o.packet.read 0 2 = LittleEndian.toBytes 2 length)
    (rest : Bytes) : headerLength (o.bytes ++ rest) = length := by
  have hlen : 2 ≤ o.bytes.length := by rwa [Outgoing.bytes, Memory.length_read]
  have hmin : min 2 o.sent = 2 := by omega
  rw [headerLength, List.take_append_of_le_length hlen, Outgoing.bytes, Memory.take_read, hmin,
    hread, LittleEndian.ofBytes_toBytes hlength]

theorem takeWhile_append_nul {string : Bytes} (hnul : 0 ∉ string) (rest : Bytes) :
    (string ++ 0 :: rest).takeWhile (· ≠ 0) = string := by
  have hall : ∀ b ∈ string, decide (b ≠ 0) = true := fun b hb => by
    simpa using ne_of_mem_of_not_mem hb hnul
  rw [List.takeWhile_append_of_pos hall]
  simp

theorem cString_bytes {o : Outgoing} {offset : Nat} {string : Bytes} (hnul : 0 ∉ string)
    (hread : o.packet.read offset (string.length + 1) = string ++ [0])
    (hsent : offset + (string.length + 1) ≤ o.sent) (rest : Bytes) :
    cString (o.bytes ++ rest) offset = string := by
  obtain ⟨n, hn⟩ := Nat.exists_eq_add_of_le hsent
  have hbytes : (o.bytes ++ rest).drop offset =
      string ++ 0 :: (o.packet.read (offset + (string.length + 1)) n ++ rest) := by
    rw [List.drop_append_of_le_length (by rw [Outgoing.bytes, Memory.length_read]; omega),
      Outgoing.bytes, Memory.drop_read, hn, Nat.zero_add]
    have hsub : offset + (string.length + 1) + n - offset = string.length + 1 + n := by omega
    rw [hsub, Memory.read_add, hread]
    simp
  rw [cString, hbytes, takeWhile_append_nul hnul]

theorem read_nickname_systemPacket (type : Client.Action) (nickname : Bytes)
    (stack : Memory UInt8) :
    (systemPacket type nickname stack).packet.read 4 (nickname.length + 1) = nickname ++ [0] := by
  have hlen : nickname.length + 1 = (nickname ++ [0]).length := by simp
  simp only [systemPacket]
  rw [Memory.read_write_of_disjoint (.inr (by rw [LittleEndian.length_toBytes]; decide)), hlen,
    Memory.read_write_self]

theorem read_nickname_castPacket {nickname : Bytes} (h : nickname.length ≤ 30)
    (type : Client.Action) (content : Bytes) (stack : Memory UInt8) :
    (castPacket type nickname content stack).packet.read chatSender (nickname.length + 1) =
      nickname ++ [0] := by
  have hlen : nickname.length + 1 = (nickname ++ [0]).length := by simp
  simp only [castPacket]
  rw [Memory.read_write_of_disjoint (.inr (by rw [LittleEndian.length_toBytes]; decide)),
    Memory.read_write_of_disjoint (.inl ?_), hlen, Memory.read_write_self]
  simp only [chatContent, maxNicknameLen]
  omega

theorem read_length_castPacket (type : Client.Action) (nickname content : Bytes)
    (stack : Memory UInt8) :
    (castPacket type nickname content stack).packet.read 0 2 =
      LittleEndian.toBytes 2 (uint16 (maxNicknameLen + content.length)) := by
  simp only [castPacket]
  have hlen : 2 = (LittleEndian.toBytes 2 (uint16 (maxNicknameLen + content.length))).length := by
    rw [LittleEndian.length_toBytes]
  nth_rewrite 2 [hlen]
  exact Memory.read_write_self _ 0 _

theorem read_type_roomEnterPacket (nickname : Bytes) (roomNo : Int32) (stack : Memory UInt8) :
    (roomEnterPacket nickname roomNo stack).packet.read 2 2 =
      LittleEndian.toBytes 2 Client.Action.roomEnter.code := by
  simp only [roomEnterPacket]
  rw [Memory.read_write_of_disjoint (.inl (by decide)),
    Memory.read_write_of_disjoint (.inr (by rw [LittleEndian.length_toBytes])),
    Memory.read_write_of_disjoint (.inl (by decide))]
  exact Memory.read_write_self stack 2 (LittleEndian.toBytes 2 Client.Action.roomEnter.code)

theorem read_nickname_roomEnterPacket (nickname : Bytes) (roomNo : Int32) (stack : Memory UInt8) :
    (roomEnterPacket nickname roomNo stack).packet.read 4 (nickname.length + 1) =
      nickname ++ [0] := by
  have hlen : nickname.length + 1 = (nickname ++ [0]).length := by simp
  simp only [roomEnterPacket]
  rw [hlen, Memory.read_write_self]

theorem read_type_unicastPacket (nickname recver content : Bytes) (stack : Memory UInt8) :
    (unicastPacket nickname recver content stack).packet.read 2 2 =
      LittleEndian.toBytes 2 Client.Action.chatUnicast.code := by
  simp only [unicastPacket]
  rw [Memory.read_write_of_disjoint (.inr (by rw [LittleEndian.length_toBytes])),
    Memory.read_write_of_disjoint (.inl (by decide)),
    Memory.read_write_of_disjoint (.inl (by decide)),
    Memory.read_write_of_disjoint (.inl (by decide))]
  exact Memory.read_write_self stack 2 (LittleEndian.toBytes 2 Client.Action.chatUnicast.code)

/-! What the server answers, and what is shown of it -/

theorem answers_of_request {data : Bytes} {r : Request} (h : Packet.request data = some r) :
    ChatServer.answers data =
      if r = .serverEnter then [Packet.serverMessage Packet.nicknameCreated]
      else if r = .chatUnicast then [Packet.serverMessage Packet.nicknameNotFound]
      else [data] := by
  unfold ChatServer.answers ChatServer.enqueued
  rw [h]
  cases r <;> simp [PacketInfo.bytes, Packet.serverMessage, LittleEndian.length_toBytes,
    List.take_of_length_le]

def Answered (data : Bytes) (shown : Shown) : Prop :=
  4 ≤ data.length ∧ ∃ answer, ChatServer.answers data = [answer] ∧
    ∀ content, (recvThread answer content).shown = some shown ∧ (recvThread answer content).Safe

theorem safe_recvThread {data : Bytes} (hdata : data.length < recvBufSize)
    (hchat : IsChat (receivedBuf data) → headerLength (receivedBuf data) ≤ 988) (content : Bytes) :
    (recvThread data content).Safe := by
  simp only [recvThread, Processed.Safe, List.forall_mem_cons, Access.inside_mk, Nat.zero_add]
  exact ⟨Nat.le_of_lt hdata, hdata, (safe_processRecvMsg_iff hdata content).mpr hchat⟩

theorem recvThread_serverMessage {message : Nat} (h : message = 2 ∨ message = 3) (content : Bytes) :
    (recvThread (Packet.serverMessage message) content).shown = some (.server message) ∧
      (recvThread (Packet.serverMessage message) content).Safe := by
  rcases h with rfl | rfl
  · exact ⟨rfl, safe_recvThread (by decide) (fun _ => by decide) content⟩
  · exact ⟨rfl, safe_recvThread (by decide) (fun _ => by decide) content⟩

theorem length_bytes (o : Outgoing) : o.bytes.length = o.sent := Memory.length_read ..

theorem answers_of_type {o : Outgoing} {r : Request} (hr : r ≠ .serverEnter ∧ r ≠ .chatUnicast)
    (hsent : 4 ≤ o.sent) (htype : o.packet.read 2 2 = LittleEndian.toBytes 2 r.code) :
    ChatServer.answers o.bytes = [o.bytes] := by
  have hrequest := request_bytes hsent htype []
  rw [List.append_nil] at hrequest
  rw [answers_of_request hrequest, if_neg hr.1, if_neg hr.2]

theorem answered_of_room {o : Outgoing} {nickname : Bytes} {action : Client.Action} {r : Request}
    (haction : action = .serverExit ∧ r = .serverExit ∨ action = .roomEnter ∧ r = .roomEnter ∨
      action = .roomExit ∧ r = .roomExit)
    (hnul : 0 ∉ nickname) (hread : o.packet.read 4 (nickname.length + 1) = nickname ++ [0])
    (hsent : 4 + (nickname.length + 1) ≤ o.sent) (hlt : o.sent < recvBufSize)
    (htype : o.packet.read 2 2 = LittleEndian.toBytes 2 action.code) :
    Answered o.bytes (.room nickname action) := by
  have hfour : 4 ≤ o.sent := by omega
  have hstring : cString (receivedBuf o.bytes) 4 = nickname := cString_bytes hnul hread hsent _
  have hheader : headerType (receivedBuf o.bytes) = action.code := by
    refine headerType_bytes hfour ?_ htype _
    cases action <;> decide
  have hof : Client.Action.ofCode (headerType (receivedBuf o.bytes)) = some action := by
    rw [hheader]
    cases action <;> rfl
  have hsafe : ∀ content, (recvThread o.bytes content).Safe := fun content => by
    refine safe_recvThread (by rwa [length_bytes]) ?_ content
    unfold IsChat
    rw [hof]
    rcases haction with ⟨rfl, -⟩ | ⟨rfl, -⟩ | ⟨rfl, -⟩ <;> rintro (⟨⟨⟩⟩ | ⟨⟨⟩⟩)
  refine ⟨by rwa [length_bytes], o.bytes, answers_of_type (r := r) ?_ hfour ?_,
    fun content => ⟨?_, hsafe content⟩⟩
  · rcases haction with ⟨-, rfl⟩ | ⟨-, rfl⟩ | ⟨-, rfl⟩ <;> decide
  · rw [htype]
    rcases haction with ⟨rfl, rfl⟩ | ⟨rfl, rfl⟩ | ⟨rfl, rfl⟩ <;> rfl
  · simp only [recvThread, processRecvMsg, hof]
    rcases haction with ⟨rfl, -⟩ | ⟨rfl, -⟩ | ⟨rfl, -⟩ <;> simp only [processRoom, hstring]

theorem cString_copyContent {o : Outgoing} {text : Bytes} (hnul : 0 ∉ text)
    (hpart : o.contentPart = text) (hsent : chatContent ≤ o.sent) (hlt : o.sent < recvBufSize)
    (content : Bytes) :
    cString (copyContent (receivedBuf o.bytes) content chatContent (32 + text.length)) 0 =
      text := by
  have hlen : o.sent = chatContent + text.length := by
    have hlength := congrArg List.length hpart
    rw [Outgoing.contentPart, List.length_drop, length_bytes] at hlength
    omega
  have hzeros : min 32 (recvBufSize - o.bytes.length) ≠ 0 := by
    rw [length_bytes]
    omega
  obtain ⟨n, hn⟩ := Nat.exists_eq_succ_of_ne_zero hzeros
  have hdrop : (receivedBuf o.bytes).drop chatContent =
      text ++ List.replicate (recvBufSize - o.bytes.length) 0 := by
    rw [receivedBuf, List.drop_append_of_le_length (by rw [length_bytes]; exact hsent)]
    exact congrArg (· ++ _) hpart
  have htake : (text ++ List.replicate (recvBufSize - o.bytes.length) 0).take (32 + text.length) =
      text ++ 0 :: List.replicate n 0 := by
    rw [Nat.add_comm, List.take_length_add_append, List.take_replicate, hn, Nat.succ_eq_add_one,
      List.replicate_succ]
  rw [cString, copyContent, List.drop_zero, hdrop, htake, List.append_assoc, List.cons_append,
    takeWhile_append_nul hnul]

theorem answered_of_cast {nickname text : Bytes} {action : Client.Action} {r : Request}
    (haction : action = .chatBroadcast ∧ r = .chatBroadcast ∨
      action = .chatMulticast ∧ r = .chatMulticast)
    (hlen : nickname.length ≤ 30) (hnul : 0 ∉ nickname) (htext : text.length ≤ limitSize)
    (hnul' : 0 ∉ text) (stack : Memory UInt8) :
    Answered (castPacket action nickname text stack).bytes (.message nickname text action) := by
  have hsent := sent_castPacket htext action nickname stack
  have hpart := contentPart_castPacket htext action nickname stack
  simp only [limitSize] at htext
  have hlow : 36 ≤ (castPacket action nickname text stack).sent := by
    rw [hsent]
    exact Nat.le_add_right ..
  have hlt : (castPacket action nickname text stack).sent < recvBufSize := by
    rw [hsent]
    simp only [chatContent, chatSender, packetHeaderLength, maxNicknameLen, recvBufSize]
    omega
  have hheader : headerType (receivedBuf (castPacket action nickname text stack).bytes) =
      action.code := by
    refine headerType_bytes (by omega) ?_ (read_type_castPacket ..) _
    cases action <;> decide
  have hlength : headerLength (receivedBuf (castPacket action nickname text stack).bytes) =
      32 + text.length := by
    refine headerLength_bytes (by omega) (by omega) ?_ _
    rw [read_length_castPacket, uint16_of_lt (by simp only [maxNicknameLen]; omega)]
    rfl
  have hof : Client.Action.ofCode
      (headerType (receivedBuf (castPacket action nickname text stack).bytes)) = some action := by
    rw [hheader]
    cases action <;> rfl
  have hsender : cString (receivedBuf (castPacket action nickname text stack).bytes) chatSender =
      nickname := by
    refine cString_bytes hnul (read_nickname_castPacket hlen ..) ?_ _
    simp only [chatSender, packetHeaderLength]
    omega
  have hcontent := cString_copyContent hnul' hpart hlow hlt
  have hsafe : ∀ content,
      (recvThread (castPacket action nickname text stack).bytes content).Safe := fun content => by
    refine safe_recvThread (by rwa [length_bytes]) (fun _ => ?_) content
    rw [hlength]
    omega
  refine ⟨by rw [length_bytes]; omega, _, answers_of_type (r := r) ?_ (by omega) ?_,
    fun content => ⟨?_, hsafe content⟩⟩
  · rcases haction with ⟨-, rfl⟩ | ⟨-, rfl⟩ <;> decide
  · rw [read_type_castPacket]
    rcases haction with ⟨rfl, rfl⟩ | ⟨rfl, rfl⟩ <;> rfl
  · simp only [recvThread, processRecvMsg, hof]
    rcases haction with ⟨rfl, -⟩ | ⟨rfl, -⟩ <;>
      simp only [processChat, hsender, hlength, hcontent]

theorem answered_of_reply {o : Outgoing} {r : Request} {message : Nat}
    (hr : r = .serverEnter ∧ message = Packet.nicknameCreated ∨
      r = .chatUnicast ∧ message = Packet.nicknameNotFound)
    (hsent : 4 ≤ o.sent) (htype : o.packet.read 2 2 = LittleEndian.toBytes 2 r.code) :
    Answered o.bytes (.server message) := by
  have hrequest := request_bytes hsent htype []
  rw [List.append_nil] at hrequest
  refine ⟨by rwa [length_bytes], Packet.serverMessage message, ?_, fun content =>
    recvThread_serverMessage ?_ content⟩
  · rw [answers_of_request hrequest]
    rcases hr with ⟨rfl, rfl⟩ | ⟨rfl, rfl⟩ <;> rfl
  · rcases hr with ⟨-, rfl⟩ | ⟨-, rfl⟩
    · exact .inl rfl
    · exact .inr rfl

theorem Message.Valid.answered {m : Message} (h : m.Valid) (stack : Memory UInt8) :
    Answered (m.outgoing stack).bytes m.shown := by
  have hlen := length_le_of_nicknameTest h.nickname.1
  have hnul := h.nickname.2
  have hsystem : ∀ type, (systemPacket type m.nickname stack).sent = m.nickname.length + 5 :=
    fun type => sent_systemPacket hlen type stack
  cases m with
  | serverEnter nickname =>
    refine answered_of_reply (.inl ⟨rfl, rfl⟩) ?_ (read_type_systemPacket ..)
    exact (hsystem _).symm ▸ Nat.le_add_left ..
  | serverExit nickname =>
    refine answered_of_room (.inl ⟨rfl, rfl⟩) hnul (read_nickname_systemPacket ..) ?_ ?_
      (read_type_systemPacket ..)
    all_goals
      change nickname.length ≤ 30 at hlen
      have hsent : (systemPacket .serverExit nickname stack).sent = nickname.length + 5 := hsystem _
      simp only [Message.outgoing, recvBufSize]
      omega
  | roomEnter nickname roomNo =>
    refine answered_of_room (.inr (.inl ⟨rfl, rfl⟩)) hnul (read_nickname_roomEnterPacket ..) ?_ ?_
      (read_type_roomEnterPacket ..)
    · change 4 + (nickname.length + 1) ≤ 40
      change nickname.length ≤ 30 at hlen
      omega
    · exact (by decide : 40 < recvBufSize)
  | roomExit nickname =>
    refine answered_of_room (.inr (.inr ⟨rfl, rfl⟩)) hnul (read_nickname_systemPacket ..) ?_ ?_
      (read_type_systemPacket ..)
    all_goals
      change nickname.length ≤ 30 at hlen
      have hsent : (systemPacket .roomExit nickname stack).sent = nickname.length + 5 := hsystem _
      simp only [Message.outgoing, recvBufSize]
      omega
  | broadCast nickname content =>
    obtain ⟨hle, hnul'⟩ := h.text content rfl
    exact answered_of_cast (.inl ⟨rfl, rfl⟩) hlen hnul hle hnul' stack
  | multiCast nickname content =>
    obtain ⟨hle, hnul'⟩ := h.text content rfl
    exact answered_of_cast (.inr ⟨rfl, rfl⟩) hlen hnul hle hnul' stack
  | unicast nickname recver content =>
    refine answered_of_reply (.inr ⟨rfl, rfl⟩) ?_ (read_type_unicastPacket ..)
    exact Nat.le_add_right_of_le (by decide)

def Says (data : Bytes) (m : Message) : Prop := m.Valid ∧ ∃ stack, data = (m.outgoing stack).bytes

/-! What the lines that somebody types come to -/

theorem subset_of_mem_chunks {line : Bytes} {chunks : List Bytes}
    (h : Chunks limitSize line chunks) :
    ∀ b ∈ chunks, b.length ≤ limitSize ∧ b ⊆ line := fun b hb =>
  ⟨h.length_le hb, fun _ hx => h.flatten ▸ List.mem_flatten.mpr ⟨b, hb, hx⟩⟩

theorem subset_of_mem_modifyHead {line : Bytes} {chunks : List Bytes}
    (h : ∀ b ∈ chunks, b.length ≤ limitSize ∧ b ⊆ line) :
    ∀ b ∈ chunks.modifyHead (·.drop 6), b.length ≤ limitSize ∧ b ⊆ line := by
  cases chunks with
  | nil => exact h
  | cons b chunks =>
    obtain ⟨⟨hle, hsub⟩, hrest⟩ := List.forall_mem_cons.mp h
    have hdrop := List.drop_sublist 6 b
    exact List.forall_mem_cons.mpr
      ⟨⟨Nat.le_trans hdrop.length_le hle, fun x hx => hsub (hdrop.subset hx)⟩, hrest⟩

section

variable {c : IOCPClient} (hnickname : nicknameTest c.nickname = none) (hnul : 0 ∉ c.nickname)

include hnickname hnul

theorem says_systemPacket {m : Message} {action : Client.Action}
    (hm : m = .serverExit c.nickname ∧ action = .serverExit ∨
      m = .roomExit c.nickname ∧ action = .roomExit) (x : Memory UInt8) :
    Says (systemPacket action c.nickname x).bytes m := by
  have hlen := length_le_of_nicknameTest hnickname
  rcases hm with ⟨rfl, rfl⟩ | ⟨rfl, rfl⟩
  · exact ⟨⟨⟨hnickname, hnul⟩, by rintro _ ⟨⟩, fits_systemPacket hlen _⟩, x, rfl⟩
  · exact ⟨⟨⟨hnickname, hnul⟩, by rintro _ ⟨⟩, fits_systemPacket hlen _⟩, x, rfl⟩

theorem says_castPacket {m : Message} {action : Client.Action} {content : Bytes}
    (hm : m = .broadCast c.nickname content ∧ action = .chatBroadcast ∨
      m = .multiCast c.nickname content ∧ action = .chatMulticast)
    (hle : content.length ≤ limitSize) (hnul' : 0 ∉ content) (x : Memory UInt8) :
    Says (castPacket action c.nickname content x).bytes m := by
  have hlen := length_le_of_nicknameTest hnickname
  rcases hm with ⟨rfl, rfl⟩ | ⟨rfl, rfl⟩
  · refine ⟨⟨⟨hnickname, hnul⟩, ?_, fits_castPacket hlen hle _⟩, x, rfl⟩
    rintro _ ⟨⟩
    exact ⟨hle, hnul'⟩
  · refine ⟨⟨⟨hnickname, hnul⟩, ?_, fits_castPacket hlen hle _⟩, x, rfl⟩
    rintro _ ⟨⟩
    exact ⟨hle, hnul'⟩

theorem says_of_line {line : Bytes} (hline : 0 ∉ line)
    {stack : Nat → Memory UInt8} {success : Nat → Bool} {r : Sending}
    (hr : c.processSendMsg line stack success = some r) (hfits : ∀ o ∈ r.outgoing, o.Fits) :
    ∀ o ∈ r.outgoing, ∃ m, m.nickname = c.nickname ∧ (line ≠ lobbyCommand → m.moves = false) ∧
      Says o.bytes m := by
  have casts : ∀ {action strBufs}, action = .chatBroadcast ∨ action = .chatMulticast →
      (∀ b ∈ strBufs, b.length ≤ limitSize ∧ b ⊆ line) →
      ∀ o ∈ (c.castAll action (castPacket action c.nickname) stack success 0 strBufs).outgoing,
        ∃ m, m.nickname = c.nickname ∧ (line ≠ lobbyCommand → m.moves = false) ∧
          Says o.bytes m := by
    intro action strBufs haction hstrBufs o ho
    obtain ⟨content, hcontent, x, rfl⟩ := IOCPClient.exists_of_mem_castAll ho
    obtain ⟨hle, hsub⟩ := hstrBufs content hcontent
    have hnul' : 0 ∉ content := fun hmem => hline (hsub hmem)
    rcases haction with rfl | rfl
    · exact ⟨.broadCast c.nickname content, rfl, fun _ => rfl,
        says_castPacket hnickname hnul (.inl ⟨rfl, rfl⟩) hle hnul' x⟩
    · exact ⟨.multiCast c.nickname content, rfl, fun _ => rfl,
        says_castPacket hnickname hnul (.inr ⟨rfl, rfl⟩) hle hnul' x⟩
  by_cases hslash : Whisper line
  · rw [c.processSendMsg_whisper hslash] at hr
    obtain rfl := Option.some.inj hr
    intro o ho
    have hfield := hfits o ho
    rw [IOCPClient.outgoing_sendPacket] at ho
    obtain rfl := List.mem_singleton.mp ho
    have hlen := length_le_of_nicknameTest hnickname
    have hfields := (fits_unicastPacket_iff hlen ..).mp hfield
    exact ⟨.unicast c.nickname _ _, rfl, fun _ => rfl, ⟨⟨hnickname, hnul⟩, by rintro _ ⟨⟩,
      fun _ => (fits_unicastPacket_iff hlen ..).mpr hfields⟩, _, rfl⟩
  · unfold IOCPClient.processSendMsg at hr
    split at hr
    · obtain rfl := Option.some.inj hr
      intro o ho
      rw [IOCPClient.outgoing_sendPacket] at ho
      obtain rfl := List.mem_singleton.mp ho
      exact ⟨.serverExit c.nickname, rfl, fun _ => rfl,
        says_systemPacket hnickname hnul (.inl ⟨rfl, rfl⟩) _⟩
    · rename_i hquit
      split at hr
      · rename_i hlobby
        obtain rfl := Option.some.inj hr
        intro o ho
        rw [IOCPClient.outgoing_sendPacket] at ho
        obtain rfl := List.mem_singleton.mp ho
        exact ⟨.roomExit c.nickname, rfl, fun h => absurd hlobby h,
          says_systemPacket hnickname hnul (.inr ⟨rfl, rfl⟩) _⟩
      · rename_i hlobby
        split at hr
        · dsimp only at hr
          split at hr
          · rename_i hlong
            obtain ⟨chunks, hsplit, hchunks⟩ := exists_splitContent hlong
            rw [hsplit] at hr
            obtain rfl := Option.some.inj hr
            exact casts (.inl rfl) (subset_of_mem_modifyHead (subset_of_mem_chunks hchunks))
          · rename_i hlong
            obtain rfl := Option.some.inj hr
            refine casts (.inl rfl) (List.forall_mem_singleton.mpr ⟨?_, ?_⟩)
            · rw [List.length_drop]
              omega
            · exact (List.drop_sublist 6 line).subset
        · rename_i hbegins
          split at hr
          · rename_i hhead
            exact absurd ⟨hquit, hlobby, hbegins, hhead⟩ hslash
          · dsimp only at hr
            split at hr
            · rename_i hlong
              obtain ⟨chunks, hsplit, hchunks⟩ := exists_splitContent hlong
              rw [hsplit] at hr
              obtain rfl := Option.some.inj hr
              exact casts (.inr rfl) (subset_of_mem_chunks hchunks)
            · rename_i hlong
              obtain rfl := Option.some.inj hr
              exact casts (.inr rfl) (List.forall_mem_singleton.mpr
                ⟨Nat.le_of_not_lt hlong, List.Subset.refl _⟩)

end

/-! From what is typed to what is shown -/

/-- A packet of `NicknameCheck`, of `Lobby` or of a line, none of which overruns its fields. -/
inductive Uttered : Bytes → Prop
  | nicknameCheck {nickname : Bytes} (h : nicknameTest nickname = none) (hnul : 0 ∉ nickname)
      (stack : Memory UInt8) : Uttered (systemPacket .serverEnter nickname stack).bytes
  | lobby {c : IOCPClient} (h : nicknameTest c.nickname = none) (hnul : 0 ∉ c.nickname)
      (roomNo : Int32) (stack : Memory UInt8) :
      Uttered (roomEnterPacket c.nickname roomNo stack).bytes
  | line {c : IOCPClient} (h : nicknameTest c.nickname = none) (hnul : 0 ∉ c.nickname)
      {line : Bytes} (hline : 0 ∉ line) {stack : Nat → Memory UInt8} {success : Nat → Bool}
      {r : Sending} (hr : c.processSendMsg line stack success = some r)
      (hfits : ∀ o ∈ r.outgoing, o.Fits) {o : Outgoing} (ho : o ∈ r.outgoing) : Uttered o.bytes

theorem Uttered.exists_says {data : Bytes} (h : Uttered data) : ∃ m, Says data m := by
  cases h with
  | @nicknameCheck nickname h hnul stack =>
    have hfits := fits_systemPacket (length_le_of_nicknameTest h) .serverEnter
    exact ⟨.serverEnter nickname, ⟨⟨h, hnul⟩, by rintro _ ⟨⟩, hfits⟩, stack, rfl⟩
  | @lobby c h hnul roomNo stack =>
    have hlen := length_le_of_nicknameTest h
    refine ⟨.roomEnter c.nickname roomNo, ⟨⟨h, hnul⟩, by rintro _ ⟨⟩, fun _ => ⟨?_, ?_⟩⟩, stack,
      rfl⟩
    · simp only [Message.outgoing, roomEnterPacket, List.mem_singleton, forall_eq,
        Access.inside_mk, maxNicknameLen]
      omega
    · exact Nat.le_refl 40
  | line h hnul hline hr hfits ho =>
    obtain ⟨m, -, -, hm⟩ := says_of_line h hnul hline hr hfits _ ho
    exact ⟨m, hm⟩

def Spoken : ChatServer.Action → Prop
  | .receive _ data _ => Uttered data
  | _ => True

theorem Spoken.headed {a : ChatServer.Action} (h : Spoken a) : ChatServer.headed a := by
  cases a with
  | receive index data bound =>
    obtain ⟨m, hm, stack, rfl⟩ := Uttered.exists_says h
    exact (hm.answered stack).1
  | _ => trivial

theorem spoken_of_reach {n : Nat} {x : ChatServer × List (Nat × Bytes)}
    (h : (ChatServer.recorded n).Reach (fun _ a => Spoken a) x) :
    ∃ ms, List.Forall₂ (fun d m => Says d.2 m) x.2 ms := by
  refine h.invariant (P := fun x => ∃ ms, List.Forall₂ (fun d m => Says d.2 m) x.2 ms)
    ⟨[], .nil⟩ fun x a x' _ ⟨ms, hms⟩ ha hs => ?_
  rw [(System.withHistory_step.mp hs).2]
  cases a with
  | receive index data bound =>
    obtain ⟨m, hm⟩ := Uttered.exists_says ha
    exact ⟨ms ++ [m], List.rel_append hms (.cons hm .nil)⟩
  | _ => exact ⟨ms, hms⟩

theorem exists_answers {log : List (Nat × Bytes)} {ms : List Message}
    (h : List.Forall₂ (fun d m => Says d.2 m) log ms) :
    (log.flatMap fun d => ChatServer.answers d.2).map (fun b => (recvThread b []).shown) =
        ms.map (fun m => some m.shown) ∧
      ∀ b ∈ log.flatMap fun d => ChatServer.answers d.2, ∀ content,
        (recvThread b content).shown = (recvThread b []).shown ∧ (recvThread b content).Safe := by
  induction h with
  | nil => exact ⟨rfl, List.forall_mem_nil _⟩
  | @cons d m log ms hm _ ih =>
    obtain ⟨hvalid, stack, hdata⟩ := hm
    obtain ⟨-, answer, hanswer, hshown⟩ := hvalid.answered stack
    rw [← hdata] at hanswer
    rw [List.flatMap_cons, hanswer, List.singleton_append, List.map_cons, List.map_cons,
      (hshown []).1, ih.1]
    refine ⟨rfl, List.forall_mem_cons.mpr ⟨fun content => ?_, ih.2⟩⟩
    exact ⟨(hshown content).1.trans (hshown []).1.symm, (hshown content).2⟩

/-- Whatever else happens, what the client in a slot shows of what it is sent is, in order and each
at most once, what clients have said, and it is read inside of the client's buffers.  The content
buffer holds what it may when a packet comes. -/
theorem shown_sublist {n : Nat} {x : ChatServer × List (Nat × Bytes)}
    (h : (ChatServer.recorded n).Reach (fun _ a => Spoken a) x) :
    ∃ ms, List.Forall₂ (fun d m => Says d.2 m) x.2 ms ∧ ∀ i (content : Nat → Bytes),
      List.Sublist ((x.1.sends.filter (·.index = i)).mapIdx fun k send =>
        (recvThread send.data (content k)).shown) (ms.map fun m => some m.shown) ∧
      ∀ send ∈ x.1.sends, ∀ content, (recvThread send.data content).Safe := by
  obtain ⟨ms, hms⟩ := spoken_of_reach h
  have hrelayed := ChatServer.relayed_of_reach (h.mono fun _ _ => Spoken.headed)
  obtain ⟨dequeued, hlog, hsends⟩ := hrelayed.relayed
  have hdequeued : List.Sublist dequeued (x.2.flatMap fun d => ChatServer.answers d.2) :=
    hlog ▸ List.sublist_append_left ..
  obtain ⟨hanswers, hread⟩ := exists_answers hms
  have hsent : ∀ i, ∀ send ∈ x.1.sends.filter (·.index = i), ∀ content, _ := fun i send hsend =>
    hread send.data (((hsends i).trans hdequeued).subset (List.mem_map_of_mem hsend))
  refine ⟨ms, hms, fun i content => ⟨?_, fun send hsend content => ?_⟩⟩
  · have hshown := ((hsends i).trans hdequeued).map fun b => (recvThread b []).shown
    rw [hanswers, List.map_map] at hshown
    have hmap : (x.1.sends.filter (·.index = i)).mapIdx
        (fun k send => (recvThread send.data (content k)).shown) =
          (x.1.sends.filter (·.index = i)).map fun send => (recvThread send.data []).shown := by
      refine List.ext_getElem (by simp) fun k hk _ => ?_
      rw [List.getElem_mapIdx, List.getElem_map]
      exact (hsent i _ (List.getElem_mem _) (content k)).1
    rw [hmap]
    exact hshown
  · exact (hsent send.index send (List.mem_filter.mpr ⟨hsend, by simp⟩) content).2

def hello : List ChatServer.Action :=
  [.accept 7 .connected, .receive 0 (roomEnterPacket [97] 1 fun _ => 0).bytes true,
    .receive 0 (multiCast [97] [104, 105] fun _ => 0).bytes true, .run [], .run []]

theorem spoken_hello : ∀ a ∈ hello, Spoken a := by
  have hlobby : Uttered (roomEnterPacket [97] 1 fun _ => 0).bytes :=
    .lobby (c := ⟨[97], true, 1⟩) (by decide) (by decide) 1 fun _ => 0
  have hline : Uttered (multiCast [97] [104, 105] fun _ => 0).bytes := by
    have hsent : IOCPClient.processSendMsg ⟨[97], true, 1⟩ [104, 105] (fun _ _ => 0)
        (fun _ => true) = some ⟨⟨[97], true, 1⟩, some .chatMulticast,
          [multiCast [97] [104, 105] fun _ => 0]⟩ := rfl
    exact .line (by decide) (by decide) (by decide) hsent
      (List.forall_mem_singleton.mpr (fits_castPacket (by decide) (by decide) ..))
      List.mem_cons_self
  simp only [hello, List.forall_mem_cons]
  exact ⟨trivial, hlobby, hline, trivial, trivial, List.forall_mem_nil _⟩

theorem shown_sublist_hello :
    ∃ x, ∃ ms : List Message, (ChatServer.recorded 4).Reach (fun _ a => Spoken a) x ∧
      (x.1.sends.map fun send => (recvThread send.data []).shown) =
        [some (.room [97] .roomEnter), some (.message [97] [104, 105] .chatMulticast)] ∧
      ∀ content : Nat → Bytes, List.Sublist ((x.1.sends.filter (·.index = 0)).mapIdx
        fun k send => (recvThread send.data (content k)).shown) (ms.map fun m => some m.shown) := by
  have hrun : ((ChatServer.recorded 4).run (ChatServer.recorded 4).init hello).any (fun x =>
      decide ((x.1.sends.map fun send => (recvThread send.data []).shown) =
        [some (.room [97] .roomEnter), some (.message [97] [104, 105] .chatMulticast)])) =
          true := by
    decide +kernel
  obtain ⟨x, hx, hshown⟩ := (Option.any_eq_true _ _).mp hrun
  have hreach := System.Reach.run_from .init spoken_hello hx
  obtain ⟨ms, -, hms⟩ := shown_sublist hreach
  exact ⟨x, ms, hreach, of_decide_eq_true hshown, fun content => (hms 0 content).1⟩

end ChattingServer.V10
