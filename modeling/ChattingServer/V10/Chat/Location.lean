import ChattingServer.V10.Chat.Relay
import ChattingServer.V10.Server.Watch

namespace ChattingServer.V10

open Lib Client StressServer

instance (o : Outgoing) : Decidable o.Fits :=
  decidable_of_iff ((∀ a ∈ o.copies, a.Inside) ∧ o.sent ≤ o.size)
    ⟨fun h => ⟨h.1, h.2⟩, fun h => ⟨h.copies, h.sent⟩⟩

inductive Key
  | up
  | down
  | enter
  deriving DecidableEq

def maxRoomCount : Int32 := 5

/-- `Position::LobbyControl`, which leaves `mRoomPtr` as the first component and returns the
second. -/
def lobbyControl (roomPtr : Int32) : Key → Int32 × Int32
  | .enter => (roomPtr, roomPtr)
  | .down => (if roomPtr < maxRoomCount then roomPtr + 1 else roomPtr, 0)
  | .up => (if 1 < roomPtr then roomPtr - 1 else roomPtr, 0)

/-- What the client waits for: a nickname in `SetNickname`, a key in `Lobby` or a line in
`SendThread`. -/
inductive Stage
  | setNickname
  | lobby
  | sendThread
  deriving DecidableEq

structure Conn where
  stage : Stage
  client : IOCPClient
  roomPtr : Int32
  outbox : List Bytes

namespace Conn

def init : Conn where
  stage := .setNickname
  client := ⟨[], true, 0⟩
  roomPtr := 1
  outbox := []

def toLobby (c : Conn) : Conn := { c with stage := .lobby, roomPtr := 1 }

def nicknameCheck (c : Conn) (nickname : Bytes) (stack : Memory UInt8) (success : Bool)
    (reply : Bytes) : Option Conn :=
  let (message, client, packets) := c.client.nicknameCheck nickname stack success reply
  let c := { c with client, outbox := c.outbox ++ packets.map Outgoing.bytes }
  match message with
  | none => none
  | some .createSuccess => some c.toLobby
  | some _ => some c

def key (c : Conn) (k : Key) (stack : Memory UInt8) (success : Bool) : Option Conn :=
  let (roomPtr, roomNo) := lobbyControl c.roomPtr k
  let c := { c with roomPtr }
  if k ≠ .enter ∨ roomNo < 0 then some c
  else if success then
    some { c with
      stage := .sendThread
      client := { c.client with room := roomNo }
      outbox := c.outbox ++ [(roomEnterPacket c.client.nickname roomNo stack).bytes] }
  else none

def line (c : Conn) (content : Bytes) (stack : Nat → Memory UInt8) (success : Nat → Bool) :
    Option Conn := do
  let r ← c.client.processSendMsg content stack success
  let action ← r.action
  let c := { c with client := r.client, outbox := c.outbox ++ r.outgoing.map Outgoing.bytes }
  return if action = .roomExit then c.toLobby else c

end Conn

structure Chat where
  server : ChatServer
  conns : Nat → Option Conn

namespace Chat

/-- Not all of the connections that the server accepts are those of a chat client. -/
inductive Action
  | connect (socket : Socket)
  | server (a : ChatServer.Action)
  /-- A worker has received the next packets of a client in one go. -/
  | receive (i count : Nat) (bound : Bool)
  | nicknameCheck (i : Nat) (nickname : Bytes) (stack : Memory UInt8) (success : Bool)
    (reply : Bytes)
  | key (i : Nat) (k : Key) (stack : Memory UInt8) (success : Bool)
  | line (i : Nat) (content : Bytes) (stack : Nat → Memory UInt8) (success : Nat → Bool)

def setConn (s : Chat) (i : Nat) (c : Option Conn) : Chat :=
  { s with conns := Function.update s.conns i c }

def hangUp (s : Chat) : Chat :=
  { s with conns := fun i => if s.server.clientMgr.connected i then s.conns i else none }

def connect (s : Chat) (socket : Socket) : Except Fault Chat := do
  let server ← s.server.step (.accept socket .connected)
  match s.server.clientMgr.nextSlot with
  | none => return { s with server }
  | some i => return { s with server }.setConn i (some .init)

def serverStep (s : Chat) (a : ChatServer.Action) : Except Fault Chat := do
  let server ← s.server.step a
  return { s with server }.hangUp

def otherStep (s : Chat) (a : ChatServer.Action) : Except Fault Chat :=
  match a with
  | .receive i _ _ => if (s.conns i).isSome then throw .disabled else s.serverStep a
  | _ => s.serverStep a

def receive (s : Chat) (i count : Nat) (bound : Bool) : Except Fault Chat :=
  match s.conns i with
  | none => throw .disabled
  | some c =>
    if count = 0 ∨ c.outbox.length < count then throw .disabled
    else
      let s := s.setConn i (some { c with outbox := c.outbox.drop count })
      s.serverStep (.receive i (c.outbox.take count).flatten bound)

def clientStep (s : Chat) (i : Nat) (stage : Stage) (f : Conn → Option Conn) :
    Except Fault Chat :=
  match s.conns i with
  | none => throw .disabled
  | some c => if c.stage = stage then return s.setConn i (f c) else throw .disabled

def step (s : Chat) : Action → Except Fault Chat
  | .connect socket => s.connect socket
  | .server a => s.otherStep a
  | .receive i count bound => s.receive i count bound
  | .nicknameCheck i nickname stack success reply =>
    s.clientStep i .setNickname (·.nicknameCheck nickname stack success reply)
  | .key i k stack success => s.clientStep i .lobby (·.key k stack success)
  | .line i content stack success =>
    if content = [] then throw .disabled
    else s.clientStep i .sendThread (·.line content stack success)

def system (maxClient : Nat) : System Chat Action Fault where
  init := ⟨.init maxClient, fun _ => none⟩
  step := step

def Stays (packet : Bytes) : Prop :=
  Packet.request packet ∉ [some .serverEnter, some .roomEnter, some .roomExit]

instance : DecidablePred Stays := fun _ => inferInstanceAs (Decidable (_ ∉ _))

/-- What is typed has no NUL and leads to no packet that overruns its fields, and nobody's room
hangs on a packet that is received behind another. -/
def allows (s : Chat) : Action → Prop
  | .nicknameCheck _ nickname _ _ _ => 0 ∉ nickname
  | .line i content stack success => 0 ∉ content ∧ ∀ c ∈ s.conns i,
    ∀ r ∈ c.client.processSendMsg content stack success, ∀ o ∈ r.outgoing, o.Fits
  | .receive i count _ => ∀ c ∈ s.conns i, ∀ packet ∈ (c.outbox.take count).tail, Stays packet
  | _ => True

instance (s : Chat) : DecidablePred s.allows := fun a =>
  match a with
  | .nicknameCheck _ _ _ _ _ => inferInstanceAs (Decidable (_ ∉ _))
  | .line _ _ _ _ => inferInstanceAs (Decidable (_ ∉ _ ∧ ∀ _ ∈ _, ∀ _ ∈ _, ∀ _ ∈ _, _))
  | .receive _ _ _ => inferInstanceAs (Decidable (∀ _ ∈ _, ∀ _ ∈ _, _))
  | .connect _ | .server _ | .key _ _ _ _ => inferInstanceAs (Decidable True)

end Chat

/-! What a message does to the room of who sends it -/

namespace Message

def roomAfter (room : Int32) : Message → Int32
  | .serverEnter _ | .roomExit _ => UserInfo.lobby
  | .roomEnter _ roomNo => if room = UserInfo.lobby then roomNo else room
  | _ => room

def Accepted (room : Int32) : Message → Prop
  | .roomEnter _ _ => room = UserInfo.lobby
  | .roomExit _ => room ≠ UserInfo.lobby
  | _ => True

theorem roomAfter_of_moves {m : Message} (h : m.moves = false) (room : Int32) :
    m.roomAfter room = room ∧ m.Accepted room := by
  cases m with
  | serverEnter | roomEnter | roomExit => contradiction
  | serverExit | broadCast | multiCast | unicast => exact ⟨rfl, trivial⟩

def request : Message → Request
  | .serverEnter _ => .serverEnter
  | .serverExit _ => .serverExit
  | .roomEnter _ _ => .roomEnter
  | .roomExit _ => .roomExit
  | .broadCast _ _ => .chatBroadcast
  | .multiCast _ _ => .chatMulticast
  | .unicast _ _ _ => .chatUnicast

theorem Valid.request {m : Message} (h : m.Valid) (stack : Memory UInt8) (rest : Bytes) :
    Packet.request ((m.outgoing stack).bytes ++ rest) = some m.request := by
  have hlen := length_le_of_nicknameTest h.nickname.1
  have hsystem : ∀ type, 4 ≤ (systemPacket type m.nickname stack).sent := fun type => by
    rw [sent_systemPacket hlen]
    omega
  have hcast : ∀ type content, m.text = some content →
      4 ≤ (castPacket type m.nickname content stack).sent := fun type content htext => by
    rw [sent_castPacket (h.text content htext).1]
    exact Nat.le_add_right_of_le (by decide)
  cases m with
  | serverEnter nickname =>
    exact request_bytes (hsystem .serverEnter) (read_type_systemPacket ..) rest
  | serverExit nickname =>
    exact request_bytes (hsystem .serverExit) (read_type_systemPacket ..) rest
  | roomExit nickname => exact request_bytes (hsystem .roomExit) (read_type_systemPacket ..) rest
  | roomEnter nickname roomNo =>
    exact request_bytes (by decide : 4 ≤ 40) (read_type_roomEnterPacket ..) rest
  | broadCast nickname content =>
    exact request_bytes (hcast .chatBroadcast _ rfl) (read_type_castPacket ..) rest
  | multiCast nickname content =>
    exact request_bytes (hcast .chatMulticast _ rfl) (read_type_castPacket ..) rest
  | unicast nickname recver content =>
    exact request_bytes (Nat.le_add_right_of_le (by decide)) (read_type_unicastPacket ..) rest

end Message

theorem roomNo_roomEnterPacket {nickname : Bytes} (h : nickname.length ≤ 30) (roomNo : Int32)
    (stack : Memory UInt8) (rest : Bytes) :
    Packet.roomNo ((roomEnterPacket nickname roomNo stack).bytes ++ rest) = roomNo := by
  have hlen : (roomEnterPacket nickname roomNo stack).bytes.length = 40 := length_bytes _
  have hread : (roomEnterPacket nickname roomNo stack).packet.read 36 4 =
      LittleEndian.toBytes 4 roomNo.toUInt32.toNat := by
    simp only [roomEnterPacket]
    rw [Memory.read_write_of_disjoint (.inr (by simp; omega)),
      Memory.read_write_of_disjoint (.inr (by simp))]
    exact Memory.read_write_self _ 36 (LittleEndian.toBytes 4 roomNo.toUInt32.toNat)
  have hfield : (((roomEnterPacket nickname roomNo stack).bytes ++ rest).drop 36).take 4 =
      LittleEndian.toBytes 4 roomNo.toUInt32.toNat := by
    rw [List.drop_append_of_le_length (by rw [hlen]; decide),
      List.take_append_of_le_length (by rw [List.length_drop, hlen]), Outgoing.bytes,
      Memory.drop_read, Memory.take_read]
    exact hread
  have hlt : roomNo.toUInt32.toNat < 256 ^ 4 := roomNo.toUInt32.toNat_lt
  rw [Packet.roomNo, hfield, LittleEndian.ofBytes_toBytes hlt, UInt32.ofNat_toNat]
  rfl

theorem Says.handled {data : Bytes} {m : Message} (h : Says data m) (c : UserInfo) (rest : Bytes) :
    (ChatServer.handle c (data ++ rest)).room = m.roomAfter c.room ∧
      (m.Accepted c.room → ∀ n ∈ ChatServer.noticeOf c (data ++ rest), n.accepted = true) := by
  obtain ⟨hvalid, stack, rfl⟩ := h
  have hrequest := hvalid.request stack rest
  unfold ChatServer.handle ChatServer.noticeOf
  rw [hrequest]
  cases m with
  | serverEnter | serverExit | broadCast | multiCast | unicast =>
    exact ⟨rfl, fun _ _ h => by cases h⟩
  | roomEnter nickname roomNo =>
    have hlen : nickname.length ≤ 30 := length_le_of_nicknameTest hvalid.nickname.1
    simp only [Message.request, Message.outgoing, roomNo_roomEnterPacket hlen, Message.roomAfter,
      Message.Accepted]
    by_cases hroom : c.room = UserInfo.lobby
    · rw [UserInfo.enterRoom_of_lobby hroom, if_pos hroom]
      refine ⟨rfl, fun _ => ?_⟩
      rintro _ ⟨⟩
      rfl
    · rw [UserInfo.enterRoom_of_ne hroom, if_neg hroom]
      exact ⟨rfl, fun h => absurd h hroom⟩
  | roomExit nickname =>
    refine ⟨?_, ?_⟩
    · change c.exitRoom.2.room = UserInfo.lobby
      unfold UserInfo.exitRoom
      split
      · exact ‹_›
      · rfl
    · rintro haccepted _ ⟨⟩
      exact congrArg Prod.fst (UserInfo.exitRoom_of_ne haccepted)

theorem Says.moves_eq_false {data : Bytes} {m : Message} (h : Says data m)
    (hstay : Chat.Stays data) : m.moves = false := by
  obtain ⟨hvalid, stack, rfl⟩ := h
  have hrequest := hvalid.request stack []
  rw [List.append_nil] at hrequest
  rw [Chat.Stays, hrequest] at hstay
  cases m with
  | serverEnter | roomEnter | roomExit => exact absurd (by simp [Message.request]) hstay
  | serverExit | broadCast | multiCast | unicast => rfl

inductive Pending : Int32 → List Bytes → Int32 → Prop
  | nil (room : Int32) : Pending room [] room
  | cons {room room' : Int32} {data : Bytes} {outbox : List Bytes} {m : Message}
      (said : Says data m) (accepted : m.Accepted room)
      (rest : Pending (m.roomAfter room) outbox room') : Pending room (data :: outbox) room'

namespace Pending

theorem single {data : Bytes} {m : Message} (h : Says data m) {room : Int32}
    (haccepted : m.Accepted room) : Pending room [data] (m.roomAfter room) :=
  .cons h haccepted (.nil _)

theorem append {room room' room'' : Int32} {outbox outbox' : List Bytes}
    (h : Pending room outbox room') (h' : Pending room' outbox' room'') :
    Pending room (outbox ++ outbox') room'' := by
  induction h with
  | nil => exact h'
  | cons said accepted _ ih => exact .cons said accepted (ih h')

theorem eq_of_nil {room room' : Int32} (h : Pending room [] room') : room = room' := by
  cases h
  rfl

theorem of_moves {room : Int32} {outbox : List Bytes}
    (h : ∀ data ∈ outbox, ∃ m : Message, m.moves = false ∧ Says data m) :
    Pending room outbox room := by
  induction outbox with
  | nil => exact .nil room
  | cons data outbox ih =>
    obtain ⟨⟨m, hmoves, hm⟩, h⟩ := List.forall_mem_cons.mp h
    obtain ⟨hafter, haccepted⟩ := Message.roomAfter_of_moves hmoves room
    exact .cons hm haccepted (hafter.symm ▸ ih h)

theorem skip {room room' : Int32} {packets outbox : List Bytes}
    (hstay : ∀ packet ∈ packets, Chat.Stays packet) (h : Pending room (packets ++ outbox) room') :
    Pending room outbox room' := by
  induction packets with
  | nil => exact h
  | cons packet packets ih =>
    obtain ⟨hpacket, hstay⟩ := List.forall_mem_cons.mp hstay
    cases h with
    | @cons _ _ _ _ m said accepted rest =>
      have hafter := (Message.roomAfter_of_moves (said.moves_eq_false hpacket) room).1
      exact ih hstay (hafter ▸ rest)

end Pending

/-! What a client does -/

def rooms : List Int32 := [1, 2, 3, 4, 5]

theorem one_mem_rooms : 1 ∈ rooms := by decide

theorem lobbyControl_mem_rooms (k : Key) :
    ∀ roomPtr ∈ rooms, (lobbyControl roomPtr k).1 ∈ rooms := by
  simp only [rooms, List.forall_mem_cons]
  cases k with
  | up | down | enter =>
    exact ⟨by decide, by decide, by decide, by decide, by decide, List.forall_mem_nil _⟩

theorem ne_lobby_of_mem_rooms : ∀ room ∈ rooms, room ≠ UserInfo.lobby := by
  simp only [rooms, List.forall_mem_cons]
  exact ⟨by decide, by decide, by decide, by decide, by decide, List.forall_mem_nil _⟩

namespace Client.IOCPClient

theorem of_sendPacket {c : IOCPClient} {action action' : Client.Action} {o : Outgoing}
    {success : Bool} (h : (c.sendPacket action o success).action = some action') :
    action' = action ∧ c.sendPacket action o success = ⟨c, some action, [o]⟩ := by
  cases success with
  | true => exact ⟨(Option.some.inj h).symm, rfl⟩
  | false => cases h

theorem of_castAll {c : IOCPClient} {action action' : Client.Action}
    {cast : Bytes → Memory UInt8 → Outgoing} {stack : Nat → Memory UInt8} {success : Nat → Bool}
    {k : Nat} {strBufs : List Bytes}
    (h : (c.castAll action cast stack success k strBufs).action = some action') :
    action' = action ∧ (c.castAll action cast stack success k strBufs).client = c := by
  induction strBufs generalizing k with
  | nil => exact ⟨(Option.some.inj h).symm, rfl⟩
  | cons content strBufs ih =>
    rw [castAll] at h ⊢
    dsimp only at h ⊢
    split at h
    · rw [if_pos ‹_›]
      exact ih h
    · cases h

theorem of_processSendMsg {c : IOCPClient} {content : Bytes} {stack : Nat → Memory UInt8}
    {success : Nat → Bool} {r : Sending} {action : Client.Action}
    (hr : c.processSendMsg content stack success = some r) (h : r.action = some action) :
    (content = lobbyCommand ∧ action = .roomExit ∧
      r = ⟨{ c with room := 0 }, some .roomExit, [systemPacket .roomExit c.nickname (stack 0)]⟩) ∨
      content ≠ lobbyCommand ∧ action ≠ .roomExit ∧ r.client = c := by
  by_cases hlobby : content = lobbyCommand
  · subst hlobby
    obtain rfl := Option.some.inj hr
    obtain ⟨haction, hsent⟩ := of_sendPacket h
    exact .inl ⟨rfl, haction, hsent⟩
  · refine .inr ⟨hlobby, ?_⟩
    have casts : ∀ {type cast} (strBufs : Option (List Bytes)),
        type = .chatBroadcast ∨ type = .chatMulticast →
        strBufs.map (c.castAll type cast stack success 0) = some r →
          action ≠ .roomExit ∧ r.client = c := by
      rintro type cast strBufs htype hcast
      obtain ⟨strBufs, -, rfl⟩ := Option.map_eq_some_iff.mp hcast
      obtain ⟨rfl, hclient⟩ := of_castAll h
      exact ⟨by rcases htype with rfl | rfl <;> decide, hclient⟩
    rw [processSendMsg, if_neg hlobby] at hr
    split at hr
    · obtain rfl := Option.some.inj hr
      obtain ⟨rfl, hsent⟩ := of_sendPacket h
      exact ⟨by decide, congrArg Sending.client hsent⟩
    · split at hr
      · dsimp only at hr
        split at hr
        · rw [← Function.comp_def, ← Option.map_map] at hr
          exact casts _ (.inl rfl) hr
        · exact casts (some _) (.inl rfl) hr
      · split at hr
        · obtain rfl := Option.some.inj hr
          obtain ⟨rfl, hsent⟩ := of_sendPacket h
          exact ⟨by decide, congrArg Sending.client hsent⟩
        · dsimp only at hr
          split at hr
          · exact casts _ (.inr rfl) hr
          · exact casts (some _) (.inr rfl) hr

end Client.IOCPClient

namespace Conn

structure Follows (room : Int32) (c : Conn) : Prop where
  nickname : c.stage ≠ .setNickname → nicknameTest c.client.nickname = none ∧ 0 ∉ c.client.nickname
  roomPtr : c.roomPtr ∈ rooms
  inLobby : c.stage ≠ .sendThread → c.client.room = UserInfo.lobby
  inRoom : c.stage = .sendThread → c.client.room ∈ rooms
  pending : Pending room c.outbox c.client.room ∨ c.stage = .setNickname ∧ c.outbox = []

theorem follows_init (room : Int32) : Follows room init where
  nickname h := absurd rfl h
  roomPtr := one_mem_rooms
  inLobby _ := rfl
  inRoom h := by cases h
  pending := .inr ⟨rfl, rfl⟩

theorem Follows.of_stage {room : Int32} {c : Conn} (h : c.Follows room)
    (hstage : c.stage ≠ .setNickname) : Pending room c.outbox c.client.room :=
  h.pending.resolve_right fun hnot => hstage hnot.1

theorem Follows.pending_serverEnter {room : Int32} {c : Conn} (h : c.Follows room)
    (hstage : c.stage = .setNickname) {data nickname : Bytes}
    (hdata : Says data (.serverEnter nickname)) :
    Pending room (c.outbox ++ [data]) UserInfo.lobby := by
  have hroom := h.inLobby (hstage ▸ by decide)
  rcases h.pending with hpending | ⟨-, hnil⟩
  · exact hpending.append (.single hdata trivial)
  · rw [hnil]
    exact .single hdata trivial

theorem Follows.nicknameCheck {room : Int32} {c c' : Conn} (h : c.Follows room)
    (hstage : c.stage = .setNickname) {nickname : Bytes} (hnul : 0 ∉ nickname)
    {stack : Memory UInt8} {success : Bool} {reply : Bytes}
    (hs : c.nicknameCheck nickname stack success reply = some c') : c'.Follows room := by
  have hroom := h.inLobby (hstage ▸ by decide)
  unfold Conn.nicknameCheck IOCPClient.nicknameCheck at hs
  cases htest : nicknameTest nickname with
  | some message =>
    have hfailed : message ≠ .createSuccess := by
      unfold nicknameTest at htest
      split at htest
      · cases htest
        decide
      · split at htest
        · cases htest
          decide
        · cases htest
    rw [htest] at hs
    simp only [List.map_nil, List.append_nil] at hs
    cases message with
    | createSuccess => exact absurd rfl hfailed
    | tooLong | alreadyExist | trimNeeded =>
      obtain rfl := Option.some.inj hs
      exact h
  | none =>
    have hdata : Says (systemPacket .serverEnter nickname stack).bytes (.serverEnter nickname) :=
      ⟨⟨⟨htest, hnul⟩, by rintro _ ⟨⟩,
        fits_systemPacket (length_le_of_nicknameTest htest) .serverEnter⟩, stack, rfl⟩
    have hpending := h.pending_serverEnter hstage hdata
    simp only [htest] at hs
    by_cases hgone : success = false ∨ reply = []
    · rw [if_pos hgone] at hs
      cases hs
    · rw [if_neg hgone] at hs
      by_cases hexist : LittleEndian.ofBytes ((reply.drop 4).take 4) = 1
      · rw [if_pos hexist] at hs
        obtain rfl := Option.some.inj hs
        exact ⟨fun hne => absurd hstage hne, h.roomPtr, h.inLobby, h.inRoom,
          .inl (hroom ▸ hpending)⟩
      · rw [if_neg hexist] at hs
        obtain rfl := Option.some.inj hs
        exact ⟨fun _ => ⟨htest, hnul⟩, one_mem_rooms, fun _ => hroom, by rintro ⟨⟩,
          .inl (hroom ▸ hpending)⟩

theorem Follows.key {room : Int32} {c c' : Conn} (h : c.Follows room) (hstage : c.stage = .lobby)
    {k : Key} {stack : Memory UInt8} {success : Bool}
    (hs : c.key k stack success = some c') : c'.Follows room := by
  have hroom := h.inLobby (hstage ▸ by decide)
  have hnickname := h.nickname (hstage ▸ by decide)
  have hpending := h.of_stage (hstage ▸ by decide)
  have hroomPtr := lobbyControl_mem_rooms k c.roomPtr h.roomPtr
  unfold Conn.key at hs
  dsimp only at hs
  split at hs
  · obtain rfl := Option.some.inj hs
    exact ⟨h.nickname, hroomPtr, h.inLobby, h.inRoom, h.pending⟩
  · rename_i hkey
    obtain rfl : k = .enter := not_not.mp fun hne => hkey (.inl hne)
    split at hs
    · obtain rfl := Option.some.inj hs
      have hlen := length_le_of_nicknameTest hnickname.1
      have hdata : Says (roomEnterPacket c.client.nickname c.roomPtr stack).bytes
          (.roomEnter c.client.nickname c.roomPtr) := by
        refine ⟨⟨hnickname, by rintro _ ⟨⟩, fun _ => ⟨?_, Nat.le_refl 40⟩⟩, stack, rfl⟩
        simp only [Message.outgoing, roomEnterPacket, List.mem_singleton, forall_eq,
          Access.inside_mk, maxNicknameLen]
        omega
      have hentered : (Message.roomEnter c.client.nickname c.roomPtr).roomAfter c.client.room =
          c.roomPtr := if_pos hroom
      refine ⟨fun _ => hnickname, hroomPtr, fun hne => absurd rfl hne, fun _ => h.roomPtr,
        .inl ?_⟩
      have hsingle : Pending c.client.room [_] _ := .single hdata hroom
      rw [hentered] at hsingle
      exact hpending.append hsingle
    · cases hs

theorem Follows.line {room : Int32} {c c' : Conn} (h : c.Follows room)
    (hstage : c.stage = .sendThread) {content : Bytes} (hnul : 0 ∉ content)
    {stack : Nat → Memory UInt8} {success : Nat → Bool}
    (hfits : ∀ r ∈ c.client.processSendMsg content stack success, ∀ o ∈ r.outgoing, o.Fits)
    (hs : c.line content stack success = some c') : c'.Follows room := by
  have hroom := h.inRoom hstage
  have hnickname := h.nickname (hstage ▸ by decide)
  have hpending := h.of_stage (hstage ▸ by decide)
  unfold Conn.line at hs
  simp only [Option.bind_eq_bind, Option.bind_eq_some_iff] at hs
  obtain ⟨r, hr, action, haction, hs⟩ := hs
  obtain rfl := Option.some.inj hs
  rcases IOCPClient.of_processSendMsg hr haction with ⟨-, rfl, rfl⟩ | ⟨hlobby, hexit, hclient⟩
  · have hdata := says_systemPacket hnickname.1 hnickname.2 (.inr ⟨rfl, rfl⟩) (stack 0)
    rw [if_pos rfl]
    exact ⟨fun _ => hnickname, one_mem_rooms, fun _ => rfl, by rintro ⟨⟩,
      .inl (hpending.append (.single hdata (ne_lobby_of_mem_rooms _ hroom)))⟩
  · rw [if_neg hexit, hclient]
    refine ⟨h.nickname, h.roomPtr, h.inLobby, h.inRoom, .inl (hpending.append (.of_moves ?_))⟩
    intro data hdata
    obtain ⟨o, ho, rfl⟩ := List.mem_map.mp hdata
    obtain ⟨m, -, hmoves, hm⟩ :=
      says_of_line hnickname.1 hnickname.2 hnul hr (hfits r hr) o ho
    exact ⟨m, hmoves hlobby, hm⟩

theorem Follows.receive {room : Int32} {c : Conn} (h : c.Follows room) {packet : Bytes}
    {packets outbox : List Bytes} (hout : c.outbox = packet :: (packets ++ outbox))
    (hstay : ∀ packet ∈ packets, Chat.Stays packet) :
    ∃ m : Message, Says packet m ∧ m.Accepted room ∧
      { c with outbox }.Follows (m.roomAfter room) := by
  rcases h.pending with hpending | ⟨-, hnil⟩
  · rw [hout] at hpending
    cases hpending with
    | cons said accepted rest =>
      exact ⟨_, said, accepted, h.nickname, h.roomPtr, h.inLobby, h.inRoom, .inl (rest.skip hstay)⟩
  · rw [hout] at hnil
    cases hnil

end Conn

namespace ChatServer

theorem Received.sized {s s' : ChatServer} (h : s.clientMgr.Sized) {index : Nat} {data : Bytes}
    {bound : Bool} (hr : Received s index data bound s') : s'.clientMgr.Sized := by
  obtain ⟨c, hc, rfl⟩ := hr.client
  refine h.setClient hc ?_
  rw [UserInfo.index_posted, index_handle]
  rfl

theorem sameRooms_of_step {s s' : ChatServer} (h : s.clientMgr.Sized) {a : Action}
    (ha : ∀ index data bound, a ≠ .receive index data bound) (hs : s.step a = .ok s') :
    s'.clientMgr.Sized ∧ s.clientMgr.SameRooms s'.clientMgr := by
  cases a with
  | accept socket outcome =>
    obtain ⟨created, m, hm, rfl⟩ := created_of_accept h hs
    exact ⟨h.created hm, .created h hm⟩
  | receive index data bound => exact absurd rfl (ha index data bound)
  | close index =>
    obtain ⟨c, hc, rfl⟩ := closed_of_ok hs
    exact ⟨h.closeClientAt hc, .closed hc⟩
  | run failed =>
    obtain ⟨hloses, -⟩ := loses_of_run hs
    exact ⟨hloses.sized h, .loses hloses⟩

theorem Received.room {s s' : ChatServer} {index : Nat} {data : Bytes} {bound : Bool}
    (h : Received s index data bound s') (i : Nat) :
    (s'.clientMgr.clientOf i).room =
      if i = index then
        (handle ((s.clientMgr.clientOf index).received data)
          ((s.clientMgr.clientOf index).received data).recvBuf).room
      else (s.clientMgr.clientOf i).room := by
  obtain ⟨c, hc, rfl⟩ := h.client
  rw [ClientManager.clientOf_of_getElem? hc]
  split
  · subst i
    rw [ClientManager.clientOf_of_getElem? (ClientManager.getElem?_setClient_self hc _)]
    exact (ClientManager.rooms_posted _ _).1
  · rw [ClientManager.clientOf, ClientManager.getElem?_setClient_of_ne ‹_›]
    rfl

end ChatServer

namespace Chat

structure Located (s : Chat) : Prop where
  sized : s.server.clientMgr.Sized
  follows : ∀ {i : Nat} {c : Conn}, s.conns i = some c →
    c.Follows (s.server.clientMgr.clientOf i).room

theorem located_init (n : Nat) : Located (system n).init where
  sized := ClientManager.sized_new n
  follows h := by cases h

theorem conns_setConn_self (s : Chat) (i : Nat) (o : Option Conn) :
    (s.setConn i o).conns i = o := by
  simp only [setConn, Function.update_self]

theorem conns_setConn_of_ne (s : Chat) {i j : Nat} (h : j ≠ i) (o : Option Conn) :
    (s.setConn i o).conns j = s.conns j := by
  simp only [setConn, ne_eq, h, not_false_eq_true, Function.update_of_ne]

theorem Located.setConn {s : Chat} (h : s.Located) {i : Nat} {o : Option Conn}
    (ho : ∀ c, o = some c → c.Follows (s.server.clientMgr.clientOf i).room) :
    (s.setConn i o).Located where
  sized := h.sized
  follows {j c} hc := by
    by_cases hj : j = i
    · subst hj
      exact ho c ((s.conns_setConn_self j o).symm.trans hc)
    · exact h.follows ((s.conns_setConn_of_ne hj o).symm.trans hc)

theorem Located.sameRooms {s : Chat} (h : s.Located) {server : ChatServer}
    (hsize : server.clientMgr.Sized) (hrooms : s.server.clientMgr.SameRooms server.clientMgr) :
    Located { s with server } where
  sized := hsize
  follows hc := by
    rw [hrooms.room]
    exact h.follows hc

theorem Located.hangUp {s : Chat} (h : s.Located) : s.hangUp.Located where
  sized := h.sized
  follows {i c} hc := by
    change (if s.server.clientMgr.connected i then s.conns i else none) = some c at hc
    split at hc
    · exact h.follows hc
    · cases hc

theorem Located.connect {s s' : Chat} (h : s.Located) {socket : Socket}
    (hs : s.connect socket = .ok s') : s'.Located := by
  simp only [Chat.connect, bind_eq_ok_iff] at hs
  obtain ⟨server, hserver, hs⟩ := hs
  obtain ⟨hsize, hrooms⟩ := ChatServer.sameRooms_of_step h.sized (by rintro _ _ _ ⟨⟩) hserver
  have hlocated := h.sameRooms hsize hrooms
  split at hs
  · obtain rfl := Except.ok.inj hs
    exact hlocated
  · obtain rfl := Except.ok.inj hs
    refine hlocated.setConn ?_
    rintro _ ⟨⟩
    exact Conn.follows_init _

theorem Located.clientStep {s s' : Chat} (h : s.Located) {i : Nat} {stage : Stage}
    {f : Conn → Option Conn}
    (hf : ∀ {room : Int32} {c c' : Conn}, s.conns i = some c → c.Follows room → c.stage = stage →
      f c = some c' → c'.Follows room)
    (hs : s.clientStep i stage f = .ok s') : s'.Located := by
  unfold Chat.clientStep at hs
  cases hc : s.conns i with
  | none =>
    rw [hc] at hs
    cases hs
  | some c =>
    rw [hc] at hs
    dsimp only at hs
    split at hs
    · obtain rfl := Except.ok.inj hs
      exact h.setConn fun c' hc' => hf hc (h.follows hc) ‹_› hc'
    · cases hs

theorem Located.serverStep {s s' : Chat} (h : s.Located) {a : ChatServer.Action}
    (ha : ∀ index data bound, a ≠ .receive index data bound) (hs : s.serverStep a = .ok s') :
    s'.Located := by
  simp only [Chat.serverStep, bind_eq_ok_iff] at hs
  obtain ⟨server, hserver, hs⟩ := hs
  obtain rfl := Except.ok.inj hs
  obtain ⟨hsize, hrooms⟩ := ChatServer.sameRooms_of_step h.sized ha hserver
  exact (h.sameRooms hsize hrooms).hangUp

theorem Located.otherStep {s s' : Chat} (h : s.Located) {a : ChatServer.Action}
    (hs : s.otherStep a = .ok s') : s'.Located := by
  unfold Chat.otherStep at hs
  split at hs
  · rename_i index data bound
    split at hs
    · cases hs
    · rename_i hnone
      simp only [Chat.serverStep, bind_eq_ok_iff] at hs
      obtain ⟨server, hserver, hs⟩ := hs
      obtain rfl := Except.ok.inj hs
      have hreceived := ChatServer.received_of_ok hserver
      refine Located.hangUp ⟨hreceived.sized h.sized, fun {i c} hc => ?_⟩
      have hne : i ≠ index := by
        rintro rfl
        exact hnone (Option.isSome_of_eq_some hc)
      rw [hreceived.room, if_neg hne]
      exact h.follows hc
  · rename_i ha
    exact h.serverStep ha hs

theorem Located.receive {s s' : Chat} (h : s.Located) {index count : Nat} {bound : Bool}
    (ha : ∀ c ∈ s.conns index, ∀ packet ∈ (c.outbox.take count).tail, Stays packet)
    (hs : s.receive index count bound = .ok s') : s'.Located := by
  unfold Chat.receive at hs
  cases hc : s.conns index with
  | none =>
    rw [hc] at hs
    cases hs
  | some c =>
    rw [hc] at hs
    dsimp only at hs
    split at hs
    · cases hs
    · rename_i hcount
      simp only [not_or, Nat.not_lt] at hcount
      simp only [Chat.serverStep, bind_eq_ok_iff] at hs
      obtain ⟨server, hserver, hs⟩ := hs
      obtain rfl := Except.ok.inj hs
      have hreceived := ChatServer.received_of_ok hserver
      have hstay := ha c hc
      have hsplit := List.take_append_drop count c.outbox
      have hlen := List.length_take_of_le hcount.2
      cases htake : c.outbox.take count with
      | nil =>
        rw [htake] at hlen
        exact absurd hlen.symm hcount.1
      | cons packet packets =>
        rw [htake] at hreceived hstay hsplit
        obtain ⟨m, hm, -, hfollows⟩ := (h.follows hc).receive hsplit.symm hstay
        refine Located.hangUp ⟨hreceived.sized h.sized, fun {i c'} hi => ?_⟩
        rw [hreceived.room]
        by_cases hne : i = index
        · subst hne
          obtain rfl := Option.some.inj ((s.conns_setConn_self i _).symm.trans hi)
          rw [if_pos rfl]
          have hhandled := (hm.handled
            ((s.server.clientMgr.clientOf i).received (packet :: packets).flatten)
            (packets.flatten ++
              (s.server.clientMgr.clientOf i).recvBuf.drop (packet :: packets).flatten.length)).1
          rw [← List.append_assoc, ← List.flatten_cons] at hhandled
          exact hhandled ▸ hfollows
        · rw [if_neg hne]
          exact h.follows ((s.conns_setConn_of_ne hne _).symm.trans hi)

theorem Located.step {s s' : Chat} (h : s.Located) {a : Action} (ha : s.allows a)
    (hs : s.step a = .ok s') : s'.Located := by
  cases a with
  | connect socket => exact h.connect hs
  | server a => exact h.otherStep hs
  | receive i count bound => exact h.receive ha hs
  | nicknameCheck i nickname stack success reply =>
    exact h.clientStep (fun _ hc hstage => hc.nicknameCheck hstage ha) hs
  | key i k stack success => exact h.clientStep (fun _ hc hstage => hc.key hstage) hs
  | line i content stack success =>
    simp only [Chat.step] at hs
    split at hs
    · cases hs
    · exact h.clientStep (fun hi hc hstage => hc.line hstage ha.1 (ha.2 _ hi)) hs

theorem located_of_reach {n : Nat} {s : Chat} (h : (system n).Reach allows s) : s.Located :=
  h.invariant (located_init n) fun _ _ _ _ hl ha hs => hl.step ha hs

/-- The server refuses no client anything, and when it has taken all that a client has sent, it has
the client in the room that the client takes itself to be in. -/
theorem room_agrees {n : Nat} {s : Chat} (h : (system n).Reach allows s) {i : Nat} {c : Conn}
    (hc : s.conns i = some c) :
    (∀ packet ∈ c.outbox.head?, ∀ rest, ∀ notice ∈ s.server.notice i (packet ++ rest),
      notice.accepted = true) ∧
      (c.stage ≠ .setNickname → c.outbox = [] →
        (s.server.clientMgr.clientOf i).room = c.client.room) ∧
      (c.stage = .lobby → c.client.room = UserInfo.lobby) ∧
      (c.stage = .sendThread → c.client.room ∈ rooms) := by
  have hfollows := (located_of_reach h).follows hc
  refine ⟨?_, fun hstage hnil => ?_, fun hstage => hfollows.inLobby (hstage ▸ by decide),
    hfollows.inRoom⟩
  · intro packet hpacket rest notice hnotice
    obtain ⟨outbox, hout⟩ := List.head?_eq_some_iff.mp hpacket
    have hall : c.outbox = packet :: ([] ++ outbox) := hout
    obtain ⟨m, hm, haccepted, -⟩ := hfollows.receive hall (List.forall_mem_nil _)
    obtain ⟨u, hu, hnotice⟩ := Option.bind_eq_some_iff.mp hnotice
    rw [ClientManager.clientOf_of_getElem? hu] at haccepted
    have hhandled := (hm.handled (u.received (packet ++ rest))
      (rest ++ u.recvBuf.drop (packet ++ rest).length)).2 haccepted notice
    rw [← List.append_assoc] at hhandled
    exact hhandled hnotice
  · have hpending := hfollows.of_stage hstage
    rw [hnil] at hpending
    exact hpending.eq_of_nil

def wander : List Action :=
  let stack : Memory UInt8 := fun _ => 0
  [.connect 7, .nicknameCheck 0 [97] stack true (Packet.serverMessage Packet.nicknameCreated),
    .receive 0 1 true, .key 0 .down stack true, .key 0 .enter stack true,
    .line 0 [104, 105] (fun _ => stack) (fun _ => true), .receive 0 2 true,
    .line 0 lobbyCommand (fun _ => stack) (fun _ => true), .key 0 .enter stack true,
    .receive 0 1 true, .server (.run []), .receive 0 1 true]

theorem room_agrees_wander :
    ∃ s c, (system 4).Reach allows s ∧ s.conns 0 = some c ∧ c.client.room = 1 ∧
      (s.server.clientMgr.clientOf 0).room = c.client.room := by
  obtain ⟨s, hs, hp⟩ := System.exists_of_runWith (S := system 4) (G := allows)
    (g := fun s a => decide (s.allows a)) (fun _ _ h => of_decide_eq_true h)
    (p := fun s : Chat => (s.conns 0).any fun c : Conn =>
      decide (c.stage = .sendThread ∧ c.outbox = [] ∧ c.client.room = 1)) wander (by decide +kernel)
  obtain ⟨c, hc, hconn⟩ := (Option.any_eq_true _ _).mp hp
  obtain ⟨hstage, hnil, hroom⟩ := of_decide_eq_true hconn
  obtain ⟨-, hagrees, -⟩ := room_agrees hs hc
  exact ⟨s, c, hs, hc, hroom, hagrees (hstage ▸ by decide) hnil⟩

end Chat

end ChattingServer.V10
