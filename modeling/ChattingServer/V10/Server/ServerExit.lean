import ChattingServer.V10.Server.Occupancy

namespace ChattingServer.V10

open Lib

namespace ChatServer

theorem filter_close_multiSends {m : ClientManager} {p : PacketInfo} (hclose : p.isClose = true)
    (c : UserInfo) :
    (multiSends m p c).filter (·.ioType = .close) =
      (multiSends m p c).filter (·.index = p.clientIndex) := by
  refine List.filter_congr fun send hsend => ?_
  unfold multiSends at hsend
  split at hsend
  · contradiction
  · obtain ⟨i, -, c', -, -, rfl⟩ := mem_castSends.mp hsend
    by_cases hi : i = p.clientIndex <;> simp [hi, hclose]

theorem senderRoom_eq_room_iff {c : UserInfo} :
    senderRoom c = some c.room ↔ c.room ≠ UserInfo.lobby := by
  rw [senderRoom_eq]
  by_cases hroom : c.room = UserInfo.lobby
  · by_cases hprev : c.prevRoom = UserInfo.lobby <;> simp [hroom, hprev]
  · simp [hroom]

end ChatServer

namespace Served

/-- A client whose request to leave has come to the front of the queue is sent the close, unless an
earlier round has done that, and nobody else is; when the close has been sent, the slot is free.
The other clients in the room that it was in when it asked are told once. -/
def ClosesExit (x : Served) : Prop :=
  ∀ p ∈ x.server.packetQueue.head?, ∀ stamp ∈ x.stamps.head?, p.isClose = true →
    ∀ g, stamp.occupant = some g → ∀ failed, ∃ s' sends, x.server.run failed = .ok s' ∧
      s'.sends = x.server.sends ++ sends ∧
      ((x.occupant p.clientIndex = some g ∧
          (∃ c, x.server.clientMgr.clientInfos[p.clientIndex]? = some c ∧
            sends.filter (·.ioType = .close) =
              [⟨p.clientIndex, c.socketClient, p.packetData.take p.dataSize, .close⟩]) ∧
          (p.clientIndex ∉ failed → ∃ s'', s'.close p.clientIndex = .ok s'' ∧
            s''.clientMgr.connected p.clientIndex = false ∧
            p.clientIndex ∈ s''.clientMgr.emptyClients)) ∨
        (p.clientIndex, some g) ∈ x.closed ∧ sends.filter (·.ioType = .close) = []) ∧
      (stamp.room ≠ UserInfo.lobby → ∀ i ≠ p.clientIndex, ∀ c,
        x.server.clientMgr.clientInfos[i]? = some c → c.isConnected = true → c.room = stamp.room →
          sends.filter (·.index = i) =
            [⟨i, c.socketClient, p.packetData.take p.dataSize, .send⟩])

/-- The client that asked to leave still has its slot and is in a room, or has been sent a close
before and nobody is in a room with that slot now; and its packets are sent to the room that it
asked from, unless that was the lobby or nobody else is there. -/
def StillInRoom (x : Served) : Prop :=
  ∀ p ∈ x.server.packetQueue.head?, ∀ stamp ∈ x.stamps.head?, p.isClose = true →
    ∀ g, stamp.occupant = some g → ∀ c, x.server.clientMgr.clientInfos[p.clientIndex]? = some c →
      (x.occupant p.clientIndex = some g ∧ c.room ≠ UserInfo.lobby ∨
        (p.clientIndex, some g) ∈ x.closed ∧
          (c.isConnected = true → c.room = UserInfo.lobby)) ∧
      (stamp.room = UserInfo.lobby ∨ ChatServer.senderRoom c = some stamp.room ∨
        ∀ i ≠ p.clientIndex, ∀ c', x.server.clientMgr.clientInfos[i]? = some c' →
          c'.isConnected = true → c'.room ≠ stamp.room)

theorem filter_close_eq {x : Served} (h : Orderly x) {p : PacketInfo} (hclose : p.isClose = true)
    {c : UserInfo} (hc : x.server.clientMgr.clientInfos[p.clientIndex]? = some c) :
    (ChatServer.multiSends x.server.clientMgr p c).filter (·.ioType = .close) =
      if c.isConnected = true ∧ c.room ≠ UserInfo.lobby then
        [⟨p.clientIndex, c.socketClient, p.packetData.take p.dataSize, .close⟩]
      else [] := by
  have hroom := ChatServer.senderRoom_eq_room_iff (c := c)
  rw [ChatServer.filter_close_multiSends hclose]
  cases hsender : ChatServer.senderRoom c with
  | none =>
    rw [hsender] at hroom
    rw [if_neg fun h => nomatch hroom.mpr h.2]
    simp [ChatServer.multiSends, hsender]
  | some room =>
    rw [hsender, Option.some.injEq, eq_comm] at hroom
    simp only [ChatServer.filter_multiSends h.sized hsender hc, hclose, and_self, if_true]
    exact if_congr (and_congr_right fun _ => hroom) rfl rfl

theorem closesExit_of_stillInRoom {x : Served} (h : Orderly x) (hin : StillInRoom x) :
    ClosesExit x := by
  intro p hp stamp hstamp hclose g hg failed
  obtain ⟨hfront, c, m, packetQueue, hc, hloses, hok⟩ := h.front hp failed
  obtain ⟨hself, hothers⟩ := hin p hp stamp hstamp hclose g hg c hc
  rw [ChatServer.packetSends, hfront.multi hclose] at hok
  have hto := filter_close_eq h hclose hc
  refine ⟨_, _, hok, rfl, ?_, fun hstamped i hi c' hc' hup' hthere => ?_⟩
  · rcases hself with ⟨hoccupant, hroom⟩ | ⟨hbefore, hlobby⟩
    · have hup : c.isConnected = true :=
        (ClientManager.connected_of_getElem? hc).symm.trans (connected_of_occupant hoccupant)
      refine .inl ⟨hoccupant, ⟨c, hc, by rw [hto, if_pos ⟨hup, hroom⟩]⟩, fun hsent => ?_⟩
      have hc' : m.clientInfos[p.clientIndex]? = some c := by
        rcases hloses.client p.clientIndex with heq | ⟨hfailed, -⟩
        · rw [heq, hc]
        · exact absurd hfailed hsent
      refine ⟨_, close_eq hc', ?_, ?_⟩
      · rw [ClientManager.connected_closeClientAt hc']
        simp
      · simp [ClientManager.closeClientAt, hup]
    · exact .inr ⟨hbefore, by rw [hto, if_neg fun h => h.2 (hlobby h.1)]⟩
  · rcases hothers with hothers | hothers | hothers
    · exact absurd hothers hstamped
    · rw [ChatServer.filter_multiSends h.sized hothers hc', if_pos ⟨hup', hthere⟩,
        if_neg fun h => hi h.2]
    · exact absurd hthere (hothers i hi c' hc' hup')

theorem stillInRoom_of_closesExit {x : Served} (h : Orderly x) (hx : ClosesExit x) :
    StillInRoom x := by
  intro p hp stamp hstamp hclose g hg c hc
  obtain ⟨hfront, c', m, packetQueue, hc', -, hok⟩ := h.front hp []
  cases hc'.symm.trans hc
  obtain ⟨s', sends, hok', hsends, hself, hothers⟩ := hx p hp stamp hstamp hclose g hg []
  cases hok.symm.trans hok'
  obtain rfl := List.append_cancel_left hsends
  rw [ChatServer.packetSends, hfront.multi hclose] at hself hothers
  rw [filter_close_eq h hclose hc] at hself
  refine ⟨?_, ?_⟩
  · rcases hself with ⟨hoccupant, ⟨_, -, hone⟩, -⟩ | ⟨hbefore, hnone⟩
    · refine .inl ⟨hoccupant, fun hlobby => ?_⟩
      rw [if_neg fun h => h.2 hlobby] at hone
      contradiction
    · refine .inr ⟨hbefore, fun hup => ?_⟩
      by_contra hroom
      rw [if_pos ⟨hup, hroom⟩] at hnone
      contradiction
  · by_cases hstamped : stamp.room = UserInfo.lobby
    · exact .inl hstamped
    by_cases hsame : ChatServer.senderRoom c = some stamp.room
    · exact .inr (.inl hsame)
    refine .inr (.inr fun i hi c' hc' hup' hthere => ?_)
    have htold := hothers hstamped i hi c' hc' hup' hthere
    cases hsender : ChatServer.senderRoom c with
    | none => simp [ChatServer.multiSends, hsender] at htold
    | some room =>
      rw [ChatServer.filter_multiSends h.sized hsender hc',
        if_neg fun h => hsame (by rw [hsender, ← h.2, hthere])] at htold
      contradiction

/-! Runs in which a client waits for its exit -/

def exitWaits (packetQueue : List PacketInfo) (i : Nat) : Bool :=
  packetQueue.any fun p => p.clientIndex = i ∧ p.isClose = true

/-- A client asks to leave from a room.  Until that has been dealt with it stays there and in its
slot, and no receive or send for it fails. -/
def waitsForExit (search : Bool) (x : Served) : Event → Bool
  | .act (.accept _ _) => true
  | .act (.receive index data bound) =>
    x.server.clientMgr.clientInfos[index]?.all fun c =>
      let buf := (c.received data).recvBuf
      (Packet.request buf = some .serverExit → c.isConnected = true →
        c.room ≠ UserInfo.lobby ∧ bound = true) ∧
      (exitWaits x.server.packetQueue index = true → bound = true ∧
        Packet.request buf ≠ some .roomExit ∧
        (Packet.request buf = some .serverEnter → x.server.found search buf ≠ none))
  | .act (.close i) => exitWaits x.server.packetQueue i = false
  | .act (.run failed) => failed.all fun i => exitWaits x.server.packetQueue.tail i = false
  | .closed k => x.closing[k]?.all fun e => exitWaits x.server.packetQueue e.1 = false

structure InRoom (x : Served) (i g : Nat) (room : Int32) : Prop where
  occupant : x.occupant i = some g
  client : ∃ c, x.server.clientMgr.clientInfos[i]? = some c ∧ c.room = room ∧
    c.room ≠ UserInfo.lobby

structure Waits (x : Served) : Prop where
  exclusive : x.server.clientMgr.Exclusive
  there : ∀ e ∈ x.server.packetQueue.zip x.stamps, e.1.isClose = true →
    ∀ g, e.2.occupant = some g → InRoom x e.1.clientIndex g e.2.room

theorem Waits.stillInRoom {x : Served} (h : Waits x) : StillInRoom x := by
  intro p hp stamp hstamp hclose g hg c hc
  obtain ⟨hoccupant, ⟨c', hc', hroom, hlobby⟩⟩ :=
    h.there (p, stamp) (mem_zip_of_head hp hstamp) hclose g hg
  cases hc'.symm.trans hc
  refine ⟨.inl ⟨hoccupant, hlobby⟩, .inr (.inl ?_)⟩
  rw [ChatServer.senderRoom_eq_room_iff.mpr hlobby, hroom]

theorem exclusive_stepped {search : Bool} {x x' : Served} (h : Orderly x)
    (he : x.server.clientMgr.Exclusive) {e : Event} (hs : Stepped search x e x') :
    x'.server.clientMgr.Exclusive := by
  cases hs with
  | accept hm => exact he.created h.sized hm
  | @receive index data bound server hr =>
    obtain ⟨c, hc, rfl⟩ := hr.client
    refine he.setClient hc fun hup => ?_
    rw [ChatServer.isConnected_received, Bool.and_eq_true] at hup
    exact hup.1
  | close client => exact he.closeClientAt client
  | idle => exact he
  | run _ _ _ loses => exact he.loses loses

theorem request_of_isClose {found : Option Nat} {index size : Nat} {buf : Bytes} {p : PacketInfo}
    (hp : p ∈ ChatServer.enqueuedIf found index size buf) (hclose : p.isClose = true) :
    Packet.request buf = some .serverExit ∧ p.clientIndex = index := by
  unfold ChatServer.enqueuedIf ChatServer.enqueued at hp
  cases hr : Packet.request buf with
  | none =>
    rw [hr] at hp
    contradiction
  | some r =>
    rw [hr] at hp
    cases r with
    | serverExit =>
      obtain rfl := List.mem_singleton.mp hp
      exact ⟨rfl, rfl⟩
    | serverEnter =>
      cases found <;> obtain rfl := List.mem_singleton.mp hp <;> contradiction
    | roomEnter | roomExit | chatBroadcast | chatMulticast =>
      obtain rfl := List.mem_singleton.mp hp
      contradiction
    | chatUnicast =>
      cases found with
      | none =>
        obtain rfl := List.mem_singleton.mp hp
        contradiction
      | some i =>
        rcases List.mem_cons.mp hp with rfl | hp
        · contradiction
        · obtain rfl := List.mem_singleton.mp hp
          contradiction

theorem room_handleIf {found : Option Nat} {c : UserInfo} {buf : Bytes}
    (hroom : c.room ≠ UserInfo.lobby) (hexit : Packet.request buf ≠ some .roomExit)
    (henter : Packet.request buf = some .serverEnter → found ≠ none) :
    (ChatServer.handleIf found c buf).room = c.room := by
  unfold ChatServer.handleIf ChatServer.handle
  cases hr : Packet.request buf with
  | none => rfl
  | some r =>
    cases r with
    | serverEnter => simp [henter hr]
    | roomEnter => simp [UserInfo.enterRoom_of_ne hroom]
    | roomExit => exact absurd hr hexit
    | serverExit | chatBroadcast | chatMulticast | chatUnicast => rfl

theorem InRoom.connected {x : Served} {i g : Nat} {room : Int32} (h : InRoom x i g room) :
    x.server.clientMgr.connected i = true :=
  connected_of_occupant h.occupant

theorem InRoom.same {x x' : Served} {i g : Nat} {room : Int32} (h : InRoom x i g room)
    (hgiven : x'.given i = x.given i)
    (hclient : ∀ c, x.server.clientMgr.clientInfos[i]? = some c → c.isConnected = true →
      c.room ≠ UserInfo.lobby → ∃ c', x'.server.clientMgr.clientInfos[i]? = some c' ∧
        c'.room = c.room ∧ c'.isConnected = true) : InRoom x' i g room := by
  obtain ⟨c, hc, hroom, hlobby⟩ := h.client
  have hup := (ClientManager.connected_of_getElem? hc).symm.trans h.connected
  obtain ⟨c', hc', hroom', hup'⟩ := hclient c hc hup hlobby
  refine ⟨?_, c', hc', hroom'.trans hroom, by rwa [hroom']⟩
  rw [occupant_of_connected ((ClientManager.connected_of_getElem? hc').trans hup'), hgiven,
    ← occupant_of_connected h.connected, h.occupant]

theorem exitWaits_of_mem_zip {packetQueue : List PacketInfo} {stamps : List Stamp}
    {e : PacketInfo × Stamp} (he : e ∈ packetQueue.zip stamps) (hclose : e.1.isClose = true) :
    exitWaits packetQueue e.1.clientIndex = true :=
  List.any_eq_true.mpr ⟨e.1, (List.of_mem_zip he).1, decide_eq_true ⟨rfl, hclose⟩⟩

theorem InRoom.received {search : Bool} {x : Served} {i g : Nat} {room : Int32}
    (h : InRoom x i g room) {index : Nat} {data : Bytes} {bound : Bool}
    (hg : waitsForExit search x (.act (.receive index data bound)) = true)
    (hwaits : index = i → exitWaits x.server.packetQueue i = true ∨ ∀ c,
      x.server.clientMgr.clientInfos[i]? = some c →
        Packet.request (c.received data).recvBuf = some .serverExit)
    {server : ChatServer} (hr : ChatServer.ReceivedIf search x.server index data bound server) :
    InRoom (x.follow server (.receive index data bound)) i g room := by
  obtain ⟨c, hc, rfl⟩ := hr.client
  simp only [waitsForExit, hc, Option.all_some, decide_eq_true_eq] at hg
  refine h.same rfl fun c' hc' hup hlobby => ?_
  by_cases hi : i = index
  · subst hi
    cases hc'.symm.trans hc
    have hmoves : bound = true ∧ Packet.request (c.received data).recvBuf ≠ some .roomExit ∧
        (Packet.request (c.received data).recvBuf = some .serverEnter →
          x.server.found search (c.received data).recvBuf ≠ none) := by
      rcases hwaits rfl with hwaits | hexit
      · exact hg.2 hwaits
      · have hr := hexit c hc
        exact ⟨(hg.1 hr hup).2, by simp [hr], by simp [hr]⟩
    obtain ⟨rfl, hexit, henter⟩ := hmoves
    refine ⟨_, ClientManager.getElem?_setClient_self hc _, ?_, ?_⟩
    · exact room_handleIf (c := c.received data) hlobby hexit henter
    · rw [ChatServer.isConnected_received, hup]
      rfl
  · exact ⟨c', (ClientManager.getElem?_setClient_of_ne hi _).trans hc', rfl, hup⟩

theorem Waits.received {search : Bool} {x : Served} (h : Waits x) (ho : Orderly x) {index : Nat}
    {data : Bytes} {bound : Bool}
    (hg : waitsForExit search x (.act (.receive index data bound)) = true)
    {server : ChatServer} (hr : ChatServer.ReceivedIf search x.server index data bound server) :
    ∀ e ∈ server.packetQueue.zip (x.follow server (.receive index data bound)).stamps,
      e.1.isClose = true → ∀ g, e.2.occupant = some g →
        InRoom (x.follow server (.receive index data bound)) e.1.clientIndex g e.2.room := by
  obtain ⟨c, hc, hserver⟩ := hr.client
  have hadded : server.packetQueue = x.server.packetQueue ++ ChatServer.enqueuedIf
      (x.server.found search (c.received data).recvBuf) index data.length
        (c.received data).recvBuf := by
    rw [hserver]
  intro e he hclose g hoccupant
  simp only [follow, hadded, List.drop_left, List.zip_append ho.stamped.symm] at he
  rcases List.mem_append.mp he with he | he
  · have hin := h.there e he hclose g hoccupant
    exact hin.received hg (fun _ => .inl (exitWaits_of_mem_zip he hclose)) hr
  · rw [← List.map_prod_left_eq_zip, List.mem_map] at he
    obtain ⟨p, hp, rfl⟩ := he
    obtain ⟨hexit, hindex⟩ := request_of_isClose hp hclose
    dsimp only [stamp] at hoccupant ⊢
    rw [hindex] at hoccupant ⊢
    have hup := (ClientManager.connected_of_getElem? hc).symm.trans
      (connected_of_occupant hoccupant)
    have hg' := hg
    simp only [waitsForExit, hc, Option.all_some, decide_eq_true_eq] at hg'
    have hin : InRoom x index g (x.roomOf index) :=
      ⟨hoccupant, c, hc, by rw [roomOf, hc]; rfl, (hg'.1 hexit hup).1⟩
    refine hin.received hg (fun _ => .inr fun c' hc' => ?_) hr
    cases hc'.symm.trans hc
    exact hexit

theorem Waits.stepped {search : Bool} {x x' : Served} (h : Waits x) (ho : Orderly x) {e : Event}
    (hg : waitsForExit search x e = true) (hs : Stepped search x e x') : Waits x' := by
  refine ⟨exclusive_stepped ho h.exclusive hs, ?_⟩
  cases hs with
  | @accept socket outcome created m hm =>
    intro e he hclose g hoccupant
    have hin := h.there e he hclose g hoccupant
    have hnext : x.server.clientMgr.nextSlot ≠ some e.1.clientIndex := fun hnext => by
      have hdown := h.exclusive.nextSlot ho.sized hnext
      rw [hin.connected] at hdown
      contradiction
    exact hin.same (if_neg hnext) fun c hc hup _ =>
      ⟨c, (hm.kept ho.sized h.exclusive hin.connected).trans hc, rfl, hup⟩
  | receive hr => exact h.received ho hg hr
  | @close e i c closing client event =>
    have hwaits : exitWaits x.server.packetQueue i = false := by
      rcases event with ⟨rfl, -⟩ | ⟨k, o, rfl, hk, -⟩
      · exact of_decide_eq_true hg
      · rw [waitsForExit, hk, Option.all_some] at hg
        exact of_decide_eq_true hg
    intro e he hclose g hoccupant
    have hin := h.there e he hclose g hoccupant
    have hi : e.1.clientIndex ≠ i := by
      rintro rfl
      rw [exitWaits_of_mem_zip he hclose] at hwaits
      contradiction
    refine hin.same rfl fun c' hc' hup _ => ⟨c', ?_, rfl, hup⟩
    exact (ClientManager.getElem?_closeClientAt client _).trans ((if_neg hi).trans hc')
  | idle => exact h.there
  | @run failed p packetQueue stamp stamps c m queue stamped client loses =>
    intro e he hclose g hoccupant
    have hin := h.there e (by rw [queue, stamped]; exact List.mem_cons_of_mem _ he) hclose g
      hoccupant
    have hsent : e.1.clientIndex ∉ failed := fun hmem => by
      have hno := of_decide_eq_true (List.all_eq_true.mp hg _ hmem)
      rw [queue, List.tail_cons, exitWaits_of_mem_zip he hclose] at hno
      contradiction
    refine hin.same rfl fun c' hc' hup _ => ⟨c', ?_, rfl, hup⟩
    rcases loses.client e.1.clientIndex with heq | ⟨hmem, -⟩
    · exact heq.trans hc'
    · exact absurd hmem hsent

theorem waits_init (n : Nat) : Waits ⟨.init n, fun _ => 0, [], [], []⟩ :=
  ⟨ClientManager.balanced_new.exclusive (ClientManager.sized_new n), List.forall_mem_nil _⟩

/-- A request to leave closes its client exactly when that is still in a room with its slot, and in
a run where clients wait there for their exit it always does. -/
theorem closesExit_iff (search : Bool) (n : Nat) :
    (∀ x, (system search n).Reachable x → (ClosesExit x ↔ StillInRoom x)) ∧
      ∀ x, (system search n).Reach (fun x e => waitsForExit search x e = true) x →
        ClosesExit x := by
  refine ⟨fun x h => ⟨stillInRoom_of_closesExit (orderly_of_reach h),
    closesExit_of_stillInRoom (orderly_of_reach h)⟩, fun x h => ?_⟩
  have hwaits : Waits x := h.invariant (waits_init n) fun _ _ _ hr hx hg hs =>
    hx.stepped (orderly_of_reach hr) hg (stepped_of_ok (orderly_of_reach hr) hs)
  exact closesExit_of_stillInRoom (orderly_of_reach h) hwaits.stillInRoom

theorem closesExit_of_room :
    ∃ x, (system false 8).Reachable x ∧ x.server.packetQueue.map PacketInfo.isClose = [true] ∧
      x.stamps = [⟨some 1, 1⟩] ∧ ClosesExit x := by
  obtain ⟨x, hx, hp⟩ := System.exists_of_runWith (S := system false 8)
    (G := fun x e => waitsForExit false x e = true) (g := waitsForExit false)
    (p := fun x => decide (x.server.packetQueue.map PacketInfo.isClose = [true] ∧
      x.stamps = [⟨some 1, 1⟩])) (fun _ _ h => h)
    [.act (.accept 7 .connected), .act (.accept 8 .connected),
      .act (.receive 0 (ChatServer.packet .roomEnter 1) true),
      .act (.receive 1 (ChatServer.packet .roomEnter 1) true), .act (.run []), .act (.run []),
      .act (.receive 0 (ChatServer.packet .serverExit 0) true)] (by decide)
  obtain ⟨hqueue, hstamps⟩ := of_decide_eq_true hp
  exact ⟨x, hx.reachable, hqueue, hstamps, (closesExit_iff false 8).2 x hx⟩

/-- A client that was never in a room asks to leave and is not sent anything. -/
theorem not_closesExit :
    ¬ ∀ search n x, (system search n).Reachable x → ClosesExit x := by
  intro h
  obtain ⟨x, hx, hp⟩ := System.exists_of_run (S := system false 4)
    (p := fun x => decide (x.server.packetQueue.map PacketInfo.isClose = [true] ∧
      x.stamps.map Stamp.occupant = [some 1] ∧ x.closed = []) &&
        (x.server.run []).toOption.any fun s' : ChatServer => decide (s'.sends = []))
    [.act (.accept 7 .connected), .act (.receive 0 (ChatServer.packet .serverExit 0) true)]
    (by decide)
  obtain ⟨hstate, hsent⟩ := (Bool.and_eq_true ..).mp hp
  obtain ⟨hqueue, hstamps, hclosed⟩ := of_decide_eq_true hstate
  obtain ⟨p, hfront, hclose⟩ := List.map_eq_singleton_iff.mp hqueue
  obtain ⟨stamp, hstamp, hthen⟩ := List.map_eq_singleton_iff.mp hstamps
  obtain ⟨s', sends, hok, hsends, hself, -⟩ := h false 4 x hx p (by rw [hfront]; rfl) stamp
    (by rw [hstamp]; rfl) hclose 1 hthen []
  rw [hok] at hsent
  rw [of_decide_eq_true hsent] at hsends
  obtain rfl : sends = [] := (List.append_eq_nil_iff.mp hsends.symm).2
  rcases hself with ⟨-, ⟨c, -, hone⟩, -⟩ | ⟨hbefore, -⟩
  · contradiction
  · rw [hclosed] at hbefore
    contradiction

end Served

end ChattingServer.V10
