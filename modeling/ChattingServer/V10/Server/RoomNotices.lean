import ChattingServer.V10.Server.Watch

namespace ChattingServer.V10

open Lib

namespace Watched

def welcomes (x : Watched) (index : Nat) (room : Int32) : Bool :=
  x.1.packetQueue.all fun p =>
    let t := x.teller p.clientIndex
    p.clientIndex = index ∨ t.room = room ∨ t.audience ≠ some room ∨
      (Notice.kinds t.pending).head? ≠ some .exit

/-- A client enters rooms from the lobby only, when its notices have been sent or to go back to the
room that it came from.  It asks to leave from a room, or if it has left none before, and does not
log in again from a room.  It comes to a room, also by a connection to its slot, when no exit is on
its way there. -/
def announces (x : Watched) : ChatServer.Action → Bool
  | .accept _ outcome => outcome = .recvFailed ∨ x.1.clientMgr.nextSlot.all fun j =>
    (x.teller j).room = UserInfo.lobby ∨ x.welcomes j (x.teller j).room
  | .receive index data bound =>
    x.1.clientMgr.clientInfos[index]?.all fun c =>
      let buf := (c.received data).recvBuf
      match Packet.request buf with
      | some .roomEnter => c.room = UserInfo.lobby ∧ Packet.roomNo buf ≠ UserInfo.lobby ∧
        (Packet.roomNo buf = c.prevRoom ∨ x.pending index = []) ∧
        (bound = false ∨ c.isConnected = false ∨ x.welcomes index (Packet.roomNo buf))
      | some .roomExit => c.room ≠ UserInfo.lobby ∨ c.prevRoom = UserInfo.lobby
      | some .serverEnter => c.room = UserInfo.lobby
      | _ => true
  | .close _ | .run _ => true

/-! What holds in such a run -/

def past (x : Watched) (j i : Nat) : List NoticeKind :=
  (if (x.2.stays j).present i then [] else [.exit]) ++ (x.2.stays j).seenOf i

structure Announced (x : Watched) : Prop where
  consistent : ∀ i, (x.teller i).Consistent
  follows : ∀ j room, x.1.clientMgr.observes j = some room → ∀ i,
    (x.teller i).Follows (x.past j i) room

theorem Announced.alternating {x : Watched} (h : Announced x) : Alternating x := by
  intro j room hj i
  have hchain := (h.follows j room hj i).alternates.isChain_left
  unfold past at hchain
  cases hpresent : (x.2.stays j).present i with
  | true =>
    rw [hpresent, if_pos rfl, List.nil_append] at hchain
    exact ⟨hchain, nofun⟩
  | false =>
    rw [hpresent, if_neg Bool.false_ne_true, List.singleton_append, List.isChain_cons] at hchain
    exact ⟨hchain.2, fun _ hhead => hchain.1 _ hhead rfl⟩

theorem Announced.unheard {x : Watched} (h : Announced x) : Unheard x := by
  intro n hn hrejected p hp room hroom
  obtain ⟨notices, hnotices⟩ := List.head?_eq_some_iff.mp hn
  obtain ⟨packetQueue, hq⟩ := List.head?_eq_some_iff.mp hp
  have hmem : n ∈ (x.teller p.clientIndex).pending := by
    refine List.mem_filterMap.mpr ⟨(p, some n), ?_, if_pos rfl⟩
    rw [hq, hnotices]
    exact List.mem_cons_self
  rw [(h.consistent p.clientIndex).unheard n hmem hrejected] at hroom
  contradiction

/-! What the clients see of a step -/

inductive Sees (x : Watched) (ks : Nat → List NoticeKind) (x' : Watched) (j : Nat)
    (room : Int32) : Prop
  | stays (before : x.1.clientMgr.observes j = some room)
      (past : ∀ i, x'.past j i =
        x.past j i ++ if (x.teller i).audience = some room then ks i else [])
  | arrives (past : ∀ i, x'.past j i = if (x'.teller i).room = room then [] else [.exit])
      (welcome : ∀ i, (x'.teller i).room ≠ room → (x'.teller i).audience = some room →
        (Notice.kinds (x'.teller i).pending).head? ≠ some .exit)

theorem Announced.moves {x x' : Watched} (h : Announced x) (ks : Nat → List NoticeKind)
    (hmove : ∀ i, (x.teller i).Move (ks i) (x'.teller i))
    (hsees : ∀ j room, x'.1.clientMgr.observes j = some room → Sees x ks x' j room) :
    Announced x' where
  consistent i := (hmove i).consistent (h.consistent i)
  follows j room hj i := by
    have hroom := (ClientManager.observes_eq_some_iff.mp hj).2.2
    cases hsees j room hj with
    | stays before past =>
      rw [past]
      exact (hmove i).follows (h.consistent i) hroom (h.follows j room before i)
    | arrives past welcome =>
      rw [past]
      exact ((hmove i).consistent (h.consistent i)).follows hroom (welcome i)

theorem past_of_stays {s s' : ChatServer} {w : Watch} (a : ChatServer.Action) {j : Nat}
    (hj : s.clientMgr.observes j = s'.clientMgr.observes j) (i : Nat) :
    past (s', w.follow s s' a) j i =
      past (s, w) j i ++ ((w.shown s s' j).filter (·.1 = i)).map (·.2) := by
  simp [past, Watch.follow, hj, Stay.seenOf]

theorem past_of_arrives {s s' : ChatServer} {w : Watch} (a : ChatServer.Action) {j : Nat}
    (hj : s.clientMgr.observes j ≠ s'.clientMgr.observes j) (i : Nat) :
    past (s', w.follow s s' a) j i =
      if (s'.clientMgr.clientOf i).room = (s'.clientMgr.clientOf j).room then [] else [.exit] := by
  simp [past, Watch.follow, hj, Stay.seenOf]

theorem shown_of_sends_eq (w : Watch) {s s' : ChatServer} (h : s'.sends = s.sends) (j : Nat) :
    w.shown s s' j = [] := by
  unfold Watch.shown
  split
  · simp [h]
  · rfl

theorem sees_of_quiet {x : Watched} {s' : ChatServer} {a : ChatServer.Action} {j : Nat}
    {room : Int32} (hsends : s'.sends = x.1.sends) (hj : s'.clientMgr.observes j = some room)
    (hbefore : x.1.clientMgr.observes j = some room) :
    Sees x (fun _ => []) (s', x.2.follow x.1 s' a) j room := by
  refine .stays hbefore fun i => ?_
  rw [past_of_stays a (hbefore.trans hj.symm), shown_of_sends_eq _ hsends, ite_self]
  rfl

theorem teller_eq {x x' : Watched} (h : x.1.clientMgr.SameRooms x'.1.clientMgr)
    {i : Nat} (hpending : x'.pending i = x.pending i) : x'.teller i = x.teller i := by
  rw [teller, teller, h.room, h.prevRoom, hpending]

theorem pending_eq_nil {x : Watched} {i : Nat}
    (h : ∀ p ∈ x.1.packetQueue, p.clientIndex ≠ i) : x.pending i = [] := by
  refine List.filterMap_eq_nil_iff.mpr fun e he => if_neg (h e.1 ?_)
  exact (List.of_mem_zip he).1

theorem head_of_welcomes {x : Watched} {index : Nat} {room : Int32}
    (h : x.welcomes index room = true) {i : Nat} (hi : i ≠ index)
    (hroom : (x.teller i).room ≠ room) (haudience : (x.teller i).audience = some room) :
    (Notice.kinds (x.teller i).pending).head? ≠ some .exit := by
  by_cases hmem : ∃ p ∈ x.1.packetQueue, p.clientIndex = i
  · obtain ⟨p, hp, rfl⟩ := hmem
    have hall := of_decide_eq_true (List.all_eq_true.mp h p hp)
    rcases hall with heq | heq | hne | hhead
    · exact absurd heq hi
    · exact absurd heq hroom
    · exact absurd haudience hne
    · exact hhead
  · have hnil : (x.teller i).pending = [] :=
      pending_eq_nil fun p hp heq => hmem ⟨p, hp, heq⟩
    rw [hnil]
    simp

theorem sees_of_arrival {x : Watched} {s' : ChatServer} {a : ChatServer.Action} {j : Nat}
    {room : Int32} (hj : s'.clientMgr.observes j = some room)
    (hbefore : x.1.clientMgr.observes j ≠ some room) (hwelcome : x.welcomes j room = true)
    (hteller : ∀ i, i ≠ j → teller (s', x.2.follow x.1 s' a) i = x.teller i)
    (ks : Nat → List NoticeKind) : Sees x ks (s', x.2.follow x.1 s' a) j room := by
  have hroom := (ClientManager.observes_eq_some_iff.mp hj).2.1
  refine .arrives (fun i => ?_) fun i hi haudience => ?_
  · rw [past_of_arrives _ fun heq => hbefore (heq.trans hj), hroom]
    rfl
  · have hij : i ≠ j := by
      rintro rfl
      exact hi hroom
    rw [hteller i hij] at hi haudience ⊢
    exact head_of_welcomes hwelcome hij hi haudience

/-! One step -/

theorem Announced.quiet {x : Watched} (h : Announced x) {s' : ChatServer} {a : ChatServer.Action}
    (hrooms : x.1.clientMgr.SameRooms s'.clientMgr)
    (hpending : ∀ i, pending (s', x.2.follow x.1 s' a) i = x.pending i)
    (hsends : s'.sends = x.1.sends)
    (hup : ∀ j, s'.clientMgr.connected j = true → x.1.clientMgr.connected j = true) :
    Announced (s', x.2.follow x.1 s' a) := by
  refine h.moves (fun _ => []) (fun i => ?_) fun j room hj => ?_
  · rw [teller_eq hrooms (hpending i)]
    exact .stay
  · have hbefore := hup j (ClientManager.observes_eq_some_iff.mp hj).1
    exact sees_of_quiet hsends hj (hrooms.observes hj hbefore)

theorem Announced.accepted {x : Watched} (h : Announced x) (hk : Kept x) {socket : Socket}
    {outcome : ConnectOutcome} {created : Bool} {m : ClientManager}
    (hm : x.1.clientMgr.Created socket outcome created m)
    (hg : x.announces (.accept socket outcome) = true) :
    Announced ({ x.1 with clientMgr := m },
      x.2.follow x.1 { x.1 with clientMgr := m } (.accept socket outcome)) := by
  have hrooms := ClientManager.SameRooms.created hk.sized hm
  have hteller : ∀ i, teller ({ x.1 with clientMgr := m },
      x.2.follow x.1 { x.1 with clientMgr := m } (.accept socket outcome)) i = x.teller i :=
    fun i => teller_eq hrooms rfl
  refine h.moves (fun _ => []) (fun i => ?_) fun j room hj => ?_
  · rw [hteller]
    exact .stay
  · by_cases hbefore : x.1.clientMgr.observes j = some room
    · exact sees_of_quiet rfl hj hbefore
    · obtain ⟨hup, hroom, hne⟩ := ClientManager.observes_eq_some_iff.mp hj
      have hconnected := ClientManager.connected_created hk.sized hm j
      have hnext : x.1.clientMgr.nextSlot = some j := by
        by_contra hother
        rw [if_neg hother] at hconnected
        exact hbefore (hrooms.observes hj (hconnected.symm.trans hup))
      rw [if_pos hnext] at hconnected
      have hmade : outcome ≠ .recvFailed := of_decide_eq_true (hconnected.symm.trans hup)
      have hat : (x.teller j).room = room := (hrooms.room j).symm.trans hroom
      have hwelcome : x.welcomes j room = true := by
        have hguard := (of_decide_eq_true hg).resolve_left hmade
        rw [hnext, Option.all_some, hat] at hguard
        exact (of_decide_eq_true hguard).resolve_left hne
      exact sees_of_arrival hj hbefore hwelcome (fun i _ => hteller i) _

theorem map_filter_multiSends {m : ClientManager} (h : m.Sized) (p : PacketInfo) (c : UserInfo)
    {j : Nat} {room : Int32} (hj : m.observes j = some room) (e : Nat × NoticeKind) :
    ((ChatServer.multiSends m p c).filter (·.index = j)).map (fun _ => e) =
      if ChatServer.senderRoom c = some room then [e] else [] := by
  obtain ⟨hup, hroom, -⟩ := ClientManager.observes_eq_some_iff.mp hj
  cases haudience : ChatServer.senderRoom c with
  | none =>
    rw [ChatServer.multiSends, haudience]
    rfl
  | some r =>
    cases hc' : m.clientInfos[j]? with
    | none =>
      rw [ClientManager.connected, hc'] at hup
      contradiction
    | some c' =>
      rw [ClientManager.connected_of_getElem? hc'] at hup
      rw [ClientManager.clientOf_of_getElem? hc'] at hroom
      rw [ChatServer.filter_multiSends h haudience hc']
      by_cases hr : r = room
      · rw [if_pos ⟨hup, hroom.trans hr.symm⟩, if_pos (congrArg some hr)]
        rfl
      · rw [if_neg fun h => hr (h.2.symm.trans hroom), if_neg (by simpa using hr)]
        rfl

theorem pending_of_front {x x' : Watched} {p : PacketInfo} {o : Option Notice}
    (queue : x.1.packetQueue = p :: x'.1.packetQueue) (front : x.2.notices = o :: x'.2.notices)
    (i : Nat) : x.pending i = (if p.clientIndex = i then o.toList else []) ++ x'.pending i := by
  simp only [pending, queue, front, List.zip_cons_cons, List.filterMap_cons]
  by_cases hi : p.clientIndex = i
  · cases o <;> simp [hi]
  · simp [hi]

theorem move_of_front {x x' : Watched} (hrooms : x.1.clientMgr.SameRooms x'.1.clientMgr)
    {p : PacketInfo} {o : Option Notice} (queue : x.1.packetQueue = p :: x'.1.packetQueue)
    (front : x.2.notices = o :: x'.2.notices) (i : Nat) :
    (x.teller i).Move (if p.clientIndex = i then o.toList.map (·.kind) else [])
      (x'.teller i) := by
  have hpending := pending_of_front queue front i
  by_cases hi : p.clientIndex = i
  · rw [if_pos hi] at hpending ⊢
    cases o with
    | none =>
      rw [teller_eq hrooms hpending.symm]
      exact .stay
    | some n =>
      have hteller : x'.teller i = { x.teller i with pending := x'.pending i } := by
        rw [teller, hrooms.room, hrooms.prevRoom]
        rfl
      rw [hteller]
      exact .shown hpending
  · rw [if_neg hi] at hpending ⊢
    rw [teller_eq hrooms hpending.symm]
    exact .stay

theorem shown_of_front {x : Watched} (hk : Kept x) {p : PacketInfo} {packetQueue : List PacketInfo}
    {o : Option Notice} {notices : List (Option Notice)} {c : UserInfo}
    (queue : x.1.packetQueue = p :: packetQueue) (front : x.2.notices = o :: notices)
    (told : Told x.1.clientMgr p o) (client : x.1.clientMgr.clientInfos[p.clientIndex]? = some c)
    {s' : ChatServer}
    (hsends : s'.sends.drop x.1.sends.length = ChatServer.packetSends x.1.clientMgr p c) {j : Nat}
    {room : Int32} (hj : x.1.clientMgr.observes j = some room) :
    x.2.shown x.1 s' j = if (x.teller p.clientIndex).audience = some room then
      o.toList.map fun n => (p.clientIndex, n.kind) else [] := by
  cases o with
  | none => simp [Watch.shown, queue, front]
  | some n =>
    change _ = if _ then [(p.clientIndex, n.kind)] else []
    rw [audience_teller client, ← map_filter_multiSends hk.sized p c hj]
    simp only [Watch.shown, queue, front, hsends, List.head?_cons, Option.join_some,
      ChatServer.packetSends, told.multi (Option.some_ne_none n)]

theorem Announced.ran {x : Watched} (h : Announced x) (hk : Kept x) {failed : List Nat}
    {p : PacketInfo} {packetQueue : List PacketInfo} {o : Option Notice}
    {notices : List (Option Notice)} {c : UserInfo} {m : ClientManager}
    (queue : x.1.packetQueue = p :: packetQueue) (front : x.2.notices = o :: notices)
    (told : Told x.1.clientMgr p o) (client : x.1.clientMgr.clientInfos[p.clientIndex]? = some c)
    (loses : x.1.clientMgr.Loses (· ∈ failed) m) {s' : ChatServer}
    (hs' : s' = ⟨m, packetQueue, x.1.sends ++ ChatServer.packetSends x.1.clientMgr p c⟩) :
    Announced (s', x.2.follow x.1 s' (.run failed)) := by
  have hmgr : s'.clientMgr = m := hs' ▸ rfl
  have hrooms : x.1.clientMgr.SameRooms s'.clientMgr := hmgr ▸ .loses loses
  have hqueue : x.1.packetQueue = p :: s'.packetQueue := hs' ▸ queue
  have hsends : s'.sends.drop x.1.sends.length = ChatServer.packetSends x.1.clientMgr p c := by
    rw [hs', List.drop_left]
  have hnotices : x.2.notices = o :: (x.2.follow x.1 s' (.run failed)).notices := by
    simp only [Watch.follow, front, List.tail_cons]
  refine h.moves _ (move_of_front hrooms hqueue hnotices) fun j room hj => ?_
  have hup : s'.clientMgr.connected j = true := (ClientManager.observes_eq_some_iff.mp hj).1
  have hbefore := hrooms.observes hj (loses.connected (hmgr ▸ hup))
  refine .stays hbefore fun i => ?_
  rw [past_of_stays _ (hbefore.trans hj.symm),
    shown_of_front hk queue front told client hsends hbefore]
  congr 1
  by_cases hi : p.clientIndex = i
  · subst hi
    cases o <;> split <;> simp
  · cases o <;> split <;> simp [hi]

theorem move_handle {c : UserInfo} {buf : Bytes} {pending : List Notice}
    (h : match Packet.request buf with
      | some .roomEnter => c.room = UserInfo.lobby ∧ Packet.roomNo buf ≠ UserInfo.lobby ∧
        (Packet.roomNo buf = c.prevRoom ∨ pending = [])
      | some .roomExit => c.room ≠ UserInfo.lobby ∨ c.prevRoom = UserInfo.lobby
      | some .serverEnter => c.room = UserInfo.lobby
      | _ => True) :
    Teller.Move ⟨c.room, c.prevRoom, pending⟩ [] ⟨(ChatServer.handle c buf).room,
      (ChatServer.handle c buf).prevRoom, pending ++ (ChatServer.noticeOf c buf).toList⟩ := by
  unfold ChatServer.handle ChatServer.noticeOf
  cases hr : Packet.request buf with
  | none =>
    rw [Option.toList_none, List.append_nil]
    exact .stay
  | some r =>
    rw [hr] at h
    cases r with
    | roomEnter =>
      obtain ⟨hlobby, hroom, hsettled⟩ := h
      rw [UserInfo.enterRoom_of_lobby hlobby]
      exact .enter (t := ⟨c.room, c.prevRoom, pending⟩) hlobby hroom hsettled
    | roomExit =>
      by_cases hlobby : c.room = UserInfo.lobby
      · rw [UserInfo.exitRoom_of_lobby hlobby]
        refine .refused (t := ⟨c.room, c.prevRoom, pending⟩) ?_
        rw [Teller.audience, if_pos hlobby, if_pos (h.resolve_left (not_not_intro hlobby))]
      · rw [UserInfo.exitRoom_of_ne hlobby]
        exact .exit (t := ⟨c.room, c.prevRoom, pending⟩) hlobby
    | serverEnter =>
      have hlobby : c.room = UserInfo.lobby := h
      rw [Option.toList_none, List.append_nil, hlobby]
      exact .stay
    | serverExit | chatBroadcast | chatMulticast | chatUnicast =>
      rw [Option.toList_none, List.append_nil]
      exact .stay

theorem filterMap_enqueued (index size : Nat) (c : UserInfo) (buf : Bytes) (i : Nat) :
    ((ChatServer.enqueued index size buf).zip ((ChatServer.enqueued index size buf).map fun _ =>
      ChatServer.noticeOf c buf)).filterMap
        (fun e => if e.1.clientIndex = i then e.2 else none) =
      if index = i then (ChatServer.noticeOf c buf).toList else [] := by
  unfold ChatServer.enqueued ChatServer.noticeOf
  cases Packet.request buf with
  | none => simp
  | some r =>
    by_cases hi : index = i
    · cases r <;> simp [hi]
    · cases r <;> simp [hi]

theorem announces_receive {x : Watched} {index : Nat} {data : Bytes} {bound : Bool} {c : UserInfo}
    (hc : x.1.clientMgr.clientInfos[index]? = some c)
    (h : x.announces (.receive index data bound) = true) :
    match Packet.request (c.received data).recvBuf with
    | some .roomEnter => c.room = UserInfo.lobby ∧
      Packet.roomNo (c.received data).recvBuf ≠ UserInfo.lobby ∧
      (Packet.roomNo (c.received data).recvBuf = c.prevRoom ∨ x.pending index = []) ∧
      (bound = false ∨ c.isConnected = false ∨
        x.welcomes index (Packet.roomNo (c.received data).recvBuf) = true)
    | some .roomExit => c.room ≠ UserInfo.lobby ∨ c.prevRoom = UserInfo.lobby
    | some .serverEnter => c.room = UserInfo.lobby
    | _ => True := by
  simp only [announces, hc, Option.all_some] at h
  cases hr : Packet.request (c.received data).recvBuf with
  | none => trivial
  | some r =>
    rw [hr] at h
    cases r with
    | roomEnter | roomExit | serverEnter => exact of_decide_eq_true h
    | serverExit | chatBroadcast | chatMulticast | chatUnicast => trivial

theorem enters_of_handle {c : UserInfo} {buf : Bytes}
    (hroom : (ChatServer.handle c buf).room ≠ UserInfo.lobby)
    (hold : c.room ≠ (ChatServer.handle c buf).room) :
    Packet.request buf = some .roomEnter ∧ Packet.roomNo buf = (ChatServer.handle c buf).room := by
  unfold ChatServer.handle at hroom hold ⊢
  cases hr : Packet.request buf with
  | none =>
    rw [hr] at hold
    contradiction
  | some r =>
    rw [hr] at hroom hold
    cases r with
    | roomEnter =>
      refine ⟨rfl, ?_⟩
      by_cases hlobby : c.room = UserInfo.lobby
      · rw [UserInfo.enterRoom_of_lobby hlobby]
      · rw [UserInfo.enterRoom_of_ne hlobby] at hold
        contradiction
    | roomExit =>
      by_cases hlobby : c.room = UserInfo.lobby
      · rw [UserInfo.exitRoom_of_lobby hlobby] at hroom
        contradiction
      · rw [UserInfo.exitRoom_of_ne hlobby] at hroom
        contradiction
    | serverEnter | serverExit | chatBroadcast | chatMulticast | chatUnicast => contradiction

theorem isConnected_of_posted {c : UserInfo} {buf : Bytes} {bound : Bool}
    (h : ((ChatServer.handle c buf).posted bound).2.isConnected = true) :
    c.isConnected = true ∧ bound = true := by
  cases bound with
  | true =>
    have hsame := ChatServer.isConnected_congr (ChatServer.toClientInfo_handle c buf)
    exact ⟨hsame.symm.trans h, rfl⟩
  | false => simp [UserInfo.posted] at h

section Received

variable {x : Watched} {index : Nat} {data : Bytes} {bound : Bool} {c : UserInfo} {s' : ChatServer}

theorem eq_of_received (hr : ChatServer.Received x.1 index data bound s')
    (hc : x.1.clientMgr.clientInfos[index]? = some c) : s' = { x.1 with
      clientMgr := x.1.clientMgr.setClient index
        ((ChatServer.handle (c.received data) (c.received data).recvBuf).posted bound).2
      packetQueue := x.1.packetQueue ++
        ChatServer.enqueued index data.length (c.received data).recvBuf } := by
  obtain ⟨-, c', hc', hs'⟩ := hr
  cases hc.symm.trans hc'
  exact hs'

theorem pending_of_received (hk : Kept x) (hr : ChatServer.Received x.1 index data bound s')
    (hc : x.1.clientMgr.clientInfos[index]? = some c) (i : Nat) :
    pending (s', x.2.follow x.1 s' (.receive index data bound)) i = x.pending i ++
      if index = i then (ChatServer.noticeOf (c.received data) (c.received data).recvBuf).toList
      else [] := by
  have hqueue : s'.packetQueue = x.1.packetQueue ++
      ChatServer.enqueued index data.length (c.received data).recvBuf :=
    eq_of_received hr hc ▸ rfl
  simp only [pending, Watch.follow, hqueue, List.drop_left, notice_eq hc]
  rw [List.zip_append hk.told.length_eq, List.filterMap_append, filterMap_enqueued]

theorem teller_of_received_of_ne (hk : Kept x) (hr : ChatServer.Received x.1 index data bound s')
    {i : Nat} (hi : i ≠ index) :
    teller (s', x.2.follow x.1 s' (.receive index data bound)) i = x.teller i := by
  obtain ⟨c, hc, -⟩ := hr.client
  have hother : s'.clientMgr.clientOf i = x.1.clientMgr.clientOf i := by
    rw [eq_of_received hr hc, ClientManager.clientOf, ClientManager.getElem?_setClient_of_ne hi]
    rfl
  rw [teller, hother, pending_of_received hk hr hc, if_neg (Ne.symm hi), List.append_nil]
  rfl

theorem teller_of_received (hk : Kept x) (hr : ChatServer.Received x.1 index data bound s')
    (hc : x.1.clientMgr.clientInfos[index]? = some c) :
    teller (s', x.2.follow x.1 s' (.receive index data bound)) index =
      ⟨(ChatServer.handle (c.received data) (c.received data).recvBuf).room,
        (ChatServer.handle (c.received data) (c.received data).recvBuf).prevRoom,
        x.pending index ++
          (ChatServer.noticeOf (c.received data) (c.received data).recvBuf).toList⟩ := by
  have hposted := ClientManager.rooms_posted
    (ChatServer.handle (c.received data) (c.received data).recvBuf) bound
  have hat : s'.clientMgr.clientOf index =
      ((ChatServer.handle (c.received data) (c.received data).recvBuf).posted bound).2 := by
    rw [eq_of_received hr hc]
    exact ClientManager.clientOf_of_getElem? (ClientManager.getElem?_setClient_self hc _)
  rw [teller, hat, hposted.1, hposted.2, pending_of_received hk hr hc, if_pos rfl]

theorem move_of_received (hk : Kept x) (hr : ChatServer.Received x.1 index data bound s')
    (hg : x.announces (.receive index data bound) = true) (i : Nat) :
    (x.teller i).Move [] (teller (s', x.2.follow x.1 s' (.receive index data bound)) i) := by
  by_cases hi : i = index
  · subst hi
    obtain ⟨c, hc, -⟩ := hr.client
    have hguard := announces_receive hc hg
    rw [teller_of_received hk hr hc, teller, ClientManager.clientOf_of_getElem? hc]
    refine move_handle (c := c.received data) ?_
    cases hrequest : Packet.request (c.received data).recvBuf with
    | none => trivial
    | some r =>
      rw [hrequest] at hguard
      cases r with
      | roomEnter => exact ⟨hguard.1, hguard.2.1, hguard.2.2.1⟩
      | roomExit | serverEnter => exact hguard
      | serverExit | chatBroadcast | chatMulticast | chatUnicast => trivial
  · rw [teller_of_received_of_ne hk hr hi]
    exact .stay

theorem observes_of_received (hk : Kept x) (hr : ChatServer.Received x.1 index data bound s')
    {j : Nat} {room : Int32} (hj : s'.clientMgr.observes j = some room) :
    x.1.clientMgr.observes j = some room ∨ j = index ∧ bound = true ∧
      ∃ c, x.1.clientMgr.clientInfos[index]? = some c ∧ c.isConnected = true ∧
        Packet.request (c.received data).recvBuf = some .roomEnter ∧
        Packet.roomNo (c.received data).recvBuf = room := by
  obtain ⟨c, hc, -⟩ := hr.client
  obtain ⟨hup, hroom, hne⟩ := ClientManager.observes_eq_some_iff.mp hj
  have hconnected := ClientManager.connected_setClient (List.getElem?_eq_some_iff.mp hc).1
    ((ChatServer.handle (c.received data) (c.received data).recvBuf).posted bound).2 j
  rw [eq_of_received hr hc, hconnected] at hup
  have hteller : (teller (s', x.2.follow x.1 s' (.receive index data bound)) j).room = room :=
    hroom
  by_cases hi : j = index
  · subst hi
    rw [if_pos rfl] at hup
    obtain ⟨hcup, hbound⟩ := isConnected_of_posted hup
    rw [teller_of_received hk hr hc] at hteller
    by_cases hold : c.room = room
    · refine .inl (ClientManager.observes_eq_some_iff.mpr ⟨?_, ?_, hne⟩)
      · exact (ClientManager.connected_of_getElem? hc).trans hcup
      · rwa [ClientManager.clientOf_of_getElem? hc]
    · have hnew : (ChatServer.handle (c.received data) (c.received data).recvBuf).room = room :=
        hteller
      obtain ⟨hrequest, hno⟩ := enters_of_handle (c := c.received data) (hnew ▸ hne)
        (hnew ▸ hold)
      exact .inr ⟨rfl, hbound, c, hc, hcup, hrequest, hno.trans hnew⟩
  · rw [if_neg hi] at hup
    rw [teller_of_received_of_ne hk hr hi] at hteller
    exact .inl (ClientManager.observes_eq_some_iff.mpr ⟨hup, hteller, hne⟩)

theorem Announced.received (h : Announced x) (hk : Kept x)
    (hr : ChatServer.Received x.1 index data bound s')
    (hg : x.announces (.receive index data bound) = true) :
    Announced (s', x.2.follow x.1 s' (.receive index data bound)) := by
  refine h.moves (fun _ => []) (move_of_received hk hr hg) fun j room hj => ?_
  by_cases hbefore : x.1.clientMgr.observes j = some room
  · obtain ⟨c, hc, hs'⟩ := hr.client
    exact sees_of_quiet (hs' ▸ rfl) hj hbefore
  · obtain ⟨rfl, hbound, c, hc, hup, hrequest, hno⟩ :=
      (observes_of_received hk hr hj).resolve_left hbefore
    have hwelcome : x.welcomes j room = true := by
      have hguard := announces_receive hc hg
      rw [hrequest, hno] at hguard
      obtain ⟨-, -, -, hfalse | hdown | hwelcome⟩ := hguard
      · exact absurd (hfalse.symm.trans hbound) Bool.false_ne_true
      · exact absurd (hdown.symm.trans hup) Bool.false_ne_true
      · exact hwelcome
    exact sees_of_arrival hj hbefore hwelcome
      (fun i hi => teller_of_received_of_ne hk hr hi) _

end Received

theorem Announced.stepped {x : Watched} (h : Announced x) (hk : Kept x) {a : ChatServer.Action}
    (hg : x.announces a = true) {s' : ChatServer} (hs : Stepped x a s') :
    Announced (s', x.2.follow x.1 s' a) := by
  cases hs with
  | accept hm => exact h.accepted hk hm hg
  | receive hr => exact h.received hk hr hg
  | @close i c client =>
    refine h.quiet (.closed client) (fun _ => rfl) rfl fun j hup => ?_
    change (ClientManager.closeClientAt ..).connected j = true at hup
    rw [ClientManager.connected_closeClientAt client, Bool.and_eq_true] at hup
    exact hup.2
  | idle queue notices =>
    refine h.quiet ⟨fun _ => rfl, fun _ => rfl⟩ (fun i => ?_) rfl fun _ hup => hup
    simp only [pending, queue, List.zip_nil_left]
  | run queue front told client loses => exact h.ran hk queue front told client loses rfl

/-! Runs -/

theorem announced_init (n : Nat) : Announced (system n).init where
  consistent _ := ⟨.nil, List.forall_mem_nil _⟩
  follows j room hj := by
    have hup : (ClientManager.new n).connected j = true :=
      (ClientManager.observes_eq_some_iff.mp hj).1
    rw [ClientManager.new, ClientManager.connected_addClients rfl] at hup
    simp at hup

theorem announced_of_reach {n : Nat} {x : Watched}
    (h : (system n).Reach (fun x a => x.announces a = true) x) : Announced x := by
  refine h.invariant (announced_init n) fun x a x' hr ha hg hs => ?_
  have hk := kept_of_reach hr
  obtain ⟨s', hok, rfl⟩ := exists_of_step hs
  exact ha.stepped hk hg (hk.stepped hok)

/-- A refused request leaves the clients as they are, but its packet goes to whoever is in the room
that its sender is in or was last in.  Where nobody makes such requests or moves on unannounced,
refusals are silent and the enters and exits of a client alternate. -/
theorem roomNotices_of_announces (n : Nat) :
    (∀ s, RefusalsKeep s) ∧ (∀ x, (system n).Reachable x → (Silent x ↔ Unheard x)) ∧
      ∀ x, (system n).Reach (fun x a => x.announces a = true) x → Silent x ∧ Alternating x := by
  refine ⟨refusalsKeep, fun x h => (kept_of_reach h).silent_iff, fun x h => ?_⟩
  have hx := announced_of_reach h
  exact ⟨(kept_of_reach h).silent_iff.mpr hx.unheard, hx.alternating⟩

theorem roomNotices_of_announces_three :
    ∃ x, (system 8).Reachable x ∧ x.1.clientMgr.observes 1 = some 1 ∧
      (x.2.stays 1).seenOf 0 = [.enter, .exit, .enter] ∧ Silent x ∧ Alternating x := by
  obtain ⟨x, hx, hp⟩ := System.exists_of_runWith (S := system 8)
    (G := fun x a => x.announces a = true) (g := announces)
    (p := fun x => decide (x.1.clientMgr.observes 1 = some 1 ∧
      (x.2.stays 1).seenOf 0 = [.enter, .exit, .enter]))
    (fun _ _ h => h)
    [.accept 7 .connected, .accept 8 .connected, .receive 1 (ChatServer.packet .roomEnter 1) true,
      .receive 0 (ChatServer.packet .roomExit 0) true, .run [], .run [],
      .receive 0 (ChatServer.packet .roomEnter 1) true, .run [],
      .receive 0 (ChatServer.packet .roomExit 1) true,
      .receive 0 (ChatServer.packet .roomEnter 1) true, .run [], .run []] (by decide)
  obtain ⟨hroom, hseen⟩ := of_decide_eq_true hp
  exact ⟨x, hx.reachable, hroom, hseen, (roomNotices_of_announces 8).2.2 x hx⟩

/-- Client 0 enters the room that it is in once more. -/
theorem not_roomNotices :
    (¬ ∀ n x, (system n).Reachable x → Silent x) ∧
      ¬ ∀ n x, (system n).Reachable x → Alternating x := by
  constructor
  · intro h
    obtain ⟨x, hx, hp⟩ := System.exists_of_run (S := system 8)
      (p := fun x => decide (x.2.notices = [some ⟨.enter, false⟩]) &&
        (x.1.run []).toOption.any fun s' => decide (s'.sends.length = x.1.sends.length + 2))
      [.accept 7 .connected, .accept 8 .connected,
        .receive 1 (ChatServer.packet .roomEnter 1) true, .run [],
        .receive 0 (ChatServer.packet .roomEnter 1) true, .run [],
        .receive 0 (ChatServer.packet .roomEnter 1) true] (by decide)
    obtain ⟨hnotices, hsent⟩ := (Bool.and_eq_true ..).mp hp
    obtain ⟨s', hok, hsends⟩ := h 8 x hx ⟨.enter, false⟩
      (by rw [of_decide_eq_true hnotices]; rfl) rfl []
    rw [hok] at hsent
    have hlen := of_decide_eq_true hsent
    rw [hsends] at hlen
    omega
  · intro h
    obtain ⟨x, hx, hp⟩ := System.exists_of_run (S := system 8)
      (p := fun x => decide (x.1.clientMgr.observes 1 = some 1 ∧
        (x.2.stays 1).seenOf 0 = [.enter, .enter]))
      [.accept 7 .connected, .accept 8 .connected,
        .receive 1 (ChatServer.packet .roomEnter 1) true, .run [],
        .receive 0 (ChatServer.packet .roomEnter 1) true, .run [],
        .receive 0 (ChatServer.packet .roomEnter 1) true, .run []] (by decide)
    obtain ⟨hroom, hseen⟩ := of_decide_eq_true hp
    have hchain := (h 8 x hx 1 1 hroom 0).1
    rw [hseen, List.isChain_cons_cons] at hchain
    exact hchain.1 rfl

end Watched

end ChattingServer.V10
