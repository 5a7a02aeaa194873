import ChattingServer.V10.Server.Announcements
import ChattingServer.V10.Server.Occupancy

namespace ChattingServer.V10

open Lib

namespace ClientManager

def clientOf (m : ClientManager) (i : Nat) : UserInfo := m.clientInfos[i]?.getD (.new i)

def observes (m : ClientManager) (j : Nat) : Option Int32 :=
  if m.connected j ∧ (m.clientOf j).room ≠ UserInfo.lobby then some (m.clientOf j).room else none

theorem clientOf_of_getElem? {m : ClientManager} {i : Nat} {c : UserInfo}
    (h : m.clientInfos[i]? = some c) : m.clientOf i = c := by
  rw [clientOf, h, Option.getD_some]

theorem ClientAt.clientOf_eq {m : ClientManager} {i : Nat} {c : UserInfo} (h : m.ClientAt i c) :
    m.clientOf i = c := by
  rcases h with h | ⟨h, rfl⟩
  · exact clientOf_of_getElem? h
  · rw [clientOf, h, Option.getD_none]

theorem observes_eq_some_iff {m : ClientManager} {j : Nat} {room : Int32} :
    m.observes j = some room ↔
      m.connected j = true ∧ (m.clientOf j).room = room ∧ room ≠ UserInfo.lobby := by
  unfold observes
  split
  · rename_i h
    rw [Option.some.injEq]
    constructor
    · rintro rfl
      exact ⟨h.1, rfl, h.2⟩
    · exact fun h' => h'.2.1
  · rename_i h
    refine iff_of_false nofun ?_
    rintro ⟨hup, rfl, hroom⟩
    exact h ⟨hup, hroom⟩

structure SameRooms (m m' : ClientManager) : Prop where
  room : ∀ i, (m'.clientOf i).room = (m.clientOf i).room
  prevRoom : ∀ i, (m'.clientOf i).prevRoom = (m.clientOf i).prevRoom

theorem SameRooms.of_client {m m' : ClientManager}
    (hlen : m.clientInfos.length ≤ m'.clientInfos.length)
    (h : ∀ i c', m'.clientInfos[i]? = some c' →
      c'.room = (m.clientOf i).room ∧ c'.prevRoom = (m.clientOf i).prevRoom) : SameRooms m m' := by
  have hall : ∀ i, (m'.clientOf i).room = (m.clientOf i).room ∧
      (m'.clientOf i).prevRoom = (m.clientOf i).prevRoom := by
    intro i
    cases hc' : m'.clientInfos[i]? with
    | some c' =>
      rw [clientOf_of_getElem? hc']
      exact h i c' hc'
    | none =>
      have hc : m.clientInfos[i]? = none := by
        rw [List.getElem?_eq_none_iff] at hc' ⊢
        exact Nat.le_trans hlen hc'
      rw [clientOf, clientOf, hc, hc']
      exact ⟨rfl, rfl⟩
  exact ⟨fun i => (hall i).1, fun i => (hall i).2⟩

theorem SameRooms.created {m m' : ClientManager} (h : Sized m) {socket : Socket}
    {outcome : ConnectOutcome} {created : Bool} (hs : Created m socket outcome created m') :
    SameRooms m m' := by
  refine .of_client ?_ fun i c' hc' => ?_
  · have hcap := le_currentCapacity_stepped h (.createClient hs)
    rwa [h.length, (h.created hs).length]
  · obtain ⟨c, hc, rfl⟩ := hs.client h hc'
    rw [hc.clientOf_eq]
    split
    · exact rooms_connect c socket outcome
    · exact ⟨rfl, rfl⟩

theorem SameRooms.loses {m m' : ClientManager} {lost : Nat → Prop} (h : Loses lost m m') :
    SameRooms m m' := by
  refine .of_client (Nat.le_of_eq h.length.symm) fun i c' hc' => ?_
  obtain ⟨c, hc, rfl | ⟨-, rfl⟩⟩ := h.exists_client hc'
  · rw [clientOf_of_getElem? hc]
    exact ⟨rfl, rfl⟩
  · rw [clientOf_of_getElem? hc]
    exact rooms_close c

theorem SameRooms.closed {m : ClientManager} {i : Nat} {c : UserInfo}
    (hc : m.clientInfos[i]? = some c) : SameRooms m (m.closeClientAt i i c) := by
  refine .of_client ?_ fun j c' hc' => ?_
  · unfold closeClientAt
    split
    · exact Nat.le_refl _
    · exact Nat.le_of_eq List.length_set.symm
  · rw [getElem?_closeClientAt hc] at hc'
    split at hc'
    · rename_i hj
      rw [hj, clientOf_of_getElem? hc, ← Option.some.inj hc']
      exact rooms_close c
    · rw [clientOf_of_getElem? hc']
      exact ⟨rfl, rfl⟩

theorem SameRooms.observes {m m' : ClientManager} (h : SameRooms m m') {j : Nat} {room : Int32}
    (hj : m'.observes j = some room) (hup : m.connected j = true) :
    m.observes j = some room := by
  obtain ⟨-, hroom, hne⟩ := observes_eq_some_iff.mp hj
  exact observes_eq_some_iff.mpr ⟨hup, (h.room j).symm.trans hroom, hne⟩

end ClientManager

namespace ChatServer

def noticeOf (c : UserInfo) (buf : Bytes) : Option Notice :=
  match Packet.request buf with
  | some .roomEnter => some ⟨.enter, (c.enterRoom (Packet.roomNo buf)).1⟩
  | some .roomExit => some ⟨.exit, c.exitRoom.1⟩
  | _ => none

def notice (s : ChatServer) (index : Nat) (data : Bytes) : Option Notice :=
  s.clientMgr.clientInfos[index]?.bind fun c => noticeOf (c.received data) (c.received data).recvBuf

end ChatServer

/-- The stay of a connected client in a room: who was there when it began, and the notices seen
since then, each with the client it is about -/
structure Stay where
  present : Nat → Bool
  seen : List (Nat × NoticeKind)

def Stay.seenOf (t : Stay) (i : Nat) : List NoticeKind := (t.seen.filter (·.1 = i)).map (·.2)

/-- With each packet of the queue the notice that it is, and with each client the stay in the room
that it is in. -/
structure Watch where
  notices : List (Option Notice)
  stays : Nat → Stay

namespace Watch

def shown (w : Watch) (s s' : ChatServer) (j : Nat) : List (Nat × NoticeKind) :=
  match s.packetQueue.head?, w.notices.head?.join with
  | some p, some n =>
    ((s'.sends.drop s.sends.length).filter (·.index = j)).map fun _ => (p.clientIndex, n.kind)
  | _, _ => []

def follow (w : Watch) (s s' : ChatServer) (a : ChatServer.Action) : Watch where
  notices :=
    match a with
    | .receive index data _ => w.notices ++
        (s'.packetQueue.drop s.packetQueue.length).map fun _ => s.notice index data
    | .run _ => w.notices.tail
    | .accept _ _ | .close _ => w.notices
  stays j :=
    if s.clientMgr.observes j = s'.clientMgr.observes j then
      { w.stays j with seen := (w.stays j).seen ++ w.shown s s' j }
    else ⟨fun i => (s'.clientMgr.clientOf i).room = (s'.clientMgr.clientOf j).room, []⟩

def next (w : Watch) (s : ChatServer) (a : ChatServer.Action) : Watch :=
  match s.step a with
  | .ok s' => w.follow s s' a
  | .error _ => w

end Watch

abbrev Watched := ChatServer × Watch

namespace Watched

def system (maxClient : Nat) : System Watched ChatServer.Action Fault :=
  (ChatServer.system maxClient).withHistory ⟨[], fun _ => ⟨fun _ => false, []⟩⟩ Watch.next

def pending (x : Watched) (i : Nat) : List Notice :=
  (x.1.packetQueue.zip x.2.notices).filterMap fun e => if e.1.clientIndex = i then e.2 else none

def teller (x : Watched) (i : Nat) : Teller where
  room := (x.1.clientMgr.clientOf i).room
  prevRoom := (x.1.clientMgr.clientOf i).prevRoom
  pending := x.pending i

/-! What the notices should be like -/

def RefusalsKeep (s : ChatServer) : Prop :=
  ∀ index c buf kind, s.clientMgr.clientInfos[index]? = some c →
    ChatServer.noticeOf c buf = some ⟨kind, false⟩ → ∀ size, ∃ s',
      s.classifyPacket (.set index size buf) = .ok s' ∧ s'.clientMgr = s.clientMgr

def Silent (x : Watched) : Prop :=
  ∀ n, x.2.notices.head? = some (some n) → n.accepted = false →
    ∀ failed, ∃ s', x.1.run failed = .ok s' ∧ s'.sends = x.1.sends

/-- Whoever stays in a room sees the enters and exits of a client alternate, and no exit first if
the client was not there. -/
def Alternating (x : Watched) : Prop :=
  ∀ j room, x.1.clientMgr.observes j = some room → ∀ i,
    ((x.2.stays j).seenOf i).IsChain (· ≠ ·) ∧
      ((x.2.stays j).present i = false → ((x.2.stays j).seenOf i).head? ≠ some .exit)

/-! The packet in front -/

structure Told (m : ClientManager) (p : PacketInfo) (o : Option Notice) : Prop where
  client : p.clientIndex < m.currentCapacity
  dataSize : p.dataSize ≠ 0
  multi : o ≠ none → p.sendType = .multi

structure Kept (x : Watched) : Prop where
  sized : x.1.clientMgr.Sized
  told : List.Forall₂ (Told x.1.clientMgr) x.1.packetQueue x.2.notices

theorem audience_teller {x : Watched} {i : Nat} {c : UserInfo}
    (hc : x.1.clientMgr.clientInfos[i]? = some c) :
    (x.teller i).audience = ChatServer.senderRoom c := by
  rw [ChatServer.senderRoom_eq, Teller.audience, teller, ClientManager.clientOf_of_getElem? hc]

theorem Kept.exists_front {x : Watched} (h : Kept x) {n : Notice}
    (hn : x.2.notices.head? = some (some n)) :
    ∃ p packetQueue c, x.1.packetQueue = p :: packetQueue ∧
      x.1.clientMgr.clientInfos[p.clientIndex]? = some c ∧ ∀ failed, ∃ m,
        x.1.run failed = .ok ⟨m, packetQueue,
          x.1.sends ++ ChatServer.multiSends x.1.clientMgr p c⟩ := by
  obtain ⟨notices, hnotices⟩ := List.head?_eq_some_iff.mp hn
  have htold := h.told
  rw [hnotices] at htold
  obtain ⟨p, packetQueue, hp, -, hq⟩ := List.forall₂_cons_right_iff.mp htold
  obtain ⟨c, hc⟩ := h.sized.exists_client hp.client
  refine ⟨p, packetQueue, c, hq, hc, fun failed => ?_⟩
  obtain ⟨m, -, hok⟩ := ChatServer.run_eq h.sized hq hp.dataSize hc failed
  refine ⟨m, ?_⟩
  rw [hok, ChatServer.packetSends, hp.multi (Option.some_ne_none n)]

def Unheard (x : Watched) : Prop :=
  ∀ n, x.2.notices.head? = some (some n) → n.accepted = false →
    ∀ p ∈ x.1.packetQueue.head?, ∀ room, (x.teller p.clientIndex).audience = some room →
      ∀ c ∈ x.1.clientMgr.clientInfos, c.isConnected = true → c.room ≠ room

theorem Kept.silent_iff {x : Watched} (h : Kept x) : Silent x ↔ Unheard x := by
  refine forall_congr' fun n => forall_congr' fun hn => forall_congr' fun _ => ?_
  obtain ⟨p, packetQueue, c, hq, hc, hrun⟩ := h.exists_front hn
  have hnil : ChatServer.multiSends x.1.clientMgr p c = [] ↔
      ∀ room, (x.teller p.clientIndex).audience = some room →
        ∀ c ∈ x.1.clientMgr.clientInfos, c.isConnected = true → c.room ≠ room := by
    rw [audience_teller hc]
    cases hroom : ChatServer.senderRoom c with
    | none =>
      refine iff_of_true ?_ nofun
      rw [ChatServer.multiSends, hroom]
    | some room =>
      simp only [Option.some.injEq, forall_eq']
      exact ChatServer.multiSends_eq_nil_iff h.sized hroom
  simp only [hq, List.head?_cons, Option.mem_def, Option.some.injEq, forall_eq']
  rw [← hnil]
  constructor
  · intro hsilent
    obtain ⟨s', hs', hsends⟩ := hsilent []
    obtain ⟨m, hok⟩ := hrun []
    cases hok.symm.trans hs'
    exact List.append_right_eq_self.mp hsends
  · intro hnil failed
    obtain ⟨m, hok⟩ := hrun failed
    exact ⟨_, hok, by rw [hnil, List.append_nil]⟩

/-! What a step does -/

inductive Stepped (x : Watched) : ChatServer.Action → ChatServer → Prop
  | accept {socket : Socket} {outcome : ConnectOutcome} {created : Bool} {m : ClientManager}
      (h : x.1.clientMgr.Created socket outcome created m) :
      Stepped x (.accept socket outcome) { x.1 with clientMgr := m }
  | receive {index : Nat} {data : Bytes} {bound : Bool} {s' : ChatServer}
      (h : ChatServer.Received x.1 index data bound s') : Stepped x (.receive index data bound) s'
  | close {i : Nat} {c : UserInfo} (client : x.1.clientMgr.clientInfos[i]? = some c) :
      Stepped x (.close i) { x.1 with clientMgr := x.1.clientMgr.closeClientAt i i c }
  | idle {failed : List Nat} (queue : x.1.packetQueue = []) (notices : x.2.notices = []) :
      Stepped x (.run failed) x.1
  | run {failed : List Nat} {p : PacketInfo} {packetQueue : List PacketInfo} {o : Option Notice}
      {notices : List (Option Notice)} {c : UserInfo} {m : ClientManager}
      (queue : x.1.packetQueue = p :: packetQueue) (front : x.2.notices = o :: notices)
      (told : Told x.1.clientMgr p o) (client : x.1.clientMgr.clientInfos[p.clientIndex]? = some c)
      (loses : x.1.clientMgr.Loses (· ∈ failed) m) :
      Stepped x (.run failed)
        ⟨m, packetQueue, x.1.sends ++ ChatServer.packetSends x.1.clientMgr p c⟩

theorem Kept.stepped {x : Watched} (h : Kept x) {a : ChatServer.Action} {s' : ChatServer}
    (hs : x.1.step a = .ok s') : Stepped x a s' := by
  cases a with
  | accept socket outcome =>
    obtain ⟨created, m, hm, rfl⟩ := ChatServer.created_of_accept h.sized hs
    exact .accept hm
  | receive index data bound => exact .receive (ChatServer.received_of_ok hs)
  | close index =>
    obtain ⟨c, hc, rfl⟩ := ChatServer.closed_of_ok hs
    exact .close hc
  | run failed =>
    have hs' : x.1.run failed = .ok s' := hs
    have htold := h.told
    cases hq : x.1.packetQueue with
    | nil =>
      simp only [ChatServer.run, hq, pure_eq_ok, Except.ok.injEq] at hs'
      subst hs'
      rw [hq] at htold
      exact .idle hq (List.forall₂_nil_left_iff.mp htold)
    | cons p packetQueue =>
      rw [hq] at htold
      obtain ⟨o, notices, hp, -, hnotices⟩ := List.forall₂_cons_left_iff.mp htold
      obtain ⟨c, hc⟩ := h.sized.exists_client hp.client
      obtain ⟨m, hm, hok⟩ := ChatServer.run_eq h.sized hq hp.dataSize hc failed
      cases hok.symm.trans hs'
      exact .run hq hnotices hp hc hm

theorem Told.mono {m m' : ClientManager} (h : m.currentCapacity ≤ m'.currentCapacity)
    {p : PacketInfo} {o : Option Notice} (hp : Told m p o) : Told m' p o :=
  ⟨Nat.lt_of_lt_of_le hp.client h, hp.dataSize, hp.multi⟩

theorem told_enqueued {m : ClientManager} {index size : Nat} (hi : index < m.currentCapacity)
    (hsize : size ≠ 0) (c : UserInfo) (buf : Bytes) :
    ∀ p ∈ ChatServer.enqueued index size buf, Told m p (ChatServer.noticeOf c buf) := by
  unfold ChatServer.enqueued ChatServer.noticeOf
  cases Packet.request buf with
  | none => exact List.forall_mem_nil _
  | some r =>
    cases r with
    | serverEnter | chatUnicast =>
      exact List.forall_mem_singleton.mpr ⟨hi, by simp, fun ho => absurd rfl ho⟩
    | serverExit | chatBroadcast =>
      exact List.forall_mem_singleton.mpr ⟨hi, hsize, fun ho => absurd rfl ho⟩
    | roomEnter | roomExit | chatMulticast =>
      exact List.forall_mem_singleton.mpr ⟨hi, hsize, fun _ => rfl⟩

theorem notice_eq {s : ChatServer} {index : Nat} {c : UserInfo}
    (hc : s.clientMgr.clientInfos[index]? = some c) (data : Bytes) :
    s.notice index data = ChatServer.noticeOf (c.received data) (c.received data).recvBuf := by
  rw [ChatServer.notice, hc]
  rfl

theorem Stepped.kept {x : Watched} (h : Kept x) {a : ChatServer.Action} {s' : ChatServer}
    (hs : Stepped x a s') : Kept (s', x.2.follow x.1 s' a) := by
  cases hs with
  | accept hm =>
    have hcap := ClientManager.le_currentCapacity_stepped h.sized (.createClient hm)
    exact ⟨h.sized.created hm, h.told.imp fun _ _ => Told.mono hcap⟩
  | @receive index data bound _ hr =>
    obtain ⟨⟨hdata, -⟩, c, hc, rfl⟩ := hr
    have hi := h.sized.lt_length.mp (List.getElem?_eq_some_iff.mp hc).1
    have hindex : ((ChatServer.handle (c.received data) (c.received data).recvBuf).posted
        bound).2.index = c.index := (UserInfo.index_posted ..).trans (ChatServer.index_handle ..)
    refine ⟨h.sized.setClient hc hindex, ?_⟩
    generalize ((ChatServer.handle (c.received data) (c.received data).recvBuf).posted bound).2 = c'
    have hcap : x.1.clientMgr.currentCapacity ≤
        (x.1.clientMgr.setClient index c').currentCapacity := Nat.le_refl _
    simp only [Watch.follow, List.drop_left, notice_eq hc]
    refine List.rel_append (h.told.imp fun _ _ => Told.mono hcap) ?_
    rw [List.forall₂_map_right_iff, List.forall₂_same]
    exact told_enqueued (Nat.lt_of_lt_of_le hi hcap) (List.length_pos_iff.mpr hdata).ne' _ _
  | close client =>
    refine ⟨h.sized.closeClientAt client, h.told.imp fun _ _ => Told.mono (Nat.le_of_eq ?_)⟩
    simp only [ClientManager.closeClientAt]
    split <;> rfl
  | idle queue notices =>
    refine ⟨h.sized, ?_⟩
    simp only [Watch.follow, queue, notices]
    exact .nil
  | run queue front told client loses =>
    have htold := h.told
    rw [queue, front] at htold
    refine ⟨loses.sized h.sized, ?_⟩
    simp only [Watch.follow, front, List.tail_cons]
    refine (List.forall₂_cons.mp htold).2.imp fun _ _ => Told.mono (Nat.le_of_eq ?_)
    rw [loses.pool]

theorem exists_of_step {n : Nat} {x x' : Watched} {a : ChatServer.Action}
    (hs : (system n).step x a = .ok x') :
    ∃ s', x.1.step a = .ok s' ∧ x' = (s', x.2.follow x.1 s' a) := by
  obtain ⟨s, w⟩ := x
  obtain ⟨s', hs', rfl⟩ := System.exists_of_withHistory_step hs
  have hok : s.step a = .ok s' := hs'
  exact ⟨s', hok, by rw [Watch.next, hok]⟩

theorem kept_of_reach {n : Nat} {G : Watched → ChatServer.Action → Prop} {x : Watched}
    (h : (system n).Reach G x) : Kept x := by
  refine h.invariant ⟨ClientManager.sized_new n, .nil⟩ fun x a x' _ hk _ hs => ?_
  obtain ⟨s', hok, rfl⟩ := exists_of_step hs
  exact (hk.stepped hok).kept hk

theorem handle_of_refused {c : UserInfo} {buf : Bytes} {kind : NoticeKind}
    (h : ChatServer.noticeOf c buf = some ⟨kind, false⟩) : ChatServer.handle c buf = c := by
  unfold ChatServer.noticeOf at h
  unfold ChatServer.handle
  cases hr : Packet.request buf with
  | none => rfl
  | some r =>
    rw [hr] at h
    cases r with
    | roomEnter =>
      exact UserInfo.enterRoom_of_refused (congrArg Notice.accepted (Option.some.inj h))
    | roomExit =>
      exact UserInfo.exitRoom_of_refused (congrArg Notice.accepted (Option.some.inj h))
    | serverEnter | serverExit | chatBroadcast | chatMulticast | chatUnicast => contradiction

theorem refusalsKeep (s : ChatServer) : RefusalsKeep s := by
  intro index c buf kind hc hrefused size
  have hshort : ¬ ChatServer.Overlong buf := by
    rintro ⟨hr, -⟩
    rw [ChatServer.noticeOf, hr] at hrefused
    contradiction
  obtain ⟨s', hs'⟩ := ChatServer.exists_classifyPacket hc size hshort
  refine ⟨s', hs', ?_⟩
  rw [ChatServer.classified_of_ok hc hs', handle_of_refused hrefused,
    ClientManager.setClient_self hc]

end Watched

end ChattingServer.V10
