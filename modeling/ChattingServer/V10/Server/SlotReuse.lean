import ChattingServer.V10.Server.Occupancy

namespace ChattingServer.V10

open Lib

namespace ChatServer

/-! What the server does next does not depend on what it has sent. -/

def sentBefore (sends : List Send) (s : ChatServer) : ChatServer :=
  { s with sends := sends ++ s.sends }

theorem updateClient_sentBefore (sends : List Send) (s : ChatServer) (i : Nat)
    (f : UserInfo → UserInfo) :
    (s.sentBefore sends).updateClient i f = (s.updateClient i f).map (sentBefore sends) := by
  change (s.clientMgr.getClientByIndex i >>= _) = (s.clientMgr.getClientByIndex i >>= _).map _
  cases s.clientMgr.getClientByIndex i <;> rfl

theorem sendMsg_sentBefore (sends : List Send) (s : ChatServer) (i : Nat) (p : PacketInfo)
    (ioType : IOOperation) (sent : Bool) :
    (s.sentBefore sends).sendMsg i p ioType sent =
      (s.sendMsg i p ioType sent).map (sentBefore sends) := by
  change (s.clientMgr.getClientByIndex i >>= _) = (s.clientMgr.getClientByIndex i >>= _).map _
  cases s.clientMgr.getClientByIndex i with
  | error e => rfl
  | ok c =>
    change (s.clientMgr.sendMsg i sent >>= _) = (s.clientMgr.sendMsg i sent >>= _).map _
    cases s.clientMgr.sendMsg i sent with
    | error e => rfl
    | ok m => simp [sentBefore, Except.map, List.append_assoc]

theorem castLoop_sentBefore (sends : List Send) (p : PacketInfo) (test : UserInfo → Bool)
    (ioType : Nat → IOOperation) (failed is : List Nat) (s : ChatServer) :
    castLoop p test ioType failed is (s.sentBefore sends) =
      (castLoop p test ioType failed is s).map (sentBefore sends) := by
  induction is generalizing s with
  | nil => rfl
  | cons i is ih =>
    rw [castLoop, castLoop]
    change (s.clientMgr.getClientByIndex i >>= _) = (s.clientMgr.getClientByIndex i >>= _).map _
    cases s.clientMgr.getClientByIndex i with
    | error e => rfl
    | ok c =>
      cases htest : test c with
      | false => simpa only [ok_bind, htest, Bool.false_eq_true, if_false, pure_eq_ok] using ih s
      | true =>
        simp only [ok_bind, htest, if_true]
        rw [sendMsg_sentBefore]
        exact map_bind_comm ih

theorem run_sentBefore (sends : List Send) (s : ChatServer) (failed : List Nat) :
    (s.sentBefore sends).run failed = (s.run failed).map (sentBefore sends) := by
  have hqueue : (s.sentBefore sends).packetQueue = s.packetQueue := rfl
  rw [run, run, hqueue]
  cases s.packetQueue with
  | nil => rfl
  | cons p packetQueue =>
    dsimp only
    split
    · rfl
    · change sendPacket (sentBefore sends { s with packetQueue }) p failed = _
      generalize ({ s with packetQueue } : ChatServer) = s
      unfold sendPacket
      cases p.sendType with
      | broad => exact castLoop_sentBefore ..
      | uni => exact sendMsg_sentBefore ..
      | uninitialized => rfl
      | multi =>
        simp only [multiCast]
        change (s.clientMgr.getClientByIndex _ >>= _) =
          (s.clientMgr.getClientByIndex _ >>= _).map _
        cases s.clientMgr.getClientByIndex p.clientIndex with
        | error e => rfl
        | ok c =>
          simp only [ok_bind]
          cases senderRoom c with
          | none => rfl
          | some room => exact castLoop_sentBefore ..

theorem classifyPacketIf_sentBefore (search : Bool) (sends : List Send) (s : ChatServer)
    (p : PacketInfo) :
    (s.sentBefore sends).classifyPacketIf search p =
      (s.classifyPacketIf search p).map (sentBefore sends) := by
  have hfind : (s.sentBefore sends).findNicknameIf search = s.findNicknameIf search := rfl
  unfold classifyPacketIf classifyPacket
  cases Packet.request p.packetData with
  | none => rfl
  | some r =>
    cases r with
    | serverExit | chatBroadcast | chatMulticast => rfl
    | serverEnter =>
      simp only [processServerEnterIf, hfind]
      cases s.findNicknameIf search (Packet.nickname p.packetData) with
      | some i => rfl
      | none =>
        simp only [if_true, setNickname]
        split
        · rfl
        · rw [updateClient_sentBefore]
          exact map_bind_comm fun _ => rfl
    | roomEnter | roomExit =>
      simp only [processRoomEnter, processRoomExit, updateClient_sentBefore]
      exact map_bind_comm fun _ => rfl
    | chatUnicast =>
      simp only [processChatUnicastIf, hfind]
      cases s.findNicknameIf search (Packet.nickname p.packetData) <;> rfl

theorem receiveIf_sentBefore (search : Bool) (sends : List Send) (s : ChatServer) (index : Nat)
    (data : Bytes) (bound : Bool) :
    (s.sentBefore sends).receiveIf search index data bound =
      (s.receiveIf search index data bound).map (sentBefore sends) := by
  unfold receiveIf
  split
  · rfl
  · rw [updateClient_sentBefore]
    refine map_bind_comm fun s => ?_
    change (s.clientMgr.getClientByIndex index >>= _) =
      (s.clientMgr.getClientByIndex index >>= _).map _
    cases s.clientMgr.getClientByIndex index with
    | error e => rfl
    | ok c =>
      simp only [ok_bind, onReceiveIf, classifyPacketIf_sentBefore]
      refine map_bind_comm fun s => ?_
      change (s.clientMgr.bindRecv index bound >>= _) =
        (s.clientMgr.bindRecv index bound >>= _).map _
      cases s.clientMgr.bindRecv index bound <;> rfl

theorem stepIf_sentBefore (search : Bool) (sends : List Send) (s : ChatServer) (a : Action) :
    (s.sentBefore sends).stepIf search a = (s.stepIf search a).map (sentBefore sends) := by
  cases a with
  | accept socket outcome =>
    change (s.clientMgr.createClient socket outcome >>= _) =
      (s.clientMgr.createClient socket outcome >>= _).map _
    cases s.clientMgr.createClient socket outcome <;> rfl
  | receive index data bound => exact receiveIf_sentBefore ..
  | close index =>
    change (s.clientMgr.closeClient index >>= _) = (s.clientMgr.closeClient index >>= _).map _
    cases s.clientMgr.closeClient index <;> rfl
  | run failed => exact run_sentBefore ..

/-! What is seen of a slot -/

structure Report where
  room : Int32
  prevRoom : Int32
  nickname : Bytes
  deriving DecidableEq

def report (s : ChatServer) (i : Nat) : Option Report :=
  if s.clientMgr.connected i then
    s.clientMgr.clientInfos[i]?.map fun c => ⟨c.room, c.prevRoom, c.nicknameString⟩
  else none

structure Delivery where
  packet : PacketInfo
  sends : List Send

def delivered (s s' : ChatServer) : Action → Option Delivery
  | .run _ => s.packetQueue.head?.map fun p => ⟨p, s'.sends.drop s.sends.length⟩
  | _ => none

/-- What a run from here shows: what is reported for the slot at its end, and where each packet
goes. -/
def observe (search : Bool) (i : Nat) :
    ChatServer → List Action → Option (Option Report × List Delivery)
  | s, [] => some (s.report i, [])
  | s, a :: as =>
    match s.stepIf search a with
    | .error _ => none
    | .ok s' => (observe search i s' as).map (.map id ((delivered s s' a).toList ++ ·))

def entersRoom (i : Nat) (s : ChatServer) : Action → Bool
  | .receive index data _ =>
    index = i ∧ s.clientMgr.clientInfos[index]?.any fun c =>
      Packet.request (c.received data).recvBuf = some .roomEnter
  | _ => false

/-- Until the client of the slot asks for a room it is in the lobby, was in no other room, and is
sent no packet for one. -/
def StaysFresh (search : Bool) (n : Nat) (s : ChatServer) (i : Nat) : Prop :=
  ∀ as s', (systemIf search n).runWith (fun s a => !entersRoom i s a) s as = some s' →
    (∀ r, s'.report i = some r → r.room = UserInfo.lobby ∧ r.prevRoom = UserInfo.lobby) ∧
    ∀ p ∈ s'.packetQueue.head?, p.sendType = .multi → ∀ failed s'', s'.run failed = .ok s'' →
      ∀ send ∈ s''.sends.drop s'.sends.length, send.index ≠ i

/-- Two pasts of a slot leave nothing behind that shows. -/
structure LeaksNothing (search : Bool) (n i : Nat) (s₁ s₂ : ChatServer) : Prop where
  same : ∀ as, observe search i s₁ as = observe search i s₂ as
  fresh₁ : StaysFresh search n s₁ i
  fresh₂ : StaysFresh search n s₂ i

/-- The rest of the pool is the same after both pasts. -/
structure Alike (i : Nat) (s₁ s₂ : ChatServer) : Prop where
  pool : s₂.clientMgr = { s₁.clientMgr with clientInfos := s₂.clientMgr.clientInfos }
  others : ∀ j ≠ i, s₂.clientMgr.clientInfos[j]? = s₁.clientMgr.clientInfos[j]?

/-! What a slot can be given again -/

structure Regular (s : ChatServer) : Prop where
  sized : s.clientMgr.Sized
  counted : s.clientMgr.clientCount + s.clientMgr.emptyClients.length ≤ s.clientMgr.currentCapacity
  field : ∀ {i : Nat} {c : UserInfo}, s.clientMgr.clientInfos[i]? = some c →
    UserInfo.Padded c.nickname ∧ c.nickname.length = UserInfo.maxNicknameLen

theorem field_new (index : Nat) : UserInfo.Padded (UserInfo.new index).nickname ∧
    (UserInfo.new index).nickname.length = UserInfo.maxNicknameLen :=
  ⟨UserInfo.padded_new index, List.length_replicate⟩

theorem counted_grow {m : ClientManager} (h : m.Sized)
    (hcount : m.clientCount + m.emptyClients.length ≤ m.currentCapacity) :
    m.grow.clientCount + m.grow.emptyClients.length ≤ m.grow.currentCapacity := by
  have hcap := ClientManager.le_currentCapacity_grow h
  rw [ClientManager.clientCount_grow]
  unfold ClientManager.grow at hcap ⊢
  split
  · rename_i heq
    rw [if_pos heq] at hcap
    simp only [ClientManager.addClients, List.length_append, List.length_range'] at hcap ⊢
    omega
  · exact hcount

theorem Regular.accept {s s' : ChatServer} (h : Regular s) {socket : Socket}
    {outcome : ConnectOutcome} (hs : s.accept socket outcome = .ok s') : Regular s' := by
  obtain ⟨created, m, hm, rfl⟩ := created_of_accept h.sized hs
  refine ⟨h.sized.created hm, ?_, fun {i c'} hc' => ?_⟩
  · have hgrow := counted_grow h.sized h.counted
    cases hm with
    | full => exact h.counted
    | slot hnot front client =>
      rw [ClientManager.clientCount_grow, front, List.length_cons] at hgrow
      simp only [ClientManager.setClient]
      split <;> omega
  · obtain ⟨c, hc, rfl⟩ := hm.client h.sized hc'
    have hfield : UserInfo.Padded c.nickname ∧ c.nickname.length = UserInfo.maxNicknameLen := by
      rcases hc with hc | ⟨-, rfl⟩
      · exact h.field hc
      · exact field_new i
    split
    · rwa [UserInfo.nickname_connect]
    · exact hfield

theorem Regular.receive {search : Bool} {s s' : ChatServer} (h : Regular s) {index : Nat}
    {data : Bytes} {bound : Bool} (hr : ReceivedIf search s index data bound s') : Regular s' := by
  have hsize := hr.sized h.sized
  obtain ⟨c, hc, rfl⟩ := hr.client
  refine ⟨hsize, h.counted, fun {i c'} hc' => ?_⟩
  by_cases hi : i = index
  · subst hi
    cases (ClientManager.getElem?_setClient_self hc _).symm.trans hc'
    obtain ⟨hpad, hlength⟩ := h.field hc
    rw [UserInfo.nickname_posted]
    refine ⟨padded_handleIf (c := c.received data) hpad _ _, ?_⟩
    rw [nickname_handleIf]
    split
    · rename_i haccept
      have hfits := hr.fits c hc haccept.1 haccept.2
      change (_ ++ c.nickname.drop _).length = _
      rw [List.length_append, List.length_drop, hlength]
      omega
    · exact hlength
  · exact h.field ((ClientManager.getElem?_setClient_of_ne hi _).symm.trans hc')

theorem Regular.close {s : ChatServer} (h : Regular s) {i : Nat} {c : UserInfo}
    (hc : s.clientMgr.clientInfos[i]? = some c) :
    Regular { s with clientMgr := s.clientMgr.closeClientAt i i c } := by
  refine ⟨h.sized.closeClientAt hc, ?_, fun {j c'} hc' => ?_⟩
  · have hcount := h.counted
    simp only [ClientManager.closeClientAt]
    split
    · exact hcount
    · simp only [List.length_append, List.length_singleton, ClientManager.setClient]
      omega
  · change (ClientManager.closeClientAt ..).clientInfos[j]? = some c' at hc'
    rw [ClientManager.getElem?_closeClientAt hc] at hc'
    split at hc'
    · cases hc'
      rw [UserInfo.nickname_close]
      exact h.field hc
    · exact h.field hc'

theorem Regular.step {search : Bool} {s s' : ChatServer} (h : Regular s) {a : Action}
    (hs : s.stepIf search a = .ok s') : Regular s' := by
  cases a with
  | accept socket outcome => exact h.accept hs
  | receive index data bound => exact h.receive (receivedIf_of_ok hs)
  | close index =>
    obtain ⟨c, hc, rfl⟩ := closed_of_ok hs
    exact h.close hc
  | run failed =>
    obtain ⟨hloses, -⟩ := loses_of_run hs
    refine ⟨hloses.sized h.sized, ?_, fun hc' => ?_⟩
    · rw [hloses.pool]
      exact h.counted
    · obtain ⟨c, hc, rfl | ⟨-, rfl⟩⟩ := hloses.exists_client hc'
      · exact h.field hc
      · rw [UserInfo.nickname_close]
        exact h.field hc

theorem regular_init (n : Nat) : Regular (init n) := by
  refine ⟨ClientManager.sized_new n, ?_, fun hc => ?_⟩
  · simp [init, ClientManager.new, ClientManager.addClients]
  · rw [ClientManager.eq_new_of_getElem? hc]
    exact field_new _

theorem regular_of_reach {search : Bool} {n : Nat} {G : ChatServer → Action → Prop}
    {s : ChatServer} (h : (systemIf search n).Reach G s) : Regular s :=
  h.invariant (regular_init n) fun _ _ _ _ hx _ hs => hx.step hs

theorem queued_of_reachable {search : Bool} {n : Nat} {s : ChatServer}
    (h : (systemIf search n).Reachable s) :
    ∀ p ∈ s.packetQueue, Served.Enqueued s.clientMgr p := by
  obtain ⟨x, hx, rfl⟩ := Served.exists_of_reachable h
  exact (Served.orderly_of_reach hx).queued

theorem exists_run {search : Bool} {n : Nat} {s : ChatServer}
    (h : (systemIf search n).Reachable s) :
    ∃ s', s.run [] = .ok s' ∧ s'.packetQueue = s.packetQueue.tail := by
  cases hq : s.packetQueue with
  | nil => exact ⟨s, by rw [run, hq]; rfl, hq⟩
  | cons p packetQueue =>
    have hsize := (regular_of_reach h).sized
    have hp := queued_of_reachable h p (hq ▸ List.mem_cons_self)
    obtain ⟨c, hc⟩ := hsize.exists_client hp.client
    obtain ⟨m, -, hok⟩ := run_eq hsize hq hp.dataSize hc []
    exact ⟨_, hok, rfl⟩

theorem accept_front {s : ChatServer} (h : Regular s) {j : Nat} {rest : List Nat}
    (hq : s.clientMgr.emptyClients = j :: rest) (socket : Socket) :
    ∃ s' c, s.clientMgr.clientInfos[j]? = some c ∧ s.accept socket .connected = .ok s' ∧
      s'.clientMgr.emptyClients = rest ∧
      s'.clientMgr.clientInfos =
        s.clientMgr.clientInfos.set j (c.connect socket .connected).2 := by
  have hcount := h.counted
  have hle := h.sized.le
  rw [hq, List.length_cons] at hcount
  have hgrow : s.clientMgr.grow = s.clientMgr := if_neg (by omega)
  have hempty := ClientManager.getEmptyClient_ok_iff.mpr
    (.inr ⟨by omega, rest, hgrow.symm ▸ hq, rfl⟩)
  have hj := h.sized.queued j (hq ▸ List.mem_cons_self)
  obtain ⟨c, hc⟩ := h.sized.exists_client hj
  have hget := ClientManager.getClientByIndex_ok_iff
    (s := { s.clientMgr with emptyClients := rest }).mpr hc
  have hne : j ≠ s.clientMgr.maxClientCount := by omega
  have haccept : s.accept socket .connected = .ok { s with clientMgr :=
      { { s.clientMgr with emptyClients := rest }.setClient j (c.connect socket .connected).2 with
        clientCount := s.clientMgr.clientCount + 1 } } := by
    rw [ChatServer.accept, ClientManager.createClient, hempty, hgrow]
    simp only [ok_bind, if_neg hne, hget]
    rfl
  exact ⟨_, c, hc, haccept, rfl, rfl⟩

theorem exists_report {search : Bool} {n : Nat} {g : ChatServer → Action → Bool}
    (hg : ∀ s socket outcome, g s (.accept socket outcome) = true) {i : Nat} {c : UserInfo}
    {before rest : List Nat} (hi : i ∉ before) {s : ChatServer} (h : Regular s)
    (hq : s.clientMgr.emptyClients = before ++ i :: rest)
    (hc : s.clientMgr.clientInfos[i]? = some c) :
    ∃ s', (systemIf search n).runWith g s
        (List.replicate (before.length + 1) (.accept 0 .connected)) = some s' ∧
      s'.report i = some ⟨c.room, c.prevRoom, c.nicknameString⟩ := by
  induction before generalizing s with
  | nil =>
    obtain ⟨s', c', hc', hok, -, hset⟩ := accept_front h hq 0
    cases hc'.symm.trans hc
    have hself : s'.clientMgr.clientInfos[i]? = some (c.connect 0 .connected).2 := by
      rw [hset, List.getElem?_set_self (List.getElem?_eq_some_iff.mp hc).1]
    refine ⟨s', ?_, ?_⟩
    · have hstep : (systemIf search n).step s (.accept 0 .connected) = .ok s' := hok
      simp [System.runWith, hg, hstep]
    · rw [report, ClientManager.connected_of_getElem? hself, hself]
      rfl
  | cons j before ih =>
    obtain ⟨s', c', hc', hok, hq', hset⟩ := accept_front h hq 0
    have hstep : (systemIf search n).step s (.accept 0 .connected) = .ok s' := hok
    have hji : j ≠ i := fun hji => hi (hji ▸ List.mem_cons_self)
    have hother : s'.clientMgr.clientInfos[i]? = some c := by
      rw [hset, List.getElem?_set_ne hji, hc]
    obtain ⟨s'', hrun, hreport⟩ := ih (fun hmem => hi (List.mem_cons_of_mem _ hmem))
      (h.accept hok) hq' hother
    refine ⟨s'', ?_, hreport⟩
    rw [List.length_cons, List.replicate_succ, System.runWith, if_pos (hg s 0 .connected), hstep]
    exact hrun

/-! A slot whose last client was in the lobby -/

structure InLobby (i : Nat) (s : ChatServer) : Prop where
  sized : s.clientMgr.Sized
  lobby : ∀ c, s.clientMgr.clientInfos[i]? = some c →
    c.room = UserInfo.lobby ∧ c.prevRoom = UserInfo.lobby

theorem rooms_handleIf {found : Option Nat} {c : UserInfo} {buf : Bytes}
    (hc : c.room = UserInfo.lobby ∧ c.prevRoom = UserInfo.lobby)
    (hr : Packet.request buf ≠ some .roomEnter) :
    (handleIf found c buf).room = UserInfo.lobby ∧
      (handleIf found c buf).prevRoom = UserInfo.lobby := by
  unfold handleIf handle
  cases hreq : Packet.request buf with
  | none => exact hc
  | some r =>
    cases r with
    | serverEnter =>
      dsimp only
      split
      · exact ⟨rfl, hc.2⟩
      · exact hc
    | roomEnter => exact absurd hreq hr
    | roomExit => simp [UserInfo.exitRoom_of_lobby hc.1, hc]
    | serverExit | chatBroadcast | chatMulticast | chatUnicast => exact hc

theorem InLobby.step {search : Bool} {i : Nat} {s s' : ChatServer} (h : InLobby i s) {a : Action}
    (hg : entersRoom i s a = false) (hs : s.stepIf search a = .ok s') : InLobby i s' := by
  refine ⟨sized_of_stepIf h.sized hs, fun c' hc' => ?_⟩
  cases a with
  | accept socket outcome =>
    obtain ⟨created, m, hm, rfl⟩ := created_of_accept h.sized hs
    obtain ⟨c, hc, rfl⟩ := hm.client h.sized hc'
    have hlobby : c.room = UserInfo.lobby ∧ c.prevRoom = UserInfo.lobby := by
      rcases hc with hc | ⟨-, rfl⟩
      · exact h.lobby c hc
      · exact ⟨rfl, rfl⟩
    split
    · have hrooms := ClientManager.rooms_connect c socket outcome
      exact ⟨hrooms.1.trans hlobby.1, hrooms.2.trans hlobby.2⟩
    · exact hlobby
  | receive index data bound =>
    obtain ⟨c, hc, rfl⟩ := (receivedIf_of_ok hs).client
    by_cases hi : i = index
    · subst hi
      cases (ClientManager.getElem?_setClient_self hc _).symm.trans hc'
      have hr : Packet.request (c.received data).recvBuf ≠ some .roomEnter := by
        simpa [entersRoom, hc] using hg
      have hrooms := ClientManager.rooms_posted (handleIf
        (s.found search (c.received data).recvBuf) (c.received data)
        (c.received data).recvBuf) bound
      have hlobby : (handleIf (s.found search (c.received data).recvBuf) (c.received data)
          (c.received data).recvBuf).room = UserInfo.lobby ∧ _ :=
        rooms_handleIf (c := c.received data) (h.lobby c hc) hr
      exact ⟨hrooms.1.trans hlobby.1, hrooms.2.trans hlobby.2⟩
    · exact h.lobby c' ((ClientManager.getElem?_setClient_of_ne hi _).symm.trans hc')
  | close index =>
    obtain ⟨c, hc, rfl⟩ := closed_of_ok hs
    change (ClientManager.closeClientAt ..).clientInfos[i]? = some c' at hc'
    rw [ClientManager.getElem?_closeClientAt hc] at hc'
    split at hc'
    · rename_i hi
      cases hc'
      have hlobby := h.lobby c (hi ▸ hc)
      have hrooms := ClientManager.rooms_close c
      exact ⟨hrooms.1.trans hlobby.1, hrooms.2.trans hlobby.2⟩
    · exact h.lobby c' hc'
  | run failed =>
    obtain ⟨c, hc, rfl | ⟨-, rfl⟩⟩ := (loses_of_run hs).1.exists_client hc'
    · exact h.lobby _ hc
    · have hrooms := ClientManager.rooms_close c
      exact ⟨hrooms.1.trans (h.lobby c hc).1, hrooms.2.trans (h.lobby c hc).2⟩

theorem InLobby.runWith {search : Bool} {n i : Nat} {as : List Action} {s s' : ChatServer}
    (h : InLobby i s)
    (hrun : (systemIf search n).runWith (fun s a => !entersRoom i s a) s as = some s') :
    InLobby i s' := by
  induction as generalizing s with
  | nil =>
    cases hrun
    exact h
  | cons a as ih =>
    simp only [System.runWith] at hrun
    split at hrun
    · rename_i hg
      split at hrun
      · rename_i t ht
        exact ih (h.step (by simpa using hg) ht) hrun
      · contradiction
    · contradiction

theorem room_of_mem_multi {s s' : ChatServer} (h : s.clientMgr.Sized) {failed : List Nat}
    (hs : s.run failed = .ok s') {p : PacketInfo} (hp : p ∈ s.packetQueue.head?)
    (hmulti : p.sendType = .multi) :
    ∀ send ∈ s'.sends.drop s.sends.length,
      ∃ c, s.clientMgr.clientInfos[send.index]? = some c ∧ c.room ≠ UserInfo.lobby := by
  obtain ⟨packetQueue, hq⟩ := List.head?_eq_some_iff.mp hp
  rw [run, hq] at hs
  dsimp only at hs
  split at hs
  · cases hs
    simp
  · rw [sendPacket, hmulti] at hs
    dsimp only at hs
    cases hc : s.clientMgr.clientInfos[p.clientIndex]? with
    | none => simp [multiCast, ClientManager.getClientByIndex, hc, bind, Except.bind] at hs
    | some c =>
      obtain ⟨m, -, hok⟩ := multiCast_ok (s := { s with packetQueue }) h hc failed
      cases hok.symm.trans hs
      intro send hsend
      rw [List.drop_left] at hsend
      cases hsender : senderRoom c with
      | none => simp [multiSends, hsender] at hsend
      | some room =>
        obtain ⟨c', hc', -, hroom⟩ := (mem_multiSends h hsender).mp ⟨send, hsend, rfl⟩
        refine ⟨c', hc', ?_⟩
        rw [hroom]
        rw [senderRoom_eq] at hsender
        split at hsender
        · split at hsender
          · contradiction
          · cases hsender
            assumption
        · cases hsender
          assumption

theorem InLobby.staysFresh {search : Bool} {n i : Nat} {s : ChatServer} (h : InLobby i s) :
    StaysFresh search n s i := by
  intro as s' hrun
  have h' := h.runWith hrun
  refine ⟨fun r hr => ?_, fun p hp hmulti failed s'' hs send hsend heq => ?_⟩
  · unfold report at hr
    split at hr
    · obtain ⟨c, hc, rfl⟩ := Option.map_eq_some_iff.mp hr
      exact h'.lobby c hc
    · contradiction
  · obtain ⟨c, hc, hroom⟩ := room_of_mem_multi h'.sized hs hp hmulti send hsend
    rw [heq] at hc
    exact hroom (h'.lobby c hc).1

/-! Two pasts -/

/-- What a past that ends with `CloseClient` leaves, where `c` is the client that it closes. -/
structure ClosedFrom (search : Bool) (n i : Nat) (c : UserInfo) (s : ChatServer) : Prop where
  past : ∃ t, (systemIf search n).Reachable t ∧ t.clientMgr.clientInfos[i]? = some c ∧
    c.isConnected = true ∧ t.close i = .ok s

theorem ClosedFrom.reachable {search : Bool} {n i : Nat} {c : UserInfo} {s : ChatServer}
    (h : ClosedFrom search n i c s) : (systemIf search n).Reachable s := by
  obtain ⟨t, ht, -, -, hs⟩ := h.past
  exact ht.step (a := .close i) trivial hs

theorem ClosedFrom.regular {search : Bool} {n i : Nat} {c : UserInfo} {s : ChatServer}
    (h : ClosedFrom search n i c s) : Regular s := regular_of_reach h.reachable

theorem ClosedFrom.connected {search : Bool} {n i : Nat} {c : UserInfo} {s : ChatServer}
    (h : ClosedFrom search n i c s) : c.isConnected = true := by
  obtain ⟨t, -, -, hup, -⟩ := h.past
  exact hup

theorem ClosedFrom.client {search : Bool} {n i : Nat} {c : UserInfo} {s : ChatServer}
    (h : ClosedFrom search n i c s) : s.clientMgr.clientInfos[i]? = some c.close := by
  obtain ⟨t, -, hc, -, hs⟩ := h.past
  obtain ⟨c', hc', rfl⟩ := closed_of_ok hs
  cases hc'.symm.trans hc
  exact (ClientManager.getElem?_closeClientAt hc i).trans (if_pos rfl)

theorem ClosedFrom.waits {search : Bool} {n i : Nat} {c : UserInfo} {s : ChatServer}
    (h : ClosedFrom search n i c s) : i ∈ s.clientMgr.emptyClients := by
  obtain ⟨t, -, hc, hup, hs⟩ := h.past
  obtain ⟨c', hc', rfl⟩ := closed_of_ok hs
  cases hc'.symm.trans hc
  simp [ClientManager.closeClientAt, hup]

theorem close_eq_of {c₁ c₂ : UserInfo} (hup₁ : c₁.isConnected = true) (hup₂ : c₂.isConnected = true)
    (hindex : c₁.index = c₂.index) (hroom : c₁.room = c₂.room) (hprev : c₁.prevRoom = c₂.prevRoom)
    (hname : c₁.nickname = c₂.nickname) : c₁.close = c₂.close := by
  have hclose : ∀ {c : UserInfo}, c.isConnected = true → c.close = c.initialized := by
    intro c hup
    refine if_neg fun hnone => ?_
    rw [UserInfo.isConnected, hnone] at hup
    contradiction
  rw [hclose hup₁, hclose hup₂]
  obtain ⟨⟨index, _, _⟩, _, _, _⟩ := c₁
  obtain ⟨⟨index', _, _⟩, _, _, _⟩ := c₂
  cases hindex
  cases hroom
  cases hprev
  cases hname
  rfl

theorem Alike.eq {i : Nat} {s₁ s₂ : ChatServer} (h : Alike i s₁ s₂)
    (hqueue : s₁.packetQueue = s₂.packetQueue)
    (hi : s₂.clientMgr.clientInfos[i]? = s₁.clientMgr.clientInfos[i]?) :
    s₂ = { s₁ with sends := s₂.sends } := by
  have hclients : s₂.clientMgr.clientInfos = s₁.clientMgr.clientInfos := by
    refine List.ext_getElem? fun j => ?_
    by_cases hj : j = i
    · rw [hj, hi]
    · exact h.others j hj
  have hpool := h.pool
  rw [hclients] at hpool
  obtain ⟨m, packetQueue, sends⟩ := s₂
  obtain ⟨m', packetQueue', sends'⟩ := s₁
  simp only at hpool hqueue
  rw [hpool, hqueue]

theorem delivered_sentBefore (sends : List Send) (s s' : ChatServer) (a : Action) :
    delivered (s.sentBefore sends) (s'.sentBefore sends) a = delivered s s' a := by
  cases a with
  | run failed => simp [delivered, sentBefore, List.drop_append, List.drop_eq_nil_of_le]
  | accept | receive | close => rfl

theorem observe_sentBefore (search : Bool) (i : Nat) (sends : List Send) (s : ChatServer)
    (as : List Action) : observe search i (s.sentBefore sends) as = observe search i s as := by
  induction as generalizing s with
  | nil => rfl
  | cons a as ih =>
    rw [observe, observe, stepIf_sentBefore]
    cases s.stepIf search a with
    | error e => rfl
    | ok s' =>
      simp only [Except.map]
      rw [ih, delivered_sentBefore]

theorem observe_congr (search : Bool) (i : Nat) (s : ChatServer) (sends sends' : List Send)
    (as : List Action) :
    observe search i { s with sends } as = observe search i { s with sends := sends' } as := by
  have hbase : ∀ l, ({ s with sends := l } : ChatServer) =
      sentBefore l { s with sends := [] } := by
    intro l
    simp [sentBefore]
  rw [hbase sends, hbase sends', observe_sentBefore, observe_sentBefore]

theorem fst_observe {search : Bool} {n i : Nat} {as : List Action} {s s' : ChatServer}
    (h : (systemIf search n).run s as = some s') :
    (observe search i s as).map Prod.fst = some (s'.report i) := by
  induction as generalizing s with
  | nil =>
    cases h
    rfl
  | cons a as ih =>
    obtain ⟨t, ht, h⟩ := System.run_cons.mp h
    have hstep : s.stepIf search a = .ok t := ht
    rw [observe, hstep]
    simpa [Option.map_map, Function.comp_def] using ih h

theorem packets_observe {search : Bool} {n i : Nat} (k : Nat) {s : ChatServer}
    (h : (systemIf search n).Reachable s) :
    (observe search i s (List.replicate k (.run []))).map (·.2.map Delivery.packet) =
      some (s.packetQueue.take k) := by
  induction k generalizing s with
  | zero => rfl
  | succ k ih =>
    obtain ⟨s', hs', hq⟩ := exists_run h
    have hstep : s.stepIf search (.run []) = .ok s' := hs'
    have hrest := ih (h.step (a := .run []) trivial hstep)
    rw [List.replicate_succ, observe, hstep]
    rw [hq] at hrest
    obtain ⟨r, hr, hpackets⟩ := Option.map_eq_some_iff.mp hrest
    cases hqueue : s.packetQueue with
    | nil =>
      rw [hqueue] at hpackets
      simp [hr, delivered, hqueue, hpackets]
    | cons p packetQueue =>
      rw [hqueue] at hpackets
      simp [hr, delivered, hqueue, hpackets]

theorem ClosedFrom.reported {search : Bool} {n i : Nat} {c : UserInfo} {s : ChatServer}
    (h : ClosedFrom search n i c s) {before rest : List Nat}
    (hq : s.clientMgr.emptyClients = before ++ i :: rest) (hnot : i ∉ before)
    {g : ChatServer → Action → Bool}
    (hg : ∀ s socket outcome, g s (.accept socket outcome) = true) :
    ∃ s', (systemIf search n).runWith g s
        (List.replicate (before.length + 1) (.accept 0 .connected)) = some s' ∧
      s'.report i = some ⟨c.room, c.prevRoom, c.nicknameString⟩ := by
  obtain ⟨s', hrun, hreport⟩ := exists_report hg hnot h.regular hq h.client
  rw [UserInfo.nicknameString, UserInfo.nickname_close, (ClientManager.rooms_close c).1,
    (ClientManager.rooms_close c).2] at hreport
  exact ⟨s', hrun, hreport⟩

theorem ClosedFrom.staysFresh_iff {search : Bool} {n i : Nat} {c : UserInfo} {s : ChatServer}
    (h : ClosedFrom search n i c s) :
    StaysFresh search n s i ↔ c.room = UserInfo.lobby ∧ c.prevRoom = UserInfo.lobby := by
  constructor
  · intro hfresh
    obtain ⟨before, rest, hq, hnot⟩ := List.eq_append_cons_of_mem h.waits
    obtain ⟨s', hrun, hreport⟩ :=
      h.reported hq hnot (g := fun s a => !entersRoom i s a) fun _ _ _ => rfl
    exact (hfresh _ s' hrun).1 _ hreport
  · intro hlobby
    have hrooms := ClientManager.rooms_close c
    refine InLobby.staysFresh ⟨h.regular.sized, fun c' hc' => ?_⟩
    cases h.client.symm.trans hc'
    exact ⟨hrooms.1.trans hlobby.1, hrooms.2.trans hlobby.2⟩

theorem nickname_eq_of_observe {search : Bool} {n i : Nat} {c₁ c₂ : UserInfo} {s₁ s₂ : ChatServer}
    (h₁ : ClosedFrom search n i c₁ s₁) (h₂ : ClosedFrom search n i c₂ s₂) (h : Alike i s₁ s₂)
    (hsame : ∀ as, observe search i s₁ as = observe search i s₂ as) :
    c₁.nicknameString = c₂.nicknameString := by
  obtain ⟨before, rest, hq, hnot⟩ := List.eq_append_cons_of_mem h₁.waits
  have hq₂ : s₂.clientMgr.emptyClients = before ++ i :: rest := by rw [h.pool, hq]
  obtain ⟨s₁', hrun₁, hreport₁⟩ := h₁.reported hq hnot (g := fun _ _ => true) fun _ _ _ => rfl
  obtain ⟨s₂', hrun₂, hreport₂⟩ := h₂.reported hq₂ hnot (g := fun _ _ => true) fun _ _ _ => rfl
  have heq := congrArg (Option.map Prod.fst)
    (hsame (List.replicate (before.length + 1) (.accept 0 .connected)))
  rw [fst_observe hrun₁, fst_observe hrun₂, hreport₁, hreport₂] at heq
  exact congrArg Report.nickname (Option.some.inj (Option.some.inj heq))

theorem packetQueue_eq_of_observe {search : Bool} {n i : Nat} {s₁ s₂ : ChatServer}
    (h₁ : (systemIf search n).Reachable s₁) (h₂ : (systemIf search n).Reachable s₂)
    (hsame : ∀ as, observe search i s₁ as = observe search i s₂ as) :
    s₁.packetQueue = s₂.packetQueue := by
  have htake := fun k => (packets_observe (i := i) k h₁).symm.trans
    ((congrArg _ (hsame _)).trans (packets_observe k h₂))
  have hall := Option.some.inj (htake (s₁.packetQueue.length + s₂.packetQueue.length))
  rwa [List.take_of_length_le (Nat.le_add_right ..),
    List.take_of_length_le (Nat.le_add_left ..)] at hall

theorem ClosedFrom.nickname_eq {search : Bool} {n i : Nat} {c₁ c₂ : UserInfo} {s₁ s₂ : ChatServer}
    (h₁ : ClosedFrom search n i c₁ s₁) (h₂ : ClosedFrom search n i c₂ s₂)
    (h : c₁.nicknameString = c₂.nicknameString) : c₁.nickname = c₂.nickname := by
  have hfield₁ := h₁.regular.field h₁.client
  have hfield₂ := h₂.regular.field h₂.client
  rw [UserInfo.nickname_close] at hfield₁ hfield₂
  exact hfield₁.1.eq_of_takeWhile_eq hfield₂.1 (hfield₁.2.trans hfield₂.2.symm) h

theorem ClosedFrom.index {search : Bool} {n i : Nat} {c : UserInfo} {s : ChatServer}
    (h : ClosedFrom search n i c s) : c.index = i :=
  (UserInfo.index_close c).symm.trans (h.regular.sized.index h.client)

/-- What the last client of a slot leaves behind shows, unless it was in the lobby and in no room
before, left the same nickname, and the same packets wait. -/
theorem leaksNothing_iff (search : Bool) (n : Nat) {i : Nat} {c₁ c₂ : UserInfo}
    {s₁ s₂ : ChatServer} (h₁ : ClosedFrom search n i c₁ s₁) (h₂ : ClosedFrom search n i c₂ s₂)
    (h : Alike i s₁ s₂) :
    LeaksNothing search n i s₁ s₂ ↔
      (c₁.room = UserInfo.lobby ∧ c₁.prevRoom = UserInfo.lobby) ∧
      (c₂.room = UserInfo.lobby ∧ c₂.prevRoom = UserInfo.lobby) ∧
      c₁.nicknameString = c₂.nicknameString ∧ s₁.packetQueue = s₂.packetQueue := by
  constructor
  · intro hleak
    exact ⟨h₁.staysFresh_iff.mp hleak.fresh₁, h₂.staysFresh_iff.mp hleak.fresh₂,
      nickname_eq_of_observe h₁ h₂ h hleak.same,
      packetQueue_eq_of_observe h₁.reachable h₂.reachable hleak.same⟩
  · rintro ⟨hlobby₁, hlobby₂, hstring, hqueue⟩
    refine ⟨fun as => ?_, h₁.staysFresh_iff.mpr hlobby₁, h₂.staysFresh_iff.mpr hlobby₂⟩
    have hclose := close_eq_of h₁.connected h₂.connected (h₁.index.trans h₂.index.symm)
      (hlobby₁.1.trans hlobby₂.1.symm) (hlobby₁.2.trans hlobby₂.2.symm)
      (h₁.nickname_eq h₂ hstring)
    rw [h.eq hqueue (by rw [h₁.client, h₂.client, hclose])]
    exact observe_congr search i s₁ s₁.sends s₂.sends as

theorem Alike.close {i : Nat} {t₁ t₂ s₁ s₂ : ChatServer} (h : Alike i t₁ t₂) {c₁ c₂ : UserInfo}
    (hc₁ : t₁.clientMgr.clientInfos[i]? = some c₁) (hc₂ : t₂.clientMgr.clientInfos[i]? = some c₂)
    (hup₁ : c₁.isConnected = true) (hup₂ : c₂.isConnected = true) (hs₁ : t₁.close i = .ok s₁)
    (hs₂ : t₂.close i = .ok s₂) : Alike i s₁ s₂ := by
  obtain ⟨c, hc, rfl⟩ := closed_of_ok hs₁
  obtain ⟨c', hc', rfl⟩ := closed_of_ok hs₂
  cases hc.symm.trans hc₁
  cases hc'.symm.trans hc₂
  refine ⟨?_, fun j hj => ?_⟩
  · have hpool := h.pool
    simp only [ClientManager.closeClientAt, hup₁, hup₂, Bool.true_eq_false, if_false,
      ClientManager.setClient]
    rw [hpool]
  · have h₁ := ClientManager.getElem?_closeClientAt hc₁ j
    have h₂ := ClientManager.getElem?_closeClientAt hc₂ j
    rw [if_neg hj] at h₁ h₂
    exact h₂.trans ((h.others j hj).trans h₁.symm)

def oneClient (t : ChatServer) : Bool :=
  decide (t.clientMgr.emptyClients = [] ∧ t.clientMgr.maxClientCount = 4 ∧
    t.clientMgr.currentCapacity = 1 ∧ t.clientMgr.clientCount = 1 ∧ t.packetQueue = []) &&
  match t.clientMgr.clientInfos with
  | [c] => c.isConnected
  | _ => false

theorem exists_closed_of_oneClient {search : Bool} {t : ChatServer}
    (ht : (systemIf search 4).Reachable t) (h : oneClient t = true) :
    ∃ c s, t.clientMgr.clientInfos = [c] ∧ c.isConnected = true ∧ t.close 0 = .ok s ∧
      ClosedFrom search 4 0 c s := by
  have hone := ((Bool.and_eq_true ..).mp h).2
  split at hone
  · rename_i c hclients
    have hc : t.clientMgr.clientInfos[0]? = some c := by rw [hclients]; rfl
    have hclose : t.close 0 =
        .ok { t with clientMgr := t.clientMgr.closeClientAt 0 0 c } := by
      rw [close, ClientManager.closeClient, ClientManager.getClientByIndex_ok_iff.mpr hc]
      rfl
    exact ⟨c, _, hclients, hone, hclose, ⟨t, ht, hc, hone, hclose⟩⟩
  · contradiction

theorem alike_of_oneClient {t₁ t₂ : ChatServer} (h₁ : oneClient t₁ = true)
    (h₂ : oneClient t₂ = true) {c₁ c₂ : UserInfo} (hc₁ : t₁.clientMgr.clientInfos = [c₁])
    (hc₂ : t₂.clientMgr.clientInfos = [c₂]) : Alike 0 t₁ t₂ := by
  obtain ⟨hempty₁, hmax₁, hcap₁, hcount₁, -⟩ :=
    of_decide_eq_true ((Bool.and_eq_true ..).mp h₁).1
  obtain ⟨hempty₂, hmax₂, hcap₂, hcount₂, -⟩ :=
    of_decide_eq_true ((Bool.and_eq_true ..).mp h₂).1
  refine ⟨?_, fun j hj => ?_⟩
  · obtain ⟨⟨_, _, _, _, _⟩, _, _⟩ := t₁
    obtain ⟨⟨_, _, _, _, _⟩, _, _⟩ := t₂
    simp_all
  · have hpos : 1 ≤ j := Nat.one_le_iff_ne_zero.mpr hj
    rw [hc₁, hc₂, List.getElem?_eq_none hpos, List.getElem?_eq_none hpos]

theorem packetQueue_of_oneClient {t s : ChatServer} (h : oneClient t = true)
    (hs : t.close 0 = .ok s) : s.packetQueue = [] := by
  obtain ⟨c, -, rfl⟩ := closed_of_ok hs
  exact (of_decide_eq_true ((Bool.and_eq_true ..).mp h).1).2.2.2.2

theorem leaksNothing_of_lobby :
    ∃ s₁ s₂, s₁.sends = [] ∧ s₂.sends ≠ [] ∧ LeaksNothing false 4 0 s₁ s₂ := by
  obtain ⟨t₁, ht₁, hp₁⟩ := System.exists_of_run (S := systemIf false 4)
    (p := fun t => oneClient t && decide (t.sends = []) &&
      t.clientMgr.clientInfos.all fun c => c.room = 0 ∧ c.prevRoom = 0 ∧ c.nicknameString = [])
    [.accept 7 .connected] (by decide)
  obtain ⟨t₂, ht₂, hp₂⟩ := System.exists_of_run (S := systemIf false 4)
    (p := fun t => oneClient t && decide (t.sends ≠ []) &&
      t.clientMgr.clientInfos.all fun c => c.room = 0 ∧ c.prevRoom = 0 ∧ c.nicknameString = [])
    [.accept 8 .connected, .receive 0 (packet .chatBroadcast 0) true, .run []] (by decide)
  rw [Bool.and_eq_true, Bool.and_eq_true] at hp₁ hp₂
  obtain ⟨⟨hone₁, hsends₁⟩, hleft₁⟩ := hp₁
  obtain ⟨⟨hone₂, hsends₂⟩, hleft₂⟩ := hp₂
  obtain ⟨c₁, s₁, hc₁, hup₁, hs₁, hpast₁⟩ := exists_closed_of_oneClient ht₁ hone₁
  obtain ⟨c₂, s₂, hc₂, hup₂, hs₂, hpast₂⟩ := exists_closed_of_oneClient ht₂ hone₂
  rw [hc₁, List.all_cons, List.all_nil, Bool.and_true, decide_eq_true_eq] at hleft₁
  rw [hc₂, List.all_cons, List.all_nil, Bool.and_true, decide_eq_true_eq] at hleft₂
  have halike := (alike_of_oneClient hone₁ hone₂ hc₁ hc₂).close (by rw [hc₁]; rfl)
    (by rw [hc₂]; rfl) hup₁ hup₂ hs₁ hs₂
  refine ⟨s₁, s₂, ?_, ?_, (leaksNothing_iff false 4 hpast₁ hpast₂ halike).mpr
    ⟨⟨hleft₁.1, hleft₁.2.1⟩, ⟨hleft₂.1, hleft₂.2.1⟩, hleft₁.2.2.trans hleft₂.2.2.symm,
      (packetQueue_of_oneClient hone₁ hs₁).trans (packetQueue_of_oneClient hone₂ hs₂).symm⟩⟩
  · obtain ⟨c, -, rfl⟩ := closed_of_ok hs₁
    exact of_decide_eq_true hsends₁
  · obtain ⟨c, -, rfl⟩ := closed_of_ok hs₂
    exact of_decide_eq_true hsends₂

/-- The next client in the slot of one that left from a room is in that room. -/
theorem not_leaksNothing :
    ¬ ∀ search n i c₁ c₂ s₁ s₂, ClosedFrom search n i c₁ s₁ → ClosedFrom search n i c₂ s₂ →
      Alike i s₁ s₂ → LeaksNothing search n i s₁ s₂ := by
  intro h
  obtain ⟨t₁, ht₁, hp₁⟩ := System.exists_of_run (S := systemIf false 4)
    (p := fun t => oneClient t &&
      (t.close 0).toOption.any fun s : ChatServer =>
        ((systemIf false 4).runWith (fun s a => !entersRoom 0 s a) s [.accept 9 .connected]).any
          fun s' => s'.report 0 = some ⟨1, 0, []⟩)
    [.accept 7 .connected, .receive 0 (packet .roomEnter 1) true, .run []] (by decide)
  obtain ⟨t₂, ht₂, hone₂⟩ := System.exists_of_run (S := systemIf false 4) (p := oneClient)
    [.accept 8 .connected] (by decide)
  obtain ⟨hone₁, hnext⟩ := (Bool.and_eq_true ..).mp hp₁
  obtain ⟨c₁, s₁, hc₁, hup₁, hs₁, hpast₁⟩ := exists_closed_of_oneClient ht₁ hone₁
  obtain ⟨c₂, s₂, hc₂, hup₂, hs₂, hpast₂⟩ := exists_closed_of_oneClient ht₂ hone₂
  have halike := (alike_of_oneClient hone₁ hone₂ hc₁ hc₂).close (by rw [hc₁]; rfl)
    (by rw [hc₂]; rfl) hup₁ hup₂ hs₁ hs₂
  have hfresh := (h false 4 0 c₁ c₂ s₁ s₂ hpast₁ hpast₂ halike).fresh₁
  obtain ⟨s, hs, hnext⟩ := (Option.any_eq_true ..).mp hnext
  obtain rfl := Except.ok.inj (hs₁.symm.trans (toOption_eq_some_iff.mp hs))
  obtain ⟨s', hrun, hreport⟩ := (Option.any_eq_true ..).mp hnext
  have hlobby := ((hfresh _ s' hrun).1 _ (of_decide_eq_true hreport)).1
  contradiction

end ChatServer

end ChattingServer.V10
