import Mathlib.Logic.Function.Basic
import ChattingServer.V10.Server.FindNickname
import ChattingServer.V10.Server.Multicast

namespace ChattingServer.V10

open Lib

namespace ChatServer

def packetSends (m : ClientManager) (p : PacketInfo) (c : UserInfo) : List Send :=
  match p.sendType with
  | .multi => multiSends m p c
  | .uni => [⟨p.clientIndex, c.socketClient, p.packetData.take p.dataSize, .send⟩]
  | .broad => castSends m p (·.isConnected) (fun _ => .send) (List.range m.currentCapacity)
  | .uninitialized => []

theorem run_eq {s : ChatServer} (hsize : s.clientMgr.Sized) {p : PacketInfo}
    {packetQueue : List PacketInfo} (hq : s.packetQueue = p :: packetQueue) (hp : p.dataSize ≠ 0)
    {c : UserInfo} (hc : s.clientMgr.clientInfos[p.clientIndex]? = some c) (failed : List Nat) :
    ∃ m, s.clientMgr.Loses (· ∈ failed) m ∧ s.run failed =
      .ok { clientMgr := m, packetQueue, sends := s.sends ++ packetSends s.clientMgr p c } := by
  have hrun : ∃ m, s.run failed =
      .ok { clientMgr := m, packetQueue, sends := s.sends ++ packetSends s.clientMgr p c } := by
    rw [run, hq]
    simp only [if_neg hp, sendPacket, packetSends]
    cases p.sendType with
    | multi =>
      obtain ⟨m, -, hok⟩ := multiCast_ok (s := { s with packetQueue }) hsize hc failed
      exact ⟨m, hok⟩
    | broad =>
      obtain ⟨m, -, hok⟩ := castLoop_ok (s := { s with packetQueue }) hsize p (·.isConnected)
        (fun _ => .send) failed List.nodup_range range_lt
      exact ⟨m, hok⟩
    | uni => exact ⟨_, sendMsg_eq (s := { s with packetQueue }) hc p .send (p.clientIndex ∉ failed)⟩
    | uninitialized => exact ⟨s.clientMgr, by simp⟩
  obtain ⟨m, hok⟩ := hrun
  exact ⟨m, (loses_of_run hok).1, hok⟩

theorem close_of_mem_multiSends {m : ClientManager} {p : PacketInfo} {c : UserInfo} {send : Send}
    (h : send ∈ multiSends m p c) (hclose : send.ioType = .close) :
    p.isClose = true ∧ send.index = p.clientIndex ∧ m.connected p.clientIndex = true := by
  unfold multiSends at h
  split at h
  · contradiction
  · obtain ⟨i, -, c', hc', htest, rfl⟩ := mem_castSends.mp h
    have hup := (ClientManager.connected_of_getElem? hc').trans (of_decide_eq_true htest).1
    cases hcl : p.isClose with
    | false => simp [hcl] at hclose
    | true =>
      obtain rfl : i = p.clientIndex := by simpa [hcl] using hclose
      exact ⟨rfl, rfl, hup⟩

theorem close_of_mem_packetSends {m : ClientManager} {p : PacketInfo} {c : UserInfo} {send : Send}
    (h : send ∈ packetSends m p c) (hclose : send.ioType = .close) :
    p.isClose = true ∧ send.index = p.clientIndex ∧ m.connected p.clientIndex = true := by
  unfold packetSends at h
  split at h
  · exact close_of_mem_multiSends h hclose
  · obtain rfl := List.mem_singleton.mp h
    contradiction
  · obtain ⟨i, -, c', -, -, rfl⟩ := mem_castSends.mp h
    contradiction
  · contradiction

end ChatServer

/-! Who has a slot -/

/-- What holds of the slot that a packet names when the packet is enqueued: the connection that has
the slot, by its number among those that were given it, and the room that the client is in. -/
structure Stamp where
  occupant : Option Nat
  room : Int32
  deriving DecidableEq

/-- The server, next to how often each slot was given and the stamps of the packets in the queue; of
the sends with operation `CLOSE`, those that have not completed, with the connection that asked for
the close, and all there were, with the connection that it was sent to. -/
structure Served where
  server : ChatServer
  given : Nat → Nat
  stamps : List Stamp
  closing : List (Nat × Option Nat)
  closed : List (Nat × Option Nat)

namespace Served

inductive Event
  | act (a : ChatServer.Action)
  /-- A worker calls `OnClose` for one of the sends that were to close their client. -/
  | closed (k : Nat)

def occupant (x : Served) (i : Nat) : Option Nat :=
  if x.server.clientMgr.connected i then some (x.given i) else none

def roomOf (x : Served) (i : Nat) : Int32 :=
  (x.server.clientMgr.clientInfos[i]?.map UserInfo.room).getD UserInfo.lobby

def stamp (x : Served) (p : PacketInfo) : Stamp :=
  ⟨x.occupant p.clientIndex, x.roomOf p.clientIndex⟩

def closes (x : Served) (sends : List Send) (failed : List Nat) : List (Nat × Option Nat) :=
  (sends.filter fun send => send.ioType = .close ∧ send.index ∉ failed).map fun send =>
    (send.index, x.stamps.head?.bind Stamp.occupant)

def sentTo (x : Served) (sends : List Send) : List (Nat × Option Nat) :=
  (sends.filter (·.ioType = .close)).map fun send => (send.index, x.occupant send.index)

def follow (x : Served) (server : ChatServer) : ChatServer.Action → Served
  | .accept _ _ =>
    { x with
      server
      given := fun i =>
        if x.server.clientMgr.nextSlot = some i then x.given i + 1 else x.given i }
  | .receive _ _ _ =>
    { x with
      server
      stamps := x.stamps ++
        (server.packetQueue.drop x.server.packetQueue.length).map x.stamp }
  | .close _ => { x with server }
  | .run failed =>
    { x with
      server
      stamps := x.stamps.tail
      closing := x.closing ++ x.closes (server.sends.drop x.server.sends.length) failed
      closed := x.closed ++ x.sentTo (server.sends.drop x.server.sends.length) }

def step (search : Bool) (x : Served) : Event → Except Fault Served
  | .act a => do
    let server ← x.server.stepIf search a
    return x.follow server a
  | .closed k =>
    match x.closing[k]? with
    | none => .error .disabled
    | some (i, _) => do
      let server ← x.server.close i
      return { x with server, closing := x.closing.eraseIdx k }

def system (search : Bool) (maxClient : Nat) : System Served Event Fault where
  init := ⟨.init maxClient, fun _ => 0, [], [], []⟩
  step := step search

theorem reachable_server {search : Bool} {n : Nat} {x : Served}
    (h : (system search n).Reachable x) : (ChatServer.systemIf search n).Reachable x.server := by
  induction h with
  | init => exact .init
  | @step x x' e _ _ hs ih =>
    cases e with
    | act a =>
      simp only [system, step, bind_eq_ok_iff] at hs
      obtain ⟨server, hserver, hs⟩ := hs
      obtain rfl := Except.ok.inj hs
      refine .step (a := a) ih trivial ?_
      cases a <;> exact hserver
    | closed k =>
      simp only [system, step] at hs
      split at hs
      · contradiction
      · rename_i i _ _
        simp only [bind_eq_ok_iff] at hs
        obtain ⟨server, hserver, hs⟩ := hs
        obtain rfl := Except.ok.inj hs
        exact .step (a := .close i) ih trivial hserver

theorem exists_of_reachable {search : Bool} {n : Nat} {s : ChatServer}
    (h : (ChatServer.systemIf search n).Reachable s) :
    ∃ x, (system search n).Reachable x ∧ x.server = s := by
  induction h with
  | init => exact ⟨_, .init, rfl⟩
  | @step s s' a _ _ hs ih =>
    obtain ⟨x, hx, rfl⟩ := ih
    have hserver : x.server.stepIf search a = .ok s' := hs
    refine ⟨x.follow s' a, hx.step (a := .act a) trivial ?_, by cases a <;> rfl⟩
    simp only [system, step, hserver]
    rfl

/-! What a step does -/

structure Enqueued (m : ClientManager) (p : PacketInfo) : Prop where
  client : p.clientIndex < m.currentCapacity
  dataSize : p.dataSize ≠ 0
  multi : p.isClose = true → p.sendType = .multi

structure Orderly (x : Served) : Prop where
  sized : x.server.clientMgr.Sized
  queued : ∀ p ∈ x.server.packetQueue, Enqueued x.server.clientMgr p
  stamped : x.stamps.length = x.server.packetQueue.length
  closing : ∀ e ∈ x.closing, e.1 < x.server.clientMgr.currentCapacity

inductive Stepped (search : Bool) (x : Served) : Event → Served → Prop
  | accept {socket : Socket} {outcome : ConnectOutcome} {created : Bool} {m : ClientManager}
      (h : x.server.clientMgr.Created socket outcome created m) :
      Stepped search x (.act (.accept socket outcome))
        (x.follow { x.server with clientMgr := m } (.accept socket outcome))
  | receive {index : Nat} {data : Bytes} {bound : Bool} {server : ChatServer}
      (h : ChatServer.ReceivedIf search x.server index data bound server) :
      Stepped search x (.act (.receive index data bound))
        (x.follow server (.receive index data bound))
  | close {e : Event} {i : Nat} {c : UserInfo} {closing : List (Nat × Option Nat)}
      (client : x.server.clientMgr.clientInfos[i]? = some c)
      (event : e = .act (.close i) ∧ closing = x.closing ∨
        ∃ k o, e = .closed k ∧ x.closing[k]? = some (i, o) ∧ closing = x.closing.eraseIdx k) :
      Stepped search x e { x with
        server := { x.server with clientMgr := x.server.clientMgr.closeClientAt i i c }
        closing }
  | idle {failed : List Nat} (queue : x.server.packetQueue = []) :
      Stepped search x (.act (.run failed)) x
  | run {failed : List Nat} {p : PacketInfo} {packetQueue : List PacketInfo} {stamp : Stamp}
      {stamps : List Stamp} {c : UserInfo} {m : ClientManager}
      (queue : x.server.packetQueue = p :: packetQueue) (stamped : x.stamps = stamp :: stamps)
      (client : x.server.clientMgr.clientInfos[p.clientIndex]? = some c)
      (loses : x.server.clientMgr.Loses (· ∈ failed) m) :
      Stepped search x (.act (.run failed)) { x with
        server := ⟨m, packetQueue,
          x.server.sends ++ ChatServer.packetSends x.server.clientMgr p c⟩
        stamps
        closing := x.closing ++
          x.closes (ChatServer.packetSends x.server.clientMgr p c) failed
        closed := x.closed ++ x.sentTo (ChatServer.packetSends x.server.clientMgr p c) }

theorem stepped_of_run (search : Bool) {x : Served} (h : Orderly x) {failed : List Nat}
    {server : ChatServer} (hserver : x.server.run failed = .ok server) :
    Stepped search x (.act (.run failed)) (x.follow server (.run failed)) := by
  cases hq : x.server.packetQueue with
  | nil =>
    simp only [ChatServer.run, hq, pure_eq_ok, Except.ok.injEq] at hserver
    subst hserver
    have hstamps : x.stamps = [] := by
      rw [← List.length_eq_zero_iff, h.stamped, hq]
      rfl
    have hidle : x.follow x.server (.run failed) = x := by
      obtain ⟨s, given, stamps, closing, closed⟩ := x
      simp only at hstamps
      simp [follow, closes, sentTo, hstamps]
    rw [hidle]
    exact .idle hq
  | cons p packetQueue =>
    obtain ⟨stamp, stamps, hstamps⟩ := List.exists_cons_of_length_eq_add_one
      (h.stamped.trans (congrArg List.length hq))
    have hp := h.queued p (hq ▸ List.mem_cons_self)
    obtain ⟨c, hc⟩ := h.sized.exists_client hp.client
    obtain ⟨m, hm, hok⟩ := ChatServer.run_eq h.sized hq hp.dataSize hc failed
    cases hok.symm.trans hserver
    have hrun : Stepped search x (.act (.run failed)) _ := .run hq hstamps hc hm
    simpa [follow, hstamps] using hrun

theorem stepped_of_ok {search : Bool} {x x' : Served} (h : Orderly x) {e : Event}
    (hs : step search x e = .ok x') : Stepped search x e x' := by
  cases e with
  | act a =>
    simp only [step, bind_eq_ok_iff] at hs
    obtain ⟨server, hserver, hs⟩ := hs
    obtain rfl := Except.ok.inj hs
    cases a with
    | accept socket outcome =>
      obtain ⟨created, m, hm, rfl⟩ := ChatServer.created_of_accept h.sized hserver
      exact .accept hm
    | receive index data bound => exact .receive (ChatServer.receivedIf_of_ok hserver)
    | close index =>
      obtain ⟨c, hc, rfl⟩ := ChatServer.closed_of_ok hserver
      exact .close hc (.inl ⟨rfl, rfl⟩)
    | run failed => exact stepped_of_run search h hserver
  | closed k =>
    simp only [step] at hs
    split at hs
    · contradiction
    · rename_i i o hk
      simp only [bind_eq_ok_iff] at hs
      obtain ⟨server, hserver, hs⟩ := hs
      obtain rfl := Except.ok.inj hs
      obtain ⟨c, hc, rfl⟩ := ChatServer.closed_of_ok hserver
      exact .close hc (.inr ⟨k, o, rfl, hk, rfl⟩)

theorem Enqueued.mono {m m' : ClientManager} (h : m.currentCapacity ≤ m'.currentCapacity)
    {p : PacketInfo} (hp : Enqueued m p) : Enqueued m' p :=
  ⟨Nat.lt_of_lt_of_le hp.client h, hp.dataSize, hp.multi⟩

theorem enqueued_enqueuedIf {m : ClientManager} {found : Option Nat} {index size : Nat}
    (hindex : index < m.currentCapacity) (hfound : ∀ i ∈ found, i < m.currentCapacity)
    (hsize : size ≠ 0) (buf : Bytes) :
    ∀ p ∈ ChatServer.enqueuedIf found index size buf, Enqueued m p := by
  unfold ChatServer.enqueuedIf ChatServer.enqueued
  cases Packet.request buf with
  | none => exact List.forall_mem_nil _
  | some r =>
    cases r with
    | serverEnter =>
      cases found <;> exact List.forall_mem_singleton.mpr ⟨hindex, by simp, nofun⟩
    | serverExit => exact List.forall_mem_singleton.mpr ⟨hindex, hsize, fun _ => rfl⟩
    | roomEnter | roomExit | chatBroadcast | chatMulticast =>
      exact List.forall_mem_singleton.mpr ⟨hindex, hsize, nofun⟩
    | chatUnicast =>
      cases found with
      | none => exact List.forall_mem_singleton.mpr ⟨hindex, by simp, nofun⟩
      | some i =>
        refine List.forall_mem_cons.mpr ⟨⟨hindex, hsize, nofun⟩, ?_⟩
        exact List.forall_mem_singleton.mpr ⟨hfound i rfl, hsize, nofun⟩

theorem exists_enqueued_of_received {search : Bool} {x : Served} (h : Orderly x) {index : Nat}
    {data : Bytes} {bound : Bool} {server : ChatServer}
    (hs : ChatServer.ReceivedIf search x.server index data bound server) :
    ∃ added, server.packetQueue = x.server.packetQueue ++ added ∧
      ∀ p ∈ added, Enqueued x.server.clientMgr p := by
  obtain ⟨⟨hdata, -⟩, ⟨c, hc, rfl⟩, -⟩ := hs
  have hindex := h.sized.lt_length.mp (List.getElem?_eq_some_iff.mp hc).1
  refine ⟨_, rfl, enqueued_enqueuedIf hindex (fun i hi => ?_) (List.length_pos_iff.mpr hdata).ne' _⟩
  exact ChatServer.lt_of_findNicknameIf hi

theorem Stepped.capacity {search : Bool} {x x' : Served} (h : Orderly x) {e : Event}
    (hs : Stepped search x e x') :
    x.server.clientMgr.currentCapacity ≤ x'.server.clientMgr.currentCapacity := by
  cases hs with
  | accept hm => exact ClientManager.le_currentCapacity_stepped h.sized (.createClient hm)
  | receive hr =>
    obtain ⟨c, hc, rfl⟩ := hr.client
    exact Nat.le_refl _
  | close client =>
    simp only [ClientManager.closeClientAt]
    split <;> exact Nat.le_refl _
  | idle => exact Nat.le_refl _
  | run _ _ _ loses => rw [loses.pool]

theorem Orderly.stepped {search : Bool} {x x' : Served} (h : Orderly x) {e : Event}
    (hs : Stepped search x e x') : Orderly x' := by
  have hcap := hs.capacity h
  have hold := fun p hp => (h.queued p hp).mono hcap
  have hclosing := fun e he => Nat.lt_of_lt_of_le (h.closing e he) hcap
  cases hs with
  | accept hm => exact ⟨h.sized.created hm, hold, h.stamped, hclosing⟩
  | @receive index data bound server hr =>
    obtain ⟨added, hadded, hnew⟩ := exists_enqueued_of_received h hr
    refine ⟨hr.sized h.sized, fun p hp => ?_, ?_, hclosing⟩
    · change p ∈ server.packetQueue at hp
      rw [hadded, List.mem_append] at hp
      exact hp.elim (hold p) fun hp => (hnew p hp).mono hcap
    · simp [follow, hadded, h.stamped]
  | close client event =>
    refine ⟨h.sized.closeClientAt client, hold, h.stamped, fun e he => hclosing e ?_⟩
    rcases event with ⟨-, rfl⟩ | ⟨k, o, -, -, rfl⟩
    · exact he
    · exact List.mem_of_mem_eraseIdx he
  | idle => exact h
  | @run failed p packetQueue stamp stamps c m queue stamped client loses =>
    refine ⟨loses.sized h.sized, fun p hp => hold p (queue ▸ List.mem_cons_of_mem _ hp), ?_,
      fun e he => ?_⟩
    · have := h.stamped
      rw [queue, stamped] at this
      exact Nat.succ.inj this
    · rcases List.mem_append.mp he with he | he
      · exact hclosing e he
      · obtain ⟨send, hsend, rfl⟩ := List.mem_map.mp he
        obtain ⟨hsend, hio⟩ := List.mem_filter.mp hsend
        have hto := ChatServer.close_of_mem_packetSends hsend (of_decide_eq_true hio).1
        rw [hto.2.1]
        exact (hold p (queue ▸ List.mem_cons_self)).client

theorem Orderly.front {x : Served} (h : Orderly x) {p : PacketInfo}
    (hp : p ∈ x.server.packetQueue.head?) (failed : List Nat) :
    Enqueued x.server.clientMgr p ∧ ∃ c m packetQueue,
      x.server.clientMgr.clientInfos[p.clientIndex]? = some c ∧
      x.server.clientMgr.Loses (· ∈ failed) m ∧ x.server.run failed =
        .ok ⟨m, packetQueue,
          x.server.sends ++ ChatServer.packetSends x.server.clientMgr p c⟩ := by
  obtain ⟨packetQueue, hq⟩ := List.head?_eq_some_iff.mp hp
  have hfront := h.queued p (hq ▸ List.mem_cons_self)
  obtain ⟨c, hc⟩ := h.sized.exists_client hfront.client
  obtain ⟨m, hm, hok⟩ := ChatServer.run_eq h.sized hq hfront.dataSize hc failed
  exact ⟨hfront, c, m, packetQueue, hc, hm, hok⟩

theorem close_eq {s : ChatServer} {i : Nat} {c : UserInfo}
    (hc : s.clientMgr.clientInfos[i]? = some c) :
    s.close i = .ok { s with clientMgr := s.clientMgr.closeClientAt i i c } := by
  rw [ChatServer.close, ClientManager.closeClient, ClientManager.getClientByIndex_ok_iff.mpr hc,
    ok_bind, pure_eq_ok, ok_bind, pure_eq_ok]

theorem mem_zip_of_head {x : Served} {p : PacketInfo} (hp : p ∈ x.server.packetQueue.head?)
    {stamp : Stamp} (hstamp : stamp ∈ x.stamps.head?) :
    (p, stamp) ∈ x.server.packetQueue.zip x.stamps := by
  obtain ⟨packetQueue, hq⟩ := List.head?_eq_some_iff.mp hp
  obtain ⟨stamps, hstamps⟩ := List.head?_eq_some_iff.mp hstamp
  rw [hq, hstamps]
  exact List.mem_cons_self

theorem occupant_of_connected {x : Served} {i : Nat} (h : x.server.clientMgr.connected i = true) :
    x.occupant i = some (x.given i) :=
  if_pos h

theorem connected_of_occupant {x : Served} {i g : Nat} (h : x.occupant i = some g) :
    x.server.clientMgr.connected i = true := by
  unfold occupant at h
  split at h
  · assumption
  · contradiction

inductive Keeps (x : Served) (e : Event) (x' : Served) (i : Nat) : Prop
  | gone (down : x'.server.clientMgr.connected i = false)
  | still (up : x.server.clientMgr.connected i = true) (same : x'.occupant i = x.occupant i)
  | given {socket : Socket} {outcome : ConnectOutcome}
      (action : e = .act (.accept socket outcome)) (made : outcome ≠ .recvFailed)
      (slot : x.server.clientMgr.nextSlot = some i)

theorem Stepped.keeps {search : Bool} {x x' : Served} (h : Orderly x) {e : Event}
    (hs : Stepped search x e x') (i : Nat) : Keeps x e x' i := by
  cases hup' : x'.server.clientMgr.connected i with
  | false => exact .gone hup'
  | true =>
    have stays : x.server.clientMgr.connected i = true → x'.given i = x.given i →
        Keeps x e x' i := by
      intro hup hgiven
      refine .still hup ?_
      rw [occupant_of_connected hup', occupant_of_connected hup, hgiven]
    cases hs with
    | @accept socket outcome created m hm =>
      change m.connected i = true at hup'
      rw [ClientManager.connected_created h.sized hm] at hup'
      by_cases hnext : x.server.clientMgr.nextSlot = some i
      · rw [if_pos hnext] at hup'
        exact .given rfl (of_decide_eq_true hup') hnext
      · rw [if_neg hnext] at hup'
        exact stays hup' (if_neg hnext)
    | @receive index data bound server hr =>
      change server.clientMgr.connected i = true at hup'
      obtain ⟨c, hc, rfl⟩ := hr.client
      refine stays ?_ rfl
      have hlt := (List.getElem?_eq_some_iff.mp hc).1
      rw [ClientManager.connected_setClient hlt] at hup'
      split at hup'
      · rename_i hi
        rw [ChatServer.isConnected_received, Bool.and_eq_true] at hup'
        rw [hi, ClientManager.connected_of_getElem? hc]
        exact hup'.1
      · exact hup'
    | close client _ =>
      change (ClientManager.closeClientAt ..).connected i = true at hup'
      rw [ClientManager.connected_closeClientAt client, Bool.and_eq_true] at hup'
      exact stays hup'.2 rfl
    | idle => exact stays hup' rfl
    | run _ _ _ loses => exact stays (loses.connected hup') rfl

theorem orderly_init (n : Nat) : Orderly ⟨.init n, fun _ => 0, [], [], []⟩ :=
  ⟨ClientManager.sized_new n, List.forall_mem_nil _, rfl, List.forall_mem_nil _⟩

theorem orderly_of_reach {search : Bool} {n : Nat} {G : Served → Event → Prop} {x : Served}
    (h : (system search n).Reach G x) : Orderly x :=
  h.invariant (orderly_init n) fun _ _ _ _ hx _ hs => hx.stepped (stepped_of_ok hx hs)

end Served

end ChattingServer.V10
