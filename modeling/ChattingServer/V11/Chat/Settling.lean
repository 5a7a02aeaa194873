import Mathlib.Tactic.Abel
import ChattingServer.Lib.Settling
import ChattingServer.V11.Chat.System
import ChattingServer.V11.Client.View

namespace ChattingServer.V11

open Lib

/-! Every packet under way has a rank.  It counts the queues that are left, and the packets that
come of it have lower ones: a login is answered by the server, then by the client, and then by the
server again. -/

def Packet.requestRank (queues : Nat) : Packet → Nat
  | .cServerEnter _ => 9 + queues
  | _ => 3 + queues

def Packet.replyRank (queues : Nat) : Packet → Nat
  | .sServerEnterOk _ => 6 + queues
  | _ => queues

namespace Packet

theorem requestRank_succ (n : Nat) (p : Packet) : p.requestRank n < p.requestRank (n + 1) := by
  cases p <;> exact Nat.lt_succ_self _

theorem replyRank_succ (n : Nat) (p : Packet) : p.replyRank n < p.replyRank (n + 1) := by
  cases p <;> exact Nat.lt_succ_self _

end Packet

namespace Server

def Answers (s : Server) (packet : Packet) (s' : Server) : Prop :=
  ∃ ps, s'.packages = s.packages ++ ps ∧
    ∀ pkg ∈ ps, pkg.packet.replyRank 2 < packet.requestRank 0

theorem answers_of_plain {s s' : Server} {packet : Packet} {ps : List SendPackage}
    (h : s'.packages = s.packages ++ ps) (hps : ∀ pkg ∈ ps, pkg.packet.replyRank 2 = 2) :
    s.Answers packet s' := by
  refine ⟨ps, h, fun pkg hpkg => ?_⟩
  rw [hps pkg hpkg]
  cases packet <;> simp [Packet.requestRank]

theorem answers_of_casts {s s' : Server} {packet p : Packet} {users : List UserPtr}
    (h : s'.packages = s.packages ++ casts users p) (hp : p.replyRank 2 = 2) :
    s.Answers packet s' := by
  refine answers_of_plain h fun pkg hpkg => ?_
  obtain ⟨v, -, rfl⟩ := List.mem_map.mp hpkg
  exact hp

theorem answers_of_none {s s' : Server} {packet : Packet} (h : s'.packages = s.packages) :
    s.Answers packet s' :=
  answers_of_plain (h.trans (List.append_nil _).symm) (List.forall_mem_nil _)

theorem answers_removed {s : Server} {packet : Packet} (v : UserPtr) (u : User) :
    s.Answers packet (s.removed v u) := by
  unfold removed
  split
  · exact answers_of_none rfl
  · exact answers_of_casts (p := .sRoomExit u.userId) rfl rfl

theorem Processed.answers {s s' : Server} {session : UserPtr} {packet : Packet}
    (h : s.Processed session packet s') : s.Answers packet s' := by
  cases h with
  | @serverEnter id v u sender nickname =>
    refine ⟨_, List.append_assoc .., List.forall_mem_cons.mpr ⟨?_, ?_⟩⟩
    · simp [Packet.replyRank, Packet.requestRank]
    · exact List.forall_mem_singleton.mpr (by simp [roomListPacket, Packet.replyRank,
        Packet.requestRank])
  | serverExit => exact answers_removed _ _
  | lobbyRoomInfo => exact answers_of_plain rfl (List.forall_mem_singleton.mpr rfl)
  | roomCreate => exact answers_of_plain rfl (List.forall_mem_singleton.mpr rfl)
  | @roomEnter id v u rid r sender room =>
    refine answers_of_plain rfl (List.forall_mem_append.mpr ⟨fun pkg hpkg => ?_, ?_⟩)
    · obtain ⟨w, -, rfl⟩ := List.mem_map.mp hpkg
      rfl
    · exact List.forall_mem_singleton.mpr rfl
  | @roomExit id v u r => exact answers_of_casts (p := .sRoomExit u.userId) rfl rfl
  | @unicast id v u _ _ found _ text =>
    have hsent : (s.pushPackages (unicastPackages v u text found)).packages =
        s.packages ++ unicastPackages v u text found := rfl
    refine answers_of_plain hsent fun pkg hpkg => ?_
    cases found <;> simp only [unicastPackages, List.mem_cons, List.not_mem_nil, or_false] at hpkg
    · rw [hpkg]
      rfl
    · rcases hpkg with rfl | rfl <;> rfl
  | @multicast id v u r _ _ text =>
    exact answers_of_casts (p := .sMulticast u.nickname text) rfl rfl
  | @broadcast id v u _ text =>
    rw [broadCast_eq]
    refine answers_of_plain rfl fun pkg hpkg => ?_
    obtain ⟨r, -, hr⟩ := List.mem_flatMap.mp hpkg
    obtain ⟨w, -, rfl⟩ := List.mem_map.mp hr
    rfl
  | unhandled => exact answers_of_none rfl

end Server

theorem Client.Received.answers {c c' : Client} {p : Packet} (h : c.Received p c') :
    c'.recvQueue = c.recvQueue ∧ ∃ ps, c'.sendQueue = c.sendQueue ++ ps ∧
      ∀ q ∈ ps, q.requestRank 2 < p.replyRank 0 := by
  cases h with
  | enterOk pid =>
    refine ⟨rfl, [.cLobbyRoomInfo], rfl, List.forall_mem_singleton.mpr ?_⟩
    simp [Packet.requestRank, Packet.replyRank]
  | entrance hst =>
    refine ⟨by rw [moveToRoom, if_pos hst]; rfl, [], ?_, List.forall_mem_nil _⟩
    rw [moveToRoom, if_pos hst, List.append_nil]
    rfl
  | exit | redrawn => exact ⟨rfl, [], (List.append_nil _).symm, List.forall_mem_nil _⟩

namespace Conn

def ranks (c : Conn) : Multiset Nat :=
  ranksOf (Packet.requestRank 2) c.client.sendQueue + ranksOf (Packet.requestRank 1) c.up +
    (ranksOf (Packet.replyRank 1) c.down + ranksOf (Packet.replyRank 0) c.client.recvQueue)

def Internal : Action → Prop
  | .input _ => False
  | .sendThread | .recvThread | .logicThread _ => True

theorem spends_of_internal {c c' : Conn} {a : Action} (ha : Internal a) (h : c.Stepped a c') :
    Spends c.ranks c'.ranks := by
  cases h with
  | input => exact ha.elim
  | @sendThread p sendQueue hq =>
    refine spends_move (p.requestRank_succ 1) (ranksOf (Packet.requestRank 2) sendQueue +
      ranksOf (Packet.requestRank 1) c.up + (ranksOf (Packet.replyRank 1) c.down +
        ranksOf (Packet.replyRank 0) c.client.recvQueue)) ?_ ?_
    · simp only [ranks, hq, ranksOf_cons]
      abel
    · simp only [ranks, ranksOf_append, ranksOf_cons, ranksOf_nil]
      abel
  | @recvThread p down hdown =>
    refine spends_move (p.replyRank_succ 0) (ranksOf (Packet.requestRank 2) c.client.sendQueue +
      ranksOf (Packet.requestRank 1) c.up + (ranksOf (Packet.replyRank 1) down +
        ranksOf (Packet.replyRank 0) c.client.recvQueue)) ?_ ?_
    · simp only [ranks, hdown, ranksOf_cons]
      abel
    · simp only [ranks, ranksOf_append, ranksOf_cons, ranksOf_nil]
      abel
  | @logicThread p recvQueue hq memory =>
    obtain ⟨hrecv, ps, hsend, hps⟩ :=
      (Client.received_recvProcess { c.client with recvQueue } memory p).answers
    refine spends_answer hps (ranksOf (Packet.requestRank 2) c.client.sendQueue +
      ranksOf (Packet.requestRank 1) c.up + (ranksOf (Packet.replyRank 1) c.down +
        ranksOf (Packet.replyRank 0) recvQueue)) ?_ ?_
    · simp only [ranks, hq, ranksOf_cons]
      abel
    · simp only [ranks, hrecv, hsend, ranksOf_append]
      abel

theorem still_iff {c : Conn} :
    (∀ a, Internal a → ¬ ∃ c', c.step a = .ok c') ↔
      c.client.sendQueue = [] ∧ c.client.recvQueue = [] ∧ c.down = [] := by
  have hsend : (∃ c', c.step .sendThread = .ok c') ↔ c.client.sendQueue ≠ [] := by
    simp only [step, sendThread]
    split <;> simp [*]
  have hrecv : (∃ c', c.step .recvThread = .ok c') ↔ c.down ≠ [] := by
    simp only [step, recvThread]
    split <;> simp [*]
  have hlogic (memory : Display) : (∃ c', c.step (.logicThread memory) = .ok c') ↔
      c.client.recvQueue ≠ [] := by
    simp only [step, logicThread]
    split <;> simp [*]
  constructor
  · intro h
    exact ⟨not_not.mp (mt hsend.mpr (h .sendThread trivial)),
      not_not.mp (mt (hlogic .login).mpr (h (.logicThread .login) trivial)),
      not_not.mp (mt hrecv.mpr (h .recvThread trivial))⟩
  · rintro ⟨hs, hr, hd⟩ a ha hex
    cases a with
    | input i => exact ha
    | sendThread => exact hsend.mp hex hs
    | recvThread => exact hrecv.mp hex hd
    | logicThread memory => exact (hlogic memory).mp hex hr

end Conn

namespace Chat

def connRanks (conns : StdMap UserPtr Conn) : Multiset Nat := (conns.entries.map (·.2.ranks)).sum

theorem connRanks_set {conns : StdMap UserPtr Conn} {v : UserPtr} {c : Conn}
    (h : conns.find v = some c) :
    ∃ rest, connRanks conns = c.ranks + rest ∧ ∀ d, connRanks (conns.set v d) = d.ranks + rest := by
  obtain ⟨l₁, l₂, heq, hset⟩ := StdMap.entries_set h
  refine ⟨(l₁.map (·.2.ranks)).sum + (l₂.map (·.2.ranks)).sum, ?_, fun d => ?_⟩
  · simp only [connRanks, heq, List.map_append, List.map_cons, List.sum_append, List.sum_cons]
    abel
  · simp only [connRanks, hset, List.map_append, List.map_cons, List.sum_append, List.sum_cons]
    abel

def ranks (s : Chat) : Multiset Nat :=
  ranksOf (·.packet.requestRank 0) s.jobQueue + ranksOf (·.packet.replyRank 2) s.server.packages +
    connRanks s.conns

/-- The steps that nobody outside has to take. -/
def Internal : Action → Prop
  | .recv _ | .logic | .send => True
  | .client _ a => Conn.Internal a
  | .accept _ _ _ | .disconnect _ => False

theorem spends_send {s : Chat} {package : SendPackage} {packages : List SendPackage}
    (hq : s.server.packages = package :: packages) :
    Spends s.ranks
      { s with server := { s.server with packages }, conns := s.deliver package : Chat }.ranks := by
  have lost : s.deliver package = s.conns → Spends s.ranks
      { s with server := { s.server with packages }, conns := s.deliver package : Chat }.ranks := by
    intro hsame
    refine spends_drop (k := package.packet.replyRank 2) ?_
    simp only [ranks, hq, hsame, ranksOf_cons]
    abel
  cases hsession : s.server.deref package.session with
  | error e => exact lost (by simp only [deliver, hsession])
  | ok vu =>
    obtain ⟨v, u⟩ := vu
    cases hc : s.conns.find v with
    | none => exact lost (by simp only [deliver, hsession, StdMap.modify, hc])
    | some c =>
      obtain ⟨rest, hrest, hset⟩ := connRanks_set hc
      have hdeliver : s.deliver package =
          s.conns.set v { c with down := c.down ++ [package.packet] } := by
        simp only [deliver, hsession, StdMap.modify, hc]
      refine spends_move (package.packet.replyRank_succ 1)
        (ranksOf (·.packet.requestRank 0) s.jobQueue +
          ranksOf (·.packet.replyRank 2) packages + (c.ranks + rest)) ?_ ?_
      · simp only [ranks, hq, hrest, ranksOf_cons]
        abel
      · simp only [ranks, hdeliver, hset, Conn.ranks, ranksOf_append, ranksOf_cons, ranksOf_nil]
        abel

theorem spends_of_internal {s s' : Chat} {a : Action} (ha : Internal a) (h : s.Stepped a s') :
    Spends s.ranks s'.ranks := by
  cases h with
  | accept | disconnect => exact ha.elim
  | @recv v u client p up down hc hu =>
    obtain ⟨rest, hrest, hset⟩ := connRanks_set hc
    refine spends_move (p.requestRank_succ 0) (ranksOf (·.packet.requestRank 0) s.jobQueue +
      ranksOf (·.packet.replyRank 2) s.server.packages +
        ((⟨client, up, down⟩ : Conn).ranks + rest)) ?_ ?_
    · simp only [ranks, hrest, Conn.ranks, ranksOf_cons]
      abel
    · simp only [ranks, hset, ranksOf_append, ranksOf_cons, ranksOf_nil]
      abel
  | @logic package jobQueue server hq hp =>
    obtain ⟨ps, hps, hlower⟩ := (Server.processed_of_ok hp).answers
    refine spends_answer hlower (ranksOf (·.packet.requestRank 0) jobQueue +
      ranksOf (·.packet.replyRank 2) s.server.packages + connRanks s.conns) ?_ ?_
    · simp only [ranks, hq, ranksOf_cons]
      abel
    · simp only [ranks, hps, ranksOf_append]
      abel
  | send hq => exact spends_send hq
  | @client v a c c' hc hc' =>
    obtain ⟨rest, hrest, hset⟩ := connRanks_set hc
    have hspends := ((Conn.spends_of_internal ha hc').add_right rest).add_right
      (ranksOf (·.packet.requestRank 0) s.jobQueue +
        ranksOf (·.packet.replyRank 2) s.server.packages)
    simp only [ranks, hrest, hset]
    rwa [add_comm, add_comm _ (c'.ranks + rest)]

def LogicFails (s : Chat) : Prop :=
  ∃ package, s.jobQueue.head? = some package ∧ ∃ e, s.server.process package = .error e

def Exhausted (s : Chat) : Prop :=
  (s.jobQueue = [] ∨ s.LogicFails) ∧ s.server.packages = [] ∧
    ∀ e ∈ s.conns.entries, s.Quiet e.1 e.2

theorem exists_recv_iff {s : Chat} {v : UserPtr} :
    (∃ s', s.step (.recv v) = .ok s') ↔
      ∃ c, s.conns.find v = some c ∧ c.up ≠ [] ∧ (s.server.user v).status = some true := by
  constructor
  · rintro ⟨s', h⟩
    cases stepped_of_ok h with
    | recv hc hu => exact ⟨_, hc, List.cons_ne_nil _ _, Cell.status_eq_live_iff.mpr ⟨_, hu⟩⟩
  · rintro ⟨⟨client, up, down⟩, hc, hup, hlive⟩
    obtain ⟨p, up, rfl⟩ := List.exists_cons_of_ne_nil hup
    obtain ⟨u, hu⟩ := Cell.status_eq_live_iff.mp hlive
    simp only [step, recv, hc, bind_eq_ok_iff]
    exact ⟨_, _, Server.deref_ok_iff.mpr ⟨rfl, hu⟩, rfl⟩

theorem exists_logic_iff {s : Chat} :
    (∃ s', s.logic = .ok s') ↔ s.jobQueue ≠ [] ∧ ¬ s.LogicFails := by
  unfold logic LogicFails
  split
  · rename_i hq
    simp [hq]
  · rename_i package jobQueue hq
    cases hp : s.server.process package <;> simp [hq, hp, bind_eq_ok_iff]

theorem exists_send_iff {s : Chat} : (∃ s', s.send = .ok s') ↔ s.server.packages ≠ [] := by
  unfold send
  split <;> simp [*]

theorem exists_client_iff {s : Chat} {v : UserPtr} {a : Conn.Action} :
    (∃ s', s.client v a = .ok s') ↔ ∃ c, s.conns.find v = some c ∧ ∃ c', c.step a = .ok c' := by
  unfold client
  cases hc : s.conns.find v with
  | none => simp
  | some c =>
    cases h : c.step a <;> simp [bind_eq_ok_iff, h]

theorem stuck_iff {s : Chat} : system.Stuck Internal s ↔ s.Exhausted := by
  have hstuck : system.Stuck Internal s ↔ ∀ a, Internal a → ¬ ∃ s', s.step a = .ok s' := by
    simp only [System.Stuck, System.Next, not_exists, not_and]
    exact forall_comm.trans (forall_congr' fun a => forall_comm)
  rw [hstuck]
  constructor
  · intro h
    refine ⟨?_, ?_, fun e he => ?_⟩
    · have hlogic := mt exists_logic_iff.mpr (h .logic trivial)
      tauto
    · exact not_not.mp (mt exists_send_iff.mpr (h .send trivial))
    · obtain ⟨v, c⟩ := e
      have hc := StdMap.mem_entries_iff.mp he
      have hstill := Conn.still_iff.mp fun a ha hex =>
        h (.client v a) ha (exists_client_iff.mpr ⟨c, hc, hex⟩)
      refine ⟨hstill.1, hstill.2.1, hstill.2.2, fun hlive => by_contra fun hup => ?_⟩
      exact h (.recv v) trivial (exists_recv_iff.mpr ⟨c, hc, hup, hlive⟩)
  · rintro ⟨hjobs, hpackages, hquiet⟩ a ha hex
    cases a with
    | accept | disconnect => exact ha
    | recv v =>
      obtain ⟨c, hc, hup, hlive⟩ := exists_recv_iff.mp hex
      exact hup ((hquiet _ (StdMap.mem_entries_iff.mpr hc)).2.2.2 hlive)
    | logic =>
      obtain ⟨hne, hok⟩ := exists_logic_iff.mp hex
      exact hjobs.elim hne hok
    | send => exact exists_send_iff.mp hex hpackages
    | client v a =>
      obtain ⟨c, hc, hstep⟩ := exists_client_iff.mp hex
      have hq := hquiet _ (StdMap.mem_entries_iff.mpr hc)
      exact Conn.still_iff.mpr ⟨hq.1, hq.2.1, hq.2.2.1⟩ a ha hstep

/-- What the users have set off comes to an end, in whatever order the threads take their steps.
Where it ends everything is delivered and answered, but for a request that the logic thread fails
on. -/
theorem settles (s : Chat) :
    (¬ ∃ f : Nat → Chat, f 0 = s ∧ ∀ n, system.Next Internal (f n) (f (n + 1))) ∧
      (∃ s', Relation.ReflTransGen (system.Next Internal) s s' ∧ system.Stuck Internal s') ∧
      ∀ s', Relation.ReflTransGen (system.Next Internal) s s' →
        (system.Stuck Internal s' ↔ s'.Exhausted) := by
  have wf : WellFounded fun s' s => system.Next Internal s s' :=
    System.wellFounded_of_spends fun _ _ _ ha hs => spends_of_internal ha (stepped_of_ok hs)
  refine ⟨?_, System.exists_stuck wf s, fun s' _ => stuck_iff⟩
  rintro ⟨f, -, hf⟩
  exact System.not_endless wf f hf

end Chat

end ChattingServer.V11
