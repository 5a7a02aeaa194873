import ChattingServer.V10.Server.Occupancy

namespace ChattingServer.V10

open Lib

def PacketInfo.bytes (p : PacketInfo) : Bytes := p.packetData.take p.dataSize

namespace ChatServer

/-- What a message leads the server to send: the message itself, or what it replies. -/
def answers (data : Bytes) : List Bytes := (enqueued 0 data.length data).map PacketInfo.bytes

theorem request_append {data : Bytes} (h : 4 ≤ data.length) (rest : Bytes) :
    Packet.request (data ++ rest) = Packet.request data := by
  unfold Packet.request Packet.type
  rw [List.drop_append_of_le_length (by omega),
    List.take_append_of_le_length (by rw [List.length_drop]; omega)]

theorem map_bytes_enqueued {data : Bytes} (h : 4 ≤ data.length) (index : Nat) (rest : Bytes) :
    (enqueued index data.length (data ++ rest)).map PacketInfo.bytes = answers data := by
  unfold answers enqueued
  rw [request_append h]
  cases Packet.request data with
  | none => rfl
  | some r => cases r <;> simp [PacketInfo.bytes]

theorem forall_mem_enqueued {index size : Nat} (hsize : size ≠ 0) (buf : Bytes) :
    ∀ p ∈ enqueued index size buf, p.clientIndex = index ∧ p.dataSize ≠ 0 := by
  unfold enqueued
  cases Packet.request buf with
  | none => exact List.forall_mem_nil _
  | some r => cases r <;> simp [hsize]

theorem map_data_packetSends {m : ClientManager} {p : PacketInfo} {c : UserInfo} (i : Nat) :
    List.Sublist (((packetSends m p c).filter (·.index = i)).map (·.data)) [p.bytes] := by
  have hcast : ∀ test ioType, List.Sublist
      (((castSends m p test ioType (List.range m.currentCapacity)).filter (·.index = i)).map
        (·.data)) [p.bytes] := by
    intro test ioType
    rw [filter_castSends List.nodup_range]
    split
    · cases hc : m.clientInfos[i]? with
      | none => simp [castSends, hc]
      | some c' =>
        rw [castSends_singleton hc]
        split
        · exact .refl _
        · exact List.nil_sublist _
    · exact List.nil_sublist _
  unfold packetSends
  split
  · unfold multiSends
    split
    · exact List.nil_sublist _
    · exact hcast _ _
  · exact (List.filter_sublist (l := [_])).map _
  · exact hcast _ _
  · exact List.nil_sublist _

def record (log : List (Nat × Bytes)) (_ : ChatServer) : Action → List (Nat × Bytes)
  | .receive index data _ => log ++ [(index, data)]
  | _ => log

def recorded (maxClient : Nat) : System (ChatServer × List (Nat × Bytes)) Action Fault :=
  (system maxClient).withHistory [] record

def headed : Action → Prop
  | .receive _ data _ => 4 ≤ data.length
  | _ => True

structure Relayed (s : ChatServer) (log : List (Nat × Bytes)) : Prop where
  sized : s.clientMgr.Sized
  queued : ∀ p ∈ s.packetQueue, p.clientIndex < s.clientMgr.currentCapacity ∧ p.dataSize ≠ 0
  relayed : ∃ dequeued, dequeued ++ s.packetQueue.map PacketInfo.bytes =
      log.flatMap (fun x => answers x.2) ∧
    ∀ i, List.Sublist ((s.sends.filter (·.index = i)).map (·.data)) dequeued

theorem relayed_init (n : Nat) : Relayed (init n) [] where
  sized := ClientManager.sized_new n
  queued := List.forall_mem_nil _
  relayed := ⟨[], rfl, fun _ => List.nil_sublist _⟩

theorem Relayed.pool {s : ChatServer} {log : List (Nat × Bytes)} (h : Relayed s log)
    {m : ClientManager} (hsized : m.Sized)
    (hcapacity : s.clientMgr.currentCapacity ≤ m.currentCapacity) :
    Relayed { s with clientMgr := m } log :=
  ⟨hsized, fun p hp => ⟨Nat.lt_of_lt_of_le (h.queued p hp).1 hcapacity, (h.queued p hp).2⟩,
    h.relayed⟩

theorem Relayed.receive {s s' : ChatServer} {log : List (Nat × Bytes)} (h : Relayed s log)
    {index : Nat} {data : Bytes} {bound : Bool} (hheaded : 4 ≤ data.length)
    (hs : s.receive index data bound = .ok s') : Relayed s' (log ++ [(index, data)]) := by
  obtain ⟨hsize, c, hc, rfl⟩ := received_of_ok hs
  obtain ⟨dequeued, hlog, hsends⟩ := h.relayed
  have hindex := h.sized.lt_length.mp (List.getElem?_eq_some_iff.mp hc).1
  refine ⟨h.sized.setClient hc ?_, fun p hp => ?_, dequeued, ?_, hsends⟩
  · rw [UserInfo.index_posted, index_handle]
    rfl
  · rcases List.mem_append.mp hp with hp | hp
    · exact h.queued p hp
    · obtain ⟨hclient, hne⟩ := forall_mem_enqueued (mt List.length_eq_zero_iff.mp hsize.1) _ p hp
      exact ⟨hclient ▸ hindex, hne⟩
  · have hadded : (enqueued index data.length (c.received data).recvBuf).map PacketInfo.bytes =
        answers data := map_bytes_enqueued hheaded index _
    rw [List.map_append, hadded, ← List.append_assoc, hlog, List.flatMap_append,
      List.flatMap_singleton]

theorem Relayed.run {s s' : ChatServer} {log : List (Nat × Bytes)} (h : Relayed s log)
    {failed : List Nat} (hs : s.run failed = .ok s') : Relayed s' log := by
  cases hq : s.packetQueue with
  | nil =>
    simp only [ChatServer.run, hq, pure_eq_ok, Except.ok.injEq] at hs
    exact hs ▸ h
  | cons p packetQueue =>
    obtain ⟨hindex, hsize⟩ := h.queued p (hq ▸ List.mem_cons_self)
    obtain ⟨c, hc⟩ := h.sized.exists_client hindex
    obtain ⟨m, hloses, hrun⟩ := run_eq h.sized hq hsize hc failed
    obtain rfl := Except.ok.inj (hs.symm.trans hrun)
    obtain ⟨dequeued, hlog, hsends⟩ := h.relayed
    have hcapacity : s.clientMgr.currentCapacity = m.currentCapacity := by rw [hloses.pool]
    refine ⟨hloses.sized h.sized, fun q hq' => ?_, dequeued ++ [p.bytes], ?_, fun i => ?_⟩
    · obtain ⟨hlt, hne⟩ := h.queued q (hq ▸ List.mem_cons_of_mem _ hq')
      exact ⟨hcapacity ▸ hlt, hne⟩
    · rw [hq, List.map_cons] at hlog
      rw [← hlog, List.append_assoc, List.singleton_append]
    · simp only [List.filter_append, List.map_append]
      exact (hsends i).append (map_data_packetSends i)

theorem Relayed.step {s s' : ChatServer} {log : List (Nat × Bytes)} (h : Relayed s log)
    {a : Action} (ha : headed a) (hs : s.step a = .ok s') : Relayed s' (record log s a) := by
  cases a with
  | accept socket outcome =>
    obtain ⟨created, m, hm, rfl⟩ := created_of_accept h.sized hs
    have hevolves := ClientManager.Evolves.stepped h.sized (.createClient hm)
    exact h.pool hevolves.sized hevolves.capacity
  | receive index data bound => exact h.receive ha hs
  | close index =>
    obtain ⟨c, hc, rfl⟩ := closed_of_ok hs
    have hevolves := ClientManager.Evolves.stepped h.sized (.close hc (.inl rfl))
    exact h.pool hevolves.sized hevolves.capacity
  | run failed => exact h.run hs

theorem relayed_of_reach {n : Nat} {x : ChatServer × List (Nat × Bytes)}
    (h : (recorded n).Reach (fun _ a => headed a) x) : Relayed x.1 x.2 :=
  h.invariant (P := fun x => Relayed x.1 x.2) (relayed_init n) fun x a x' _ hi ha hs => by
    obtain ⟨hstep, hlog⟩ := System.withHistory_step.mp hs
    rw [hlog]
    exact hi.step ha hstep

end ChatServer

end ChattingServer.V10
