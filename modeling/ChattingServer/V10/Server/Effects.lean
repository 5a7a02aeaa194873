import ChattingServer.V10.Server.Admission
import ChattingServer.V10.Server.Requests

namespace ChattingServer.V10

open Lib

namespace ClientManager

/-! What a new connection does -/

def nextSlot (s : ClientManager) : Option Nat :=
  if s.clientCount = s.maxClientCount then none else s.grow.emptyClients.head?

def ClientAt (s : ClientManager) (i : Nat) (c : UserInfo) : Prop :=
  s.clientInfos[i]? = some c ∨ s.clientInfos[i]? = none ∧ c = .new i

theorem clientAt_of_grow {s : ClientManager} (h : Sized s) {i : Nat} {c : UserInfo}
    (hc : s.grow.clientInfos[i]? = some c) : s.ClientAt i c := by
  unfold grow at hc
  split at hc
  · rw [getElem?_addClients h.length] at hc
    split at hc
    · exact .inl hc
    · rename_i hi
      split at hc
      · refine .inr ⟨?_, (Option.some.inj hc).symm⟩
        rw [List.getElem?_eq_none_iff, h.length]
        omega
      · contradiction
  · exact .inl hc

theorem Created.client {s s' : ClientManager} (h : Sized s) {socket : Socket}
    {outcome : ConnectOutcome} {created : Bool} (hs : Created s socket outcome created s') {i : Nat}
    {c' : UserInfo} (hc' : s'.clientInfos[i]? = some c') :
    ∃ c, s.ClientAt i c ∧ c' = if s.nextSlot = some i then (c.connect socket outcome).2 else c := by
  cases hs with
  | full hfull =>
    refine ⟨c', .inl hc', ?_⟩
    rw [nextSlot, if_pos hfull, if_neg nofun]
  | @slot j emptyClients c hnot front client =>
    have hnext : s.nextSlot = some j := by
      rw [nextSlot, if_neg hnot, front]
      rfl
    change (s.grow.clientInfos.set j (c.connect socket outcome).2)[i]? = some c' at hc'
    by_cases hij : i = j
    · subst hij
      rw [List.getElem?_set_self (List.getElem?_eq_some_iff.mp client).1] at hc'
      refine ⟨c, clientAt_of_grow h client, ?_⟩
      rw [if_pos hnext, ← Option.some.inj hc']
    · rw [List.getElem?_set_ne (Ne.symm hij)] at hc'
      refine ⟨c', clientAt_of_grow h hc', ?_⟩
      rw [hnext, if_neg (by simpa using Ne.symm hij)]

theorem connected_created {s s' : ClientManager} (h : Sized s) {socket : Socket}
    {outcome : ConnectOutcome} {created : Bool} (hs : Created s socket outcome created s')
    (i : Nat) :
    s'.connected i =
      if s.nextSlot = some i then decide (outcome ≠ .recvFailed) else s.connected i := by
  cases hs with
  | full hfull => rw [nextSlot, if_pos hfull, if_neg nofun]
  | @slot j emptyClients c hnot front client =>
    have hnext : s.nextSlot = some j := by
      rw [nextSlot, if_neg hnot, front]
      rfl
    have hj := (List.getElem?_eq_some_iff.mp client).1
    have hset : (_ : ClientManager).connected i = _ := connected_setClient
      (s := { s.grow with
        emptyClients
        clientCount := s.clientCount + if outcome = ConnectOutcome.connected then 1 else 0 })
      hj (c.connect socket outcome).2 i
    rw [hset, hnext, UserInfo.isConnected_connect]
    simp only [Option.some.injEq, eq_comm (a := j)]
    refine if_congr Iff.rfl rfl ?_
    exact connected_grow h

/-! What closing does -/

theorem getElem?_closeClientAt {s : ClientManager} {i : Nat} {c : UserInfo}
    (hc : s.clientInfos[i]? = some c) (j : Nat) :
    (s.closeClientAt i i c).clientInfos[j]? =
      if j = i then some c.close else s.clientInfos[j]? := by
  unfold closeClientAt
  split
  · rename_i hdown
    rw [UserInfo.close_of_not_isConnected hdown]
    split
    · rename_i hj
      rw [hj, hc]
    · rfl
  · split
    · rename_i hj
      rw [hj]
      exact getElem?_setClient_self hc _
    · rename_i hj
      exact getElem?_setClient_of_ne hj _

theorem connected_closeClientAt {s : ClientManager} {i : Nat} {c : UserInfo}
    (hc : s.clientInfos[i]? = some c) (j : Nat) :
    (s.closeClientAt i i c).connected j = (decide (j ≠ i) && s.connected j) := by
  rw [connected, getElem?_closeClientAt hc]
  split
  · rename_i hj
    simp [hj]
  · rename_i hj
    simp [hj, connected]

/-- Some of the clients `lost` have been closed, and the pool has not been told. -/
structure Loses (lost : Nat → Prop) (m m' : ClientManager) : Prop where
  client : ∀ i, m'.clientInfos[i]? = m.clientInfos[i]? ∨
    lost i ∧ m'.clientInfos[i]? = m.clientInfos[i]?.map UserInfo.close
  pool : m' = { m with clientInfos := m'.clientInfos }

theorem Loses.refl (lost : Nat → Prop) (m : ClientManager) : Loses lost m m :=
  ⟨fun _ => .inl rfl, rfl⟩

theorem Loses.trans {lost : Nat → Prop} {m m' m'' : ClientManager} (h : Loses lost m m')
    (h' : Loses lost m' m'') : Loses lost m m'' where
  client i := by
    have hclose : UserInfo.close ∘ UserInfo.close = UserInfo.close :=
      funext fun c => UserInfo.close_of_not_isConnected (UserInfo.isConnected_close c)
    rcases h.client i with hi | ⟨hlost, hi⟩
    · rw [← hi]
      exact h'.client i
    · rcases h'.client i with hi' | ⟨-, hi'⟩
      · exact .inr ⟨hlost, hi'.trans hi⟩
      · refine .inr ⟨hlost, ?_⟩
        rw [hi', hi, Option.map_map, hclose]
  pool := by
    rw [h'.pool, h.pool]

theorem Loses.post {lost : Nat → Prop} {m : ClientManager} {i : Nat} {c : UserInfo}
    (hc : m.clientInfos[i]? = some c) {posted : Bool} (hlost : posted = false → lost i) :
    Loses lost m (m.setClient i (c.posted posted).2) where
  client j := by
    by_cases hj : j = i
    · subst hj
      rw [getElem?_setClient_self hc, hc]
      cases posted with
      | true => exact .inl rfl
      | false => exact .inr ⟨hlost rfl, rfl⟩
    · exact .inl (getElem?_setClient_of_ne hj _)
  pool := rfl

theorem Loses.exists_client {lost : Nat → Prop} {m m' : ClientManager} (h : Loses lost m m')
    {i : Nat} {c' : UserInfo} (hc' : m'.clientInfos[i]? = some c') :
    ∃ c, m.clientInfos[i]? = some c ∧ (c' = c ∨ lost i ∧ c' = c.close) := by
  rcases h.client i with hi | ⟨hlost, hi⟩
  · exact ⟨c', hi ▸ hc', .inl rfl⟩
  · rw [hi, Option.map_eq_some_iff] at hc'
    obtain ⟨c, hc, rfl⟩ := hc'
    exact ⟨c, hc, .inr ⟨hlost, rfl⟩⟩

theorem Loses.length {lost : Nat → Prop} {m m' : ClientManager} (h : Loses lost m m') :
    m'.clientInfos.length = m.clientInfos.length := by
  have hnone : ∀ i, m'.clientInfos.length ≤ i ↔ m.clientInfos.length ≤ i := by
    intro i
    rw [← List.getElem?_eq_none_iff, ← List.getElem?_eq_none_iff]
    rcases h.client i with hi | ⟨-, hi⟩
    · rw [hi]
    · rw [hi, Option.map_eq_none_iff]
  exact Nat.le_antisymm ((hnone _).mpr (Nat.le_refl _)) ((hnone _).mp (Nat.le_refl _))

theorem Loses.sized {lost : Nat → Prop} {m m' : ClientManager} (h : Loses lost m m')
    (hsize : Sized m) : Sized m' where
  length := by
    rw [h.length, hsize.length, h.pool]
  le := by
    rw [h.pool]
    exact hsize.le
  index hc' := by
    obtain ⟨c, hc, rfl | ⟨-, rfl⟩⟩ := h.exists_client hc'
    · exact hsize.index hc
    · exact (UserInfo.index_close c).trans (hsize.index hc)
  queued := by
    rw [h.pool]
    exact hsize.queued

theorem Loses.connected {lost : Nat → Prop} {m m' : ClientManager} (h : Loses lost m m') {i : Nat}
    (hi : m'.connected i = true) : m.connected i = true := by
  rcases h.client i with heq | ⟨-, heq⟩
  · rwa [ClientManager.connected, heq] at hi
  · rw [ClientManager.connected, heq] at hi
    cases hc : m.clientInfos[i]? <;> simp [hc] at hi

/-! Whatever fails, no slot waits twice, nor while it is connected. -/

def Exclusive (m : ClientManager) : Prop :=
  ∀ i, m.emptyClients.count i + (m.connected i).toNat ≤ 1

theorem Balanced.exclusive {m : ClientManager} (h : Balanced m) (hsize : Sized m) :
    Exclusive m := by
  intro i
  by_cases hi : i < m.currentCapacity
  · exact Nat.le_of_eq (h.slot i hi)
  · have hcount : m.emptyClients.count i = 0 :=
      List.count_eq_zero.mpr fun hmem => hi (hsize.queued i hmem)
    rw [hcount, Nat.zero_add]
    exact Bool.toNat_le _

theorem Exclusive.addClients {m : ClientManager} (h : Exclusive m) (hsize : Sized m) (n : Nat) :
    Exclusive (m.addClients n) := by
  intro i
  rw [connected_addClients hsize.length]
  simp only [ClientManager.addClients, List.count_append]
  by_cases hi : i < m.currentCapacity
  · have hnew : (List.range' m.currentCapacity (n - m.currentCapacity)).count i = 0 := by
      rw [List.count_eq_zero, List.mem_range'_1]
      omega
    simpa [hnew, hi] using h i
  · have hold : m.emptyClients.count i = 0 :=
      List.count_eq_zero.mpr fun hmem => hi (hsize.queued i hmem)
    have hnew := List.nodup_iff_count_le_one.mp
      (List.nodup_range' (s := m.currentCapacity) (n := n - m.currentCapacity)) i
    simpa [hold, hi] using hnew

theorem Exclusive.grow {m : ClientManager} (h : Exclusive m) (hsize : Sized m) :
    Exclusive m.grow := by
  unfold ClientManager.grow
  split
  · exact h.addClients hsize _
  · exact h

theorem Exclusive.nextSlot {m : ClientManager} (h : Exclusive m) (hsize : Sized m) {i : Nat}
    (hi : m.nextSlot = some i) : m.connected i = false := by
  unfold ClientManager.nextSlot at hi
  split at hi
  · contradiction
  · obtain ⟨rest, hfront⟩ := List.head?_eq_some_iff.mp hi
    have hone := h.grow hsize i
    rw [connected_grow hsize] at hone
    exact (idle_of_front hfront hone).1

theorem Exclusive.created {m m' : ClientManager} (h : Exclusive m) (hsize : Sized m)
    {socket : Socket} {outcome : ConnectOutcome} {created : Bool}
    (hs : Created m socket outcome created m') : Exclusive m' := by
  intro j
  rw [connected_created hsize hs]
  have hj := h.grow hsize j
  rw [connected_grow hsize] at hj
  cases hs with
  | full hfull =>
    rw [ClientManager.nextSlot, if_pos hfull, if_neg nofun]
    exact h j
  | @slot i rest c hnot front client =>
    change rest.count j + _ ≤ 1
    rw [ClientManager.nextSlot, if_neg hnot, front]
    rw [front] at hj
    by_cases hji : j = i
    · subst hji
      rw [List.count_cons_self] at hj
      have := Bool.toNat_le (decide (outcome ≠ .recvFailed))
      rw [List.head?_cons, if_pos rfl]
      omega
    · rw [List.count_cons_of_ne (Ne.symm hji)] at hj
      rwa [List.head?_cons, if_neg (by simpa using Ne.symm hji)]

theorem Created.kept {m m' : ClientManager} (hsize : Sized m) (h : Exclusive m) {socket : Socket}
    {outcome : ConnectOutcome} {created : Bool} (hs : Created m socket outcome created m') {i : Nat}
    (hup : m.connected i = true) : m'.clientInfos[i]? = m.clientInfos[i]? := by
  cases hs with
  | full => rfl
  | @slot j rest c hnot front client =>
    have hji : j ≠ i := by
      rintro rfl
      have hdown := h.nextSlot (i := j) hsize
        (by rw [ClientManager.nextSlot, if_neg hnot, front, List.head?_cons])
      rw [hup] at hdown
      contradiction
    exact (List.getElem?_set_ne hji).trans (getElem?_grow hsize hup)

theorem Exclusive.setClient {m : ClientManager} (h : Exclusive m) {i : Nat} {c c' : UserInfo}
    (hc : m.clientInfos[i]? = some c) (hup : c'.isConnected = true → c.isConnected = true) :
    Exclusive (m.setClient i c') := by
  intro j
  have hj := h j
  change m.emptyClients.count j + _ ≤ 1
  rw [connected_setClient (List.getElem?_eq_some_iff.mp hc).1]
  split
  · rename_i hji
    subst hji
    rw [connected_of_getElem? hc] at hj
    cases hc' : c'.isConnected with
    | false =>
      rw [Bool.toNat_false]
      omega
    | true => rwa [hup hc'] at hj
  · exact hj

theorem Exclusive.closeClientAt {m : ClientManager} (h : Exclusive m) {i : Nat} {c : UserInfo}
    (hc : m.clientInfos[i]? = some c) : Exclusive (m.closeClientAt i i c) := by
  intro j
  rw [connected_closeClientAt hc]
  have hj := h j
  unfold ClientManager.closeClientAt
  split
  · by_cases hji : j = i
    · subst hji
      simp only [ne_eq, not_true_eq_false, decide_false, Bool.false_and, Bool.toNat_false]
      omega
    · simpa [hji] using hj
  · rename_i hup
    simp only [List.count_append]
    by_cases hji : j = i
    · subst hji
      rw [connected_of_getElem? hc] at hj
      simp only [Bool.not_eq_false] at hup
      rw [hup, Bool.toNat_true] at hj
      simp
      omega
    · rw [List.count_singleton, if_neg (by simpa using Ne.symm hji)]
      simpa [hji] using hj

theorem Exclusive.loses {lost : Nat → Prop} {m m' : ClientManager} (h : Exclusive m)
    (hl : Loses lost m m') : Exclusive m' := by
  intro i
  have hi := h i
  have hqueue : m'.emptyClients = m.emptyClients := by rw [hl.pool]
  rw [hqueue]
  cases hup : m'.connected i with
  | false =>
    rw [Bool.toNat_false]
    omega
  | true => rwa [hl.connected hup] at hi

end ClientManager

namespace ChatServer

theorem sent_of_ok {s s' : ChatServer} {i : Nat} {p : PacketInfo} {ioType : IOOperation}
    {sent : Bool} (hs : s.sendMsg i p ioType sent = .ok s') :
    ∃ c, s.clientMgr.clientInfos[i]? = some c ∧ s' = { s with
      clientMgr := s.clientMgr.setClient i (c.posted sent).2
      sends := s.sends ++ [⟨i, c.socketClient, p.packetData.take p.dataSize, ioType⟩] } := by
  cases hc : s.clientMgr.clientInfos[i]? with
  | none => simp [sendMsg, ClientManager.getClientByIndex, hc, bind, Except.bind] at hs
  | some c =>
    rw [sendMsg_eq hc] at hs
    exact ⟨c, rfl, (Except.ok.inj hs).symm⟩

theorem loses_of_castLoop {p : PacketInfo} {test : UserInfo → Bool} {ioType : Nat → IOOperation}
    {failed is : List Nat} {s s' : ChatServer}
    (hs : castLoop p test ioType failed is s = .ok s') :
    ClientManager.Loses (· ∈ failed) s.clientMgr s'.clientMgr ∧
      s'.packetQueue = s.packetQueue := by
  induction is generalizing s with
  | nil =>
    cases hs
    exact ⟨.refl _ _, rfl⟩
  | cons i is ih =>
    rw [castLoop, bind_eq_ok_iff] at hs
    obtain ⟨c, -, hs⟩ := hs
    cases htest : test c with
    | false =>
      simp only [htest, Bool.false_eq_true, if_false, pure_eq_ok, ok_bind] at hs
      exact ih hs
    | true =>
      simp only [htest, if_true, bind_eq_ok_iff] at hs
      obtain ⟨t, ht, hs⟩ := hs
      obtain ⟨c', hc', rfl⟩ := sent_of_ok ht
      obtain ⟨hrest, hqueue⟩ := ih hs
      exact ⟨.trans (.post hc' fun hsent => by simpa using hsent) hrest, hqueue⟩

theorem loses_of_run {failed : List Nat} {s s' : ChatServer} (hs : s.run failed = .ok s') :
    ClientManager.Loses (· ∈ failed) s.clientMgr s'.clientMgr ∧
      s'.packetQueue = s.packetQueue.tail := by
  unfold run at hs
  split at hs
  · rename_i hq
    cases hs
    exact ⟨.refl _ _, by rw [hq]; rfl⟩
  · rename_i p packetQueue hq
    rw [hq, List.tail_cons]
    dsimp only at hs
    split at hs
    · cases hs
      exact ⟨.refl _ _, rfl⟩
    · unfold sendPacket at hs
      split at hs
      · exact loses_of_castLoop (s := { s with packetQueue }) hs
      · simp only [multiCast, bind_eq_ok_iff] at hs
        obtain ⟨c, -, hs⟩ := hs
        split at hs
        · cases hs
          exact ⟨.refl _ _, rfl⟩
        · exact loses_of_castLoop (s := { s with packetQueue }) hs
      · obtain ⟨c, hc, rfl⟩ := sent_of_ok (s := { s with packetQueue }) hs
        exact ⟨.post hc fun hsent => by simpa using hsent, rfl⟩
      · cases hs
        exact ⟨.refl _ _, rfl⟩

end ChatServer

end ChattingServer.V10
