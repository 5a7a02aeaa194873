import ChattingServer.V10.Server.SlotPool

namespace ChattingServer.V10

open Lib

namespace ClientManager

def Action.succeeds : Action → Bool
  | .createClient _ outcome => outcome = .connected
  | .closeClient _ | .closeClientPtr _ => true
  | .sendMsg _ sent => sent
  | .bindRecv _ bound => bound

theorem keepsPool_of_succeeds (s : ClientManager) {a : Action} (h : a.succeeds = true) :
    s.keepsPool a = true := by
  cases a with
  | createClient socket outcome => exact decide_eq_true (.inl (of_decide_eq_true h))
  | closeClient _ | closeClientPtr _ => rfl
  | sendMsg _ _ | bindRecv _ _ => exact decide_eq_true (.inl h)

theorem balanced_of_succeeds {n : Nat} {s : ClientManager}
    (h : (system n).Reach (fun _ a => a.succeeds = true) s) : Balanced s :=
  h.invariant balanced_new fun s _ _ hr hb hg hs =>
    (balanced_step_iff (sized_of_reach hr) hb hs).mpr (s.keepsPool_of_succeeds hg)

theorem maxClientCount_stepped {s s' : ClientManager} {a : Action} (h : Stepped s a s') :
    s'.maxClientCount = s.maxClientCount := by
  cases h with
  | createClient h =>
    cases h with
    | full => rfl
    | slot => exact maxClientCount_grow s
  | close =>
    unfold closeClientAt
    split <;> rfl
  | post => rfl

theorem maxClientCount_of_reach {n : Nat} {G : ClientManager → Action → Prop}
    {s : ClientManager} (h : (system n).Reach G s) : s.maxClientCount = n :=
  h.invariant (P := fun s => s.maxClientCount = n) rfl fun _ _ _ hr hmax _ hs =>
    (maxClientCount_stepped (stepped_of_ok (sized_of_reach hr) hs)).trans hmax

structure Admitted (s : ClientManager) (socket : Socket) (created : Bool) (s' : ClientManager) :
    Prop where
  full : created = false ↔ s.connectedCount = s.maxClientCount
  refused : created = false → s' = s
  slot : created = true → ∃ i c, s.connected i = false ∧ s'.clientInfos[i]? = some c ∧
    c.socketClient = some socket
  kept : ∀ i, s.connected i = true → s'.clientInfos[i]? = s.clientInfos[i]?
  grows : s.clientInfos.length < s'.clientInfos.length →
    ∀ i < s.clientInfos.length, s.connected i = true

theorem connected_grow {s : ClientManager} (h : Sized s) {i : Nat} :
    s.grow.connected i = s.connected i := by
  unfold grow
  split
  · rw [connected_addClients h.length]
    by_cases hi : i < s.currentCapacity
    · simp [hi]
    · have hnone : s.clientInfos[i]? = none := by
        rw [List.getElem?_eq_none_iff, h.length]
        omega
      simp [connected, hnone]
  · rfl

theorem getElem?_grow {s : ClientManager} (h : Sized s) {i : Nat} (hi : s.connected i = true) :
    s.grow.clientInfos[i]? = s.clientInfos[i]? := by
  unfold grow
  split
  · have hlt : i < s.currentCapacity := by
      by_contra hge
      have hnone : s.clientInfos[i]? = none := by
        rw [List.getElem?_eq_none_iff, h.length]
        omega
      rw [connected, hnone] at hi
      contradiction
    rw [getElem?_addClients h.length, if_pos hlt]
  · rfl

theorem Balanced.connected_of_grows {s : ClientManager} (h : Balanced s) (hsize : Sized s)
    (hlt : s.clientInfos.length < s.grow.clientInfos.length) {i : Nat}
    (hi : i < s.clientInfos.length) : s.connected i = true := by
  have hcount : s.clientCount = s.currentCapacity := by
    by_contra hne
    rw [ClientManager.grow, if_neg hne] at hlt
    exact Nat.lt_irrefl _ hlt
  rw [h.count, ← hsize.length, Int.natCast_inj, connectedCount, List.countP_eq_length] at hcount
  rw [connected_of_getElem? (List.getElem?_eq_getElem hi)]
  exact hcount _ (List.getElem_mem hi)

theorem Balanced.createClient_ok {s : ClientManager} (h : Balanced s) (hsize : Sized s)
    (hpos : 0 < s.currentCapacity) (socket : Socket) (outcome : ConnectOutcome) :
    ∃ created s', s.createClient socket outcome = .ok (created, s') := by
  by_cases hfull : s.clientCount = s.maxClientCount
  · have hempty := getEmptyClient_ok_iff.mpr (.inl ⟨hfull, rfl, rfl⟩)
    exact ⟨false, s, by simp [createClient, hempty]⟩
  · obtain ⟨i, emptyClients, front⟩ := h.exists_front hsize hpos hfull
    have hempty := getEmptyClient_ok_iff.mpr (.inr ⟨hfull, emptyClients, front, rfl⟩)
    have hcap := hsize.grow.queued i (front ▸ List.mem_cons_self)
    have hne : i ≠ s.grow.maxClientCount :=
      Nat.ne_of_lt (Nat.lt_of_lt_of_le hcap hsize.grow.le)
    have hc := List.getElem?_eq_getElem (hsize.grow.lt_length.mpr hcap)
    have hget := getClientByIndex_ok_iff (s := { s.grow with emptyClients }).mpr hc
    rw [createClient, hempty, ok_bind]
    simp only [if_neg hne, hget, ok_bind]
    exact ⟨_, _, rfl⟩

theorem Balanced.admitted {s s' : ClientManager} (h : Balanced s) (hsize : Sized s)
    {socket : Socket} {created : Bool} (hs : Created s socket .connected created s') :
    Admitted s socket created s' := by
  have hcount := h.count
  cases hs with
  | full hfull =>
    rw [hcount, Int.natCast_inj] at hfull
    exact ⟨iff_of_true rfl hfull, fun _ => rfl, fun hc => by contradiction, fun _ _ => rfl,
      fun hlt => absurd hlt (Nat.lt_irrefl _)⟩
  | @slot i emptyClients c hnot front client =>
    rw [hcount, Ne, Int.natCast_inj] at hnot
    have hi := (List.getElem?_eq_some_iff.mp client).1
    have hslot := (h.grow hsize).slot i (hsize.grow.lt_length.mp hi)
    rw [connected_grow hsize] at hslot
    have hdown : s.connected i = false := (idle_of_front front (Nat.le_of_eq hslot)).1
    refine ⟨iff_of_false (by simp) hnot, fun hc => by simp at hc, fun _ => ?_, fun j hj => ?_,
      fun hlt j hj => h.connected_of_grows hsize ?_ hj⟩
    · refine ⟨i, _, hdown, List.getElem?_set_self hi, rfl⟩
    · have hne : i ≠ j := by
        rintro rfl
        rw [hdown] at hj
        contradiction
      exact (List.getElem?_set_ne hne).trans (getElem?_grow hsize hj)
    · rwa [ClientManager.setClient, List.length_set] at hlt

theorem closeClient_ok {s : ClientManager} {i : Nat} (hi : i < s.clientInfos.length) :
    ∃ s', s.closeClient i = .ok s' ∧ s'.connected i = false ∧
      s'.clientInfos.length = s.clientInfos.length ∧
      ∀ j, j ≠ i → s'.clientInfos[j]? = s.clientInfos[j]? := by
  have hc := List.getElem?_eq_getElem hi
  refine ⟨_, by rw [closeClient, getClientByIndex_ok_iff.mpr hc, ok_bind]; rfl, ?_⟩
  unfold closeClientAt
  split
  · rename_i hdown
    exact ⟨(connected_of_getElem? hc).trans hdown, rfl, fun _ _ => rfl⟩
  · refine ⟨?_, List.length_set .., fun j hj => List.getElem?_set_ne (Ne.symm hj)⟩
    have hconn := connected_setClient hi s.clientInfos[i].close i
    rw [if_pos rfl, UserInfo.isConnected_close] at hconn
    exact hconn

/-- As long as socket operations succeed, the pool refuses a connection exactly when all of the
slots that it may have are connected, and otherwise gives it one that is not. -/
theorem createClient_admitted {n : Nat} (hn : 4 ≤ n) {s : ClientManager}
    (h : (system n).Reach (fun _ a => a.succeeds = true) s) :
    (s.currentCapacity = s.clientInfos.length ∧ s.clientInfos.length ≤ n) ∧
    (∀ socket, ∃ created s', s.createClient socket .connected = .ok (created, s') ∧
      (created = false ↔ s.connectedCount = n) ∧ Admitted s socket created s') ∧
    ∀ i < s.clientInfos.length, ∃ s', s.closeClient i = .ok s' ∧ s'.connected i = false ∧
      s'.clientInfos.length = s.clientInfos.length ∧
      ∀ j, j ≠ i → s'.clientInfos[j]? = s.clientInfos[j]? := by
  have hsize := sized_of_reach h
  have hb := balanced_of_succeeds h
  have hmax := maxClientCount_of_reach h
  have hpos := currentCapacity_pos_of_reach hn h
  refine ⟨⟨hsize.length.symm, ?_⟩, fun socket => ?_, fun i hi => closeClient_ok hi⟩
  · rw [hsize.length, ← hmax]
    exact hsize.le
  · obtain ⟨created, s', hok⟩ := hb.createClient_ok hsize hpos socket .connected
    have hadm := hb.admitted hsize (created_of_ok hsize hok)
    exact ⟨created, s', hok, hmax ▸ hadm.full, hadm⟩

theorem createClient_admitted_six :
    ∃ s, (system 6).Reachable s ∧ s.connectedCount = 3 ∧ s.clientInfos.length = 4 ∧
      ∃ s', s.createClient 12 .connected = .ok (true, s') := by
  obtain ⟨s, hs, hp⟩ := System.exists_of_run_forall (S := system 6)
    (A := fun a => a.succeeds = true)
    (p := fun s => decide (s.connectedCount = 3 ∧ s.clientInfos.length = 4))
    [.createClient 7 .connected, .createClient 8 .connected, .createClient 9 .connected,
      .createClient 10 .connected, .closeClient 1] (by decide) (by decide)
  have hend := of_decide_eq_true hp
  obtain ⟨-, hcreate, -⟩ := createClient_admitted (by decide) hs
  obtain ⟨created, s', hok, hfull, -⟩ := hcreate 12
  cases created with
  | false => exact absurd (hfull.mp rfl) (by omega)
  | true => exact ⟨s, hs.reachable, hend.1, hend.2, s', hok⟩

end ClientManager

end ChattingServer.V10
