import Mathlib.Data.List.Nodup
import ChattingServer.V10.Server.ClientManager

namespace ChattingServer.V10

open Lib

namespace ClientManager

structure Sized (s : ClientManager) : Prop where
  length : s.clientInfos.length = s.currentCapacity
  le : s.currentCapacity ≤ s.maxClientCount
  index : ∀ {i : Nat} {c : UserInfo}, s.clientInfos[i]? = some c → c.index = i
  queued : ∀ i ∈ s.emptyClients, i < s.currentCapacity

theorem getElem?_addClients {s : ClientManager} (h : s.clientInfos.length = s.currentCapacity)
    (n i : Nat) :
    (s.addClients n).clientInfos[i]? =
      if i < s.currentCapacity then s.clientInfos[i]?
      else if i < n then some (.new i) else none := by
  simp only [addClients, List.getElem?_append, h, List.getElem?_map]
  split
  · rfl
  · rename_i hi
    split
    · rename_i hn
      rw [List.getElem?_range' (by omega)]
      simp only [Option.map_some, Nat.one_mul]
      congr 2
      omega
    · rw [List.getElem?_eq_none (by simp; omega)]
      rfl

theorem eq_new_of_getElem? {n i : Nat} {c : UserInfo} (h : (new n).clientInfos[i]? = some c) :
    c = .new i := by
  rw [new, getElem?_addClients rfl] at h
  simp only [Nat.not_lt_zero, if_false] at h
  split at h
  · exact (Option.some.inj h).symm
  · contradiction

theorem Sized.addClients {s : ClientManager} (h : Sized s) {n : Nat} (hn : s.currentCapacity ≤ n)
    (hmax : n ≤ s.maxClientCount) : Sized (s.addClients n) where
  length := by
    simp only [ClientManager.addClients, List.length_append, List.length_map, List.length_range',
      h.length]
    omega
  le := hmax
  index {i c} hi := by
    rw [getElem?_addClients h.length] at hi
    split at hi
    · exact h.index hi
    · split at hi
      · rw [← Option.some.inj hi]
        rfl
      · contradiction
  queued i hi := by
    rcases List.mem_append.mp hi with hi | hi
    · exact Nat.lt_of_lt_of_le (h.queued i hi) hn
    · rw [List.mem_range'_1] at hi
      change i < n
      omega

theorem sized_new (n : Nat) : Sized (new n) where
  length := by simp [new, addClients]
  le := Nat.div_le_self n 4
  index {i c} hi := by
    rw [eq_new_of_getElem? hi]
    rfl
  queued i hi := by
    simp only [new, addClients, List.nil_append, List.mem_range'_1] at hi ⊢
    omega

theorem Sized.grow {s : ClientManager} (h : Sized s) : Sized s.grow := by
  have := h.le
  unfold ClientManager.grow
  split
  · exact h.addClients (by omega) (Nat.min_le_right ..)
  · exact h

theorem maxClientCount_grow (s : ClientManager) : s.grow.maxClientCount = s.maxClientCount := by
  unfold grow
  split <;> rfl

theorem clientCount_grow (s : ClientManager) : s.grow.clientCount = s.clientCount := by
  unfold grow
  split <;> rfl

theorem Sized.setClient {s : ClientManager} (h : Sized s) {i : Nat} {c c' : UserInfo}
    (hc : s.clientInfos[i]? = some c) (hindex : c'.index = c.index) :
    Sized (s.setClient i c') where
  length := (List.length_set ..).trans h.length
  le := h.le
  index {j x} hj := by
    simp only [ClientManager.setClient, List.getElem?_set] at hj
    split at hj
    · rename_i hij
      split at hj
      · rw [← Option.some.inj hj, hindex, h.index hc, hij]
      · contradiction
    · exact h.index hj
  queued := h.queued

theorem Sized.requeue {s : ClientManager} (h : Sized s) {emptyClients : List Nat}
    (hq : ∀ i ∈ emptyClients, i < s.currentCapacity) (clientCount : Int) :
    Sized { s with emptyClients, clientCount } :=
  ⟨h.length, h.le, h.index, hq⟩

inductive Created (s : ClientManager) (socket : Socket) (outcome : ConnectOutcome) :
    Bool → ClientManager → Prop
  | full (h : s.clientCount = s.maxClientCount) : Created s socket outcome false s
  | slot {i : Nat} {emptyClients : List Nat} {c : UserInfo}
      (h : s.clientCount ≠ s.maxClientCount) (front : s.grow.emptyClients = i :: emptyClients)
      (client : s.grow.clientInfos[i]? = some c) :
      Created s socket outcome (decide (outcome = .connected))
        ({ s.grow with
          emptyClients
          clientCount :=
            s.clientCount + if outcome = ConnectOutcome.connected then 1 else 0 }.setClient i
              (c.connect socket outcome).2)

theorem created_of_ok {s s' : ClientManager} (hsize : Sized s) {socket : Socket}
    {outcome : ConnectOutcome} {created : Bool}
    (h : s.createClient socket outcome = .ok (created, s')) :
    Created s socket outcome created s' := by
  simp only [createClient, bind_eq_ok_iff, Prod.exists, getEmptyClient_ok_iff] at h
  obtain ⟨i, t, ⟨hfull, rfl, rfl⟩ | ⟨hnot, emptyClients, hq, rfl⟩, h⟩ := h
  · rw [if_pos rfl] at h
    cases h
    exact .full hfull
  · have hi : i < s.grow.currentCapacity :=
      hsize.grow.queued i (hq ▸ List.mem_cons_self)
    have hne : i ≠ s.grow.maxClientCount := Nat.ne_of_lt (Nat.lt_of_lt_of_le hi hsize.grow.le)
    rw [if_neg hne] at h
    simp only [bind_eq_ok_iff, getClientByIndex_ok_iff] at h
    obtain ⟨c, hc, h⟩ := h
    have hcount := clientCount_grow s
    have hslot : Created s socket outcome _ _ := .slot hnot hq hc
    cases outcome with
    | connected =>
      cases h
      simpa [setClient, hcount] using hslot
    | bindFailed | recvFailed =>
      cases h
      simpa [hcount] using hslot

theorem Sized.created {s s' : ClientManager} (h : Sized s) {socket : Socket}
    {outcome : ConnectOutcome} {created : Bool} (hs : Created s socket outcome created s') :
    Sized s' := by
  cases hs with
  | full => exact h
  | slot _ front client =>
    refine Sized.setClient (h.grow.requeue (fun i hi => ?_) _) client (UserInfo.index_connect ..)
    exact h.grow.queued i (front ▸ List.mem_cons_of_mem _ hi)

/-- What a step has done when it returns: `CloseClient` gives back the index of the slot it was
called for, whichever of its overloads it is. -/
inductive Stepped (s : ClientManager) : Action → ClientManager → Prop
  | createClient {socket : Socket} {outcome : ConnectOutcome} {created : Bool} {s' : ClientManager}
      (h : Created s socket outcome created s') : Stepped s (.createClient socket outcome) s'
  | close {a : Action} {i : Nat} {c : UserInfo} (h : s.clientInfos[i]? = some c)
      (action : a = .closeClient i ∨ a = .closeClientPtr i) :
      Stepped s a (s.closeClientAt i i c)
  | post {a : Action} {i : Nat} {c : UserInfo} (h : s.clientInfos[i]? = some c) (posted : Bool)
      (action : a = .sendMsg i posted ∨ a = .bindRecv i posted) :
      Stepped s a (s.setClient i (c.posted posted).2)

theorem stepped_of_ok {s s' : ClientManager} (h : Sized s) {a : Action} (hs : s.step a = .ok s') :
    Stepped s a s' := by
  have posted : ∀ {i ok}, s.post i ok = .ok s' →
      ∃ c, s.clientInfos[i]? = some c ∧ s' = s.setClient i (c.posted ok).2 := by
    intro i ok hs
    simp only [post, bind_eq_ok_iff, getClientByIndex_ok_iff] at hs
    obtain ⟨c, hc, hs⟩ := hs
    exact ⟨c, hc, (Except.ok.inj hs).symm⟩
  cases a with
  | createClient socket outcome =>
    simp only [step, bind_eq_ok_iff, Prod.exists] at hs
    obtain ⟨created, t, ht, hs⟩ := hs
    cases hs
    exact .createClient (created_of_ok h ht)
  | closeClient i =>
    simp only [step, closeClient, bind_eq_ok_iff, getClientByIndex_ok_iff] at hs
    obtain ⟨c, hc, hs⟩ := hs
    cases hs
    exact .close hc (.inl rfl)
  | closeClientPtr i =>
    simp only [step, closeClientPtr, bind_eq_ok_iff, getClientByIndex_ok_iff] at hs
    obtain ⟨c, hc, hs⟩ := hs
    cases hs
    rw [h.index hc]
    exact .close hc (.inr rfl)
  | sendMsg i ok =>
    obtain ⟨c, hc, rfl⟩ := posted hs
    exact .post hc ok (.inl rfl)
  | bindRecv i ok =>
    obtain ⟨c, hc, rfl⟩ := posted hs
    exact .post hc ok (.inr rfl)

theorem Sized.closeClientAt {s : ClientManager} (h : Sized s) {i : Nat} {c : UserInfo}
    (hc : s.clientInfos[i]? = some c) : Sized (s.closeClientAt i i c) := by
  unfold ClientManager.closeClientAt
  split
  · exact h
  · refine (h.setClient hc (UserInfo.index_close c)).requeue (fun j hj => ?_) _
    rcases List.mem_append.mp hj with hj | hj
    · exact h.queued j hj
    · obtain rfl := List.mem_singleton.mp hj
      have := (List.getElem?_eq_some_iff.mp hc).1
      rwa [h.length] at this

theorem Sized.stepped {s s' : ClientManager} (h : Sized s) {a : Action} (hs : Stepped s a s') :
    Sized s' := by
  cases hs with
  | createClient hc => exact h.created hc
  | close hc _ => exact h.closeClientAt hc
  | post hc posted _ => exact h.setClient hc (UserInfo.index_posted ..)

theorem Sized.step {s s' : ClientManager} (h : Sized s) {a : Action} (hs : s.step a = .ok s') :
    Sized s' :=
  h.stepped (stepped_of_ok h hs)

theorem sized_of_reach {n : Nat} {G : ClientManager → Action → Prop} {s : ClientManager}
    (h : (system n).Reach G s) : Sized s :=
  h.invariant (sized_new n) fun _ _ _ _ hi _ hs => hi.step hs

theorem le_currentCapacity_grow {s : ClientManager} (h : Sized s) :
    s.currentCapacity ≤ s.grow.currentCapacity := by
  have := h.le
  unfold grow
  split
  · change s.currentCapacity ≤ min (s.currentCapacity * 2) s.maxClientCount
    omega
  · exact Nat.le_refl _

theorem le_currentCapacity_stepped {s s' : ClientManager} (h : Sized s) {a : Action}
    (hs : Stepped s a s') : s.currentCapacity ≤ s'.currentCapacity := by
  cases hs with
  | createClient hc =>
    cases hc with
    | full => exact Nat.le_refl _
    | slot => exact le_currentCapacity_grow h
  | close =>
    unfold closeClientAt
    split <;> exact Nat.le_refl _
  | post => exact Nat.le_refl _

theorem currentCapacity_pos_of_reach {n : Nat} (hn : 4 ≤ n) {G : ClientManager → Action → Prop}
    {s : ClientManager} (h : (system n).Reach G s) : 0 < s.currentCapacity :=
  h.invariant (P := fun s => 0 < s.currentCapacity) (Nat.div_pos hn (by decide))
    fun _ _ _ hr hpos _ hs => Nat.lt_of_lt_of_le hpos
      (le_currentCapacity_stepped (sized_of_reach hr) (stepped_of_ok (sized_of_reach hr) hs))

/-! Each slot is connected or waits once in the queue. -/

structure Balanced (s : ClientManager) : Prop where
  slot : ∀ i < s.currentCapacity, s.emptyClients.count i + (s.connected i).toNat = 1
  count : s.clientCount = s.connectedCount

theorem connected_addClients {s : ClientManager} (h : s.clientInfos.length = s.currentCapacity)
    (n i : Nat) :
    (s.addClients n).connected i = (decide (i < s.currentCapacity) && s.connected i) := by
  rw [connected, getElem?_addClients h]
  split
  · rename_i hi
    simp [connected, hi]
  · rename_i hi
    split <;> simp [hi]

theorem connectedCount_addClients (s : ClientManager) (n : Nat) :
    (s.addClients n).connectedCount = s.connectedCount := by
  simp only [connectedCount, addClients, List.countP_append, List.countP_map]
  have hnew : (List.range' s.currentCapacity (n - s.currentCapacity)).countP
      (UserInfo.isConnected ∘ UserInfo.new) = 0 := by
    rw [List.countP_eq_zero]
    intro i _
    simp
  rw [hnew, Nat.add_zero]

theorem Balanced.addClients {s : ClientManager} (h : Balanced s) (hsize : Sized s) {n : Nat}
    (hn : s.currentCapacity ≤ n) : Balanced (s.addClients n) where
  slot i hi := by
    have hin : i < n := hi
    rw [connected_addClients hsize.length]
    simp only [ClientManager.addClients, List.count_append]
    by_cases hold : i < s.currentCapacity
    · have hnew : (List.range' s.currentCapacity (n - s.currentCapacity)).count i = 0 := by
        rw [List.count_eq_zero, List.mem_range'_1]
        omega
      simpa [hnew, hold] using h.slot i hold
    · have hqueued : s.emptyClients.count i = 0 :=
        List.count_eq_zero.mpr fun hmem => hold (hsize.queued i hmem)
      have hnew : (List.range' s.currentCapacity (n - s.currentCapacity)).count i = 1 := by
        refine List.count_eq_one_of_mem List.nodup_range' ?_
        rw [List.mem_range'_1]
        omega
      simp [hqueued, hnew, hold]
  count := h.count.trans (congrArg _ (connectedCount_addClients s n).symm)

theorem balanced_new {n : Nat} : Balanced (new n) where
  slot i hi := by
    have hin : i < n / 4 := hi
    have hmem : i ∈ List.range' 0 (n / 4) := List.mem_range'_1.mpr ⟨Nat.zero_le _, by omega⟩
    rw [new, connected_addClients rfl]
    simp [addClients, List.count_eq_one_of_mem List.nodup_range' hmem]
  count := by
    rw [new, connectedCount_addClients]
    rfl

theorem Balanced.grow {s : ClientManager} (h : Balanced s) (hsize : Sized s) :
    Balanced s.grow := by
  have := hsize.le
  unfold ClientManager.grow
  split
  · exact h.addClients hsize (by omega)
  · exact h

theorem Sized.lt_length {s : ClientManager} (h : Sized s) {i : Nat} :
    i < s.clientInfos.length ↔ i < s.currentCapacity := by
  rw [h.length]

theorem idle_of_front {queue rest : List Nat} {i : Nat} {up : Bool} (front : queue = i :: rest)
    (h : queue.count i + up.toNat ≤ 1) : up = false ∧ rest.count i = 0 := by
  rw [front, List.count_cons_self] at h
  cases up with
  | false =>
    rw [Bool.toNat_false] at h
    exact ⟨rfl, by omega⟩
  | true =>
    rw [Bool.toNat_true] at h
    omega

theorem balanced_take_iff {s : ClientManager} (hsize : Sized s) (h : Balanced s) {i : Nat}
    {emptyClients : List Nat} (front : s.emptyClients = i :: emptyClients) {c : UserInfo}
    (hc : s.clientInfos[i]? = some c) (c' : UserInfo) (clientCount : Int) :
    Balanced ({ s with emptyClients, clientCount }.setClient i c') ↔
      c'.isConnected = true ∧ clientCount = s.clientCount + 1 := by
  have hi : i < s.clientInfos.length := (List.getElem?_eq_some_iff.mp hc).1
  have hcap : i < s.currentCapacity := hsize.lt_length.mp hi
  have hslot := h.slot i hcap
  have hcount := connectedCount_setClient hc c'
  rw [connected_of_getElem? hc] at hslot
  obtain ⟨hnone, hrest⟩ := idle_of_front front (Nat.le_of_eq hslot)
  rw [hnone] at hcount
  have hconn : ∀ j, ({ s with emptyClients, clientCount }.setClient i c').connected j =
      if j = i then c'.isConnected else s.connected j := connected_setClient hi c'
  have htotal : ({ s with emptyClients, clientCount }.setClient i c').connectedCount =
      (s.setClient i c').connectedCount := rfl
  constructor
  · intro hb
    have hself := hb.slot i hcap
    rw [hconn, if_pos rfl] at hself
    have hup : c'.isConnected = true := by
      cases hc' : c'.isConnected with
      | true => rfl
      | false =>
        rw [hc'] at hself
        change emptyClients.count i + 0 = 1 at hself
        omega
    refine ⟨hup, hb.count.trans ?_⟩
    rw [htotal, h.count]
    simp only [hup, Bool.false_eq_true, if_false, if_true] at hcount
    omega
  · rintro ⟨hup, rfl⟩
    refine ⟨fun j hj => ?_, ?_⟩
    · rw [hconn]
      change emptyClients.count j + _ = 1
      by_cases hji : j = i
      · subst hji
        simp [hrest, hup]
      · have hold := h.slot j hj
        rw [front, List.count_cons_of_ne (Ne.symm hji)] at hold
        rw [if_neg hji]
        exact hold
    · change s.clientCount + 1 = _
      rw [htotal, h.count]
      simp only [hup, Bool.false_eq_true, if_false, if_true] at hcount
      omega

theorem balanced_created_iff {s s' : ClientManager} (hsize : Sized s) (h : Balanced s)
    {socket : Socket} {outcome : ConnectOutcome} {created : Bool}
    (hs : Created s socket outcome created s') :
    Balanced s' ↔ outcome = .connected ∨ s.clientCount = s.maxClientCount := by
  cases hs with
  | full hfull => exact iff_of_true h (.inr hfull)
  | slot hnot front client =>
    rw [balanced_take_iff hsize.grow (h.grow hsize) front client, UserInfo.isConnected_connect,
      clientCount_grow, or_iff_left hnot]
    have hne : s.clientCount ≠ s.clientCount + 1 := by omega
    cases outcome <;> simp [hne]

theorem Balanced.closeClientAt {s : ClientManager} (h : Balanced s) (hsize : Sized s) {i : Nat}
    {c : UserInfo} (hc : s.clientInfos[i]? = some c) : Balanced (s.closeClientAt i i c) := by
  unfold ClientManager.closeClientAt
  cases hup : c.isConnected with
  | false => simpa using h
  | true =>
    have hi : i < s.clientInfos.length := (List.getElem?_eq_some_iff.mp hc).1
    have hslot := h.slot i (hsize.lt_length.mp hi)
    have hcount := connectedCount_setClient hc c.close
    simp only [connected_of_getElem? hc, hup, Bool.toNat_true] at hslot
    simp only [hup, UserInfo.isConnected_close, if_true, Bool.false_eq_true, if_false] at hcount
    simp only [Bool.true_eq_false, if_false]
    refine ⟨fun j hj => ?_, ?_⟩
    · have hconn := connected_setClient hi c.close j
      change (s.emptyClients ++ [i]).count j + ((s.setClient i c.close).connected j).toNat = 1
      rw [hconn, List.count_append]
      by_cases hji : j = i
      · subst hji
        simp only [if_true, UserInfo.isConnected_close, Bool.toNat_false, List.count_singleton_self]
        omega
      · rw [if_neg hji, List.count_singleton, if_neg (by simpa using Ne.symm hji)]
        exact h.slot j hj
    · change s.clientCount - 1 = ((s.setClient i c.close).connectedCount : Int)
      rw [h.count]
      omega

theorem balanced_post_iff {s : ClientManager} (h : Balanced s) {i : Nat} {c : UserInfo}
    (hc : s.clientInfos[i]? = some c) (posted : Bool) :
    Balanced (s.setClient i (c.posted posted).2) ↔ posted = true ∨ s.connected i = false := by
  have hsame : s.setClient i c = s := by
    obtain ⟨hi, rfl⟩ := List.getElem?_eq_some_iff.mp hc
    simp [setClient]
  rw [connected_of_getElem? hc]
  cases posted with
  | true =>
    refine iff_of_true ?_ (.inl rfl)
    rw [UserInfo.posted, hsame]
    exact h
  | false =>
    cases hup : c.isConnected with
    | false =>
      refine iff_of_true ?_ (.inr rfl)
      rw [UserInfo.posted, UserInfo.close_of_not_isConnected hup, hsame]
      exact h
    | true =>
      refine iff_of_false (fun hb => ?_) (by decide)
      have hcount := connectedCount_setClient hc c.close
      simp only [hup, UserInfo.isConnected_close, if_true, Bool.false_eq_true, if_false] at hcount
      have hnew : s.clientCount = ((s.setClient i c.close).connectedCount : Int) := hb.count
      rw [h.count] at hnew
      omega

/-- No socket operation fails on a slot that is being connected or is connected. -/
def keepsPool (s : ClientManager) : Action → Bool
  | .createClient _ outcome => outcome = .connected ∨ s.clientCount = s.maxClientCount
  | .closeClient _ | .closeClientPtr _ => true
  | .sendMsg i sent => sent ∨ s.connected i = false
  | .bindRecv i bound => bound ∨ s.connected i = false

theorem balanced_step_iff {s s' : ClientManager} (hsize : Sized s) (h : Balanced s) {a : Action}
    (hs : s.step a = .ok s') : Balanced s' ↔ s.keepsPool a = true := by
  cases stepped_of_ok hsize hs with
  | createClient hc => rw [balanced_created_iff hsize h hc, keepsPool, decide_eq_true_eq]
  | close hc action =>
    refine iff_of_true (h.closeClientAt hsize hc) ?_
    rcases action with rfl | rfl <;> rfl
  | post hc posted action =>
    rw [balanced_post_iff h hc]
    rcases action with rfl | rfl <;> rw [keepsPool, decide_eq_true_eq]

/-- The pool as it should be: a slot is connected or waits once in the queue, the count is that of
the connected slots, and the queue has a slot whenever it is asked for one. -/
structure Pooled (s : ClientManager) : Prop where
  slot : ∀ i < s.currentCapacity, s.connected i = true ∧ i ∉ s.emptyClients ∨
    s.connected i = false ∧ s.emptyClients.count i = 1
  count : s.clientCount = s.connectedCount
  front : s.getEmptyClient ≠ .error .emptyQueue

theorem Balanced.exists_empty {s : ClientManager} (h : Balanced s) (hsize : Sized s)
    (hne : s.clientCount ≠ s.currentCapacity) : s.emptyClients ≠ [] := by
  intro hnil
  apply hne
  rw [h.count, ← hsize.length, connectedCount]
  refine congrArg _ (List.countP_eq_length.mpr fun c hc => ?_)
  obtain ⟨i, hi⟩ := List.getElem?_of_mem hc
  have hslot := h.slot i (hsize.lt_length.mp (List.getElem?_eq_some_iff.mp hi).1)
  rw [hnil, connected_of_getElem? hi] at hslot
  cases hup : c.isConnected with
  | true => rfl
  | false =>
    rw [hup] at hslot
    contradiction

theorem Balanced.exists_front {s : ClientManager} (h : Balanced s) (hsize : Sized s)
    (hpos : 0 < s.currentCapacity) (hfull : s.clientCount ≠ s.maxClientCount) :
    ∃ i emptyClients, s.grow.emptyClients = i :: emptyClients := by
  have hcap : s.clientCount ≠ s.grow.currentCapacity := by
    have := hsize.le
    unfold ClientManager.grow
    split
    · rename_i heq
      change s.clientCount ≠ (min (s.currentCapacity * 2) s.maxClientCount : Nat)
      omega
    · assumption
  have hne := (h.grow hsize).exists_empty hsize.grow (by rwa [clientCount_grow])
  exact List.exists_cons_of_ne_nil hne

theorem pooled_iff_balanced {s : ClientManager} (hsize : Sized s) (hpos : 0 < s.currentCapacity) :
    Pooled s ↔ Balanced s := by
  constructor
  · intro h
    refine ⟨fun i hi => ?_, h.count⟩
    rcases h.slot i hi with ⟨hup, hnot⟩ | ⟨hdown, hone⟩
    · rw [hup, List.count_eq_zero.mpr hnot, Bool.toNat_true]
    · rw [hdown, hone, Bool.toNat_false]
  · intro h
    refine ⟨fun i hi => ?_, h.count, fun hempty => ?_⟩
    · have hslot := h.slot i hi
      cases hup : s.connected i with
      | true =>
        rw [hup, Bool.toNat_true] at hslot
        exact .inl ⟨rfl, List.count_eq_zero.mp (by omega)⟩
      | false =>
        rw [hup, Bool.toNat_false] at hslot
        exact .inr ⟨rfl, hslot⟩
    · unfold getEmptyClient at hempty
      split at hempty
      · contradiction
      · rename_i hfull
        obtain ⟨i, emptyClients, hq⟩ := h.exists_front hsize hpos hfull
        rw [hq] at hempty
        contradiction

/-- The pool is right all along a run exactly when no socket operation of the run fails where a
slot depends on it. -/
theorem pooled_iff {n : Nat} (hn : 4 ≤ n) {t : List (ClientManager × Action)} {s : ClientManager}
    (h : (system n).Trace t s) :
    System.Always Pooled t s ↔ ∀ x ∈ t, x.1.keepsPool x.2 = true := by
  have pooled : ∀ {s}, (system n).Reachable s → (Pooled s ↔ Balanced s) := fun hr =>
    pooled_iff_balanced (sized_of_reach hr) (currentCapacity_pos_of_reach hn hr)
  refine h.always_iff (G := fun s a => s.keepsPool a = true)
    ((pooled .init).mpr balanced_new) fun s a s' hr hp hs => ?_
  rw [pooled (hr.step trivial hs)]
  exact balanced_step_iff (sized_of_reach hr) ((pooled hr).mp hp) hs

theorem pooled_of_five :
    ∃ t s, (system 5).Trace t s ∧ s.clientInfos.length = 4 ∧ s.emptyClients = [3, 0] ∧
      System.Always Pooled t s := by
  obtain ⟨t, s, ht, hg, hp⟩ := System.exists_trace_of_runWith (S := system 5) (g := keepsPool)
    (p := fun s => decide (s.clientInfos.length = 4 ∧ s.emptyClients = [3, 0]))
    [.createClient 7 .connected, .createClient 8 .connected, .createClient 9 .connected,
      .sendMsg 2 true, .closeClientPtr 0] (by decide)
  have hend := of_decide_eq_true hp
  exact ⟨t, s, ht, hend.1, hend.2, (pooled_iff (by decide) ht).mpr hg⟩

/-- A failed `Connect` takes the only slot there is out of the queue for good. -/
theorem not_pooled : ¬ ∀ n, 4 ≤ n → ∀ s, (system n).Reachable s → Pooled s := by
  intro h
  obtain ⟨s, hs, hp⟩ := System.exists_of_run (S := system 4)
    (p := fun s => decide (s.currentCapacity = 1 ∧ s.emptyClients = [] ∧ s.connected 0 = false))
    [.createClient 7 .recvFailed] (by decide)
  have hend := of_decide_eq_true hp
  rcases (h 4 (by decide) s hs).slot 0 (by omega) with ⟨hup, -⟩ | ⟨-, hone⟩
  · rw [hend.2.2] at hup
    contradiction
  · rw [hend.2.1] at hone
    contradiction

end ClientManager

end ChattingServer.V10
