import ChattingServer.V10.Server.PoolThreads
import ChattingServer.V10.Server.Requests

namespace ChattingServer.V10

open Lib

namespace PoolThreads

def Action.succeeds : Action → Bool
  | .connect outcome => outcome = .connected
  | .sendMsg _ sent => sent
  | .bindRecv _ bound => bound
  | _ => true

def isPushing : Closing → Bool
  | .pushing _ => true
  | _ => false

def pushers (s : PoolThreads) : Nat := s.closing.countP isPushing

def counters (s : PoolThreads) : Nat := s.closing.countP (· = .counting)

structure Counted (s : PoolThreads) : Prop where
  up : ∀ {t i : Nat}, s.closing[t]? = some (.closing i) → s.pool.connected i = true
  slots : s.pool.emptyClients.length + (slotOf s.creating).toList.length + s.pushers +
    s.pool.connectedCount = s.pool.currentCapacity
  count : s.pool.clientCount + (if s.creating = .counting then 1 else 0) =
    (s.pool.connectedCount + s.pushers + s.counters : Nat)
  le : s.pool.clientCount + (if s.creating = .idle then 0 else 1) ≤ s.pool.currentCapacity
  pos : 0 < s.pool.currentCapacity

theorem pushers_setClosing {s : PoolThreads} {t : Nat} {w : Closing} (h : s.closing[t]? = some w)
    (w' : Closing) : (s.setClosing t w').pushers + (if isPushing w then 1 else 0) =
      s.pushers + if isPushing w' then 1 else 0 :=
  countP_set_add h w'

theorem counters_setClosing {s : PoolThreads} {t : Nat} {w : Closing} (h : s.closing[t]? = some w)
    (w' : Closing) : (s.setClosing t w').counters + (if w = .counting then 1 else 0) =
      s.counters + if w' = .counting then 1 else 0 := by
  have hcount := countP_set_add (p := (· = Closing.counting)) h w'
  simp only [decide_eq_true_eq] at hcount
  exact hcount

theorem pushers_init (n k : Nat) : (init n k).pushers = 0 := by
  simp [pushers, init, List.countP_replicate, isPushing]

theorem counters_init (n k : Nat) : (init n k).counters = 0 := by
  simp [counters, init, List.countP_replicate]

theorem connectedCount_init (n k : Nat) : (init n k).pool.connectedCount = 0 :=
  ClientManager.connectedCount_addClients ..

theorem counted_init {n : Nat} (hn : 4 ≤ n) (k : Nat) : Counted (init n k) where
  up {t i} h := by
    have hidle := List.eq_of_mem_replicate (List.mem_of_getElem? h)
    cases hidle
  slots := by
    rw [pushers_init, connectedCount_init]
    simp [init, slotOf, ClientManager.new, ClientManager.addClients]
  count := by
    rw [pushers_init, counters_init, connectedCount_init]
    rfl
  le := by
    change (0 : Int) + 0 ≤ (n / 4 : Nat)
    omega
  pos := Nat.div_pos hn (by decide)

theorem length_emptyClients_addClients {m : ClientManager} {n : Nat} (hn : m.currentCapacity ≤ n) :
    (m.addClients n).emptyClients.length + m.currentCapacity = m.emptyClients.length + n := by
  simp only [ClientManager.addClients, List.length_append, List.length_range']
  omega

theorem Counted.grow {s : PoolThreads} (h : Counted s) (hapart : Apart s)
    (hidle : s.creating = .idle) (hfull : s.pool.clientCount ≠ s.pool.maxClientCount) :
    s.pool.grow.emptyClients.length + s.pushers + s.pool.connectedCount =
      s.pool.grow.currentCapacity ∧ s.pool.grow.connectedCount = s.pool.connectedCount ∧
      s.pool.clientCount < s.pool.grow.currentCapacity := by
  have hslots := h.slots
  have hle := h.le
  have hpos := h.pos
  have hmax := hapart.sized.le
  simp only [hidle, slotOf, Option.toList_none, List.length_nil, Nat.add_zero, if_true]
    at hslots hle
  unfold ClientManager.grow
  split
  · rename_i hcount
    have hlength := length_emptyClients_addClients (m := s.pool)
      (n := min (s.pool.currentCapacity * 2) s.pool.maxClientCount) (by omega)
    refine ⟨?_, ClientManager.connectedCount_addClients .., ?_⟩
    · change _ = min (s.pool.currentCapacity * 2) s.pool.maxClientCount
      omega
    · change s.pool.clientCount < (min (s.pool.currentCapacity * 2) s.pool.maxClientCount : Nat)
      omega
  · rename_i hcount
    exact ⟨hslots, rfl, by omega⟩

theorem Counted.up_setClosing {s : PoolThreads} (h : Counted s) {t : Nat} {w : Closing}
    (hw : ∀ i, w ≠ .closing i) {t' i : Nat}
    (hclosing : (s.setClosing t w).closing[t']? = some (.closing i)) :
    s.pool.connected i = true := by
  refine h.up (t := t') ?_
  simp only [setClosing, List.getElem?_set] at hclosing
  split at hclosing
  · split at hclosing
    · exact absurd (Option.some.inj hclosing) (hw i)
    · contradiction
  · exact hclosing

theorem Counted.take {s : PoolThreads} (h : Counted s) (hapart : Apart s) {socket : Socket}
    {i : Nat} {emptyClients : List Nat} (creating : s.creating = .idle)
    (hfull : s.pool.clientCount ≠ s.pool.maxClientCount)
    (front : s.pool.grow.emptyClients = i :: emptyClients) :
    Counted { s with
      pool := { s.pool.grow with emptyClients }, creating := .connecting i socket } := by
  have hcount := h.count
  have hpos := h.pos
  obtain ⟨hgrown, hconnected, hlt⟩ := h.grow hapart creating hfull
  have hcapacity := ClientManager.le_currentCapacity_grow hapart.sized
  rw [front, List.length_cons] at hgrown
  refine ⟨fun {t j} hclosing => ?_, ?_, ?_, ?_, ?_⟩
  · exact (ClientManager.connected_grow hapart.sized).trans (h.up hclosing)
  · change emptyClients.length + 1 + s.pushers + s.pool.grow.connectedCount =
      s.pool.grow.currentCapacity
    omega
  · change s.pool.grow.clientCount + 0 =
      (s.pool.grow.connectedCount + s.pushers + s.counters : Nat)
    rw [ClientManager.clientCount_grow, hconnected]
    simpa [creating] using hcount
  · change s.pool.grow.clientCount + 1 ≤ s.pool.grow.currentCapacity
    rw [ClientManager.clientCount_grow]
    omega
  · exact Nat.lt_of_lt_of_le hpos hcapacity

theorem Counted.connect {s : PoolThreads} (h : Counted s) (hapart : Apart s) {i : Nat}
    {socket : Socket} {c : UserInfo} (creating : s.creating = .connecting i socket)
    (client : s.pool.clientInfos[i]? = some c) :
    Counted { s with
      pool := s.pool.setClient i (c.connect socket .connected).2, creating := .counting } := by
  have hslots := h.slots
  have hcount := h.count
  have hle := h.le
  have hpos := h.pos
  have hdown := (hapart.separate.given i socket creating).1
  rw [ClientManager.connected_of_getElem? client] at hdown
  have htotal := ClientManager.connectedCount_setClient client (c.connect socket .connected).2
  rw [hdown, UserInfo.isConnected_connect] at htotal
  simp only [Bool.false_eq_true, if_false, ne_eq, reduceCtorEq, not_false_eq_true, decide_true,
    if_true] at htotal
  simp only [creating, slotOf, reduceCtorEq, if_false, Option.toList_some, List.length_singleton]
    at hslots hcount hle
  refine ⟨fun {t j} hclosing => ?_, ?_, ?_, ?_, hpos⟩
  · rw [ClientManager.connected_setClient (List.getElem?_eq_some_iff.mp client).1,
      h.up hclosing, UserInfo.isConnected_connect]
    split <;> rfl
  · change s.pool.emptyClients.length + 0 + s.pushers + (s.pool.setClient i _).connectedCount =
      s.pool.currentCapacity
    omega
  · change s.pool.clientCount + 1 =
      ((s.pool.setClient i _).connectedCount + s.pushers + s.counters : Nat)
    omega
  · exact hle

theorem Counted.countUp {s : PoolThreads} (h : Counted s) (creating : s.creating = .counting) :
    Counted { s with
      pool := { s.pool with clientCount := s.pool.clientCount + 1 }, creating := .idle } := by
  have hslots := h.slots
  have hcount := h.count
  have hle := h.le
  have hpos := h.pos
  simp only [creating, slotOf, reduceCtorEq, if_true, if_false] at hslots hcount hle
  refine ⟨h.up, hslots, ?_, ?_, hpos⟩
  · change s.pool.clientCount + 1 + 0 = (s.pool.connectedCount + s.pushers + s.counters : Nat)
    omega
  · change s.pool.clientCount + 1 + 0 ≤ (s.pool.currentCapacity : Int)
    omega

theorem Counted.isConnected {s : PoolThreads} (h : Counted s) {t i : Nat} {c : UserInfo}
    (closing : s.closing[t]? = some .idle) (client : s.pool.clientInfos[i]? = some c)
    (hup : c.isConnected = true) : Counted (s.setClosing t (.closing i)) := by
  have hslots := h.slots
  have hcount := h.count
  have hle := h.le
  have hpos := h.pos
  have hpushers := pushers_setClosing closing (.closing i)
  have hcounters := counters_setClosing closing (.closing i)
  simp only [isPushing, Bool.false_eq_true, reduceCtorEq, if_false, Nat.add_zero]
    at hpushers hcounters
  refine ⟨fun {t' j} hclosing => ?_, ?_, ?_, hle, hpos⟩
  · simp only [setClosing, List.getElem?_set] at hclosing
    split at hclosing
    · split at hclosing
      · cases hclosing
        exact (ClientManager.connected_of_getElem? client).trans hup
      · contradiction
    · exact h.up hclosing
  · rw [hpushers]
    exact hslots
  · rw [hpushers, hcounters]
    exact hcount

theorem Counted.close {s : PoolThreads} (h : Counted s) (hapart : Apart s) {t i : Nat}
    {c : UserInfo} (closing : s.closing[t]? = some (.closing i))
    (client : s.pool.clientInfos[i]? = some c) :
    Counted ({ s with pool := s.pool.setClient i c.close }.setClosing t (.pushing i)) := by
  have hslots := h.slots
  have hcount := h.count
  have hle := h.le
  have hpos := h.pos
  have hi := (List.getElem?_eq_some_iff.mp client).1
  have hup := h.up closing
  rw [ClientManager.connected_of_getElem? client] at hup
  have htotal := ClientManager.connectedCount_setClient client c.close
  rw [hup, UserInfo.isConnected_close] at htotal
  have hpushers := pushers_setClosing (s := { s with pool := s.pool.setClient i c.close }) closing
    (.pushing i)
  have hcounters := counters_setClosing (s := { s with pool := s.pool.setClient i c.close })
    closing (.pushing i)
  simp only [isPushing, Bool.false_eq_true, reduceCtorEq, if_false, if_true, Nat.add_zero]
    at hpushers hcounters htotal
  change _ = s.pushers + 1 at hpushers
  change _ = s.counters at hcounters
  refine ⟨fun {t' j} hclosing => ?_, ?_, ?_, hle, hpos⟩
  · have hclosers := closers_setClosing closing (.pushing i)
    have hone := hapart.closing i
    have hself := hclosers i
    rw [if_pos rfl, if_neg (by simp)] at hself
    have hji : j ≠ i := by
      rintro rfl
      have hpos' := closers_pos (s := s.setClosing t (.pushing j)) hclosing
      omega
    have hold : s.closing[t']? = some (.closing j) := by
      simp only [setClosing, List.getElem?_set] at hclosing
      split at hclosing
      · split at hclosing <;> simp at hclosing
      · exact hclosing
    rw [← h.up hold]
    exact (ClientManager.connected_setClient hi _ j).trans (if_neg hji)
  · rw [hpushers]
    change s.pool.emptyClients.length + (slotOf s.creating).toList.length + (s.pushers + 1) +
      (s.pool.setClient i c.close).connectedCount = s.pool.currentCapacity
    omega
  · rw [hpushers, hcounters]
    change s.pool.clientCount + (if s.creating = .counting then 1 else 0) =
      ((s.pool.setClient i c.close).connectedCount + (s.pushers + 1) + s.counters : Nat)
    omega

theorem Counted.push {s : PoolThreads} (h : Counted s) {t i : Nat}
    (closing : s.closing[t]? = some (.pushing i)) :
    Counted ({ s with
      pool := { s.pool with emptyClients := s.pool.emptyClients ++ [i] } }.setClosing t
        .counting) := by
  have hslots := h.slots
  have hcount := h.count
  have hle := h.le
  have hpos := h.pos
  have hpushers := pushers_setClosing closing .counting
  have hcounters := counters_setClosing closing .counting
  simp only [isPushing, Bool.false_eq_true, reduceCtorEq, if_false, if_true, Nat.add_zero]
    at hpushers hcounters
  refine ⟨h.up_setClosing (by rintro _ ⟨⟩), ?_, ?_, hle, hpos⟩
  · change (s.pool.emptyClients ++ [i]).length + (slotOf s.creating).toList.length +
      (s.setClosing t .counting).pushers + s.pool.connectedCount = s.pool.currentCapacity
    rw [List.length_append, List.length_singleton]
    omega
  · change s.pool.clientCount + (if s.creating = .counting then 1 else 0) =
      (s.pool.connectedCount + (s.setClosing t .counting).pushers +
        (s.setClosing t .counting).counters : Nat)
    omega

theorem Counted.countDown {s : PoolThreads} (h : Counted s) {t : Nat}
    (closing : s.closing[t]? = some .counting) :
    Counted ({ s with
      pool := { s.pool with clientCount := s.pool.clientCount - 1 } }.setClosing t .idle) := by
  have hslots := h.slots
  have hcount := h.count
  have hle := h.le
  have hpos := h.pos
  have hpushers := pushers_setClosing closing .idle
  have hcounters := counters_setClosing closing .idle
  simp only [isPushing, Bool.false_eq_true, reduceCtorEq, if_false, if_true, Nat.add_zero]
    at hpushers hcounters
  refine ⟨h.up_setClosing (by rintro _ ⟨⟩), ?_, ?_, ?_, hpos⟩
  · change s.pool.emptyClients.length + (slotOf s.creating).toList.length +
      (s.setClosing t .idle).pushers + s.pool.connectedCount = s.pool.currentCapacity
    rw [hpushers]
    exact hslots
  · change s.pool.clientCount - 1 + (if s.creating = .counting then 1 else 0) =
      (s.pool.connectedCount + (s.setClosing t .idle).pushers +
        (s.setClosing t .idle).counters : Nat)
    omega
  · change s.pool.clientCount - 1 + (if s.creating = .idle then 0 else 1) ≤
      (s.pool.currentCapacity : Int)
    omega

theorem Counted.stepped {s s' : PoolThreads} (h : Counted s) (hapart : Apart s) {a : Action}
    (hok : a.succeeds = true) (hs : Stepped s a s') : Counted s' := by
  cases hs with
  | full | returns => exact h
  | take creating hfull front => exact h.take hapart creating hfull front
  | connect creating client outcome =>
    obtain rfl : outcome = .connected := of_decide_eq_true hok
    exact h.connect hapart creating client
  | countUp creating => exact h.countUp creating
  | isConnected closing client hup => exact h.isConnected closing client hup
  | close closing client => exact h.close hapart closing client
  | push closing => exact h.push closing
  | countDown closing => exact h.countDown closing
  | @post a i c client posted action =>
    have hposted : posted = true := by
      rcases action with rfl | rfl <;> exact hok
    rw [hposted, UserInfo.posted, ClientManager.setClient_self client]
    exact h

theorem maxClientCount_stepped {s s' : PoolThreads} {a : Action} (hs : Stepped s a s') :
    s'.pool.maxClientCount = s.pool.maxClientCount := by
  cases hs with
  | take => exact ClientManager.maxClientCount_grow _
  | _ => rfl

theorem counted_of_reach {n k : Nat} (hn : 4 ≤ n) {s : PoolThreads}
    (h : (system n k).Reach (fun s a => s.alone a = true ∧ a.succeeds = true) s) :
    Apart s ∧ Counted s ∧ s.pool.maxClientCount = n :=
  h.invariant (P := fun s => Apart s ∧ Counted s ∧ s.pool.maxClientCount = n)
    ⟨apart_init n k, counted_init hn k, rfl⟩ fun _ _ _ _ ⟨hapart, hcounted, hmax⟩ ⟨ha, hok⟩ hs =>
      have hstepped := stepped_of_ok hapart.sized hs
      ⟨hapart.stepped ha hstepped, hcounted.stepped hapart hok hstepped,
        (maxClientCount_stepped hstepped).trans hmax⟩

/-- While no two calls of `CloseClient` are about one client and no socket operation fails, a new
client is refused exactly if the connected clients and those that are still being closed are as
many as there may be.  Otherwise there is a slot for it. -/
theorem getEmptyClient_ok {n k : Nat} (hn : 4 ≤ n) {s : PoolThreads}
    (h : (system n k).Reach (fun s a => s.alone a = true ∧ a.succeeds = true) s)
    (hidle : s.creating = .idle) (socket : Socket) :
    ∃ s', s.step (.getEmptyClient socket) = .ok s' ∧
      (s.pool.connectedCount + s.pushers + s.counters = n ∧ s' = s ∨
        s.pool.connectedCount + s.pushers + s.counters < n ∧
          ∃ i, s'.creating = .connecting i socket ∧ i < s'.pool.clientInfos.length ∧
            s.pool.connected i = false ∧ ∀ w ∈ s.closing, w ≠ .closing i ∧ w ≠ .pushing i) := by
  obtain ⟨hapart, hcounted, hmax⟩ := counted_of_reach hn h
  have hcount := hcounted.count
  have hle := hcounted.le
  have hsized := hapart.sized.le
  simp only [hidle, reduceCtorEq, if_false, if_true] at hcount hle
  by_cases hfull : s.pool.clientCount = s.pool.maxClientCount
  · refine ⟨s, ?_, .inl ⟨by omega, rfl⟩⟩
    have hget := ClientManager.getEmptyClient_ok_iff.mpr (.inl ⟨hfull, rfl, rfl⟩)
    simp only [step, getEmptyClient, hidle, hget, ok_bind, if_true]
    rw [← hidle]
    rfl
  · obtain ⟨hgrown, hconnected, hlt⟩ := hcounted.grow hapart hidle hfull
    obtain ⟨i, emptyClients, front⟩ : ∃ i emptyClients,
        s.pool.grow.emptyClients = i :: emptyClients := by
      refine List.exists_cons_of_ne_nil fun hnil => ?_
      rw [hnil, List.length_nil] at hgrown
      omega
    have hi := hapart.sized.grow.queued i (front ▸ List.mem_cons_self)
    have hne : i ≠ s.pool.grow.maxClientCount :=
      Nat.ne_of_lt (Nat.lt_of_lt_of_le hi hapart.sized.grow.le)
    have hstep : s.step (.getEmptyClient socket) = .ok { s with
        pool := { s.pool.grow with emptyClients }, creating := .connecting i socket } := by
      have hget := ClientManager.getEmptyClient_ok_iff.mpr
        (.inr ⟨hfull, emptyClients, front, rfl⟩)
      simp only [step, getEmptyClient, hidle, hget, ok_bind, if_neg hne]
      rfl
    have hstepped := stepped_of_ok hapart.sized hstep
    have hgiven := (hapart.stepped rfl hstepped).separate.given i socket rfl
    refine ⟨_, hstep, .inr ⟨by omega, i, rfl, ?_, ?_, hgiven.2⟩⟩
    · exact hapart.sized.grow.lt_length.mpr hi
    · rw [← ClientManager.connected_grow hapart.sized]
      exact hgiven.1

theorem getEmptyClient_ok_closing :
    ∃ s s', (system 4 2).Reach (fun s a => s.alone a = true ∧ a.succeeds = true) s ∧
      s.counters = 1 ∧ s.step (.getEmptyClient 8) = .ok s' ∧
      ∃ i, s'.creating = .connecting i 8 ∧ s.pool.connected i = false := by
  obtain ⟨s, hs, hp⟩ := System.exists_of_runWith (S := system 4 2)
    (g := fun s a => s.alone a && a.succeeds)
    (G := fun s a => s.alone a = true ∧ a.succeeds = true)
    (fun _ _ h => (Bool.and_eq_true ..).mp h)
    (p := fun s => decide (s.creating = .idle ∧ s.pool.connectedCount = 0 ∧ s.pushers = 0 ∧
      s.counters = 1))
    [.getEmptyClient 7, .connect .connected, .countUp, .isConnected 0 0, .close 0, .push 0]
    (by decide)
  obtain ⟨hidle, hconnected, hpushers, hcounters⟩ := of_decide_eq_true hp
  obtain ⟨s', hs', ⟨hfull, -⟩ | ⟨-, i, hcreating, -, hdown, -⟩⟩ :=
    getEmptyClient_ok (by decide) hs hidle 8
  · omega
  · exact ⟨s, s', hs, hcounters, hs', i, hcreating, hdown⟩

end PoolThreads

end ChattingServer.V10
