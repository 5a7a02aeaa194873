import ChattingServer.Lib.Progress
import ChattingServer.V10.Server.Effects

namespace ChattingServer.V10

open Lib

inductive Creating
  | idle
  | connecting (index : Nat) (socket : Socket)
  | counting
  deriving DecidableEq

inductive Closing
  | idle
  | closing (index : Nat)
  | pushing (index : Nat)
  | counting
  deriving DecidableEq

/-- The pool with the threads that work on it, cut where one lets go of a mutex or reads what
others write. -/
structure PoolThreads where
  pool : ClientManager
  creating : Creating
  closing : List Closing

namespace PoolThreads

inductive Action
  /-- `CreateClient` is called, up to the slot that it takes. -/
  | getEmptyClient (socket : Socket)
  | connect (outcome : ConnectOutcome)
  | countUp
  /-- A thread calls `CloseClient`, up to the test of `IsConnected`. -/
  | isConnected (t index : Nat)
  | close (t : Nat)
  | push (t : Nat)
  | countDown (t : Nat)
  | sendMsg (index : Nat) (sent : Bool)
  | bindRecv (index : Nat) (bound : Bool)

def init (maxClientCount threads : Nat) : PoolThreads where
  pool := .new maxClientCount
  creating := .idle
  closing := List.replicate threads .idle

def setClosing (s : PoolThreads) (t : Nat) (w : Closing) : PoolThreads :=
  { s with closing := s.closing.set t w }

def getEmptyClient (s : PoolThreads) (socket : Socket) : Except Fault PoolThreads :=
  match s.creating with
  | .idle => do
    let (index, pool) ← s.pool.getEmptyClient
    return if index = pool.maxClientCount then { s with pool }
      else { s with pool, creating := .connecting index socket }
  | _ => .error .disabled

def connect (s : PoolThreads) (outcome : ConnectOutcome) : Except Fault PoolThreads :=
  match s.creating with
  | .connecting index socket => do
    let c ← s.pool.getClientByIndex index
    let (connected, c) := c.connect socket outcome
    return { s with
      pool := s.pool.setClient index c
      creating := if connected then .counting else .idle }
  | _ => .error .disabled

def countUp (s : PoolThreads) : Except Fault PoolThreads :=
  match s.creating with
  | .counting => .ok { s with
      pool := { s.pool with clientCount := s.pool.clientCount + 1 }
      creating := .idle }
  | _ => .error .disabled

def isConnected (s : PoolThreads) (t index : Nat) : Except Fault PoolThreads :=
  match s.closing[t]? with
  | some .idle => do
    let c ← s.pool.getClientByIndex index
    return if c.isConnected then s.setClosing t (.closing index) else s
  | _ => .error .disabled

def close (s : PoolThreads) (t : Nat) : Except Fault PoolThreads :=
  match s.closing[t]? with
  | some (.closing index) => do
    let c ← s.pool.getClientByIndex index
    return { s with pool := s.pool.setClient index c.close }.setClosing t (.pushing index)
  | _ => .error .disabled

def push (s : PoolThreads) (t : Nat) : Except Fault PoolThreads :=
  match s.closing[t]? with
  | some (.pushing index) => .ok ({ s with
      pool := { s.pool with emptyClients := s.pool.emptyClients ++ [index] } }.setClosing t
        .counting)
  | _ => .error .disabled

def countDown (s : PoolThreads) (t : Nat) : Except Fault PoolThreads :=
  match s.closing[t]? with
  | some .counting => .ok ({ s with
      pool := { s.pool with clientCount := s.pool.clientCount - 1 } }.setClosing t .idle)
  | _ => .error .disabled

def post (s : PoolThreads) (index : Nat) (posted : Bool) : Except Fault PoolThreads := do
  let pool ← s.pool.post index posted
  return { s with pool }

def step (s : PoolThreads) : Action → Except Fault PoolThreads
  | .getEmptyClient socket => s.getEmptyClient socket
  | .connect outcome => s.connect outcome
  | .countUp => s.countUp
  | .isConnected t index => s.isConnected t index
  | .close t => s.close t
  | .push t => s.push t
  | .countDown t => s.countDown t
  | .sendMsg index sent => s.post index sent
  | .bindRecv index bound => s.post index bound

def system (maxClientCount threads : Nat) : System PoolThreads Action Fault where
  init := init maxClientCount threads
  step := step

inductive Stepped (s : PoolThreads) : Action → PoolThreads → Prop
  | full {socket : Socket} (creating : s.creating = .idle)
      (h : s.pool.clientCount = s.pool.maxClientCount) : Stepped s (.getEmptyClient socket) s
  | take {socket : Socket} {i : Nat} {emptyClients : List Nat} (creating : s.creating = .idle)
      (h : s.pool.clientCount ≠ s.pool.maxClientCount)
      (front : s.pool.grow.emptyClients = i :: emptyClients) :
      Stepped s (.getEmptyClient socket)
        { s with pool := { s.pool.grow with emptyClients }, creating := .connecting i socket }
  | connect {i : Nat} {socket : Socket} {c : UserInfo}
      (creating : s.creating = .connecting i socket) (client : s.pool.clientInfos[i]? = some c)
      (outcome : ConnectOutcome) :
      Stepped s (.connect outcome) { s with
        pool := s.pool.setClient i (c.connect socket outcome).2
        creating := if outcome = .connected then .counting else .idle }
  | countUp (creating : s.creating = .counting) : Stepped s .countUp { s with
      pool := { s.pool with clientCount := s.pool.clientCount + 1 }
      creating := .idle }
  | returns {t i : Nat} {c : UserInfo} (closing : s.closing[t]? = some .idle)
      (client : s.pool.clientInfos[i]? = some c) (h : c.isConnected = false) :
      Stepped s (.isConnected t i) s
  | isConnected {t i : Nat} {c : UserInfo} (closing : s.closing[t]? = some .idle)
      (client : s.pool.clientInfos[i]? = some c) (h : c.isConnected = true) :
      Stepped s (.isConnected t i) (s.setClosing t (.closing i))
  | close {t i : Nat} {c : UserInfo} (closing : s.closing[t]? = some (.closing i))
      (client : s.pool.clientInfos[i]? = some c) :
      Stepped s (.close t)
        ({ s with pool := s.pool.setClient i c.close }.setClosing t (.pushing i))
  | push {t i : Nat} (closing : s.closing[t]? = some (.pushing i)) :
      Stepped s (.push t) ({ s with
        pool := { s.pool with emptyClients := s.pool.emptyClients ++ [i] } }.setClosing t .counting)
  | countDown {t : Nat} (closing : s.closing[t]? = some .counting) :
      Stepped s (.countDown t) ({ s with
        pool := { s.pool with clientCount := s.pool.clientCount - 1 } }.setClosing t .idle)
  | post {a : Action} {i : Nat} {c : UserInfo} (client : s.pool.clientInfos[i]? = some c)
      (posted : Bool) (action : a = .sendMsg i posted ∨ a = .bindRecv i posted) :
      Stepped s a { s with pool := s.pool.setClient i (c.posted posted).2 }

theorem stepped_of_ok {s s' : PoolThreads} (hsize : s.pool.Sized) {a : Action}
    (hs : s.step a = .ok s') : Stepped s a s' := by
  have posted : ∀ {i ok}, s.post i ok = .ok s' → ∃ c, s.pool.clientInfos[i]? = some c ∧
      s' = { s with pool := s.pool.setClient i (c.posted ok).2 } := by
    intro i ok hs
    simp only [post, ClientManager.post, bind_eq_ok_iff,
      ClientManager.getClientByIndex_ok_iff] at hs
    obtain ⟨_, ⟨c, hc, hp⟩, hs⟩ := hs
    cases hp
    cases hs
    exact ⟨c, hc, rfl⟩
  cases a with
  | getEmptyClient socket =>
    simp only [step, getEmptyClient] at hs
    split at hs
    · rename_i hidle
      simp only [bind_eq_ok_iff, Prod.exists, ClientManager.getEmptyClient_ok_iff] at hs
      obtain ⟨i, pool, ⟨hfull, rfl, rfl⟩ | ⟨hnot, emptyClients, hq, rfl⟩, hs⟩ := hs
      · rw [if_pos rfl] at hs
        cases hs
        exact .full hidle hfull
      · have hi := hsize.grow.queued i (hq ▸ List.mem_cons_self)
        have hne : i ≠ s.pool.grow.maxClientCount :=
          Nat.ne_of_lt (Nat.lt_of_lt_of_le hi hsize.grow.le)
        rw [if_neg hne] at hs
        cases hs
        exact .take hidle hnot hq
    · contradiction
  | connect outcome =>
    simp only [step, connect] at hs
    split at hs
    · rename_i i socket hcreating
      simp only [bind_eq_ok_iff, ClientManager.getClientByIndex_ok_iff] at hs
      obtain ⟨c, hc, hs⟩ := hs
      have hconnect := Stepped.connect hcreating hc outcome
      cases outcome <;> cases hs <;> exact hconnect
    · contradiction
  | countUp =>
    simp only [step, countUp] at hs
    split at hs
    · rename_i hcreating
      cases hs
      exact .countUp hcreating
    · contradiction
  | isConnected t i =>
    simp only [step, isConnected] at hs
    split at hs
    · rename_i hidle
      simp only [bind_eq_ok_iff, ClientManager.getClientByIndex_ok_iff] at hs
      obtain ⟨c, hc, hs⟩ := hs
      cases hup : c.isConnected with
      | true =>
        simp only [hup, if_true] at hs
        cases hs
        exact .isConnected hidle hc hup
      | false =>
        simp only [hup, Bool.false_eq_true, if_false] at hs
        cases hs
        exact .returns hidle hc hup
    · contradiction
  | close t =>
    simp only [step, close] at hs
    split at hs
    · rename_i i hclosing
      simp only [bind_eq_ok_iff, ClientManager.getClientByIndex_ok_iff] at hs
      obtain ⟨c, hc, hs⟩ := hs
      cases hs
      exact .close hclosing hc
    · contradiction
  | push t =>
    simp only [step, push] at hs
    split at hs
    · rename_i i hclosing
      cases hs
      exact .push hclosing
    · contradiction
  | countDown t =>
    simp only [step, countDown] at hs
    split at hs
    · rename_i hclosing
      cases hs
      exact .countDown hclosing
    · contradiction
  | sendMsg i ok =>
    obtain ⟨c, hc, rfl⟩ := posted hs
    exact .post hc ok (.inl rfl)
  | bindRecv i ok =>
    obtain ⟨c, hc, rfl⟩ := posted hs
    exact .post hc ok (.inr rfl)

/-! What the queue and the threads have of each slot. -/

def slotOf : Creating → Option Nat
  | .connecting index _ => some index
  | _ => none

def spare (s : PoolThreads) (i : Nat) : Nat :=
  s.pool.emptyClients.count i + (slotOf s.creating).toList.count i +
    s.closing.countP (· = .pushing i)

def closers (s : PoolThreads) (i : Nat) : Nat := s.closing.countP (· = .closing i)

theorem spare_connecting {s : PoolThreads} {i : Nat} {socket : Socket}
    (h : s.creating = .connecting i socket) {w : Creating} (hw : slotOf w = none) (j : Nat) :
    spare { s with creating := w } j + (if i = j then 1 else 0) = s.spare j := by
  have hold : slotOf s.creating = some i := by rw [h, slotOf]
  simp only [spare, hold, hw, Option.toList_some, Option.toList_none, List.count_singleton,
    List.count_nil, beq_iff_eq]
  omega

theorem spare_setClosing {s : PoolThreads} {t : Nat} {w : Closing} (h : s.closing[t]? = some w)
    (w' : Closing) (i : Nat) :
    (s.setClosing t w').spare i + (if w = .pushing i then 1 else 0) =
      s.spare i + if w' = .pushing i then 1 else 0 := by
  have hcount := countP_set_add (p := (· = Closing.pushing i)) h w'
  simp only [decide_eq_true_eq] at hcount
  simp only [spare, setClosing]
  omega

theorem closers_setClosing {s : PoolThreads} {t : Nat} {w : Closing} (h : s.closing[t]? = some w)
    (w' : Closing) (i : Nat) :
    (s.setClosing t w').closers i + (if w = .closing i then 1 else 0) =
      s.closers i + if w' = .closing i then 1 else 0 := by
  have hcount := countP_set_add (p := (· = Closing.closing i)) h w'
  simp only [decide_eq_true_eq] at hcount
  exact hcount

/-- A slot is in one place only, and nothing that is connected is given away. -/
structure Apart (s : PoolThreads) : Prop where
  sized : s.pool.Sized
  connected : ∀ i, s.spare i + (s.pool.connected i).toNat ≤ 1
  closing : ∀ i, s.spare i + s.closers i ≤ 1
  slot : ∀ i, 0 < s.spare i + s.closers i → i < s.pool.currentCapacity

theorem apart_init (n k : Nat) : Apart (init n k) := by
  have hnone : ∀ w : Closing, w ≠ .idle → (List.replicate k Closing.idle).countP (· = w) = 0 :=
    fun w hw => by simp [List.countP_replicate, Ne.symm hw]
  have hspare : ∀ i, (init n k).spare i = (ClientManager.new n).emptyClients.count i := fun i => by
    simp [spare, init, slotOf, hnone]
  have hclosers : ∀ i, (init n k).closers i = 0 := fun i => hnone _ (by simp)
  have hexclusive : ∀ i, (ClientManager.new n).emptyClients.count i +
      ((ClientManager.new n).connected i).toNat ≤ 1 :=
    (ClientManager.balanced_new).exclusive (ClientManager.sized_new n)
  refine ⟨ClientManager.sized_new n, fun i => ?_, fun i => ?_, fun i hi => ?_⟩
  · rw [hspare]
    exact hexclusive i
  · rw [hspare, hclosers]
    exact Nat.le_of_add_right_le (hexclusive i)
  · rw [hspare, hclosers, Nat.add_zero, List.count_pos_iff] at hi
    exact (ClientManager.sized_new n).queued i hi

theorem Apart.grow {s : PoolThreads} (h : Apart s) : Apart { s with pool := s.pool.grow } := by
  have hexclusive : s.pool.Exclusive := fun i => by
    have := h.connected i
    simp only [spare] at this
    omega
  have hgrown := hexclusive.grow h.sized
  have hcapacity := ClientManager.le_currentCapacity_grow h.sized
  have hkept : ∀ i, i < s.pool.currentCapacity →
      s.pool.grow.emptyClients.count i = s.pool.emptyClients.count i := by
    intro i hi
    unfold ClientManager.grow
    split
    · have hnew : (List.range' s.pool.currentCapacity
          (min (s.pool.currentCapacity * 2) s.pool.maxClientCount -
            s.pool.currentCapacity)).count i = 0 := by
        rw [List.count_eq_zero, List.mem_range'_1]
        omega
      simp [ClientManager.addClients, hnew]
    · rfl
  have hold : ∀ i, i < s.pool.currentCapacity →
      spare { s with pool := s.pool.grow } i = s.spare i := fun i hi => by
    simp only [spare, hkept i hi]
  have hnew : ∀ i, ¬ i < s.pool.currentCapacity → s.closers i = 0 ∧
      spare { s with pool := s.pool.grow } i = s.pool.grow.emptyClients.count i := fun i hi => by
    have hslot := mt (h.slot i) hi
    simp only [spare] at hslot ⊢
    omega
  refine ⟨h.sized.grow, fun i => ?_, fun i => ?_, fun i hi => ?_⟩
  · change spare { s with pool := s.pool.grow } i + (s.pool.grow.connected i).toNat ≤ 1
    by_cases hlt : i < s.pool.currentCapacity
    · rw [hold i hlt, ClientManager.connected_grow h.sized]
      exact h.connected i
    · rw [(hnew i hlt).2]
      exact hgrown i
  · change spare { s with pool := s.pool.grow } i + s.closers i ≤ 1
    by_cases hlt : i < s.pool.currentCapacity
    · rw [hold i hlt]
      exact h.closing i
    · rw [(hnew i hlt).1, (hnew i hlt).2]
      exact Nat.le_of_add_right_le (hgrown i)
  · change i < s.pool.grow.currentCapacity
    by_cases hlt : i < s.pool.currentCapacity
    · omega
    · have hi' : 0 < spare { s with pool := s.pool.grow } i + s.closers i := hi
      rw [(hnew i hlt).1, (hnew i hlt).2, Nat.add_zero, List.count_pos_iff] at hi'
      exact h.sized.grow.queued i hi'

/-- `CloseClient` finds no client connected that another call has yet to close. -/
def alone (s : PoolThreads) : Action → Bool
  | .isConnected _ index => !s.pool.connected index || s.closers index = 0
  | _ => true

theorem Apart.of_slot {s s' : PoolThreads} (h : Apart s) (hsized : s'.pool.Sized)
    (hcapacity : s'.pool.currentCapacity = s.pool.currentCapacity) {i : Nat}
    (hother : ∀ j, j ≠ i → s'.spare j = s.spare j ∧ s'.closers j = s.closers j ∧
      s'.pool.connected j = s.pool.connected j)
    (hconnected : s'.spare i + (s'.pool.connected i).toNat ≤ 1)
    (hclosing : s'.spare i + s'.closers i ≤ 1) (hi : i < s.pool.currentCapacity) : Apart s' := by
  refine ⟨hsized, fun j => ?_, fun j => ?_, fun j hj => ?_⟩
  · by_cases hji : j = i
    · rw [hji]
      exact hconnected
    · obtain ⟨hspare, -, hup⟩ := hother j hji
      rw [hspare, hup]
      exact h.connected j
  · by_cases hji : j = i
    · rw [hji]
      exact hclosing
    · obtain ⟨hspare, hclosers, -⟩ := hother j hji
      rw [hspare, hclosers]
      exact h.closing j
  · rw [hcapacity]
    by_cases hji : j = i
    · rwa [hji]
    · obtain ⟨hspare, hclosers, -⟩ := hother j hji
      rw [hspare, hclosers] at hj
      exact h.slot j hj

theorem closers_pos {s : PoolThreads} {t i : Nat} (h : s.closing[t]? = some (.closing i)) :
    0 < s.closers i :=
  List.countP_pos_iff.mpr ⟨_, List.mem_of_getElem? h, by simp⟩

theorem spare_pos_of_pushing {s : PoolThreads} {t i : Nat}
    (h : s.closing[t]? = some (.pushing i)) : 0 < s.spare i := by
  have hpos : 0 < s.closing.countP (· = .pushing i) :=
    List.countP_pos_iff.mpr ⟨_, List.mem_of_getElem? h, by simp⟩
  unfold spare
  omega

theorem Apart.same {s s' : PoolThreads} (h : Apart s) (hsized : s'.pool.Sized)
    (hcapacity : s'.pool.currentCapacity = s.pool.currentCapacity)
    (hspare : ∀ j, s'.spare j = s.spare j) (hclosers : ∀ j, s'.closers j = s.closers j)
    (hconnected : ∀ j, s'.pool.connected j = s.pool.connected j) : Apart s' := by
  refine ⟨hsized, fun j => ?_, fun j => ?_, fun j hj => ?_⟩
  · rw [hspare, hconnected]
    exact h.connected j
  · rw [hspare, hclosers]
    exact h.closing j
  · rw [hspare, hclosers] at hj
    rw [hcapacity]
    exact h.slot j hj

theorem Apart.take {s : PoolThreads} (h : Apart s) {socket : Socket} {i : Nat}
    {emptyClients : List Nat} (creating : s.creating = .idle)
    (front : s.pool.grow.emptyClients = i :: emptyClients) :
    Apart { s with
      pool := { s.pool.grow with emptyClients }, creating := .connecting i socket } := by
  have hgrow := h.grow
  refine hgrow.same (hgrow.sized.requeue (fun j hj => hgrow.sized.queued j (front ▸ .tail _ hj)) _)
    rfl (fun j => ?_) (fun _ => rfl) fun _ => rfl
  simp only [spare, creating, slotOf, front, List.count_cons, Option.toList_some,
    Option.toList_none, List.count_nil]
  omega

theorem Apart.connect {s : PoolThreads} (h : Apart s) {i : Nat} {socket : Socket} {c : UserInfo}
    (creating : s.creating = .connecting i socket) (client : s.pool.clientInfos[i]? = some c)
    (outcome : ConnectOutcome) :
    Apart { s with
      pool := s.pool.setClient i (c.connect socket outcome).2
      creating := if outcome = .connected then .counting else .idle } := by
  have hi := (List.getElem?_eq_some_iff.mp client).1
  have hnone : slotOf (if outcome = .connected then .counting else .idle) = none := by
    split <;> rfl
  have hspare := spare_connecting creating hnone
  have hself := hspare i
  have hup := h.connected i
  have hclosing := h.closing i
  rw [if_pos rfl] at hself
  refine h.of_slot (i := i) (h.sized.setClient client (UserInfo.index_connect ..)) rfl
    (fun j hj => ⟨?_, rfl, ?_⟩) ?_ ?_ (h.sized.lt_length.mp hi)
  · have hother := hspare j
    rw [if_neg (Ne.symm hj), Nat.add_zero] at hother
    exact hother
  · exact (ClientManager.connected_setClient hi _ j).trans (if_neg hj)
  · have hzero : spare { s with
        creating := if outcome = .connected then .counting else .idle } i = 0 := by
      omega
    change spare { s with creating := if outcome = .connected then .counting else .idle } i +
      ((s.pool.setClient i _).connected i).toNat ≤ 1
    rw [hzero, Nat.zero_add]
    exact Bool.toNat_le _
  · change spare { s with creating := if outcome = .connected then .counting else .idle } i +
      s.closers i ≤ 1
    omega

theorem Apart.count {s : PoolThreads} (h : Apart s) (clientCount : Int) :
    Apart { s with pool := { s.pool with clientCount } } :=
  h.same ⟨h.sized.length, h.sized.le, h.sized.index, h.sized.queued⟩ rfl (fun _ => rfl)
    (fun _ => rfl) fun _ => rfl

theorem Apart.countUp {s : PoolThreads} (h : Apart s) (creating : s.creating = .counting) :
    Apart { s with
      pool := { s.pool with clientCount := s.pool.clientCount + 1 }, creating := .idle } := by
  have hcount := h.count (s.pool.clientCount + 1)
  refine hcount.same hcount.sized rfl (fun j => ?_) (fun _ => rfl) fun _ => rfl
  simp only [spare, creating, slotOf]

theorem Apart.isConnected {s : PoolThreads} (h : Apart s) {t i : Nat} {c : UserInfo}
    (ha : s.alone (.isConnected t i) = true) (closing : s.closing[t]? = some .idle)
    (client : s.pool.clientInfos[i]? = some c) (hup : c.isConnected = true) :
    Apart (s.setClosing t (.closing i)) := by
  have hi := (List.getElem?_eq_some_iff.mp client).1
  have hup' : s.pool.connected i = true := (ClientManager.connected_of_getElem? client).trans hup
  have hnone : s.closers i = 0 := by simpa [alone, hup'] using ha
  have hconnected := h.connected i
  have hspare := spare_setClosing closing (.closing i)
  have hclosers := closers_setClosing closing (.closing i)
  simp only [Closing.closing.injEq, reduceCtorEq, if_false, Nat.add_zero] at hspare hclosers
  have hself := hclosers i
  rw [if_pos rfl] at hself
  rw [hup', Bool.toNat_true] at hconnected
  refine h.of_slot (i := i) h.sized rfl (fun j hj => ⟨hspare j, ?_, rfl⟩) ?_ ?_
    (h.sized.lt_length.mp hi)
  · rw [hclosers, if_neg (Ne.symm hj), Nat.add_zero]
  · rw [hspare]
    exact h.connected i
  · rw [hspare, hself]
    omega

theorem Apart.close {s : PoolThreads} (h : Apart s) {t i : Nat} {c : UserInfo}
    (closing : s.closing[t]? = some (.closing i)) (client : s.pool.clientInfos[i]? = some c) :
    Apart ({ s with pool := s.pool.setClient i c.close }.setClosing t (.pushing i)) := by
  have hi := (List.getElem?_eq_some_iff.mp client).1
  have hspare := spare_setClosing (s := { s with pool := s.pool.setClient i c.close }) closing
    (.pushing i)
  have hclosers := closers_setClosing (s := { s with pool := s.pool.setClient i c.close }) closing
    (.pushing i)
  simp only [Closing.closing.injEq, Closing.pushing.injEq, reduceCtorEq, if_false,
    Nat.add_zero] at hspare hclosers
  have hself := hspare i
  have hself' := hclosers i
  rw [if_pos rfl] at hself hself'
  have hclosing := h.closing i
  have hpos := closers_pos closing
  have hold : spare { s with pool := s.pool.setClient i c.close } i = s.spare i := rfl
  have hold' : closers { s with pool := s.pool.setClient i c.close } i = s.closers i := rfl
  have hdown : (s.pool.setClient i c.close).connected i = false := by
    rw [ClientManager.connected_setClient hi, if_pos rfl, UserInfo.isConnected_close]
  refine h.of_slot (i := i) (h.sized.setClient client (UserInfo.index_close c)) rfl
    (fun j hj => ⟨?_, ?_, ?_⟩) ?_ ?_ (h.sized.lt_length.mp hi)
  · rw [hspare, if_neg (Ne.symm hj)]
    rfl
  · have hother := hclosers j
    rw [if_neg (Ne.symm hj)] at hother
    exact hother
  · exact (ClientManager.connected_setClient hi _ j).trans (if_neg hj)
  · change _ + ((s.pool.setClient i c.close).connected i).toNat ≤ 1
    rw [hdown, Bool.toNat_false]
    omega
  · omega

theorem Apart.push {s : PoolThreads} (h : Apart s) {t i : Nat}
    (closing : s.closing[t]? = some (.pushing i)) :
    Apart ({ s with
      pool := { s.pool with emptyClients := s.pool.emptyClients ++ [i] } }.setClosing t
        .counting) := by
  have hpos := spare_pos_of_pushing closing
  have hi : i < s.pool.currentCapacity := h.slot i (by omega)
  refine h.same (h.sized.requeue (fun j hj => ?_) _) rfl (fun j => ?_) (fun j => ?_) fun _ => rfl
  · rcases List.mem_append.mp hj with hj | hj
    · exact h.sized.queued j hj
    · rwa [List.mem_singleton.mp hj]
  · have hset := spare_setClosing closing .counting j
    simp only [Closing.pushing.injEq, reduceCtorEq, if_false, Nat.add_zero] at hset
    rw [← hset]
    simp only [spare, setClosing, List.count_append, List.count_singleton, beq_iff_eq]
    omega
  · have hset := closers_setClosing closing .counting j
    simp only [reduceCtorEq, if_false, Nat.add_zero] at hset
    exact hset

theorem Apart.countDown {s : PoolThreads} (h : Apart s) {t : Nat}
    (closing : s.closing[t]? = some .counting) :
    Apart ({ s with
      pool := { s.pool with clientCount := s.pool.clientCount - 1 } }.setClosing t .idle) := by
  have hcount := h.count (s.pool.clientCount - 1)
  refine hcount.same hcount.sized rfl (fun j => ?_) (fun j => ?_) fun _ => rfl
  · have hset := spare_setClosing (s := { s with
      pool := { s.pool with clientCount := s.pool.clientCount - 1 } }) closing .idle j
    simp only [reduceCtorEq, if_false, Nat.add_zero] at hset
    exact hset
  · have hset := closers_setClosing closing .idle j
    simp only [reduceCtorEq, if_false, Nat.add_zero] at hset
    exact hset

theorem Apart.post {s : PoolThreads} (h : Apart s) {i : Nat} {c : UserInfo}
    (client : s.pool.clientInfos[i]? = some c) (posted : Bool) :
    Apart { s with pool := s.pool.setClient i (c.posted posted).2 } := by
  have hi := (List.getElem?_eq_some_iff.mp client).1
  have hdown : ∀ j, ((s.pool.setClient i (c.posted posted).2).connected j).toNat ≤
      (s.pool.connected j).toNat := fun j => by
    rw [ClientManager.connected_setClient hi]
    split
    · rename_i hji
      rw [hji, ClientManager.connected_of_getElem? client]
      cases posted with
      | true => exact Nat.le_refl _
      | false => simp [UserInfo.posted]
    · exact Nat.le_refl _
  refine ⟨h.sized.setClient client (UserInfo.index_posted ..), fun j => ?_, h.closing, h.slot⟩
  exact Nat.le_trans (Nat.add_le_add_left (hdown j) _) (h.connected j)

theorem Apart.stepped {s s' : PoolThreads} (h : Apart s) {a : Action} (ha : s.alone a = true)
    (hs : Stepped s a s') : Apart s' := by
  cases hs with
  | full | returns => exact h
  | take creating _ front => exact h.take creating front
  | connect creating client outcome => exact h.connect creating client outcome
  | countUp creating => exact h.countUp creating
  | isConnected closing client hup => exact h.isConnected ha closing client hup
  | close closing client => exact h.close closing client
  | push closing => exact h.push closing
  | countDown closing => exact h.countDown closing
  | post client posted => exact h.post client posted

theorem apart_of_reach {n k : Nat} {s : PoolThreads}
    (h : (system n k).Reach (fun s a => s.alone a = true) s) : Apart s :=
  h.invariant (apart_init n k) fun _ _ _ _ hi ha hs =>
    hi.stepped ha (stepped_of_ok hi.sized hs)

structure Separate (s : PoolThreads) : Prop where
  exclusive : s.pool.Exclusive
  given : ∀ i socket, s.creating = .connecting i socket → s.pool.connected i = false ∧
    ∀ w ∈ s.closing, w ≠ .closing i ∧ w ≠ .pushing i

theorem Apart.separate {s : PoolThreads} (h : Apart s) : Separate s where
  exclusive i := by
    have hi := h.connected i
    unfold spare at hi
    omega
  given i socket hcreating := by
    have hone : (slotOf s.creating).toList.count i = 1 := by simp [hcreating, slotOf]
    have hconnected := h.connected i
    have hclosing := h.closing i
    have hpushing : s.closing.countP (· = .pushing i) = 0 := by
      unfold spare at hconnected
      omega
    have hclosers : s.closers i = 0 := by
      unfold spare at hclosing
      omega
    have hdown : (s.pool.connected i).toNat = 0 := by
      unfold spare at hconnected
      omega
    refine ⟨by simpa using hdown, fun w hw => ⟨?_, ?_⟩⟩
    · simpa using List.countP_eq_zero.mp hclosers w hw
    · simpa using List.countP_eq_zero.mp hpushing w hw

theorem close_ok {n k : Nat} {s : PoolThreads} {t i : Nat} {c : UserInfo}
    (closing : s.closing[t]? = some (.closing i)) (client : s.pool.clientInfos[i]? = some c) :
    (system n k).step s (.close t) =
      .ok ({ s with pool := s.pool.setClient i c.close }.setClosing t (.pushing i)) := by
  simp only [system, step, close, closing, ClientManager.getClientByIndex_ok_iff.mpr client,
    ok_bind]
  rfl

theorem push_ok {n k : Nat} {s : PoolThreads} {t i : Nat}
    (closing : s.closing[t]? = some (.pushing i)) :
    (system n k).step s (.push t) = .ok ({ s with
      pool := { s.pool with emptyClients := s.pool.emptyClients ++ [i] } }.setClosing t
        .counting) := by
  simp only [system, step, push, closing]

theorem exists_path_of_closing {n k : Nat} {s : PoolThreads} {t i : Nat} {c : UserInfo}
    (closing : s.closing[t]? = some (.closing i)) (client : s.pool.clientInfos[i]? = some c) :
    ∃ p s', (system n k).Path (fun s a => s.alone a = true) s p s' ∧
      s'.pool.emptyClients = s.pool.emptyClients ++ [i] ∧
      s'.pool.clientInfos[i]? = some c.close ∧
      ∀ t', t' ≠ t → s'.closing[t']? = s.closing[t']? := by
  have ht := (List.getElem?_eq_some_iff.mp closing).1
  have hi := (List.getElem?_eq_some_iff.mp client).1
  have hset : (setClosing { s with pool := s.pool.setClient i c.close } t
      (.pushing i)).closing[t]? = some (.pushing i) := List.getElem?_set_self ht
  have hpath := System.Path.cons (G := fun s a => alone s a = true) rfl
    (close_ok (n := n) (k := k) closing client) (.cons rfl (push_ok hset) .nil)
  refine ⟨_, _, hpath, rfl, List.getElem?_set_self hi, fun t' ht' => ?_⟩
  exact (List.getElem?_set_ne (Ne.symm ht')).trans (List.getElem?_set_ne (Ne.symm ht'))

theorem exists_closing_of_closers {s : PoolThreads} {i : Nat} (h : s.closers i ≠ 0) :
    ∃ t : Nat, s.closing[t]? = some (.closing i) := by
  obtain ⟨w, hw, hclosing⟩ := List.countP_pos_iff.mp (Nat.pos_of_ne_zero h)
  obtain ⟨t, ht⟩ := List.getElem?_of_mem hw
  exact ⟨t, by simpa [of_decide_eq_true hclosing] using ht⟩

/-- The slots stay apart whatever happens next exactly if no call of `CloseClient` finds a client
connected that another one has found connected and not closed yet. -/
theorem separate_iff {n k : Nat} {s s' : PoolThreads}
    (h : (system n k).Reach (fun s a => s.alone a = true) s) {a : Action}
    (hs : s.step a = .ok s') :
    (∀ p s'', (system n k).Path (fun s a => s.alone a = true) s' p s'' → Separate s'') ↔
      s.alone a = true := by
  have hapart := apart_of_reach h
  constructor
  · intro hseparate
    by_contra ha
    cases stepped_of_ok hapart.sized hs with
    | @isConnected t i c closing client hup =>
      have ha' : s.closers i ≠ 0 := by
        intro hzero
        simp [alone, hzero] at ha
      obtain ⟨t', ht'⟩ := exists_closing_of_closers ha'
      have hne : t' ≠ t := by
        rintro rfl
        rw [closing] at ht'
        cases ht'
      have hfirst : (s.setClosing t (.closing i)).closing[t']? = some (.closing i) :=
        (List.getElem?_set_ne (Ne.symm hne)).trans ht'
      have hsecond : (s.setClosing t (.closing i)).closing[t]? = some (.closing i) :=
        List.getElem?_set_self (List.getElem?_eq_some_iff.mp closing).1
      obtain ⟨p, x, hp, hqueue, hclient, hclosing⟩ := exists_path_of_closing (n := n) (k := k)
        (s := s.setClosing t (.closing i)) hfirst client
      obtain ⟨q, y, hq, hqueue', -, -⟩ := exists_path_of_closing (n := n) (k := k) (s := x)
        ((hclosing t (Ne.symm hne)).trans hsecond) hclient
      have hexclusive := (hseparate _ y (hp.append hq)).exclusive i
      rw [hqueue', hqueue] at hexclusive
      simp only [List.count_append, List.count_singleton_self] at hexclusive
      omega
    | returns closing client hdown =>
      apply ha
      simp [alone, ClientManager.connected_of_getElem? client, hdown]
    | post client posted action =>
      rcases action with rfl | rfl <;> exact ha rfl
    | _ => exact ha rfl
  · intro ha p s'' hp
    exact (apart_of_reach (hp.reach (h.step ha hs))).separate

theorem separate_iff_two :
    ∃ s s', (system 4 2).Reach (fun s a => s.alone a = true) s ∧
      s.step (.isConnected 1 0) = .ok s' ∧
      ¬ ∀ p s'', (system 4 2).Path (fun s a => s.alone a = true) s' p s'' → Separate s'' := by
  obtain ⟨s, hs, hp⟩ := System.exists_of_runWith (S := system 4 2) (g := alone)
    (G := fun s a => s.alone a = true) (fun _ _ h => h)
    (p := fun s => (s.step (.isConnected 1 0)).toOption.isSome && !s.alone (.isConnected 1 0))
    [.getEmptyClient 7, .connect .connected, .countUp, .isConnected 0 0] (by decide)
  simp only [Bool.and_eq_true, Bool.not_eq_true'] at hp
  obtain ⟨s', hs'⟩ := Option.isSome_iff_exists.mp hp.1
  have hstep := toOption_eq_some_iff.mp hs'
  refine ⟨s, s', hs, hstep, fun hseparate => ?_⟩
  exact absurd ((separate_iff hs hstep).mp hseparate) (by simp [hp.2])

end PoolThreads

end ChattingServer.V10
