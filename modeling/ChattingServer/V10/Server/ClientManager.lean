import ChattingServer.Lib.Transition
import ChattingServer.Lib.Except
import ChattingServer.V10.Server.UserInfo

namespace ChattingServer.V10

open Lib

inductive Fault
  /-- `front` of an empty queue. -/
  | emptyQueue
  /-- An access outside of an array. -/
  | outOfRange
  /-- Not a fault of the program: the action cannot happen in this state. -/
  | disabled
  deriving DecidableEq

/-- `ClientManager<stUserInfo>`, with the objects that `mClientInfos` points to in the place of the
pointers, which are neither replaced nor deleted while the server runs. -/
structure ClientManager where
  clientInfos : List UserInfo
  emptyClients : List Nat
  maxClientCount : Nat
  currentCapacity : Nat
  clientCount : Int

namespace ClientManager

def addClients (s : ClientManager) (newCapacity : Nat) : ClientManager :=
  let added := List.range' s.currentCapacity (newCapacity - s.currentCapacity)
  { s with
    clientInfos := s.clientInfos ++ added.map .new
    emptyClients := s.emptyClients ++ added
    currentCapacity := newCapacity }

def new (maxClientCount : Nat) : ClientManager :=
  addClients ⟨[], [], maxClientCount, 0, 0⟩ (maxClientCount / 4)

def grow (s : ClientManager) : ClientManager :=
  if s.clientCount = s.currentCapacity then
    s.addClients (min (s.currentCapacity * 2) s.maxClientCount)
  else s

def getEmptyClient (s : ClientManager) : Except Fault (Nat × ClientManager) :=
  if s.clientCount = s.maxClientCount then .ok (s.maxClientCount, s)
  else
    match s.grow.emptyClients with
    | [] => .error .emptyQueue
    | emptyIndex :: emptyClients => .ok (emptyIndex, { s.grow with emptyClients })

def getClientByIndex (s : ClientManager) (index : Nat) : Except Fault UserInfo :=
  match s.clientInfos[index]? with
  | none => .error .outOfRange
  | some c => .ok c

def setClient (s : ClientManager) (index : Nat) (c : UserInfo) : ClientManager :=
  { s with clientInfos := s.clientInfos.set index c }

def createClient (s : ClientManager) (socket : Socket) (outcome : ConnectOutcome) :
    Except Fault (Bool × ClientManager) := do
  let (index, s) ← s.getEmptyClient
  if index = s.maxClientCount then return (false, s)
  else
    let c ← s.getClientByIndex index
    let (connected, c) := c.connect socket outcome
    let s := s.setClient index c
    return if connected then (true, { s with clientCount := s.clientCount + 1 }) else (false, s)

/-- What the two overloads of `CloseClient` do once they have a client and the index to be given
back. -/
def closeClientAt (s : ClientManager) (client index : Nat) (c : UserInfo) : ClientManager :=
  if c.isConnected = false then s
  else
    { s.setClient client c.close with
      emptyClients := s.emptyClients ++ [index]
      clientCount := s.clientCount - 1 }

def closeClient (s : ClientManager) (index : Nat) : Except Fault ClientManager := do
  let c ← s.getClientByIndex index
  return s.closeClientAt index index c

def closeClientPtr (s : ClientManager) (client : Nat) : Except Fault ClientManager := do
  let c ← s.getClientByIndex client
  return s.closeClientAt client c.index c

def post (s : ClientManager) (index : Nat) (posted : Bool) : Except Fault ClientManager := do
  let c ← s.getClientByIndex index
  return s.setClient index (c.posted posted).2

def sendMsg (s : ClientManager) (index : Nat) (sent : Bool) : Except Fault ClientManager :=
  s.post index sent

def bindRecv (s : ClientManager) (index : Nat) (bound : Bool) : Except Fault ClientManager :=
  s.post index bound

inductive Action
  | createClient (socket : Socket) (outcome : ConnectOutcome)
  | closeClient (index : Nat)
  | closeClientPtr (client : Nat)
  | sendMsg (index : Nat) (sent : Bool)
  | bindRecv (index : Nat) (bound : Bool)

def step (s : ClientManager) : Action → Except Fault ClientManager
  | .createClient socket outcome => do
    let (_, s) ← s.createClient socket outcome
    return s
  | .closeClient index => s.closeClient index
  | .closeClientPtr client => s.closeClientPtr client
  | .sendMsg index sent => s.sendMsg index sent
  | .bindRecv index bound => s.bindRecv index bound

def system (maxClientCount : Nat) : System ClientManager Action Fault where
  init := new maxClientCount
  step := step

def connected (s : ClientManager) (i : Nat) : Bool := s.clientInfos[i]?.any UserInfo.isConnected

def connectedCount (s : ClientManager) : Nat := s.clientInfos.countP UserInfo.isConnected

theorem getClientByIndex_ok_iff {s : ClientManager} {i : Nat} {c : UserInfo} :
    s.getClientByIndex i = .ok c ↔ s.clientInfos[i]? = some c := by
  unfold getClientByIndex
  split <;> simp_all

theorem connected_of_getElem? {s : ClientManager} {i : Nat} {c : UserInfo}
    (h : s.clientInfos[i]? = some c) : s.connected i = c.isConnected := by
  simp [connected, h]

theorem connected_setClient {s : ClientManager} {i : Nat}
    (hi : i < s.clientInfos.length) (c' : UserInfo) (j : Nat) :
    (s.setClient i c').connected j = if j = i then c'.isConnected else s.connected j := by
  simp only [connected, setClient, List.getElem?_set]
  by_cases hj : j = i
  · subst hj
    simp [hi]
  · simp [hj, Ne.symm hj]

theorem connectedCount_setClient {s : ClientManager} {i : Nat} {c : UserInfo}
    (h : s.clientInfos[i]? = some c) (c' : UserInfo) :
    (s.setClient i c').connectedCount + (if c.isConnected then 1 else 0) =
      s.connectedCount + if c'.isConnected then 1 else 0 := by
  obtain ⟨hi, rfl⟩ := List.getElem?_eq_some_iff.mp h
  have hle : (if s.clientInfos[i].isConnected then 1 else 0) ≤ s.connectedCount := by
    split
    · rename_i hc
      exact List.countP_pos_iff.mpr ⟨_, List.getElem_mem hi, hc⟩
    · exact Nat.zero_le _
  simp only [connectedCount, setClient, List.countP_set hi] at hle ⊢
  omega

/-! What each operation does when it returns. -/

theorem getEmptyClient_ok_iff {s s' : ClientManager} {i : Nat} :
    s.getEmptyClient = .ok (i, s') ↔
      s.clientCount = s.maxClientCount ∧ i = s.maxClientCount ∧ s' = s ∨
        s.clientCount ≠ s.maxClientCount ∧ ∃ emptyClients,
          s.grow.emptyClients = i :: emptyClients ∧ s' = { s.grow with emptyClients } := by
  unfold getEmptyClient
  split
  · rename_i hfull
    simp [hfull, eq_comm]
  · rename_i hfull
    cases hq : s.grow.emptyClients with
    | nil => simp [hfull]
    | cons j emptyClients =>
      simp only [Except.ok.injEq, Prod.mk.injEq, hfull, false_and, not_false_eq_true, true_and,
        false_or, List.cons.injEq, ne_eq]
      constructor
      · rintro ⟨rfl, rfl⟩
        exact ⟨_, ⟨rfl, rfl⟩, rfl⟩
      · rintro ⟨_, ⟨rfl, rfl⟩, rfl⟩
        exact ⟨rfl, rfl⟩

end ClientManager

end ChattingServer.V10
