import ChattingServer.Lib.Progress
import ChattingServer.V10.Server.ClientManager

namespace ChattingServer.V10

open Lib

/-- What a call of `GetQueuedCompletionStatus` hands over. -/
structure Dequeued where
  bSuccess : Bool
  dwIoSize : Nat
  lpOverlapped : Option IOOperation
  deriving DecidableEq

def Dequeued.null : Dequeued := ⟨true, 0, none⟩

inductive WorkerThread
  | loopTest
  | blocked
  | dequeued (completion : Dequeued)
  | returned
  deriving DecidableEq

def WorkerThread.turns : WorkerThread → Nat
  | .blocked => 3
  | .dequeued _ => 2
  | .loopTest => 1
  | .returned => 0

inductive AccepterThread
  | loopTest
  | accepting
  | accepted
  | returned
  deriving DecidableEq

def AccepterThread.turns : AccepterThread → Nat
  | .accepting | .accepted => 2
  | .loopTest => 1
  | .returned => 0

inductive PacketThread
  | loopTest
  | dequeued
  | returned
  deriving DecidableEq

def PacketThread.turns : PacketThread → Nat
  | .dequeued => 2
  | .loopTest => 1
  | .returned => 0

inductive CloseServer
  | notCalled
  | joinWorker (i : Nat)
  | closeSocket
  | clearAccepter
  | joinAccepter
  | clearPacket
  | joinPacket
  | returned
  deriving DecidableEq

def CloseServer.stages : CloseServer → Nat
  | .notCalled => 8
  | .joinWorker _ => 7
  | .closeSocket => 6
  | .clearAccepter => 5
  | .joinAccepter => 4
  | .clearPacket => 3
  | .joinPacket => 2
  | .returned => 0

/-- The server after `Run`, as far as its threads wait for each other. -/
structure IOCPServer where
  isWorkerRun : Bool
  isAccepterRun : Bool
  isPacketRun : Bool
  listening : Bool
  port : List Dequeued
  workers : List WorkerThread
  accepter : AccepterThread
  packetThread : PacketThread
  closeServer : CloseServer

namespace IOCPServer

inductive Action
  /-- An I/O operation completes. -/
  | complete (bSuccess : Bool) (dwIoSize : Nat) (io : IOOperation)
  /-- `GetQueuedCompletionStatus` fails and takes no completion. -/
  | dequeueFails (i : Nat)
  /-- `accept` returns, with a socket or without one. -/
  | accept (connected : Bool)
  /-- The port gives a completion, any of those it has, to a thread that waits for one. -/
  | dequeue (i j : Nat)
  | worker (i : Nat)
  | accepter
  | packetThread
  | closeServer

def init (n : Nat) : IOCPServer where
  isWorkerRun := true
  isAccepterRun := true
  isPacketRun := true
  listening := true
  port := []
  workers := List.replicate n .loopTest
  accepter := .loopTest
  packetThread := .loopTest
  closeServer := .notCalled

def setWorker (s : IOCPServer) (i : Nat) (w : WorkerThread) : IOCPServer :=
  { s with workers := s.workers.set i w }

def dequeueFails (s : IOCPServer) (i : Nat) : Except Fault IOCPServer :=
  match s.workers[i]? with
  | some .blocked => .ok (s.setWorker i (.dequeued ⟨false, 0, none⟩))
  | _ => .error .disabled

def accept (s : IOCPServer) (connected : Bool) : Except Fault IOCPServer :=
  match s.accepter with
  | .accepting => .ok { s with accepter := if connected then .accepted else .loopTest }
  | _ => .error .disabled

def dequeue (s : IOCPServer) (i j : Nat) : Except Fault IOCPServer :=
  match s.workers[i]?, s.port[j]? with
  | some .blocked, some completion =>
    .ok ({ s with port := s.port.eraseIdx j }.setWorker i (.dequeued completion))
  | _, _ => .error .disabled

/-- The test of the loop, or the rest of a round with what was dequeued: whichever branch it takes,
it comes back to the test. -/
def worker (s : IOCPServer) (i : Nat) : Except Fault IOCPServer :=
  match s.workers[i]? with
  | some .loopTest => .ok (s.setWorker i (if s.isWorkerRun then .blocked else .returned))
  | some (.dequeued completion) => .ok ({ s with
      isWorkerRun := s.isWorkerRun && completion != Dequeued.null }.setWorker i .loopTest)
  | _ => .error .disabled

/-- `accept` on a socket that has been closed returns at once. -/
def accepterThread (s : IOCPServer) : Except Fault IOCPServer :=
  match s.accepter with
  | .loopTest => .ok { s with accepter := if s.isAccepterRun then .accepting else .returned }
  | .accepting => if s.listening then .error .disabled else .ok { s with accepter := .loopTest }
  | .accepted => .ok { s with accepter := .loopTest }
  | .returned => .error .disabled

def run (s : IOCPServer) : Except Fault IOCPServer :=
  match s.packetThread with
  | .loopTest => .ok { s with packetThread := if s.isPacketRun then .dequeued else .returned }
  | .dequeued => .ok { s with packetThread := .loopTest }
  | .returned => .error .disabled

def close (s : IOCPServer) : Except Fault IOCPServer :=
  match s.closeServer with
  | .notCalled => .ok { s with isWorkerRun := false, closeServer := .joinWorker 0 }
  | .joinWorker i =>
    match s.workers[i]? with
    | none => .ok { s with closeServer := .closeSocket }
    | some .returned => .ok { s with closeServer := .joinWorker (i + 1) }
    | some _ => .error .disabled
  | .closeSocket => .ok { s with listening := false, closeServer := .clearAccepter }
  | .clearAccepter => .ok { s with isAccepterRun := false, closeServer := .joinAccepter }
  | .joinAccepter =>
    if s.accepter = .returned then .ok { s with closeServer := .clearPacket } else .error .disabled
  | .clearPacket => .ok { s with isPacketRun := false, closeServer := .joinPacket }
  | .joinPacket =>
    if s.packetThread = .returned then .ok { s with closeServer := .returned } else .error .disabled
  | .returned => .error .disabled

def step (s : IOCPServer) : Action → Except Fault IOCPServer
  | .complete bSuccess dwIoSize io =>
    .ok { s with port := s.port ++ [⟨bSuccess, dwIoSize, some io⟩] }
  | .dequeueFails i => s.dequeueFails i
  | .accept connected => if s.listening then s.accept connected else .error .disabled
  | .dequeue i j => s.dequeue i j
  | .worker i => s.worker i
  | .accepter => s.accepterThread
  | .packetThread => s.run
  | .closeServer => s.close

def system (n : Nat) : System IOCPServer Action Fault where
  init := init n
  step := step

inductive Stepped (s : IOCPServer) : Action → IOCPServer → Prop
  | complete {bSuccess : Bool} {dwIoSize : Nat} {io : IOOperation} :
    Stepped s (.complete bSuccess dwIoSize io)
      { s with port := s.port ++ [⟨bSuccess, dwIoSize, some io⟩] }
  | dequeueFails {i : Nat} (blocked : s.workers[i]? = some .blocked) :
    Stepped s (.dequeueFails i) (s.setWorker i (.dequeued ⟨false, 0, none⟩))
  | accept {connected : Bool} (listening : s.listening = true)
    (accepting : s.accepter = .accepting) :
    Stepped s (.accept connected)
      { s with accepter := if connected then .accepted else .loopTest }
  | dequeue {i j : Nat} {completion : Dequeued} (blocked : s.workers[i]? = some .blocked)
    (taken : s.port[j]? = some completion) :
    Stepped s (.dequeue i j)
      ({ s with port := s.port.eraseIdx j }.setWorker i (.dequeued completion))
  | workerTest {i : Nat} (loopTest : s.workers[i]? = some .loopTest) :
    Stepped s (.worker i) (s.setWorker i (if s.isWorkerRun then .blocked else .returned))
  | workerRound {i : Nat} {completion : Dequeued}
    (dequeued : s.workers[i]? = some (.dequeued completion)) :
    Stepped s (.worker i) ({ s with
      isWorkerRun := s.isWorkerRun && completion != Dequeued.null }.setWorker i .loopTest)
  | accepterTest (loopTest : s.accepter = .loopTest) :
    Stepped s .accepter { s with accepter := if s.isAccepterRun then .accepting else .returned }
  | accepterRound (round : s.accepter = .accepting ∧ s.listening = false ∨ s.accepter = .accepted) :
    Stepped s .accepter { s with accepter := .loopTest }
  | packetTest (loopTest : s.packetThread = .loopTest) :
    Stepped s .packetThread
      { s with packetThread := if s.isPacketRun then .dequeued else .returned }
  | packetRound (dequeued : s.packetThread = .dequeued) :
    Stepped s .packetThread { s with packetThread := .loopTest }
  | clearWorker (stage : s.closeServer = .notCalled) :
    Stepped s .closeServer { s with isWorkerRun := false, closeServer := .joinWorker 0 }
  | joinWorker {i : Nat} (stage : s.closeServer = .joinWorker i)
    (returned : s.workers[i]? = some .returned) :
    Stepped s .closeServer { s with closeServer := .joinWorker (i + 1) }
  | joined {i : Nat} (stage : s.closeServer = .joinWorker i) (all : s.workers[i]? = none) :
    Stepped s .closeServer { s with closeServer := .closeSocket }
  | closeSocket (stage : s.closeServer = .closeSocket) :
    Stepped s .closeServer { s with listening := false, closeServer := .clearAccepter }
  | clearAccepter (stage : s.closeServer = .clearAccepter) :
    Stepped s .closeServer { s with isAccepterRun := false, closeServer := .joinAccepter }
  | joinAccepter (stage : s.closeServer = .joinAccepter) (returned : s.accepter = .returned) :
    Stepped s .closeServer { s with closeServer := .clearPacket }
  | clearPacket (stage : s.closeServer = .clearPacket) :
    Stepped s .closeServer { s with isPacketRun := false, closeServer := .joinPacket }
  | joinPacket (stage : s.closeServer = .joinPacket) (returned : s.packetThread = .returned) :
    Stepped s .closeServer { s with closeServer := .returned }

theorem step_ok_iff {s s' : IOCPServer} {a : Action} : s.step a = .ok s' ↔ s.Stepped a s' := by
  constructor
  · intro h
    cases a with
    | complete bSuccess dwIoSize io =>
      cases h
      exact .complete
    | dequeueFails i =>
      simp only [step, dequeueFails] at h
      split at h <;> cases h
      exact .dequeueFails ‹_›
    | accept connected =>
      simp only [step, accept] at h
      split at h
      · split at h <;> cases h
        exact .accept ‹_› ‹_›
      · contradiction
    | dequeue i j =>
      simp only [step, dequeue] at h
      split at h <;> cases h
      exact .dequeue ‹_› ‹_›
    | worker i =>
      simp only [step, worker] at h
      split at h <;> cases h
      · exact .workerTest ‹_›
      · exact .workerRound ‹_›
    | accepter =>
      simp only [step, accepterThread] at h
      split at h
      · cases h
        exact .accepterTest ‹_›
      · split at h <;> cases h
        exact .accepterRound (.inl ⟨‹_›, by simpa using ‹¬ s.listening = true›⟩)
      · cases h
        exact .accepterRound (.inr ‹_›)
      · contradiction
    | packetThread =>
      simp only [step, run] at h
      split at h <;> cases h
      · exact .packetTest ‹_›
      · exact .packetRound ‹_›
    | closeServer =>
      simp only [step, close] at h
      split at h
      · cases h
        exact .clearWorker ‹_›
      · split at h <;> cases h
        · exact .joined ‹_› ‹_›
        · exact .joinWorker ‹_› ‹_›
      · cases h
        exact .closeSocket ‹_›
      · cases h
        exact .clearAccepter ‹_›
      · split at h <;> cases h
        exact .joinAccepter ‹_› ‹_›
      · cases h
        exact .clearPacket ‹_›
      · split at h <;> cases h
        exact .joinPacket ‹_› ‹_›
      · contradiction
  · intro h
    cases h with
    | complete => rfl
    | dequeueFails blocked => simp [step, dequeueFails, blocked]
    | accept listening accepting => simp [step, accept, listening, accepting]
    | dequeue blocked taken => simp [step, dequeue, blocked, taken]
    | workerTest loopTest => simp [step, worker, loopTest]
    | workerRound dequeued => simp [step, worker, dequeued]
    | accepterTest loopTest => simp [step, accepterThread, loopTest]
    | accepterRound round =>
      rcases round with ⟨accepting, closed⟩ | accepted
      · simp [step, accepterThread, accepting, closed]
      · simp [step, accepterThread, accepted]
    | packetTest loopTest => simp [step, run, loopTest]
    | packetRound dequeued => simp [step, run, dequeued]
    | clearWorker stage | closeSocket stage | clearAccepter stage | clearPacket stage =>
      simp [step, close, stage]
    | joinWorker stage returned | joinAccepter stage returned | joinPacket stage returned =>
      simp [step, close, stage, returned]
    | joined stage all => simp [step, close, stage, all]

def waiting (s : IOCPServer) : Nat := s.workers.countP (· = .blocked)

theorem waiting_set {l : List WorkerThread} {i : Nat} {w : WorkerThread} (h : l[i]? = some w)
    (w' : WorkerThread) : (l.set i w').countP (· = .blocked) + (if w = .blocked then 1 else 0) =
      l.countP (· = .blocked) + if w' = .blocked then 1 else 0 := by
  have hcount := countP_set_add (p := (· = WorkerThread.blocked)) h w'
  simp only [decide_eq_true_eq] at hcount
  exact hcount

def Joined (s : IOCPServer) : Prop := ∀ w ∈ s.workers, w = .returned

def Passed (s : IOCPServer) : Prop :=
  match s.closeServer with
  | .notCalled => True
  | .joinWorker i => s.isWorkerRun = false ∧ ∀ w ∈ s.workers.take i, w = .returned
  | .closeSocket | .clearPacket | .returned => s.Joined
  | .clearAccepter => s.Joined ∧ s.listening = false
  | .joinAccepter => s.Joined ∧ s.listening = false ∧ s.isAccepterRun = false
  | .joinPacket => s.Joined ∧ s.isPacketRun = false

theorem Passed.moveWorker {s : IOCPServer} (h : Passed s) {i : Nat} {w : WorkerThread}
    (hw : s.workers[i]? = some w) (hne : w ≠ .returned) (w' : WorkerThread) {run : Bool}
    (hrun : s.isWorkerRun = false → run = false) (port : List Dequeued) :
    Passed ({ s with isWorkerRun := run, port }.setWorker i w') := by
  have hnot : ¬ s.Joined := fun hjoined => hne (hjoined w (List.mem_of_getElem? hw))
  unfold Passed at h
  split at h
  · rename_i stage
    simp [Passed, setWorker, stage]
  · rename_i k stage
    have hle : k ≤ i := by
      by_contra hlt
      refine hne (h.2 w (List.mem_of_getElem? (i := i) ?_))
      rw [List.getElem?_take_of_lt (Nat.not_le.mp hlt), hw]
    simp only [Passed, setWorker, stage, List.take_set_of_le hle]
    exact ⟨hrun h.1, h.2⟩
  · exact absurd h hnot
  · exact absurd h hnot
  · exact absurd h hnot
  · exact absurd h.1 hnot
  · exact absurd h.1 hnot
  · exact absurd h.1 hnot

theorem Passed.stepped {s s' : IOCPServer} (h : Passed s) {a : Action} (hs : s.Stepped a s') :
    Passed s' := by
  cases hs with
  | complete | accept | accepterTest | accepterRound | packetTest | packetRound => exact h
  | dequeueFails blocked => exact h.moveWorker blocked (by rintro ⟨⟩) _ id _
  | dequeue blocked => exact h.moveWorker blocked (by rintro ⟨⟩) _ id _
  | workerTest loopTest => exact h.moveWorker loopTest (by rintro ⟨⟩) _ id _
  | workerRound dequeued =>
    exact h.moveWorker dequeued (by rintro ⟨⟩) _ (fun hrun => by simp [hrun]) _
  | clearWorker => exact ⟨rfl, List.forall_mem_nil _⟩
  | @joinWorker i stage returned =>
    rw [Passed, stage] at h
    refine ⟨h.1, fun w hw => ?_⟩
    rw [List.take_add_one, returned] at hw
    rcases List.mem_append.mp hw with hw | hw
    · exact h.2 w hw
    · exact List.mem_singleton.mp hw
  | @joined i stage all =>
    rw [Passed, stage] at h
    have hall := h.2
    rwa [List.take_of_length_le (List.getElem?_eq_none_iff.mp all)] at hall
  | closeSocket stage =>
    rw [Passed, stage] at h
    exact ⟨h, rfl⟩
  | clearAccepter stage =>
    rw [Passed, stage] at h
    exact ⟨h.1, h.2, rfl⟩
  | joinAccepter stage returned =>
    rw [Passed, stage] at h
    exact h.1
  | clearPacket stage =>
    rw [Passed, stage] at h
    exact ⟨h, rfl⟩
  | joinPacket stage returned =>
    rw [Passed, stage] at h
    exact h.1

theorem passed_of_reachable {n : Nat} {s : IOCPServer} (h : (system n).Reachable s) : Passed s :=
  h.invariant (P := Passed) (by exact trivial) fun _ _ _ _ hp _ hs => hp.stepped (step_ok_iff.mp hs)

/-! What it takes until `CloseServer` returns. -/

def wakes : Action → Nat
  | .complete _ _ _ | .dequeueFails _ => 1
  | _ => 0

def unserved (s : IOCPServer) : Int := s.waiting - s.port.length

theorem unserved_le_stepped {s s' : IOCPServer} {a : Action} (hs : s.Stepped a s') :
    s.unserved ≤ s'.unserved + wakes a := by
  cases hs with
  | complete =>
    simp only [unserved, waiting, wakes, List.length_append, List.length_singleton]
    omega
  | dequeueFails blocked =>
    have hmove := waiting_set blocked (.dequeued ⟨false, 0, none⟩)
    simp only [reduceCtorEq, if_false, if_true] at hmove
    simp only [unserved, waiting, setWorker, wakes]
    omega
  | @dequeue i j completion blocked taken =>
    have hmove := waiting_set blocked (.dequeued completion)
    obtain ⟨hj, -⟩ := List.getElem?_eq_some_iff.mp taken
    simp only [reduceCtorEq, if_false, if_true] at hmove
    simp only [unserved, waiting, setWorker, wakes, List.length_eraseIdx_of_lt hj]
    omega
  | workerTest loopTest =>
    have hmove := waiting_set loopTest (if s.isWorkerRun then .blocked else .returned)
    simp only [reduceCtorEq, if_false] at hmove
    simp only [unserved, waiting, setWorker, wakes]
    omega
  | workerRound dequeued =>
    have hmove := waiting_set dequeued .loopTest
    simp only [reduceCtorEq, if_false] at hmove
    simp only [unserved, waiting, setWorker, wakes]
    omega
  | accept | accepterTest | accepterRound | packetTest | packetRound | clearWorker | joinWorker
  | joined | closeSocket | clearAccepter | joinAccepter | clearPacket | joinPacket =>
    exact Int.le_add_of_nonneg_right (Int.natCast_nonneg _)

def toJoin (s : IOCPServer) : Nat :=
  match s.closeServer with
  | .notCalled => s.workers.length
  | .joinWorker i => s.workers.length - i
  | _ => 0

def rank (s : IOCPServer) : Nat :=
  s.closeServer.stages + s.toJoin + (s.workers.map WorkerThread.turns).sum + s.accepter.turns +
    s.packetThread.turns

theorem rank_moveWorker {s : IOCPServer} {i : Nat} {w : WorkerThread}
    (hw : s.workers[i]? = some w) (w' : WorkerThread) (hturns : w'.turns < w.turns) (run : Bool)
    (port : List Dequeued) :
    ({ s with isWorkerRun := run, port }.setWorker i w').rank < s.rank := by
  have hsum := sum_map_set WorkerThread.turns hw w'
  have hjoin : ({ s with isWorkerRun := run, port }.setWorker i w').toJoin = s.toJoin := by
    simp only [toJoin, setWorker, List.length_set]
  simp only [rank, hjoin]
  simp only [setWorker]
  omega

theorem exists_workerTurn {s : IOCPServer} (hflag : s.isWorkerRun = false)
    (hserved : s.unserved ≤ 0) {i : Nat} {w : WorkerThread} (hw : s.workers[i]? = some w)
    (hne : w ≠ .returned) :
    ∃ a s', wakes a = 0 ∧ s.Stepped a s' ∧ s'.unserved ≤ 0 ∧ s'.rank < s.rank := by
  cases w with
  | returned => exact absurd rfl hne
  | loopTest =>
    refine ⟨_, _, rfl, .workerTest hw, ?_, ?_⟩
    · have hmove := waiting_set hw .returned
      simp only [reduceCtorEq, if_false] at hmove
      simp only [unserved, waiting] at hserved
      simp only [unserved, waiting, setWorker, hflag, Bool.false_eq_true, if_false]
      omega
    · rw [hflag]
      exact rank_moveWorker hw .returned (by decide) s.isWorkerRun s.port
  | dequeued completion =>
    refine ⟨_, _, rfl, .workerRound hw, ?_, rank_moveWorker hw .loopTest Nat.one_lt_two _ _⟩
    have hmove := waiting_set hw .loopTest
    simp only [reduceCtorEq, if_false] at hmove
    simp only [unserved, waiting] at hserved
    simp only [unserved, waiting, setWorker]
    omega
  | blocked =>
    have hmove := fun c => waiting_set hw (.dequeued c)
    simp only [reduceCtorEq, if_false, if_true] at hmove
    simp only [unserved, waiting] at hserved
    have hpos : 0 < s.workers.countP (· = .blocked) :=
      List.countP_pos_iff.mpr ⟨_, List.mem_of_getElem? hw, by simp⟩
    have hport : 0 < s.port.length := by omega
    refine ⟨_, _, rfl, .dequeue hw (List.getElem?_eq_getElem hport), ?_,
      rank_moveWorker hw (.dequeued _) (Nat.lt_succ_self 2) s.isWorkerRun _⟩
    have hmove := hmove s.port[0]
    simp only [unserved, waiting, setWorker, List.length_eraseIdx_of_lt hport]
    omega

theorem Passed.turn {s : IOCPServer} (h : Passed s) (hserved : s.unserved ≤ 0) :
    s.closeServer = .returned ∨
      ∃ a s', wakes a = 0 ∧ s.Stepped a s' ∧ s'.unserved ≤ 0 ∧ s'.rank < s.rank := by
  unfold Passed at h
  split at h
  · rename_i stage
    refine .inr ⟨_, _, rfl, .clearWorker stage, hserved, ?_⟩
    simp [rank, toJoin, stage, CloseServer.stages]
  · rename_i i stage
    cases hw : s.workers[i]? with
    | none =>
      refine .inr ⟨_, _, rfl, .joined stage hw, hserved, ?_⟩
      simp only [rank, toJoin, stage, CloseServer.stages]
      omega
    | some w =>
      by_cases hreturned : w = .returned
      · subst hreturned
        obtain ⟨hi, -⟩ := List.getElem?_eq_some_iff.mp hw
        refine .inr ⟨_, _, rfl, .joinWorker stage hw, hserved, ?_⟩
        simp only [rank, toJoin, stage, CloseServer.stages]
        omega
      · exact .inr (exists_workerTurn h.1 hserved hw hreturned)
  · rename_i stage
    refine .inr ⟨_, _, rfl, .closeSocket stage, hserved, ?_⟩
    simp [rank, toJoin, stage, CloseServer.stages]
  · rename_i stage
    refine .inr ⟨_, _, rfl, .clearPacket stage, hserved, ?_⟩
    simp [rank, toJoin, stage, CloseServer.stages]
  · exact .inl ‹_›
  · rename_i stage
    refine .inr ⟨_, _, rfl, .clearAccepter stage, hserved, ?_⟩
    simp [rank, toJoin, stage, CloseServer.stages]
  · rename_i stage
    obtain ⟨-, hclosed, hflag⟩ := h
    cases haccepter : s.accepter with
    | loopTest =>
      refine .inr ⟨_, _, rfl, .accepterTest haccepter, hserved, ?_⟩
      simp [rank, toJoin, haccepter, hflag, AccepterThread.turns]
    | accepting =>
      refine .inr ⟨_, _, rfl, .accepterRound (.inl ⟨haccepter, hclosed⟩), hserved, ?_⟩
      simp [rank, toJoin, haccepter, AccepterThread.turns]
    | accepted =>
      refine .inr ⟨_, _, rfl, .accepterRound (.inr haccepter), hserved, ?_⟩
      simp [rank, toJoin, haccepter, AccepterThread.turns]
    | returned =>
      refine .inr ⟨_, _, rfl, .joinAccepter stage haccepter, hserved, ?_⟩
      simp [rank, toJoin, stage, CloseServer.stages]
  · rename_i stage
    obtain ⟨-, hflag⟩ := h
    cases hpacket : s.packetThread with
    | loopTest =>
      refine .inr ⟨_, _, rfl, .packetTest hpacket, hserved, ?_⟩
      simp [rank, toJoin, hpacket, hflag, PacketThread.turns]
    | dequeued =>
      refine .inr ⟨_, _, rfl, .packetRound hpacket, hserved, ?_⟩
      simp [rank, toJoin, hpacket, PacketThread.turns]
    | returned =>
      refine .inr ⟨_, _, rfl, .joinPacket stage hpacket, hserved, ?_⟩
      simp [rank, toJoin, stage, CloseServer.stages]

theorem exists_closing {n : Nat} {s : IOCPServer} (h : Passed s) (hserved : s.unserved ≤ 0) :
    ∃ p s', (system n).Path (fun _ a => wakes a = 0) s p s' ∧ s'.closeServer = .returned := by
  refine System.exists_path (P := fun s => Passed s ∧ s.unserved ≤ 0) rank ?_ ⟨h, hserved⟩
  rintro s ⟨hpassed, hserved⟩
  refine (hpassed.turn hserved).imp_right ?_
  rintro ⟨a, s', hwakes, hstep, hserved', hrank⟩
  exact ⟨a, s', hwakes, step_ok_iff.mpr hstep, ⟨hpassed.stepped hstep, hserved'⟩, hrank⟩

/-- `CloseServer` returns after `k` more completions exactly if they are enough for the workers that
wait: it posts none itself. -/
theorem closeServer_returns_iff {n : Nat} {s : IOCPServer} (h : (system n).Reachable s) (k : Nat) :
    (∃ p s', (system n).Path (fun _ _ => True) s p s' ∧ System.costOf wakes p ≤ k ∧
      s'.closeServer = .returned) ↔ s.waiting ≤ s.port.length + k := by
  constructor
  · rintro ⟨p, s', hp, hcost, hreturned⟩
    have hdebt := hp.debt_le fun _ a _ _ hs => unserved_le_stepped (a := a) (step_ok_iff.mp hs)
    have hjoined := passed_of_reachable (hp.reach h)
    rw [Passed, hreturned] at hjoined
    have hnone : s'.waiting = 0 := by
      refine List.countP_eq_zero.mpr fun w hw => ?_
      simp [hjoined w hw]
    simp only [unserved, hnone] at hdebt
    omega
  · induction k generalizing s with
    | zero =>
      intro hle
      obtain ⟨p, s', hp, hreturned⟩ := exists_closing (n := n) (passed_of_reachable h)
        (by simp only [unserved]; omega)
      exact ⟨p, s', hp.mono fun _ _ _ => trivial,
        Nat.le_of_eq (System.costOf_eq_zero hp.forall), hreturned⟩
    | succ k ih =>
      intro hle
      have hstep : (system n).step s (.complete true 1 .recv) = .ok _ := rfl
      obtain ⟨p, s', hp, hcost, hreturned⟩ := ih (h.step trivial hstep)
        (by simp only [waiting, List.length_append, List.length_singleton] at hle ⊢; omega)
      refine ⟨_, s', .cons trivial hstep hp, ?_, hreturned⟩
      simp only [System.costOf, List.map_cons, List.sum_cons, wakes] at hcost ⊢
      omega

theorem closeServer_returns_iff_quiet :
    ∃ s, (system 2).Reachable s ∧ s.closeServer = .joinWorker 0 ∧
      (¬ ∃ p s', (system 2).Path (fun _ _ => True) s p s' ∧ System.costOf wakes p ≤ 0 ∧
        s'.closeServer = .returned) ∧
      ∃ p s', (system 2).Path (fun _ _ => True) s p s' ∧ System.costOf wakes p ≤ 1 ∧
        s'.closeServer = .returned := by
  obtain ⟨s, hs, hp⟩ := System.exists_of_run (S := system 2)
    (p := fun s => decide (s.closeServer = .joinWorker 0 ∧ s.waiting = 1 ∧ s.port = []))
    [.worker 0, .closeServer, .worker 1] (by decide)
  obtain ⟨hstage, hwaiting, hport⟩ := of_decide_eq_true hp
  refine ⟨s, hs, hstage, fun hreturns => ?_, (closeServer_returns_iff hs 1).mpr ?_⟩
  · have hle := (closeServer_returns_iff hs 0).mp hreturns
    rw [hwaiting, hport] at hle
    exact absurd hle (by decide)
  · rw [hwaiting, hport]
    decide

end IOCPServer

end ChattingServer.V10
