import Mathlib.Tactic.SplitIfs
import ChattingServer.Lib.Except
import ChattingServer.Lib.Progress

namespace ChattingServer.V11

open Lib

inductive ThreadFault
  /-- `join` of a thread that has been joined. -/
  | notJoinable
  /-- `join` of the calling thread. -/
  | selfJoin
  /-- Two threads are in `join` of one `std::thread`. -/
  | joinedTwice
  /-- A `std::thread` is destroyed before it has been joined. -/
  | notJoined
  /-- Not a fault of the program: the action cannot happen in this state. -/
  | disabled
  deriving DecidableEq

inductive CloseCall
  | callsJoinSend
  | joinsSend
  | callsJoinRecv
  | joinsRecv
  | clears
  | returned
  deriving DecidableEq

def CloseCall.stage : CloseCall → Nat
  | .callsJoinSend => 0
  | .joinsSend => 1
  | .callsJoinRecv => 2
  | .joinsRecv => 3
  | .clears => 4
  | .returned => 5

inductive SendThread
  | loopTest
  | sending
  | returned
  deriving DecidableEq

def SendThread.turns : SendThread → Nat
  | .loopTest => 1
  | .sending => 2
  | .returned => 0

inductive RecvThread
  | loopTest
  | receiving
  | closing (c : CloseCall)
  | returned
  deriving DecidableEq

def RecvThread.turns : RecvThread → Nat
  | .loopTest => 1
  | .receiving => 2
  | .closing _ => 3
  | .returned => 0

inductive MainThread
  | closing (c : CloseCall)
  | returned
  deriving DecidableEq

def MainThread.stage : MainThread → Nat
  | .closing c => c.stage
  | .returned => 6

/-- A client after `ConnectToServer`, as far as its threads wait for each other. -/
structure ClientBase where
  isWorkerRun : Bool
  sendJoinable : Bool
  recvJoinable : Bool
  logicJoinable : Bool
  jobJoinable : Bool
  sendThread : SendThread
  recvThread : RecvThread
  main : MainThread

namespace ClientBase

inductive Action
  /-- A round of `SendThread`, in which `send` may fail. -/
  | sendThread (failed : Bool)
  /-- A round of `RecvThread`, in which `recv` returns bytes or finds the connection closed. -/
  | recvThread (received : Bool)
  | main

def init : ClientBase where
  isWorkerRun := true
  sendJoinable := true
  recvJoinable := true
  logicJoinable := true
  jobJoinable := true
  sendThread := .loopTest
  recvThread := .loopTest
  main := .closing .callsJoinSend

/-- A step of `Close`.  `self` says that `RecvThread` has called it, and `other` is where the other
caller stands, if there is one. -/
def close (s : ClientBase) (self : Bool) (other : Option CloseCall) :
    CloseCall → Except ThreadFault (ClientBase × CloseCall)
  | .callsJoinSend =>
    if s.sendJoinable = false then .error .notJoinable
    else if other = some .joinsSend then .error .joinedTwice
    else .ok (s, .joinsSend)
  | .joinsSend =>
    if s.sendThread = .returned then .ok ({ s with sendJoinable := false }, .callsJoinRecv)
    else .error .disabled
  | .callsJoinRecv =>
    if s.recvJoinable = false then .error .notJoinable
    else if self then .error .selfJoin
    else if other = some .joinsRecv then .error .joinedTwice
    else .ok (s, .joinsRecv)
  | .joinsRecv =>
    if s.recvThread = .returned then .ok ({ s with recvJoinable := false }, .clears)
    else .error .disabled
  | .clears => .ok ({ s with isWorkerRun := false }, .returned)
  | .returned => .error .disabled

def sendLoop (s : ClientBase) (failed : Bool) : Except ThreadFault ClientBase :=
  match s.sendThread with
  | .loopTest => .ok { s with sendThread := if s.isWorkerRun then .sending else .returned }
  | .sending => .ok { s with isWorkerRun := s.isWorkerRun && !failed, sendThread := .loopTest }
  | .returned => .error .disabled

def mainClosing (s : ClientBase) : Option CloseCall :=
  match s.main with
  | .closing c => some c
  | .returned => none

def recvClosing (s : ClientBase) : Option CloseCall :=
  match s.recvThread with
  | .closing c => some c
  | _ => none

def recvLoop (s : ClientBase) (received : Bool) : Except ThreadFault ClientBase :=
  match s.recvThread with
  | .loopTest => .ok { s with recvThread := if s.isWorkerRun then .receiving else .returned }
  | .receiving =>
    .ok { s with recvThread := if received then .loopTest else .closing .callsJoinSend }
  | .closing .returned => .ok { s with recvThread := .returned }
  | .closing c => do
    let (s, c) ← s.close true s.mainClosing c
    return { s with recvThread := .closing c }
  | .returned => .error .disabled

/-- At the end of `main` the threads of the client are destroyed. -/
def mainThread (s : ClientBase) : Except ThreadFault ClientBase :=
  match s.main with
  | .closing .returned =>
    if s.sendJoinable || s.recvJoinable || s.logicJoinable || s.jobJoinable then .error .notJoined
    else .ok { s with main := .returned }
  | .closing c => do
    let (s, c) ← s.close false s.recvClosing c
    return { s with main := .closing c }
  | .returned => .error .disabled

def step (s : ClientBase) : Action → Except ThreadFault ClientBase
  | .sendThread failed => s.sendLoop failed
  | .recvThread received => s.recvLoop received
  | .main => s.mainThread

def system : System ClientBase Action ThreadFault where
  init := init
  step := step

inductive Closes (s : ClientBase) (self : Bool) (other : Option CloseCall) :
    CloseCall → ClientBase → CloseCall → Prop
  | callsJoinSend (joinable : s.sendJoinable = true) (alone : other ≠ some .joinsSend) :
    Closes s self other .callsJoinSend s .joinsSend
  | joinsSend (returned : s.sendThread = .returned) :
    Closes s self other .joinsSend { s with sendJoinable := false } .callsJoinRecv
  | callsJoinRecv (joinable : s.recvJoinable = true) (notSelf : self = false)
    (alone : other ≠ some .joinsRecv) : Closes s self other .callsJoinRecv s .joinsRecv
  | joinsRecv (returned : s.recvThread = .returned) :
    Closes s self other .joinsRecv { s with recvJoinable := false } .clears
  | clears : Closes s self other .clears { s with isWorkerRun := false } .returned

theorem close_ok_iff {s s' : ClientBase} {self : Bool} {other : Option CloseCall}
    {c c' : CloseCall} : s.close self other c = .ok (s', c') ↔ s.Closes self other c s' c' := by
  constructor
  · intro h
    cases c with
    | callsJoinSend =>
      simp only [close] at h
      split_ifs at h with hjoinable halone
      cases h
      exact .callsJoinSend (by simpa using hjoinable) halone
    | joinsSend =>
      simp only [close] at h
      split_ifs at h with hreturned
      cases h
      exact .joinsSend hreturned
    | callsJoinRecv =>
      simp only [close] at h
      split_ifs at h with hjoinable hself halone
      cases h
      exact .callsJoinRecv (by simpa using hjoinable) (by simpa using hself) halone
    | joinsRecv =>
      simp only [close] at h
      split_ifs at h with hreturned
      cases h
      exact .joinsRecv hreturned
    | clears =>
      cases h
      exact .clears
    | returned => cases h
  · intro h
    cases h with
    | callsJoinSend joinable alone => simp [close, joinable, alone]
    | joinsSend returned | joinsRecv returned => simp [close, returned]
    | callsJoinRecv joinable notSelf alone => simp [close, joinable, notSelf, alone]
    | clears => rfl

inductive Stepped (s : ClientBase) : Action → ClientBase → Prop
  | sendTest {failed : Bool} (loopTest : s.sendThread = .loopTest) :
    Stepped s (.sendThread failed)
      { s with sendThread := if s.isWorkerRun then .sending else .returned }
  | sent {failed : Bool} (sending : s.sendThread = .sending) :
    Stepped s (.sendThread failed)
      { s with isWorkerRun := s.isWorkerRun && !failed, sendThread := .loopTest }
  | recvTest {received : Bool} (loopTest : s.recvThread = .loopTest) :
    Stepped s (.recvThread received)
      { s with recvThread := if s.isWorkerRun then .receiving else .returned }
  | received {received : Bool} (receiving : s.recvThread = .receiving) :
    Stepped s (.recvThread received)
      { s with recvThread := if received then .loopTest else .closing .callsJoinSend }
  | recvCloses {received : Bool} {c c' : CloseCall} {s' : ClientBase}
    (closing : s.recvThread = .closing c) (closes : s.Closes true s.mainClosing c s' c') :
    Stepped s (.recvThread received) { s' with recvThread := .closing c' }
  | recvReturns {received : Bool} (closing : s.recvThread = .closing .returned) :
    Stepped s (.recvThread received) { s with recvThread := .returned }
  | mainCloses {c c' : CloseCall} {s' : ClientBase} (closing : s.main = .closing c)
    (closes : s.Closes false s.recvClosing c s' c') :
    Stepped s .main { s' with main := .closing c' }
  | mainReturns (closing : s.main = .closing .returned)
    (joined : (s.sendJoinable || s.recvJoinable || s.logicJoinable || s.jobJoinable) = false) :
    Stepped s .main { s with main := .returned }

theorem step_ok_iff {s s' : ClientBase} {a : Action} : s.step a = .ok s' ↔ s.Stepped a s' := by
  constructor
  · intro h
    cases a with
    | sendThread failed =>
      simp only [step, sendLoop] at h
      split at h <;> cases h
      · exact .sendTest ‹_›
      · exact .sent ‹_›
    | recvThread received =>
      simp only [step, recvLoop] at h
      split at h
      · cases h
        exact .recvTest ‹_›
      · cases h
        exact .received ‹_›
      · cases h
        exact .recvReturns ‹_›
      · obtain ⟨⟨t, c'⟩, hclose, hs⟩ := bind_eq_ok_iff.mp h
        cases hs
        exact .recvCloses ‹_› (close_ok_iff.mp hclose)
      · contradiction
    | main =>
      simp only [step, mainThread] at h
      split at h
      · split at h <;> cases h
        rename_i hjoined
        exact .mainReturns ‹_› (by simpa using hjoined)
      · obtain ⟨⟨t, c'⟩, hclose, hs⟩ := bind_eq_ok_iff.mp h
        cases hs
        exact .mainCloses ‹_› (close_ok_iff.mp hclose)
      · contradiction
  · intro h
    cases h with
    | sendTest loopTest => simp [step, sendLoop, loopTest]
    | sent sending => simp [step, sendLoop, sending]
    | recvTest loopTest => simp [step, recvLoop, loopTest]
    | received receiving => simp [step, recvLoop, receiving]
    | recvCloses closing closes =>
      have hclose := close_ok_iff.mpr closes
      cases closes <;> simp [step, recvLoop, closing, hclose]
    | recvReturns closing => simp [step, recvLoop, closing]
    | mainCloses closing closes =>
      have hclose := close_ok_iff.mpr closes
      cases closes <;> simp [step, mainThread, closing, hclose]
    | mainReturns closing joined => simp [step, mainThread, closing, joined]

def RecvCloses (s : ClientBase) : Prop := s.recvClosing ≠ none

theorem recvCloses_iff {s : ClientBase} :
    s.RecvCloses ↔ ∃ c, s.recvThread = .closing c := by
  unfold RecvCloses recvClosing
  cases s.recvThread <;> simp

structure Orderly (s : ClientBase) : Prop where
  sendReturned : s.sendThread = .returned → s.isWorkerRun = false
  recvReturned : s.recvThread = .returned → s.isWorkerRun = false
  recvCloses : ∀ c, s.recvThread = .closing c → c.stage ≤ 2
  mainPast : 4 ≤ s.main.stage → s.recvThread = .returned
  sendJoinable : s.main.stage ≤ 1 → ¬ s.RecvCloses → s.sendJoinable = true
  recvJoinable : s.main.stage ≤ 3 → s.recvJoinable = true
  logicJoinable : s.logicJoinable = true
  mainRuns : s.main ≠ .returned

theorem orderly_init : Orderly init where
  sendReturned := by rintro ⟨⟩
  recvReturned := by rintro ⟨⟩
  recvCloses := by rintro _ ⟨⟩
  mainPast h := absurd h (by decide)
  sendJoinable _ _ := rfl
  recvJoinable _ := rfl
  logicJoinable := rfl
  mainRuns := by rintro ⟨⟩

theorem Orderly.moveMain {s : ClientBase} (h : Orderly s) {c : CloseCall}
    {run sendJoinable recvJoinable : Bool} (hrun : s.isWorkerRun = false → run = false)
    (hpast : 4 ≤ c.stage → s.recvThread = .returned)
    (hsend : c.stage ≤ 1 → ¬ s.RecvCloses → sendJoinable = true)
    (hrecv : c.stage ≤ 3 → recvJoinable = true) :
    Orderly { s with isWorkerRun := run, sendJoinable, recvJoinable, main := .closing c } where
  sendReturned hreturned := hrun (h.sendReturned hreturned)
  recvReturned hreturned := hrun (h.recvReturned hreturned)
  recvCloses := h.recvCloses
  mainPast := hpast
  sendJoinable := hsend
  recvJoinable := hrecv
  logicJoinable := h.logicJoinable
  mainRuns := by rintro ⟨⟩

theorem Orderly.stepped {s s' : ClientBase} (h : Orderly s) {a : Action} (hs : s.Stepped a s') :
    Orderly s' := by
  cases hs with
  | sendTest loopTest =>
    refine { h with sendReturned := fun hreturned => ?_ }
    cases hrun : s.isWorkerRun with
    | false => rfl
    | true => simp [hrun] at hreturned
  | sent sending =>
    refine { h with sendReturned := by rintro ⟨⟩, recvReturned := fun hreturned => ?_ }
    have hrun : s.isWorkerRun = false := h.recvReturned hreturned
    simp [hrun]
  | recvTest loopTest =>
    have hnot : ¬ s.RecvCloses := by simp [recvCloses_iff, loopTest]
    refine { h with
      recvReturned := fun hreturned => ?_, recvCloses := fun c hc => ?_
      mainPast := fun hstage => ?_, sendJoinable := fun hstage _ => h.sendJoinable hstage hnot }
    · cases hrun : s.isWorkerRun with
      | false => rfl
      | true => simp [hrun] at hreturned
    · cases hrun : s.isWorkerRun <;> simp [hrun] at hc
    · rw [h.mainPast hstage] at loopTest
      contradiction
  | @received r receiving =>
    have hnot : ¬ s.RecvCloses := by simp [recvCloses_iff, receiving]
    refine { h with
      recvReturned := fun hreturned => ?_, recvCloses := fun c hc => ?_
      mainPast := fun hstage => ?_, sendJoinable := fun hstage _ => h.sendJoinable hstage hnot }
    · cases r <;> simp at hreturned
    · cases r with
      | false =>
        obtain rfl : CloseCall.callsJoinSend = c := by simpa using hc
        decide
      | true => simp at hc
    · rw [h.mainPast hstage] at receiving
      contradiction
  | @recvCloses _ c c' s' closing closes =>
    have hstage := h.recvCloses c closing
    have hpast : ¬ 4 ≤ s.main.stage := fun hmain => by
      rw [h.mainPast hmain] at closing
      contradiction
    cases closes with
    | callsJoinSend =>
      refine { h with
        recvReturned := by rintro ⟨⟩, recvCloses := ?_, mainPast := fun hmain => absurd hmain hpast
        sendJoinable := fun _ hnot => absurd (recvCloses_iff.mpr ⟨_, rfl⟩) hnot }
      rintro _ ⟨⟩
      decide
    | joinsSend =>
      refine { h with
        recvReturned := by rintro ⟨⟩, recvCloses := ?_, mainPast := fun hmain => absurd hmain hpast
        sendJoinable := fun _ hnot => absurd (recvCloses_iff.mpr ⟨_, rfl⟩) hnot }
      rintro _ ⟨⟩
      decide
    | callsJoinRecv _ notSelf => contradiction
    | joinsRecv | clears => exact absurd hstage (by decide)
  | recvReturns closing => exact absurd (h.recvCloses _ closing) (by decide)
  | @mainCloses c c' s' closing closes =>
    have hpast := h.mainPast
    have hrecv := h.recvJoinable
    rw [closing] at hpast hrecv
    cases closes with
    | callsJoinSend joinable =>
      exact h.moveMain id (fun hmain => absurd hmain (by decide)) (fun _ _ => joinable)
        fun _ => hrecv (by decide)
    | joinsSend =>
      exact h.moveMain id (fun hmain => absurd hmain (by decide))
        (fun hmain => absurd hmain (by decide)) fun _ => hrecv (by decide)
    | callsJoinRecv joinable =>
      exact h.moveMain id (fun hmain => absurd hmain (by decide))
        (fun hmain => absurd hmain (by decide)) fun _ => joinable
    | joinsRecv returned =>
      exact h.moveMain id (fun _ => returned) (fun hmain => absurd hmain (by decide))
        fun hmain => absurd hmain (by decide)
    | clears =>
      exact h.moveMain (fun _ => rfl) (fun _ => hpast (by decide))
        (fun hmain => absurd hmain (by decide)) fun hmain => absurd hmain (by decide)
  | mainReturns closing joined =>
    simp [h.logicJoinable] at joined

theorem orderly_of_reachable {s : ClientBase} (h : system.Reachable s) : Orderly s :=
  h.invariant orderly_init fun _ _ _ _ ho _ hs => ho.stepped (step_ok_iff.mp hs)

theorem Orderly.recvCloses_stepped {s s' : ClientBase} (h : Orderly s) {a : Action}
    (hs : s.Stepped a s') (hcloses : s.RecvCloses) : s'.RecvCloses := by
  cases hs with
  | sendTest | sent | mainReturns => exact hcloses
  | recvTest loopTest | received loopTest =>
    obtain ⟨c, hc⟩ := recvCloses_iff.mp hcloses
    rw [hc] at loopTest
    contradiction
  | recvCloses => exact recvCloses_iff.mpr ⟨_, rfl⟩
  | recvReturns closing => exact absurd (h.recvCloses _ closing) (by decide)
  | mainCloses _ closes => cases closes <;> exact hcloses

/-! What it takes until `Close` returns. -/

def sendFails : Action → Nat
  | .sendThread true => 1
  | _ => 0

def toFail (s : ClientBase) : Int := if s.isWorkerRun then 1 else 0

theorem Orderly.toFail_le_stepped {s s' : ClientBase} (h : Orderly s) {a : Action}
    (hs : s.Stepped a s') : s.toFail ≤ s'.toFail + sendFails a := by
  have hle : s.toFail ≤ s.toFail + sendFails a :=
    Int.le_add_of_nonneg_right (Int.natCast_nonneg _)
  cases hs with
  | sendTest | recvTest | received | recvReturns | mainReturns => exact hle
  | @sent failed =>
    cases hrun : s.isWorkerRun <;> cases failed <;> simp [toFail, sendFails, hrun]
  | recvCloses closing closes =>
    have hstage := h.recvCloses _ closing
    cases closes with
    | callsJoinSend | joinsSend | callsJoinRecv => exact hle
    | joinsRecv | clears => exact absurd hstage (by decide)
  | mainCloses closing closes =>
    cases closes with
    | callsJoinSend | joinsSend | callsJoinRecv | joinsRecv => exact hle
    | clears =>
      have hpast := h.mainPast
      rw [closing] at hpast
      simp [toFail, h.recvReturned (hpast (by decide)), sendFails]

def rank (s : ClientBase) : Nat := s.sendThread.turns + s.recvThread.turns + (6 - s.main.stage)

theorem Orderly.turn {s : ClientBase} (h : Orderly s) (hopen : ¬ s.RecvCloses)
    (hflag : s.isWorkerRun = false) :
    s.main = .closing .returned ∨ ∃ a s', sendFails a = 0 ∧ s.Stepped a s' ∧ ¬ s'.RecvCloses ∧
      s'.isWorkerRun = false ∧ s'.rank < s.rank := by
  cases hsend : s.sendThread with
  | loopTest =>
    refine .inr ⟨.sendThread false, _, rfl, .sendTest hsend, hopen, hflag, ?_⟩
    simp [rank, hsend, hflag, SendThread.turns]
  | sending =>
    refine .inr ⟨.sendThread false, _, rfl, .sent hsend, hopen, by simp [hflag], ?_⟩
    simp [rank, hsend, SendThread.turns]
  | returned =>
    cases hrecv : s.recvThread with
    | loopTest =>
      refine .inr ⟨.recvThread true, _, rfl, .recvTest hrecv, ?_, hflag, ?_⟩
      · simp [recvCloses_iff, hflag]
      · simp [rank, hrecv, hflag, RecvThread.turns]
    | receiving =>
      refine .inr ⟨.recvThread true, _, rfl, .received hrecv, ?_, hflag, ?_⟩
      · simp [recvCloses_iff]
      · simp [rank, hrecv, RecvThread.turns]
    | closing c => exact absurd (recvCloses_iff.mpr ⟨c, hrecv⟩) hopen
    | returned =>
      have hnone : s.recvClosing = none := not_not.mp hopen
      cases hmain : s.main with
      | returned => exact absurd hmain h.mainRuns
      | closing c =>
        have hjoinable := h.sendJoinable
        have hjoinable' := h.recvJoinable
        rw [hmain] at hjoinable hjoinable'
        cases c with
        | returned => exact .inl rfl
        | callsJoinSend =>
          refine .inr ⟨_, _, rfl, .mainCloses hmain (.callsJoinSend (hjoinable (by decide) hopen)
            (by simp [hnone])), hopen, hflag, ?_⟩
          simp [rank, hmain, MainThread.stage, CloseCall.stage]
        | joinsSend =>
          refine .inr ⟨_, _, rfl, .mainCloses hmain (.joinsSend hsend), hopen, hflag, ?_⟩
          simp [rank, hmain, MainThread.stage, CloseCall.stage]
        | callsJoinRecv =>
          refine .inr ⟨_, _, rfl, .mainCloses hmain (.callsJoinRecv (hjoinable' (by decide)) rfl
            (by simp [hnone])), hopen, hflag, ?_⟩
          simp [rank, hmain, MainThread.stage, CloseCall.stage]
        | joinsRecv =>
          refine .inr ⟨_, _, rfl, .mainCloses hmain (.joinsRecv hrecv), hopen, hflag, ?_⟩
          simp [rank, hmain, MainThread.stage, CloseCall.stage]
        | clears =>
          refine .inr ⟨_, _, rfl, .mainCloses hmain .clears, hopen, rfl, ?_⟩
          simp [rank, hmain, MainThread.stage, CloseCall.stage]

theorem Orderly.exists_close {s : ClientBase} (h : Orderly s) (hopen : ¬ s.RecvCloses)
    (hflag : s.isWorkerRun = false) :
    ∃ p s', system.Path (fun _ a => sendFails a = 0) s p s' ∧ s'.main = .closing .returned := by
  refine System.exists_path (P := fun s => Orderly s ∧ ¬ s.RecvCloses ∧ s.isWorkerRun = false)
    rank ?_ ⟨h, hopen, hflag⟩
  rintro s ⟨ho, hopen, hflag⟩
  refine (ho.turn hopen hflag).imp_right ?_
  rintro ⟨a, s', hcost, hstep, hopen', hflag', hrank⟩
  exact ⟨a, s', hcost, step_ok_iff.mpr hstep, ⟨ho.stepped hstep, hopen', hflag'⟩, hrank⟩

theorem Orderly.exists_fails {s : ClientBase} (h : Orderly s) (hrun : s.isWorkerRun = true) :
    ∃ p s', system.Path (fun _ _ => True) s p s' ∧ System.costOf sendFails p = 1 ∧
      s'.recvThread = s.recvThread ∧ s'.isWorkerRun = false := by
  have hfails : ∀ t : ClientBase, t.sendThread = .sending → ∃ s',
      system.step t (.sendThread true) = .ok s' ∧ s'.recvThread = t.recvThread ∧
      s'.isWorkerRun = false :=
    fun _ ht => ⟨_, step_ok_iff.mpr (.sent ht), rfl, Bool.and_false _⟩
  cases hsend : s.sendThread with
  | loopTest =>
    have htest : system.step s (.sendThread false) = .ok { s with sendThread := .sending } := by
      simp only [system, step, sendLoop, hsend, hrun, if_true]
    obtain ⟨s', hsent, hrecv, hflag⟩ := hfails { s with sendThread := .sending } rfl
    exact ⟨_, s', .cons trivial htest (.cons trivial hsent .nil), rfl, hrecv, hflag⟩
  | sending =>
    obtain ⟨s', hsent, hrecv, hflag⟩ := hfails s hsend
    exact ⟨_, s', .cons trivial hsent .nil, rfl, hrecv, hflag⟩
  | returned =>
    rw [h.sendReturned hsend] at hrun
    contradiction

def ReturnsWithin (s : ClientBase) (k : Nat) : Prop :=
  ∃ p s', system.Path (fun _ _ => True) s p s' ∧ System.costOf sendFails p ≤ k ∧
    s'.main = .closing .returned

/-- `Close` returns in `main` exactly if `RecvThread` has not called it too, and as long as the
loops run only after a send has failed.  `main` itself never returns. -/
theorem close_returns_iff {s : ClientBase} (h : system.Reachable s) :
    s.main ≠ .returned ∧
      ∀ k, s.ReturnsWithin k ↔ ¬ s.RecvCloses ∧ (s.isWorkerRun = true → 0 < k) := by
  have ho := orderly_of_reachable h
  refine ⟨ho.mainRuns, fun k => ⟨?_, ?_⟩⟩
  · rintro ⟨p, s', hp, hcost, hreturned⟩
    obtain ⟨ho', hpath⟩ := hp.keeps (P := Orderly)
      (fun _ _ _ ho _ hs => ho.stepped (step_ok_iff.mp hs)) ho
    have hrecv : s'.recvThread = .returned := ho'.mainPast (by rw [hreturned]; decide)
    refine ⟨fun hcloses => ?_, fun hrun => ?_⟩
    · obtain ⟨⟨-, hcloses'⟩, -⟩ := hp.keeps (P := fun s => Orderly s ∧ s.RecvCloses)
        (fun _ _ _ hc _ hs => ⟨hc.1.stepped (step_ok_iff.mp hs),
          hc.1.recvCloses_stepped (step_ok_iff.mp hs) hc.2⟩) ⟨ho, hcloses⟩
      obtain ⟨c, hc⟩ := recvCloses_iff.mp hcloses'
      rw [hrecv] at hc
      contradiction
    · have hdebt : s.toFail ≤ s'.toFail + System.costOf sendFails p :=
        hpath.debt_le fun _ _ _ hg hs => hg.1.toFail_le_stepped (step_ok_iff.mp hs)
      simp only [toFail, hrun, ho'.recvReturned hrecv, if_true, Bool.false_eq_true,
        if_false] at hdebt
      omega
  · rintro ⟨hopen, hk⟩
    cases hrun : s.isWorkerRun with
    | false =>
      obtain ⟨p, s', hp, hreturned⟩ := ho.exists_close hopen hrun
      have hcost := System.costOf_eq_zero hp.forall
      exact ⟨p, s', hp.mono fun _ _ _ => trivial, by omega, hreturned⟩
    | true =>
      obtain ⟨p, t, hp, hcost, hrecv, hflag⟩ := ho.exists_fails hrun
      obtain ⟨ho', -⟩ := hp.keeps (P := Orderly)
        (fun _ _ _ ho _ hs => ho.stepped (step_ok_iff.mp hs)) ho
      have hopen' : ¬ t.RecvCloses := by
        rwa [recvCloses_iff, hrecv, ← recvCloses_iff]
      obtain ⟨q, s', hq, hreturned⟩ := ho'.exists_close hopen' hflag
      refine ⟨p ++ q, s', hp.append (hq.mono fun _ _ _ => trivial), ?_, hreturned⟩
      have hcost' := System.costOf_eq_zero hq.forall
      have hpos := hk hrun
      simp only [System.costOf, List.map_append, List.sum_append] at hcost hcost' ⊢
      omega

theorem close_returns_iff_connected :
    (∃ s, system.Reachable s ∧ ¬ s.ReturnsWithin 0 ∧ s.ReturnsWithin 1) ∧
      ∃ s, system.Reachable s ∧ ∀ k, ¬ s.ReturnsWithin k := by
  constructor
  · obtain ⟨s, hs, hp⟩ := System.exists_of_run (S := system)
      (p := fun s => s.recvClosing.isNone && s.isWorkerRun)
      [.main, .recvThread true, .recvThread true] (by decide)
    obtain ⟨hrecv, hrun⟩ := Bool.and_eq_true_iff.mp hp
    have hiff := (close_returns_iff hs).2
    refine ⟨s, hs, fun hreturns => ?_, (hiff 1).mpr ⟨?_, fun _ => Nat.one_pos⟩⟩
    · exact absurd (((hiff 0).mp hreturns).2 hrun) (by decide)
    · exact not_not.mpr (Option.isNone_iff_eq_none.mp hrecv)
  · obtain ⟨s, hs, hp⟩ := System.exists_of_run (S := system) (p := fun s => s.recvClosing.isSome)
      [.main, .recvThread true, .recvThread false] (by decide)
    refine ⟨s, hs, fun k hreturns => ?_⟩
    exact (((close_returns_iff hs).2 k).mp hreturns).1 (Option.isSome_iff_ne_none.mp hp)

end ClientBase

end ChattingServer.V11
