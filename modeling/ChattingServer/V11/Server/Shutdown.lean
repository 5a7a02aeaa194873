import Mathlib.Data.List.FinRange
import Mathlib.Data.List.Perm.Basic
import ChattingServer.Lib.Transition
import ChattingServer.V11.Server.Threads

namespace ChattingServer.V11

open Lib

structure Dequeued where
  bSuccess : Bool
  dwIoSize : Nat
  lpOverlapped : Option IOOperation
  deriving DecidableEq

def Dequeued.null : Dequeued := ⟨true, 0, none⟩

inductive WorkerThread
  | loopTest
  | blocked
  | dequeued (completion : Dequeued)
  | returned
  deriving DecidableEq

inductive DestroyThreads
  | notCalled
  | posting (i : Nat)
  | joining (i : Nat)
  | returned
  deriving DecidableEq

/-- The server after `StartServer`, as far as its threads wait for each other. -/
structure IOCPServer where
  isWorkerRun : Bool
  port : List Dequeued
  workers : List WorkerThread
  destroyThreads : DestroyThreads

namespace IOCPServer

inductive Action
  /-- An I/O operation completes. -/
  | complete (bSuccess : Bool) (dwIoSize : Nat) (io : IOOperation)
  /-- The port gives a completion, any of those it has, to a thread that waits for one. -/
  | dequeue (i j : Nat)
  /-- `GetQueuedCompletionStatus` fails and takes no completion. -/
  | dequeueFails (i : Nat)
  | worker (i : Nat)
  | destroyThreads

def init (n : Nat) : IOCPServer where
  isWorkerRun := true
  port := []
  workers := List.replicate n .loopTest
  destroyThreads := .notCalled

def setWorker (s : IOCPServer) (i : Nat) (w : WorkerThread) : IOCPServer :=
  { s with workers := s.workers.set i w }

def dequeue (s : IOCPServer) (i j : Nat) : Except Fault IOCPServer :=
  match s.workers[i]?, s.port[j]? with
  | some .blocked, some completion =>
    .ok ({ s with port := s.port.eraseIdx j }.setWorker i (.dequeued completion))
  | _, _ => .error .disabled

def dequeueFails (s : IOCPServer) (i : Nat) : Except Fault IOCPServer :=
  match s.workers[i]? with
  | some .blocked => .ok (s.setWorker i (.dequeued ⟨false, 0, none⟩))
  | _ => .error .disabled

/-- The test of the loop, or the rest of a round with what was dequeued: whichever branch it takes,
an exception included, it comes back to the test. -/
def worker (s : IOCPServer) (i : Nat) : Except Fault IOCPServer :=
  match s.workers[i]? with
  | some .loopTest => .ok (s.setWorker i (if s.isWorkerRun then .blocked else .returned))
  | some (.dequeued completion) =>
    .ok ({ s with
      isWorkerRun := s.isWorkerRun && completion != Dequeued.null }.setWorker i .loopTest)
  | _ => .error .disabled

def destroy (s : IOCPServer) : Except Fault IOCPServer :=
  match s.destroyThreads with
  | .notCalled => .ok { s with isWorkerRun := false, destroyThreads := .posting 0 }
  | .posting i =>
    if i < s.workers.length then
      .ok { s with port := s.port ++ [.null], destroyThreads := .posting (i + 1) }
    else .ok { s with destroyThreads := .joining 0 }
  | .joining i =>
    match s.workers[i]? with
    | none => .ok { s with destroyThreads := .returned }
    | some .returned => .ok { s with destroyThreads := .joining (i + 1) }
    | some _ => .error .disabled
  | .returned => .error .disabled

def step (s : IOCPServer) : Action → Except Fault IOCPServer
  | .complete bSuccess dwIoSize io =>
    .ok { s with port := s.port ++ [⟨bSuccess, dwIoSize, some io⟩] }
  | .dequeue i j => s.dequeue i j
  | .dequeueFails i => s.dequeueFails i
  | .worker i => s.worker i
  | .destroyThreads => s.destroy

def system (n : Nat) : System IOCPServer Action Fault where
  init := init n
  step := step

def nulls (s : IOCPServer) : Nat := s.port.countP (· = .null)

def waiting (s : IOCPServer) : Nat := s.workers.countP (· = .blocked)

def postsLeft (s : IOCPServer) : Nat :=
  match s.destroyThreads with
  | .notCalled => s.workers.length
  | .posting i => s.workers.length - i
  | .joining _ | .returned => 0

structure Covered (s : IOCPServer) : Prop where
  waiting_le : s.waiting ≤ s.nulls + s.postsLeft
  cleared : s.destroyThreads ≠ .notCalled → s.isWorkerRun = false

theorem covered_init (n : Nat) : Covered (init n) where
  waiting_le := by
    have h : (init n).waiting = 0 := by simp [waiting, init, List.countP_replicate]
    rw [h]
    exact Nat.zero_le _
  cleared h := absurd rfl h

theorem nulls_le_eraseIdx {s : IOCPServer} {j : Nat} {c : Dequeued} (h : s.port[j]? = some c) :
    s.nulls ≤ (s.port.eraseIdx j).countP (· = .null) + 1 := by
  obtain ⟨hj, rfl⟩ := List.getElem?_eq_some_iff.mp h
  rw [nulls, ← (List.getElem_cons_eraseIdx_perm hj).countP_eq, List.countP_cons]
  split <;> omega

theorem Covered.setWorker {s : IOCPServer} (h : Covered s) {i : Nat} {w : WorkerThread}
    (hw : s.workers[i]? = some w) (w' : WorkerThread) (hw' : w' ≠ .blocked)
    (port : List Dequeued) (run : Bool)
    (hport : s.nulls ≤ port.countP (· = .null) + if w = .blocked then 1 else 0)
    (hrun : s.destroyThreads ≠ .notCalled → run = false) :
    Covered ({ s with isWorkerRun := run, port }.setWorker i w') := by
  obtain ⟨hi, rfl⟩ := List.getElem?_eq_some_iff.mp hw
  refine ⟨?_, hrun⟩
  have hle := h.waiting_le
  have hone : (if s.workers[i] = .blocked then 1 else 0) ≤ s.waiting := by
    split
    · rename_i hb
      exact List.countP_pos_iff.mpr ⟨_, List.getElem_mem hi, by simpa using hb⟩
    · exact Nat.zero_le _
  have hleft : ({ s with isWorkerRun := run, port }.setWorker i w').postsLeft = s.postsLeft := by
    simp only [postsLeft, IOCPServer.setWorker, List.length_set]
  rw [hleft]
  simp only [waiting, nulls, IOCPServer.setWorker, List.countP_set hi, decide_eq_true_eq, hw',
    if_false] at hle hone hport ⊢
  omega

theorem Covered.dequeue {s s' : IOCPServer} (h : Covered s) {i j : Nat}
    (hs : s.dequeue i j = .ok s') : Covered s' := by
  unfold IOCPServer.dequeue at hs
  split at hs
  · rename_i c hw hc
    cases hs
    exact h.setWorker hw (.dequeued c) nofun _ _ (by simpa using nulls_le_eraseIdx hc) h.cleared
  · contradiction

theorem Covered.dequeueFails {s s' : IOCPServer} (h : Covered s) {i : Nat}
    (hs : s.dequeueFails i = .ok s') : Covered s' := by
  unfold IOCPServer.dequeueFails at hs
  split at hs
  · rename_i hw
    cases hs
    exact h.setWorker hw (.dequeued ⟨false, 0, none⟩) nofun _ _ (Nat.le_add_right ..) h.cleared
  · contradiction

theorem Covered.worker {s s' : IOCPServer} (h : Covered s) {i : Nat}
    (hs : s.worker i = .ok s') : Covered s' := by
  unfold IOCPServer.worker at hs
  split at hs
  · rename_i hw
    cases hs
    cases hrun : s.isWorkerRun with
    | false => exact h.setWorker hw .returned nofun _ _ (Nat.le_add_right ..) fun _ => hrun
    | true =>
      -- the flag is cleared by nobody but a thread that took a null completion, or later on
      have hnot : s.destroyThreads = .notCalled := by
        by_contra hne
        rw [h.cleared hne] at hrun
        contradiction
      refine ⟨?_, fun hne => absurd hnot hne⟩
      have hlen := List.countP_le_length (p := (· = WorkerThread.blocked))
        (l := s.workers.set i .blocked)
      rw [List.length_set] at hlen
      simp only [waiting, IOCPServer.setWorker, postsLeft, hnot, List.length_set, if_true]
      omega
  · rename_i c hw
    cases hs
    refine h.setWorker hw .loopTest nofun _ _ (Nat.le_add_right ..) fun hne => ?_
    rw [h.cleared hne, Bool.false_and]
  · contradiction

theorem Covered.destroy {s s' : IOCPServer} (h : Covered s) (hs : s.destroy = .ok s') :
    Covered s' := by
  have hle := h.waiting_le
  have hcleared := h.cleared
  unfold IOCPServer.destroy at hs
  split at hs
  · rename_i hpc
    cases hs
    rw [postsLeft, hpc] at hle
    exact ⟨hle, fun _ => rfl⟩
  · rename_i i hpc
    rw [postsLeft, hpc] at hle
    have hrun := hcleared (by rw [hpc]; nofun)
    split at hs
    · rename_i hi
      cases hs
      refine ⟨?_, fun _ => hrun⟩
      simp only [waiting, nulls, postsLeft, List.countP_append, List.countP_singleton,
        decide_true, if_true] at hle ⊢
      omega
    · rename_i hi
      cases hs
      refine ⟨?_, fun _ => hrun⟩
      simp only [waiting, nulls, postsLeft] at hle ⊢
      omega
  · rename_i i hpc
    rw [postsLeft, hpc] at hle
    have hrun := hcleared (by rw [hpc]; nofun)
    split at hs
    · cases hs
      exact ⟨hle, fun _ => hrun⟩
    · cases hs
      exact ⟨hle, fun _ => hrun⟩
    · contradiction
  · contradiction

theorem Covered.step {s s' : IOCPServer} (h : Covered s) {a : Action} (hs : s.step a = .ok s') :
    Covered s' := by
  cases a with
  | complete bSuccess dwIoSize io =>
    cases hs
    refine ⟨h.waiting_le.trans ?_, h.cleared⟩
    simp [nulls, postsLeft, List.countP_append, Dequeued.null]
  | dequeue i j => exact h.dequeue hs
  | dequeueFails i => exact h.dequeueFails hs
  | worker i => exact h.worker hs
  | destroyThreads => exact h.destroy hs

theorem covered_of_reachable {n : Nat} {s : IOCPServer} (h : (system n).Reachable s) : Covered s :=
  h.invariant (covered_init n) fun _ _ _ _ hc _ hs => hc.step hs

def Posted (s : IOCPServer) : Prop :=
  s.destroyThreads ≠ .notCalled ∧ s.postsLeft = 0

def CanBlock (s : IOCPServer) (i : Nat) : Prop :=
  ∃ as s', (system 0).run s as = some s' ∧ s'.workers[i]? = some .blocked

open Classical in
/-- The number of threads that can still block. -/
noncomputable def blockable (s : IOCPServer) : Nat :=
  (List.finRange s.workers.length).countP fun i => decide (s.CanBlock i.val)

theorem blocked_of_step {s s' : IOCPServer} (h : s.isWorkerRun = false) {a : Action}
    (hs : s.step a = .ok s') :
    s'.isWorkerRun = false ∧
      ∀ i : Nat, s'.workers[i]? = some WorkerThread.blocked →
        s.workers[i]? = some WorkerThread.blocked := by
  have moved : ∀ (i j : Nat) (w : WorkerThread), w ≠ .blocked →
      (s.workers.set i w)[j]? = some .blocked → s.workers[j]? = some .blocked := by
    intro i j w hw hj
    rw [List.getElem?_set] at hj
    split at hj
    · split at hj
      · exact absurd (Option.some.inj hj) hw
      · contradiction
    · exact hj
  cases a with
  | complete bSuccess dwIoSize io =>
    cases hs
    exact ⟨h, fun _ hi => hi⟩
  | dequeue i j =>
    change s.dequeue i j = .ok s' at hs
    unfold dequeue at hs
    split at hs
    · rename_i c _ _
      cases hs
      exact ⟨h, fun k => moved i k (.dequeued c) (by rintro ⟨⟩)⟩
    · contradiction
  | dequeueFails i =>
    change s.dequeueFails i = .ok s' at hs
    unfold dequeueFails at hs
    split at hs
    · cases hs
      exact ⟨h, fun k => moved i k (.dequeued ⟨false, 0, none⟩) (by rintro ⟨⟩)⟩
    · contradiction
  | worker i =>
    change s.worker i = .ok s' at hs
    unfold worker at hs
    split at hs
    · cases hs
      rw [h]
      exact ⟨h, fun k => moved i k .returned (by rintro ⟨⟩)⟩
    · cases hs
      exact ⟨by simp [setWorker, h], fun k => moved i k .loopTest (by rintro ⟨⟩)⟩
    · contradiction
  | destroyThreads =>
    change s.destroy = .ok s' at hs
    unfold destroy at hs
    split at hs
    · cases hs
      exact ⟨rfl, fun _ hi => hi⟩
    · split at hs <;> cases hs <;> exact ⟨h, fun _ hi => hi⟩
    · split at hs
      · cases hs
        exact ⟨h, fun _ hi => hi⟩
      · cases hs
        exact ⟨h, fun _ hi => hi⟩
      · contradiction
    · contradiction

theorem blocked_of_canBlock {s : IOCPServer} (h : s.isWorkerRun = false) {i : Nat}
    (hi : s.CanBlock i) : s.workers[i]? = some .blocked := by
  obtain ⟨as, s', hrun, hi⟩ := hi
  induction as generalizing s with
  | nil =>
    cases hrun
    exact hi
  | cons a as ih =>
    simp only [System.run, System.runWith, if_true] at hrun
    split at hrun
    · rename_i t ht
      obtain ⟨hflag, hblocked⟩ := blocked_of_step h ht
      exact hblocked i (ih hflag hrun)
    · contradiction

theorem blockable_le_waiting {s : IOCPServer} (h : s.isWorkerRun = false) :
    s.blockable ≤ s.waiting := by
  have hmap : s.waiting = (List.finRange s.workers.length).countP
      (fun i => decide (s.workers.get i = .blocked)) := by
    rw [waiting]
    conv_lhs => rw [← List.map_get_finRange s.workers, List.countP_map]
    rfl
  rw [hmap]
  refine List.countP_mono_left fun i _ hi => ?_
  have hcan : s.CanBlock i.val := by simpa using hi
  have hblocked := blocked_of_canBlock h hcan
  rw [List.getElem?_eq_getElem i.isLt, Option.some.injEq] at hblocked
  exact decide_eq_true hblocked

def Moves (s : IOCPServer) (i : Nat) : Prop :=
  ∃ s', s.worker i = .ok s' ∨ ∃ j, s.dequeue i j = .ok s'

theorem Covered.moves {s : IOCPServer} (h : Covered s) (hp : s.Posted) {i : Nat}
    {w : WorkerThread} (hw : s.workers[i]? = some w) (hne : w ≠ .returned) : s.Moves i := by
  cases w with
  | loopTest => exact ⟨_, .inl (by rw [IOCPServer.worker, hw])⟩
  | dequeued c => exact ⟨_, .inl (by rw [IOCPServer.worker, hw])⟩
  | returned => exact absurd rfl hne
  | blocked =>
    have hwait : 0 < s.waiting :=
      List.countP_pos_iff.mpr ⟨_, List.mem_of_getElem? hw, by simp⟩
    have hle := h.waiting_le
    rw [hp.2, Nat.add_zero, nulls] at hle
    have hport : 0 < s.port.length := (hwait.trans_le hle).trans_le List.countP_le_length
    exact ⟨_, .inr ⟨0, by rw [IOCPServer.dequeue, hw, List.getElem?_eq_getElem hport]⟩⟩

/-- Once `DestroyThreads` has made its posts there are completions enough for the threads that can
still block, and each thread that it waits for has a step to take. -/
theorem nulls_ge_blockable {n : Nat} {s : IOCPServer} (h : (system n).Reachable s)
    (hp : s.Posted) :
    s.blockable ≤ s.nulls ∧ (.blocked ∈ s.workers → s.port ≠ []) ∧
      ∀ i w, s.workers[i]? = some w → w ≠ .returned → s.Moves i := by
  have hc := covered_of_reachable h
  have hle := hc.waiting_le
  rw [hp.2, Nat.add_zero] at hle
  refine ⟨(blockable_le_waiting (hc.cleared hp.1)).trans hle, fun hmem hport => ?_,
    fun i w => hc.moves hp⟩
  obtain ⟨i, hi⟩ := List.getElem?_of_mem hmem
  obtain ⟨_, hok | ⟨j, hok⟩⟩ := hc.moves hp hi nofun
  · simp [worker, hi] at hok
  · simp [dequeue, hi, hport] at hok

theorem nulls_ge_blockable_two :
    ∃ s : IOCPServer, (system 2).Reachable s ∧ s.workers = [.blocked, .loopTest] ∧
      s.blockable ≤ s.nulls ∧ s.Moves 0 := by
  obtain ⟨s, hs, hp⟩ := System.exists_of_run (S := system 2)
    (p := fun s => decide (s.workers = [.blocked, .loopTest]) &&
      decide (s.destroyThreads = .joining 0))
    [.worker 0, .worker 1, .complete true 5 .recv, .destroyThreads, .destroyThreads,
      .dequeue 1 0, .worker 1, .destroyThreads, .destroyThreads] (by decide)
  simp only [Bool.and_eq_true, decide_eq_true_eq] at hp
  have hposted : s.Posted := ⟨by rw [hp.2]; rintro ⟨⟩, by rw [postsLeft, hp.2]⟩
  obtain ⟨hle, -, hmoves⟩ := nulls_ge_blockable hs hposted
  exact ⟨s, hs, hp.1, hle, hmoves 0 .blocked (by rw [hp.1]; rfl) (by rintro ⟨⟩)⟩

end IOCPServer

end ChattingServer.V11
