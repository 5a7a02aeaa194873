import ChattingServer.V11.Server.Threads

namespace ChattingServer.V11

open Lib

inductive Worker
  | idle
  | receiving (session : UserPtr)
  | pushing (package : RecvPackage)
  | binding (session : UserPtr)
  deriving DecidableEq

/-- The stages that packets go through on the server.  `posted` are the receives that wait for the
kernel, `port` the completions that wait for a worker, and `buffer` is what `OnRecv` makes of the
receive buffer of a session. -/
structure Pipeline where
  server : Server
  posted : List UserPtr
  port : List Completion
  buffer : UserPtr → Packet
  workers : List Worker
  jobQueue : List RecvPackage

namespace Pipeline

inductive Action
  | accept (addr : UserPtr) (socket : Socket) (outcome : Server.ConnectOutcome)
  /-- The kernel fills the buffer of a receive. -/
  | complete (i : Nat) (packet : Packet)
  /-- A receive fails, and a worker removes the user. -/
  | disconnect (w i : Nat)
  /-- A worker gets a completion from the port. -/
  | dequeue (w i : Nat)
  | onRecv (w : Nat)
  | pushPackage (w : Nat)
  | bindRecv (w : Nat) (bound : Bool)
  | logic
  | send (outcome : SendOutcome)

def init (workerCount : Nat) : Pipeline where
  server := .init
  posted := []
  port := []
  buffer _ := .undefined
  workers := List.replicate workerCount .idle
  jobQueue := []

def setWorker (s : Pipeline) (w : Nat) (worker : Worker) : Pipeline :=
  { s with workers := s.workers.set w worker }

def accept (s : Pipeline) (addr : UserPtr) (socket : Socket) (outcome : Server.ConnectOutcome) :
    Except Fault Pipeline := do
  let server ← s.server.accept addr socket outcome
  return { s with
    server
    posted := if outcome = .connected then s.posted ++ [addr] else s.posted }

def complete (s : Pipeline) (i : Nat) (packet : Packet) : Except Fault Pipeline :=
  match s.posted[i]? with
  | none => .error .disabled
  | some session => .ok { s with
      posted := s.posted.eraseIdx i
      port := s.port ++ [⟨session, .recv⟩]
      buffer := Function.update s.buffer session packet }

def disconnect (s : Pipeline) (w i : Nat) : Except Fault Pipeline :=
  match s.workers[w]?, s.posted[i]? with
  | some .idle, some session => do
    let id ← s.server.sessionId session
    let server ← s.server.removeUserById id
    return { s with server, posted := s.posted.eraseIdx i }
  | _, _ => .error .disabled

def dequeue (s : Pipeline) (w i : Nat) : Except Fault Pipeline :=
  match s.workers[w]?, s.port[i]? with
  | some .idle, some ⟨session, .recv⟩ =>
    .ok ({ s with port := s.port.eraseIdx i }.setWorker w (.receiving session))
  | some .idle, some ⟨session, .send⟩ => do
    let _ ← s.server.sessionId session
    return { s with port := s.port.eraseIdx i }
  | _, _ => .error .disabled

def onRecv (s : Pipeline) (w : Nat) : Except Fault Pipeline :=
  match s.workers[w]? with
  | some (.receiving session) => do
    let _ ← s.server.deref (some session)
    return s.setWorker w (.pushing ⟨session, s.buffer session⟩)
  | _ => .error .disabled

def pushPackage (s : Pipeline) (w : Nat) : Except Fault Pipeline :=
  match s.workers[w]? with
  | some (.pushing package) =>
    .ok ({ s with jobQueue := s.jobQueue ++ [package] }.setWorker w (.binding package.session))
  | _ => .error .disabled

def bindRecv (s : Pipeline) (w : Nat) (bound : Bool) : Except Fault Pipeline :=
  match s.workers[w]? with
  | some (.binding session) => do
    let (_, u) ← s.server.deref (some session)
    let s := s.setWorker w .idle
    return if bound then { s with posted := s.posted ++ [session] }
      else { s with server := ChatServer.closeSession s.server u }
  | _ => .error .disabled

def runProcess (s : Pipeline) : Except Fault Pipeline :=
  match s.jobQueue with
  | [] => .error .disabled
  | package :: jobQueue => do
    let server ← s.server.process package
    return { s with server, jobQueue }

def sendRun (s : Pipeline) (outcome : SendOutcome) : Except Fault Pipeline :=
  match s.server.packages with
  | [] => .error .disabled
  | package :: packages =>
    let s := { s with server := { s.server with packages } }
    match package.session with
    | none => .ok s
    | some session => do
      let _ ← s.server.deref (some session)
      if (sendPacket package.packet outcome).2 then
        return { s with port := s.port ++ [⟨session, .send⟩] }
      else return s

def step (s : Pipeline) : Action → Except Fault Pipeline
  | .accept addr socket outcome => s.accept addr socket outcome
  | .complete i packet => s.complete i packet
  | .disconnect w i => s.disconnect w i
  | .dequeue w i => s.dequeue w i
  | .onRecv w => s.onRecv w
  | .pushPackage w => s.pushPackage w
  | .bindRecv w bound => s.bindRecv w bound
  | .logic => s.runProcess
  | .send outcome => s.sendRun outcome

def system (workerCount : Nat) : System Pipeline Action Fault where
  init := init workerCount
  step := step

end Pipeline

/-! The receives that are outstanding, each with the package that it has come to. -/

def Completion.receive (buffer : UserPtr → Packet) :
    Completion → Option (UserPtr × Option RecvPackage)
  | ⟨session, .recv⟩ => some (session, some ⟨session, buffer session⟩)
  | ⟨_, .send⟩ => none

def Worker.receive (buffer : UserPtr → Packet) : Worker → Option (UserPtr × Option RecvPackage)
  | .idle => none
  | .receiving session => some (session, some ⟨session, buffer session⟩)
  | .pushing package => some (package.session, some package)
  | .binding session => some (session, none)

namespace Pipeline

def receives (s : Pipeline) : List (UserPtr × Option RecvPackage) :=
  s.posted.map (·, none) ++ s.port.filterMap (·.receive s.buffer) ++
    s.workers.filterMap (·.receive s.buffer)

def outstanding (s : Pipeline) : List UserPtr := s.receives.map Prod.fst

structure Log where
  received : List RecvPackage
  entered : List RecvPackage
  processed : List RecvPackage
  pushed : List SendPackage
  queued : List (Nat × SendPackage)
  sent : List (Nat × SendPackage)

def Log.init : Log := ⟨[], [], [], [], [], []⟩

def Log.record (log : Log) (s : Pipeline) : Action → Log
  | .complete i packet =>
    match s.posted[i]? with
    | none => log
    | some session => { log with received := log.received ++ [⟨session, packet⟩] }
  | .pushPackage w =>
    match s.workers[w]? with
    | some (.pushing package) => { log with entered := log.entered ++ [package] }
    | _ => log
  | .logic =>
    match s.jobQueue, s.runProcess with
    | package :: _, .ok s' =>
      let packages := s'.server.packages.drop s.server.packages.length
      { log with
        processed := log.processed ++ [package]
        pushed := log.pushed ++ packages
        queued := log.queued ++ packages.map (log.processed.length, ·) }
    | _, _ => log
  | .send _ =>
    match s.server.packages, log.queued with
    | package :: _, (job, _) :: queued =>
      { log with
        queued
        sent := if package.session = none then log.sent else log.sent ++ [(job, package)] }
    | _, _ => log
  | _ => log

abbrev Logged := Pipeline × Log

def logged (workerCount : Nat) : System Logged Action Fault :=
  (system workerCount).withHistory .init .record

def Log.sentTo (log : Log) (session : UserPtr) : List (Nat × Packet) :=
  (log.sent.filter (·.2.session = some session)).map fun d => (d.1, d.2.packet)

structure Log.IsJob (log : Log) (session : UserPtr) (i k : Nat) : Prop where
  origin : ∃ package, log.processed[k]? = some package ∧ package.session = session
  turn : ((log.processed.take k).filter (·.session = session)).length = i

end Pipeline

def Packet.isCast : Packet → Bool
  | .sRoomEnter _ _ | .sRoomExit _ | .sMulticast _ _ | .sBroadcast _ _ => true
  | _ => false

namespace Pipeline

/-- No user leaves the server. -/
def keepsUsers (s : Pipeline) : Action → Bool
  | .disconnect _ _ => false
  | .logic => s.jobQueue.head?.all fun job => job.packet ≠ .cServerExit
  | _ => true

structure Ordered (x : Logged) : Prop where
  outstanding : x.1.outstanding.Nodup
  entered : ∀ v, x.2.entered.filter (·.session = v) <+: x.2.received.filter (·.session = v)
  processed : x.2.processed ++ x.1.jobQueue = x.2.entered
  delivered : ∀ v, (x.2.sentTo v).map Prod.snd ++
    (x.1.server.packages.filter (·.session = some v)).map (·.packet) =
      (x.2.pushed.filter (·.session = some v)).map (·.packet)
  casts : ∀ v w d e, d.2.isCast = true → e.2.isCast = true → d ≠ e →
    List.Sublist [d, e] (x.2.sentTo v) → d ∈ x.2.sentTo w → e ∈ x.2.sentTo w →
      List.Sublist [d, e] (x.2.sentTo w) ∧ ¬ List.Sublist [e, d] (x.2.sentTo w)
  jobs : ∀ sender i k, x.2.IsJob sender i k →
    (x.2.received.filter (·.session = sender))[i]? = x.2.processed[k]?
  chats : ∀ sender w i j k l p q, x.2.IsJob sender i k → x.2.IsJob sender j l → i < j →
    (k, p) ∈ x.2.sentTo w → (l, q) ∈ x.2.sentTo w →
      List.Sublist [(k, p), (l, q)] (x.2.sentTo w) ∧
        ¬ List.Sublist [(l, q), (k, p)] (x.2.sentTo w)

end Pipeline

end ChattingServer.V11
