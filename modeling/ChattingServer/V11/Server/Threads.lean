import ChattingServer.V11.NetworkLib.IoData
import ChattingServer.V11.Server.Registry

namespace ChattingServer.V11

open Lib

inductive IOOperation
  | recv
  | send
  deriving DecidableEq

structure Completion where
  session : UserPtr
  io : IOOperation
  deriving DecidableEq

/-- What `GetQueuedCompletionStatus` reports for a completion, and for received bytes what
`OnRecv` makes of them and whether `BindRecv` can post the next receive. -/
inductive IoResult
  | failed
  | zeroBytes
  | sent
  | received (packet : Packet) (bound : Bool)

/-- The accepter, the workers, the logic thread and the send thread, each taking atomic steps. -/
structure ChatServer where
  server : Server
  jobQueue : List RecvPackage
  pending : List Completion

namespace ChatServer

inductive Action
  | accept (addr : UserPtr) (socket : Socket) (outcome : Server.ConnectOutcome)
  | worker (i : Nat) (result : IoResult)
  | logic
  | send (outcome : SendOutcome)

def init : ChatServer where
  server := .init
  jobQueue := []
  pending := []

def accept (s : ChatServer) (addr : UserPtr) (socket : Socket) (outcome : Server.ConnectOutcome) :
    Except Fault ChatServer := do
  let server ← s.server.accept addr socket outcome
  return { s with
    server
    pending := if outcome = .connected then s.pending ++ [⟨addr, .recv⟩] else s.pending }

/-- `Session::Close`, called by a `BindRecv` that fails. -/
def closeSession (server : Server) (u : User) : Server :=
  { server with closed := server.closed ++ u.session.socket.toList }

def removeSession (s : ChatServer) (session : UserPtr) : Except Fault ChatServer := do
  let id ← s.server.sessionId session
  let server ← s.server.removeUserById id
  return { s with server }

def workerThread (s : ChatServer) : Completion → IoResult → Except Fault ChatServer
  | ⟨session, _⟩, .failed => s.removeSession session
  | ⟨session, _⟩, .zeroBytes => s.removeSession session
  | ⟨session, .send⟩, .sent => do
    let _ ← s.server.sessionId session
    return s
  | ⟨session, .recv⟩, .received packet bound => do
    let (_, u) ← s.server.deref (some session)
    return {
      server := if bound then s.server else closeSession s.server u
      jobQueue := s.jobQueue ++ [⟨session, packet⟩]
      pending := if bound then s.pending ++ [⟨session, .recv⟩] else s.pending }
  | _, _ => .error .disabled

def worker (s : ChatServer) (i : Nat) (result : IoResult) : Except Fault ChatServer :=
  match s.pending[i]? with
  | none => .error .disabled
  | some c => { s with pending := s.pending.eraseIdx i }.workerThread c result

def runProcess (s : ChatServer) : Except Fault ChatServer :=
  match s.jobQueue with
  | [] => .error .disabled
  | package :: jobQueue => do
    let server ← s.server.process package
    return { s with server, jobQueue }

def sendRun (s : ChatServer) (outcome : SendOutcome) : Except Fault ChatServer :=
  match s.server.packages with
  | [] => .error .disabled
  | package :: packages =>
    let s := { s with server := { s.server with packages } }
    match package.session with
    | none => .ok s
    | some session => do
      let _ ← s.server.deref (some session)
      if (sendPacket package.packet outcome).2 then
        return { s with pending := s.pending ++ [⟨session, .send⟩] }
      else return s

def step (s : ChatServer) : Action → Except Fault ChatServer
  | .accept addr socket outcome => s.accept addr socket outcome
  | .worker i result => s.worker i result
  | .logic => s.runProcess
  | .send outcome => s.sendRun outcome

def system : System ChatServer Action Fault where
  init := init
  step := step

def Holds (s : ChatServer) (v : UserPtr) : Prop :=
  (∃ job ∈ s.jobQueue, job.session = v) ∨ (∃ pkg ∈ s.server.packages, pkg.session = some v) ∨
    ∃ c ∈ s.pending, c.session = v

instance (s : ChatServer) (v : UserPtr) : Decidable (s.Holds v) :=
  inferInstanceAs (Decidable (_ ∨ _ ∨ _))

/-- The state in which a step's own job or completion has been taken off its queue, and the user
whose deletion the step leads to. -/
def deletion (s : ChatServer) : Action → Option (ChatServer × UserPtr)
  | .worker i .failed | .worker i .zeroBytes =>
    match s.pending[i]? with
    | none => none
    | some c =>
      match s.server.sessionUser c.session with
      | .ok (some v) => some ({ s with pending := s.pending.eraseIdx i }, v)
      | _ => none
  | .logic =>
    match s.jobQueue with
    | ⟨session, .cServerExit⟩ :: jobQueue =>
      match s.server.sessionUser session with
      | .ok (some v) => some ({ s with jobQueue }, v)
      | _ => none
    | _ => none
  | _ => none

def strayMember (s : Server) (v : UserPtr) : Bool :=
  (List.range s.nextRoom).any fun r => v ∈ (s.room r).users ∧ s.currRoom v ≠ some r

end ChatServer

end ChattingServer.V11
