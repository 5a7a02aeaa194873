import ChattingServer.V11.Client.Client
import ChattingServer.V11.Server.Logic

namespace ChattingServer.V11

open Lib

structure Conn where
  client : Client
  up : List Packet
  down : List Packet

namespace Conn

def init : Conn where
  client := .init
  up := []
  down := []

inductive Action
  | input (i : Input)
  | sendThread
  | recvThread
  | logicThread (memory : Display)

def input (c : Conn) (i : Input) : Except Fault Conn := do
  let client ← c.client.stateThread c.client.page i
  return { c with client }

def sendThread (c : Conn) : Except Fault Conn :=
  match c.client.sendQueue with
  | [] => .error .disabled
  | packet :: sendQueue =>
    .ok { c with client := { c.client with sendQueue }, up := c.up ++ [packet] }

def recvThread (c : Conn) : Except Fault Conn :=
  match c.down with
  | [] => .error .disabled
  | packet :: down =>
    .ok { c with client := { c.client with recvQueue := c.client.recvQueue ++ [packet] }, down }

def logicThread (c : Conn) (memory : Display) : Except Fault Conn :=
  match c.client.recvQueue with
  | [] => .error .disabled
  | packet :: recvQueue =>
    .ok { c with client := { c.client with recvQueue }.recvProcess memory packet }

def step (c : Conn) : Action → Except Fault Conn
  | .input i => c.input i
  | .sendThread => c.sendThread
  | .recvThread => c.recvThread
  | .logicThread memory => c.logicThread memory

inductive Stepped (c : Conn) : Action → Conn → Prop
  | input {i : Input} {client : Client}
    (turn : c.client.stateThread c.client.page i = .ok client) :
    Stepped c (.input i) { c with client }
  | sendThread {packet : Packet} {sendQueue : List Packet}
    (queue : c.client.sendQueue = packet :: sendQueue) :
    Stepped c .sendThread
      { c with client := { c.client with sendQueue }, up := c.up ++ [packet] }
  | recvThread {packet : Packet} {down : List Packet} (arrived : c.down = packet :: down) :
    Stepped c .recvThread
      { c with client := { c.client with recvQueue := c.client.recvQueue ++ [packet] }, down }
  | logicThread {packet : Packet} {recvQueue : List Packet}
    (queue : c.client.recvQueue = packet :: recvQueue) (memory : Display) :
    Stepped c (.logicThread memory)
      { c with client := { c.client with recvQueue }.recvProcess memory packet }

theorem stepped_of_ok {c c' : Conn} {a : Action} (h : c.step a = .ok c') : c.Stepped a c' := by
  cases a with
  | input i =>
    obtain ⟨client, hclient, hc⟩ := bind_eq_ok_iff.mp h
    cases hc
    exact .input hclient
  | sendThread =>
    change c.sendThread = .ok c' at h
    unfold sendThread at h
    split at h <;> cases h
    exact .sendThread ‹_›
  | recvThread =>
    change c.recvThread = .ok c' at h
    unfold recvThread at h
    split at h <;> cases h
    exact .recvThread ‹_›
  | logicThread memory =>
    change c.logicThread memory = .ok c' at h
    unfold logicThread at h
    split at h <;> cases h
    exact .logicThread ‹_› memory

end Conn

/-- The server and its clients, each under the user that its connection was accepted for.  TCP
hands over one packet a time, in order and unchanged. -/
structure Chat where
  server : Server
  jobQueue : List RecvPackage
  conns : StdMap UserPtr Conn

namespace Chat

inductive Action
  | accept (addr : UserPtr) (socket : Socket) (outcome : Server.ConnectOutcome)
  /-- A worker receives a packet. -/
  | recv (session : UserPtr)
  /-- A worker finds the connection closed. -/
  | disconnect (session : UserPtr)
  | logic
  | send
  | client (session : UserPtr) (a : Conn.Action)

def init : Chat where
  server := .init
  jobQueue := []
  conns := .empty

def accept (s : Chat) (addr : UserPtr) (socket : Socket) (outcome : Server.ConnectOutcome) :
    Except Fault Chat := do
  let server ← s.server.accept addr socket outcome
  return { s with
    server
    conns := if outcome = .connected then s.conns.set addr .init else s.conns }

def recv (s : Chat) (session : UserPtr) : Except Fault Chat :=
  match s.conns.find session with
  | some ⟨client, packet :: up, down⟩ => do
    let _ ← s.server.deref (some session)
    return { s with
      jobQueue := s.jobQueue ++ [⟨session, packet⟩]
      conns := s.conns.set session ⟨client, up, down⟩ }
  | _ => .error .disabled

def disconnect (s : Chat) (session : UserPtr) : Except Fault Chat := do
  let server ← s.server.removeUserById (← s.server.sessionId session)
  return { s with server }

def logic (s : Chat) : Except Fault Chat :=
  match s.jobQueue with
  | [] => .error .disabled
  | package :: jobQueue => do
    let server ← s.server.process package
    return { s with server, jobQueue }

/-- What is written to the socket of a deleted user is not delivered. -/
def deliver (s : Chat) (package : SendPackage) : StdMap UserPtr Conn :=
  match s.server.deref package.session with
  | .ok (v, _) => s.conns.modify v fun c => { c with down := c.down ++ [package.packet] }
  | .error _ => s.conns

def send (s : Chat) : Except Fault Chat :=
  match s.server.packages with
  | [] => .error .disabled
  | package :: packages =>
    .ok { s with server := { s.server with packages }, conns := s.deliver package }

def client (s : Chat) (session : UserPtr) (a : Conn.Action) : Except Fault Chat :=
  match s.conns.find session with
  | none => .error .disabled
  | some c => do
    let c ← c.step a
    return { s with conns := s.conns.set session c }

def step (s : Chat) : Action → Except Fault Chat
  | .accept addr socket outcome => s.accept addr socket outcome
  | .recv session => s.recv session
  | .disconnect session => s.disconnect session
  | .logic => s.logic
  | .send => s.send
  | .client session a => s.client session a

def system : System Chat Action Fault where
  init := init
  step := step

inductive Stepped (s : Chat) : Action → Chat → Prop
  | accept {addr : UserPtr} {socket : Socket} {outcome : Server.ConnectOutcome} {server : Server}
    (accepted : s.server.accept addr socket outcome = .ok server) :
    Stepped s (.accept addr socket outcome) { s with
      server
      conns := if outcome = .connected then s.conns.set addr .init else s.conns }
  | recv {session : UserPtr} {user : User} {client : Client} {packet : Packet}
    {up down : List Packet} (conn : s.conns.find session = some ⟨client, packet :: up, down⟩)
    (live : s.server.user session = .live user) :
    Stepped s (.recv session) { s with
      jobQueue := s.jobQueue ++ [⟨session, packet⟩]
      conns := s.conns.set session ⟨client, up, down⟩ }
  | disconnect {session : UserPtr} {id : UInt32} {server : Server}
    (known : s.server.sessionId session = .ok id)
    (removed : s.server.removeUserById id = .ok server) :
    Stepped s (.disconnect session) { s with server }
  | logic {package : RecvPackage} {jobQueue : List RecvPackage} {server : Server}
    (queue : s.jobQueue = package :: jobQueue) (processed : s.server.process package = .ok server) :
    Stepped s .logic { s with server, jobQueue }
  | send {package : SendPackage} {packages : List SendPackage}
    (queue : s.server.packages = package :: packages) :
    Stepped s .send
      { s with server := { s.server with packages }, conns := s.deliver package }
  | client {session : UserPtr} {a : Conn.Action} {c c' : Conn}
    (conn : s.conns.find session = some c) (stepped : c.Stepped a c') :
    Stepped s (.client session a) { s with conns := s.conns.set session c' }

theorem stepped_of_ok {s s' : Chat} {a : Action} (h : s.step a = .ok s') : s.Stepped a s' := by
  cases a with
  | accept addr socket outcome =>
    obtain ⟨server, hserver, hs⟩ := bind_eq_ok_iff.mp h
    cases hs
    exact .accept hserver
  | recv session =>
    change s.recv session = .ok s' at h
    unfold recv at h
    split at h
    · rename_i hc
      obtain ⟨⟨_, u⟩, hderef, hs⟩ := bind_eq_ok_iff.mp h
      obtain ⟨⟨⟩, hu⟩ := Server.deref_ok_iff.mp hderef
      cases hs
      exact .recv hc hu
    · contradiction
  | disconnect session =>
    obtain ⟨id, hid, h⟩ := bind_eq_ok_iff.mp h
    obtain ⟨server, hserver, hs⟩ := bind_eq_ok_iff.mp h
    cases hs
    exact .disconnect hid hserver
  | logic =>
    change s.logic = .ok s' at h
    unfold logic at h
    split at h
    · contradiction
    · rename_i hq
      obtain ⟨server, hserver, hs⟩ := bind_eq_ok_iff.mp h
      cases hs
      exact .logic hq hserver
  | send =>
    change s.send = .ok s' at h
    unfold send at h
    split at h <;> cases h
    exact .send ‹_›
  | client session a =>
    change s.client session a = .ok s' at h
    unfold client at h
    split at h
    · contradiction
    · rename_i c hc
      obtain ⟨c', hc', hs⟩ := bind_eq_ok_iff.mp h
      cases hs
      exact .client hc (Conn.stepped_of_ok hc')

theorem find_accept {conns : StdMap UserPtr Conn} {addr : UserPtr} (hnone : conns.find addr = none)
    (outcome : Server.ConnectOutcome) {w : UserPtr} {c : Conn} :
    (if outcome = .connected then conns.set addr .init else conns).find w = some c ↔
      conns.find w = some c ∨ outcome = .connected ∧ w = addr ∧ c = .init := by
  by_cases hout : outcome = .connected
  · rw [if_pos hout, StdMap.find_set]
    split
    · rename_i hw
      subst hw
      simp [hnone, hout, eq_comm]
    · rename_i hw
      simp [Ne.symm hw]
  · simp [hout]

/-- Nothing is queued or under way on a connection, but for what a deleted user's client may have
written. -/
def Quiet (s : Chat) (v : UserPtr) (c : Conn) : Prop :=
  c.client.sendQueue = [] ∧ c.client.recvQueue = [] ∧ c.down = [] ∧
    ((s.server.user v).status = some true → c.up = [])

instance (s : Chat) (v : UserPtr) (c : Conn) : Decidable (s.Quiet v c) :=
  inferInstanceAs (Decidable (_ ∧ _ ∧ _ ∧ _))

def Quiescent (s : Chat) : Prop :=
  s.jobQueue = [] ∧ s.server.packages = [] ∧ ∀ e ∈ s.conns.entries, s.Quiet e.1 e.2

instance (s : Chat) : Decidable s.Quiescent := inferInstanceAs (Decidable (_ ∧ _ ∧ _))

def serverAction (s : Chat) : Action → Option Server.Action
  | .accept addr socket outcome => some (.accept addr socket outcome)
  | .disconnect session =>
    match s.server.sessionId session with
    | .ok id => some (.removeUser id)
    | .error _ => none
  | .logic => s.jobQueue.head?.map .process
  | _ => none

def allows (g : Server → Server.Action → Bool) (s : Chat) (a : Action) : Bool :=
  match s.serverAction a with
  | some b => g s.server b
  | none => true

def record {η : Type} (f : η → Server → Server.Action → η) (k : η) (s : Chat) (a : Action) : η :=
  match s.serverAction a with
  | some b => f k s.server b
  | none => k

/-! Pieces of runs. -/

def requests (v : UserPtr) (n : Nat) : List Action :=
  List.replicate n (.client v .sendThread) ++ List.replicate n (.recv v) ++ List.replicate n .logic

def arrives (v : UserPtr) (n : Nat) : List Action :=
  List.replicate n (.client v .recvThread) ++ List.replicate n (.client v (.logicThread .login))

def replies (v : UserPtr) (n : Nat) : List Action := List.replicate n .send ++ arrives v n

def login (v : UserPtr) (nickname : Str) : List Action :=
  [.accept v v .connected, .client v (.input .resume), .client v (.input (.line nickname))] ++
    requests v 1 ++ replies v 2 ++ requests v 1 ++ replies v 1 ++ [.client v (.input .resume)]

def press (v : UserPtr) (code : Nat) : List Action :=
  [.client v (.input .resume), .client v (.input (.key code 0))]

def pressEnter (v : UserPtr) : List Action := press v KeyInput.keyEnter

def pressDown (v : UserPtr) : List Action :=
  press v KeyInput.keyPrefix ++ [.client v (.input (.key KeyInput.keyDown 0))]

def enterLine (v : UserPtr) (text : Str) : List Action :=
  [.client v (.input .resume), .client v (.input .resume), .client v (.input .resume),
    .client v (.input (.line text))]

end Chat

end ChattingServer.V11
