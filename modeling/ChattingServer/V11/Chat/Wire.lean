import ChattingServer.Lib.Chunks
import ChattingServer.Lib.Refinement
import ChattingServer.V11.Chat.Authenticity
import ChattingServer.V11.Codec.Framing
import ChattingServer.V11.Codec.Grammar
import ChattingServer.V11.Server.Outgoing

namespace ChattingServer.V11

open Lib

/-- A client, and the bytes under way on its connection in both directions: what is left of those
of each `send`. -/
structure WireConn where
  client : Client
  up : List (List UInt8)
  down : List (List UInt8)

inductive WireFault
  | chat (fault : Fault)
  | stream (fault : StreamFault)
  deriving DecidableEq

namespace WireConn

def init : WireConn where
  client := .init
  up := []
  down := []

inductive Action
  | input (i : Input)
  | sendThread
  | recvThread (n : Nat)
  | logicThread (memory : Display)

def Returns (n : Nat) (underWay : List (List UInt8)) : Prop :=
  0 < n ∧ n ≤ sockbufSize ∧ n ≤ underWay.flatten.length

instance (n : Nat) (underWay : List (List UInt8)) : Decidable (Returns n underWay) :=
  inferInstanceAs (Decidable (_ ∧ _ ∧ _))

def input (c : WireConn) (i : Input) : Except WireFault WireConn := do
  let client ← (c.client.stateThread c.client.page i).mapError .chat
  return { c with client }

def sendThread (c : WireConn) : Except WireFault WireConn :=
  match c.client.sendQueue with
  | [] => .error (.chat .disabled)
  | packet :: sendQueue =>
    .ok { c with client := { c.client with sendQueue }, up := c.up ++ [clientWire packet] }

def recvThread (c : WireConn) (n : Nat) : Except WireFault WireConn :=
  if Returns n c.down then do
    let packet ← (recvPacket (c.down.flatten.take n)).mapError .stream
    return { c with
      client := { c.client with recvQueue := c.client.recvQueue ++ packet.toList }
      down := dropPieces n c.down }
  else .error (.chat .disabled)

def logicThread (c : WireConn) (memory : Display) : Except WireFault WireConn :=
  match c.client.recvQueue with
  | [] => .error (.chat .disabled)
  | packet :: recvQueue =>
    .ok { c with client := { c.client with recvQueue }.recvProcess memory packet }

def step (c : WireConn) : Action → Except WireFault WireConn
  | .input i => c.input i
  | .sendThread => c.sendThread
  | .recvThread n => c.recvThread n
  | .logicThread memory => c.logicThread memory

theorem flatten_recvThread {c c' : WireConn} {n : Nat} (h : c.recvThread n = .ok c') :
    c.down.flatten.take n ++ c'.down.flatten = c.down.flatten := by
  unfold recvThread at h
  split at h
  · obtain ⟨packet, -, hc⟩ := bind_eq_ok_iff.mp h
    cases hc
    rw [flatten_dropPieces, List.take_append_drop]
  · contradiction

end WireConn

/-- The server and its clients with the bytes between them, which TCP hands over in order and
unchanged, however many at a time. -/
structure WireChat where
  server : Server
  jobQueue : List RecvPackage
  conns : StdMap UserPtr WireConn

namespace WireChat

inductive Action
  | accept (addr : UserPtr) (socket : Socket) (outcome : Server.ConnectOutcome)
  /-- A worker receives `n` bytes. -/
  | recv (session : UserPtr) (n : Nat)
  | disconnect (session : UserPtr)
  | logic
  | send
  | client (session : UserPtr) (a : WireConn.Action)

def init : WireChat where
  server := .init
  jobQueue := []
  conns := .empty

def accept (s : WireChat) (addr : UserPtr) (socket : Socket) (outcome : Server.ConnectOutcome) :
    Except WireFault WireChat := do
  let server ← (s.server.accept addr socket outcome).mapError .chat
  return { s with
    server
    conns := if outcome = .connected then s.conns.set addr .init else s.conns }

def recv (s : WireChat) (session : UserPtr) (n : Nat) : Except WireFault WireChat :=
  match s.conns.find session with
  | none => .error (.chat .disabled)
  | some c =>
    if WireConn.Returns n c.up then do
      let _ ← (s.server.deref (some session)).mapError .chat
      let packet ← (recvPacket (c.up.flatten.take n)).mapError .stream
      return { s with
        jobQueue := s.jobQueue ++ packet.toList.map (⟨session, ·⟩)
        conns := s.conns.set session { c with up := dropPieces n c.up } }
    else .error (.chat .disabled)

def disconnect (s : WireChat) (session : UserPtr) : Except WireFault WireChat := do
  let id ← (s.server.sessionId session).mapError .chat
  let server ← (s.server.removeUserById id).mapError .chat
  return { s with server }

def logic (s : WireChat) : Except WireFault WireChat :=
  match s.jobQueue with
  | [] => .error (.chat .disabled)
  | package :: jobQueue => do
    let server ← (s.server.process package).mapError .chat
    return { s with server, jobQueue }

def deliver (s : WireChat) (package : SendPackage) : StdMap UserPtr WireConn :=
  match s.server.deref package.session with
  | .ok (v, _) =>
    s.conns.modify v fun c => { c with down := c.down ++ [serverWire package.packet] }
  | .error _ => s.conns

def send (s : WireChat) : Except WireFault WireChat :=
  match s.server.packages with
  | [] => .error (.chat .disabled)
  | package :: packages =>
    .ok { s with server := { s.server with packages }, conns := s.deliver package }

def client (s : WireChat) (session : UserPtr) (a : WireConn.Action) : Except WireFault WireChat :=
  match s.conns.find session with
  | none => .error (.chat .disabled)
  | some c => do
    let c ← c.step a
    return { s with conns := s.conns.set session c }

def step (s : WireChat) : Action → Except WireFault WireChat
  | .accept addr socket outcome => s.accept addr socket outcome
  | .recv session n => s.recv session n
  | .disconnect session => s.disconnect session
  | .logic => s.logic
  | .send => s.send
  | .client session a => s.client session a

def system : System WireChat Action WireFault where
  init := init
  step := step

end WireChat

/-! What packets are sent, and which of them arrive. -/

namespace Packet

structure Composed (p : Packet) : Prop where
  type : p.type ≠ .undefined
  paired : p.Paired
  counted : p.counted = p

/-- A packet that the stream holds together with the four bytes sent behind it, and whose strings
can be told from their ends. -/
def fits (p : Packet) : Bool :=
  decide ((∀ v ∈ p.strings, Stream.Proper v) ∧ p.encoding.length ≤ 1020)

/-- A packet that arrives as it was sent. -/
structure Carried (p : Packet) : Prop extends p.Composed where
  fits : p.fits = true

end Packet

/-- The steps in which a packet that is sent fits, and a `recv` returns what one `send` was
given. -/
def WireConn.framed (c : WireConn) : Action → Bool
  | .sendThread => c.client.sendQueue.head?.all Packet.fits
  | .recvThread n => c.down.head?.any (·.length = n)
  | _ => true

def WireChat.framed (s : WireChat) : Action → Bool
  | .recv session n => (s.conns.find session).any fun c => c.up.head?.any (·.length = n)
  | .send => s.server.packages.head?.all fun package => package.packet.fits
  | .client session a => (s.conns.find session).any (·.framed a)
  | _ => true

def WireChat.Framed (s : WireChat) (a : Action) : Prop := s.framed a = true

theorem Outgoing.composed {p : Packet} (h : Outgoing p) : p.Composed :=
  ⟨h.type, h.paired, h.counted⟩

namespace Packet.Carried

variable {p : Packet}

theorem length_encoding (h : p.Carried) : p.encoding.length ≤ 1020 := (of_decide_eq_true h.fits).2

theorem readable (h : p.Carried) : p.Readable := ⟨(of_decide_eq_true h.fits).1, h.paired⟩

theorem arrives (h : p.Carried) : Arrives p :=
  arrives_of_readable h.type h.readable h.counted
    (h.length_encoding.trans (by simp only [sockbufSize]; omega))

theorem recvPacket_wire (h : p.Carried) (sender : Sender) :
    recvPacket (sender.wire p) = .ok (some p) := by
  have hok := (sender.onRecv_wire_iff h.type h.length_encoding).mpr h.readable
  rw [h.counted] at hok
  exact recvPacket_ok_iff.mpr ⟨p, hok, rfl⟩

theorem length_wire (h : p.Carried) (sender : Sender) :
    0 < (sender.wire p).length ∧ (sender.wire p).length ≤ sockbufSize := by
  have hmax := h.length_encoding
  have hpad : sender.pad ≤ 4 := by cases sender <;> decide
  have hmin : 4 ≤ p.encoding.length := by rw [Packet.length_encoding]; omega
  rw [sender.wire_eq hmax, Framing.padded, List.length_append, List.length_replicate]
  simp only [sockbufSize]
  omega

theorem returns (h : p.Carried) (sender : Sender) (chunks : List (List UInt8)) :
    WireConn.Returns (sender.wire p).length (sender.wire p :: chunks) := by
  obtain ⟨hpos, hmax⟩ := h.length_wire sender
  exact ⟨hpos, hmax, by simp⟩

theorem dropPieces_wire (h : p.Carried) (sender : Sender) (chunks : List (List UInt8)) :
    dropPieces (sender.wire p).length (sender.wire p :: chunks) = chunks :=
  dropPieces_length (List.length_pos_iff.mp (h.length_wire sender).1) chunks

end Packet.Carried

theorem RoomDisplay.composed_sendChat (text : Str) : (RoomDisplay.sendChat text).Composed := by
  unfold sendChat
  split_ifs <;> exact ⟨by rintro ⟨⟩, trivial, rfl⟩

namespace Client

def Composes (c : Client) : Prop := ∀ p ∈ c.sendQueue, p.Composed

theorem Composes.pushQueue {c : Client} (h : c.Composes) {p : Packet} (hp : p.Composed) :
    (c.pushQueue p).Composes :=
  List.forall_mem_append.mpr ⟨h, List.forall_mem_singleton.mpr hp⟩

theorem Composes.stateThread {c c' : Client} (h : c.Composes) {i : Input}
    (hs : c.stateThread c.page i = .ok c') : c'.Composes := by
  have same : ∀ {d : Client}, d.sendQueue = c.sendQueue → d.Composes := fun hd => by
    rw [Composes, hd]
    exact h
  unfold Client.stateThread at hs
  split at hs
  · rw [← Except.ok.inj hs, stateProcess]
    split <;> exact same rfl
  · rw [← Except.ok.inj hs, sendNickname]
    split
    · exact same rfl
    · exact (same rfl).pushQueue ⟨by rintro ⟨⟩, trivial, rfl⟩
  · rw [← Except.ok.inj hs]
    exact same rfl
  · rw [← Except.ok.inj hs, lobbyKey]
    split
    · exact same rfl
    · dsimp only
      split
      · refine (same rfl).pushQueue ?_
        split <;> exact ⟨by rintro ⟨⟩, trivial, rfl⟩
      · exact same rfl
  · rw [← Except.ok.inj hs, lobbyArrow]
    split
    · dsimp only
      split_ifs
      · exact same (sendQueue_moveCursor ..)
      · exact same (sendQueue_moveCursor ..)
      · exact same rfl
    · exact same rfl
  · rw [← Except.ok.inj hs]
    exact same rfl
  · rw [← Except.ok.inj hs, chatRoomLine]
    split
    · exact same rfl
    · split
      · exact (same rfl).pushQueue (RoomDisplay.composed_sendChat _)
      · exact same rfl
  · contradiction

theorem Composes.recvProcess {c : Client} (h : c.Composes) (memory : Display) (p : Packet) :
    (c.recvProcess memory p).Composes := by
  obtain ⟨ps, hps, hlist⟩ := Chat.sendQueue_received (received_recvProcess c memory p)
  rw [Composes, hps]
  refine List.forall_mem_append.mpr ⟨h, fun q hq => ?_⟩
  rw [hlist q hq]
  exact ⟨by rintro ⟨⟩, trivial, rfl⟩

end Client

structure Conn.Carries (c : Conn) : Prop where
  composes : c.client.Composes
  up : ∀ p ∈ c.up, p.Carried
  down : ∀ p ∈ c.down, p.Carried

theorem Conn.carries_init : Conn.init.Carries where
  composes := by rintro _ ⟨⟩
  up := List.forall_mem_nil _
  down := List.forall_mem_nil _

def Conn.sendsFitting (c : Conn) : Conn.Action → Bool
  | .sendThread => c.client.sendQueue.head?.all Packet.fits
  | _ => true

theorem Conn.Carries.step {c c' : Conn} (h : c.Carries) {a : Conn.Action}
    (hfits : c.sendsFitting a = true) (hs : c.Stepped a c') : c'.Carries := by
  cases hs with
  | input turn => exact ⟨h.composes.stateThread turn, h.up, h.down⟩
  | @sendThread packet sendQueue hq =>
    have hcomposed : packet.Composed := h.composes packet (by simp [hq])
    have hfit : packet.fits = true := by simpa [sendsFitting, hq] using hfits
    refine ⟨fun p hp => h.composes p ?_, List.forall_mem_append.mpr ⟨h.up, ?_⟩, h.down⟩
    · rw [hq]
      exact List.mem_cons_of_mem _ hp
    · exact List.forall_mem_singleton.mpr ⟨hcomposed, hfit⟩
  | @recvThread packet down hdown =>
    exact ⟨h.composes, h.up, fun p hp => h.down p (hdown ▸ List.mem_cons_of_mem _ hp)⟩
  | @logicThread packet recvQueue hq memory =>
    have hcomposes : Client.Composes { c.client with recvQueue } := h.composes
    exact ⟨hcomposes.recvProcess memory packet, h.up, h.down⟩

namespace Chat

def sendsFitting (s : Chat) : Action → Bool
  | .send => s.server.packages.head?.all fun package => package.packet.fits
  | .client session a => (s.conns.find session).all (·.sendsFitting a)
  | _ => true

structure Carries (s : Chat) : Prop where
  server : s.server.Wellspelled
  jobs : ∀ package ∈ s.jobQueue, Arrives package.packet
  conn : ∀ {w c}, s.conns.find w = some c → c.Carries

theorem carries_init : Carries .init where
  server := Server.wellspelled_init
  jobs := List.forall_mem_nil _
  conn := by rintro _ _ ⟨⟩

theorem Carries.setConn {s : Chat} (h : s.Carries) {v : UserPtr} {c : Conn} (hc : c.Carries) :
    ∀ {w d}, (s.conns.set v c).find w = some d → d.Carries := by
  intro w d hd
  rw [StdMap.find_set] at hd
  split at hd
  · exact Option.some.inj hd ▸ hc
  · exact h.conn hd

theorem Carries.deliver {s : Chat} (h : s.Carries) {package : SendPackage}
    (hp : package.packet.Carried) : ∀ {w d}, (s.deliver package).find w = some d → d.Carries := by
  intro w d hd
  unfold Chat.deliver at hd
  split at hd
  · rename_i v u hv
    rw [StdMap.find_modify] at hd
    split at hd
    · obtain ⟨c, hc, rfl⟩ := Option.map_eq_some_iff.mp hd
      have hcarries := h.conn hc
      exact ⟨hcarries.composes, hcarries.up,
        List.forall_mem_append.mpr ⟨hcarries.down, List.forall_mem_singleton.mpr hp⟩⟩
    · exact h.conn hd
  · exact h.conn hd

theorem Carries.step {s s' : Chat} (h : s.Carries) {a : Action} (hfits : s.sendsFitting a = true)
    (hs : s.Stepped a s') : s'.Carries := by
  cases hs with
  | @accept addr socket outcome server accepted =>
    refine ⟨h.server.step (a := .accept addr socket outcome) trivial accepted, h.jobs,
      fun {w d} hd => ?_⟩
    dsimp only at hd
    split at hd
    · exact h.setConn Conn.carries_init hd
    · exact h.conn hd
  | @recv session user client packet up down hc live =>
    obtain ⟨hpacket, hup⟩ := List.forall_mem_cons.mp (h.conn hc).up
    refine ⟨h.server, List.forall_mem_append.mpr ⟨h.jobs, ?_⟩, h.setConn ?_⟩
    · exact List.forall_mem_singleton.mpr hpacket.arrives
    · exact ⟨(h.conn hc).composes, hup, (h.conn hc).down⟩
  | @disconnect session id server known removed =>
    exact ⟨h.server.step (a := .removeUser id) trivial removed, h.jobs, h.conn⟩
  | @logic package jobQueue server queue processed =>
    obtain ⟨hpackage, hjobs⟩ := List.forall_mem_cons.mp (queue ▸ h.jobs)
    exact ⟨h.server.step (a := .process package) hpackage processed, hjobs, h.conn⟩
  | @send package packages queue =>
    have hout := h.server.packages package (by simp [queue])
    have hfit : package.packet.fits = true := by simpa [sendsFitting, queue] using hfits
    refine ⟨⟨h.server.nickname, h.server.roomName, fun p hp => h.server.packages p ?_⟩, h.jobs,
      h.deliver ⟨hout.composed, hfit⟩⟩
    rw [queue]
    exact List.mem_cons_of_mem _ hp
  | @client session a c c' hc stepped =>
    have hfit : c.sendsFitting a = true := by simpa [sendsFitting, hc] using hfits
    exact ⟨h.server, h.jobs, h.setConn ((h.conn hc).step hfit stepped)⟩

def Fitting (s : Chat) (a : Action) : Prop := s.sendsFitting a = true

theorem carries_of_reach {s : Chat} (h : system.Reach Fitting s) : s.Carries :=
  h.invariant carries_init fun _ _ _ _ hc hg hs => hc.step hg (stepped_of_ok hs)

end Chat

/-! The same steps over bytes. -/

namespace Conn

def wired (c : Conn) : WireConn where
  client := c.client
  up := c.up.map clientWire
  down := c.down.map serverWire

def bytes (c : Conn) : Action → WireConn.Action
  | .input i => .input i
  | .sendThread => .sendThread
  | .recvThread => .recvThread (c.wired.down.headD []).length
  | .logicThread memory => .logicThread memory

theorem Carries.step_wired {c : Conn} (h : c.Carries) (a : Action) :
    c.wired.step (c.bytes a) = ((c.step a).map wired).mapError .chat := by
  obtain ⟨client, up, down⟩ := c
  cases a with
  | input i => exact mapError_bind_comm fun _ => rfl
  | sendThread =>
    simp only [bytes, WireConn.step, WireConn.sendThread, Conn.step, Conn.sendThread, wired]
    cases client.sendQueue with
    | nil => rfl
    | cons packet sendQueue => simp [Except.map, Except.mapError, wired]
  | recvThread =>
    cases down with
    | nil => rfl
    | cons packet down =>
      have hpacket : packet.Carried := h.down packet List.mem_cons_self
      have hrecv : recvPacket (serverWire packet) = .ok (some packet) :=
        hpacket.recvPacket_wire .server
      have hdrop := hpacket.dropPieces_wire .server (down.map serverWire)
      have hreturns := hpacket.returns .server (down.map serverWire)
      simp only [Sender.wire] at hdrop hreturns
      simp only [bytes, WireConn.step, WireConn.recvThread, Conn.step, Conn.recvThread, wired,
        List.map_cons, List.headD_cons]
      rw [if_pos hreturns, List.flatten_cons, List.take_left' rfl, hrecv, hdrop]
      rfl
  | logicThread memory =>
    simp only [bytes, WireConn.step, WireConn.logicThread, Conn.step, Conn.logicThread, wired]
    cases client.recvQueue <;> rfl

theorem framed_bytes {c c' : Conn} {a : Action} (hfits : c.sendsFitting a = true)
    (hs : c.Stepped a c') : c.wired.framed (c.bytes a) = true := by
  cases hs with
  | sendThread => exact hfits
  | recvThread hdown => simp [bytes, WireConn.framed, wired, hdown]
  | input | logicThread => rfl

theorem exists_bytes {c : Conn} {b : WireConn.Action} (h : c.wired.framed b = true) :
    ∃ a, c.sendsFitting a = true ∧ c.bytes a = b := by
  cases b with
  | input i => exact ⟨.input i, rfl, rfl⟩
  | sendThread => exact ⟨.sendThread, h, rfl⟩
  | logicThread memory => exact ⟨.logicThread memory, rfl, rfl⟩
  | recvThread n =>
    obtain ⟨chunk, hchunk, hn⟩ := (Option.any_eq_true _ _).mp h
    refine ⟨.recvThread, rfl, ?_⟩
    rw [bytes, List.headD_eq_head?_getD, hchunk]
    exact congrArg WireConn.Action.recvThread (of_decide_eq_true hn)

end Conn

namespace Chat

def wired (s : Chat) : WireChat where
  server := s.server
  jobQueue := s.jobQueue
  conns := s.conns.mapValues Conn.wired

def bytes (s : Chat) : Action → WireChat.Action
  | .accept addr socket outcome => .accept addr socket outcome
  | .recv session =>
    .recv session (((s.conns.find session).getD .init).wired.up.headD []).length
  | .disconnect session => .disconnect session
  | .logic => .logic
  | .send => .send
  | .client session a => .client session (((s.conns.find session).getD .init).bytes a)

theorem deliver_wired (s : Chat) (package : SendPackage) :
    s.wired.deliver package = (s.deliver package).mapValues Conn.wired := by
  simp only [WireChat.deliver, deliver, wired]
  cases s.server.deref package.session with
  | error e => rfl
  | ok found =>
    refine (StdMap.mapValues_modify (fun c => ?_) s.conns found.1).symm
    simp [Conn.wired]

theorem accept_wired (conns : StdMap UserPtr Conn) (addr : UserPtr)
    (outcome : Server.ConnectOutcome) :
    (if outcome = .connected then (conns.mapValues Conn.wired).set addr .init
      else conns.mapValues Conn.wired) =
      (if outcome = .connected then conns.set addr .init else conns).mapValues Conn.wired := by
  split
  · exact (StdMap.mapValues_set Conn.wired conns addr .init).symm
  · rfl

theorem Carries.recv_wired {s : Chat} (h : s.Carries) (session : UserPtr) :
    s.wired.step (s.bytes (.recv session)) =
      ((s.step (.recv session)).map wired).mapError .chat := by
  simp only [bytes, WireChat.step, WireChat.recv, Chat.step, Chat.recv, wired,
    StdMap.find_mapValues]
  cases hc : s.conns.find session with
  | none => rfl
  | some c =>
    obtain ⟨client, up, down⟩ := c
    cases up with
    | nil => rfl
    | cons packet up =>
      have hpacket : packet.Carried := (h.conn hc).up packet List.mem_cons_self
      have hrecv : recvPacket (clientWire packet) = .ok (some packet) :=
        hpacket.recvPacket_wire .client
      have hdrop := hpacket.dropPieces_wire .client (up.map clientWire)
      have hreturns := hpacket.returns .client (up.map clientWire)
      simp only [Sender.wire] at hdrop hreturns
      simp only [Option.map_some, Option.getD_some, Conn.wired, List.map_cons, List.headD_cons]
      rw [if_pos hreturns, List.flatten_cons, List.take_left' rfl, hrecv, hdrop]
      refine mapError_bind_comm fun _ => ?_
      simp [Except.map, Except.mapError, wired, Conn.wired, StdMap.mapValues_set]

theorem Carries.step_wired {s : Chat} (h : s.Carries) (a : Action) :
    s.wired.step (s.bytes a) = ((s.step a).map wired).mapError .chat := by
  cases a with
  | accept addr socket outcome =>
    refine mapError_bind_comm fun server => ?_
    rw [wired, accept_wired]
    rfl
  | recv session => exact h.recv_wired session
  | disconnect session => exact mapError_bind_comm fun id => mapError_bind_comm fun server => rfl
  | logic =>
    simp only [bytes, WireChat.step, WireChat.logic, Chat.step, Chat.logic, wired]
    cases s.jobQueue with
    | nil => rfl
    | cons package jobQueue => exact mapError_bind_comm fun server => rfl
  | send =>
    have hdeliver := s.deliver_wired
    simp only [bytes, WireChat.step, WireChat.send, Chat.step, Chat.send, hdeliver]
    simp only [wired]
    cases s.server.packages <;> rfl
  | client session a =>
    simp only [bytes, WireChat.step, WireChat.client, Chat.step, Chat.client, wired,
      StdMap.find_mapValues]
    cases hc : s.conns.find session with
    | none => rfl
    | some c =>
      simp only [Option.map_some, Option.getD_some, (h.conn hc).step_wired a]
      cases c.step a with
      | error e => rfl
      | ok c' => simp [Except.map, Except.mapError, wired, StdMap.mapValues_set]

theorem framed_bytes {s s' : Chat} {a : Action} (hfits : s.sendsFitting a = true)
    (hs : s.Stepped a s') : s.wired.framed (s.bytes a) = true := by
  cases hs with
  | recv hc => simp [bytes, WireChat.framed, wired, Conn.wired, hc]
  | send => exact hfits
  | @client session a c c' hc stepped =>
    have hfit : c.sendsFitting a = true := by simpa [sendsFitting, hc] using hfits
    simpa [bytes, WireChat.framed, wired, hc] using Conn.framed_bytes hfit stepped
  | accept | disconnect | logic => rfl

theorem exists_bytes {s : Chat} {b : WireChat.Action} (h : s.wired.framed b = true) :
    ∃ a, s.sendsFitting a = true ∧ s.bytes a = b := by
  cases b with
  | accept addr socket outcome => exact ⟨.accept addr socket outcome, rfl, rfl⟩
  | disconnect session => exact ⟨.disconnect session, rfl, rfl⟩
  | logic => exact ⟨.logic, rfl, rfl⟩
  | send => exact ⟨.send, h, rfl⟩
  | recv session n =>
    obtain ⟨c, hc, hfirst⟩ := (Option.any_eq_true _ _).mp h
    obtain ⟨chunk, hchunk, hn⟩ := (Option.any_eq_true _ _).mp hfirst
    simp only [wired, StdMap.find_mapValues, Option.map_eq_some_iff] at hc
    obtain ⟨d, hd, rfl⟩ := hc
    refine ⟨.recv session, rfl, ?_⟩
    rw [bytes, hd, Option.getD_some, List.headD_eq_head?_getD, hchunk]
    exact congrArg (WireChat.Action.recv session) (of_decide_eq_true hn)
  | client session b =>
    obtain ⟨c, hc, hframed⟩ := (Option.any_eq_true _ _).mp h
    simp only [wired, StdMap.find_mapValues, Option.map_eq_some_iff] at hc
    obtain ⟨d, hd, rfl⟩ := hc
    obtain ⟨a, hfits, rfl⟩ := Conn.exists_bytes hframed
    exact ⟨.client session a, by simpa [sendsFitting, hd] using hfits, by simp [bytes, hd]⟩

def spelled : system.Correspondence Fitting WireChat.system WireChat.Framed where
  view := wired
  label := bytes
  fault := .chat
  init := rfl
  step {_ a} hs _ := (carries_of_reach hs).step_wired a
  guard _ hg hstep := framed_bytes hg (stepped_of_ok hstep)
  cover _ hb := exists_bytes hb

/-- As long as the packets fit and every `recv` returns what one `send` was given, the states that
are reached over bytes are those reached with packets, spelled out; each step over bytes is one with
packets, and fails for the same reason or not at all. -/
theorem spelled_iff {t : WireChat} :
    WireChat.system.Reach WireChat.Framed t ↔
      ∃ s, system.Reach Fitting s ∧ s.wired = t ∧
        (∀ a, t.step (s.bytes a) = ((s.step a).map wired).mapError .chat) ∧
        ∀ b, t.Framed b → ∃ a, Fitting s a ∧ s.bytes a = b := by
  rw [spelled.reach_iff]
  constructor
  · rintro ⟨s, hs, rfl⟩
    exact ⟨s, hs, rfl, (carries_of_reach hs).step_wired, fun b hb => exists_bytes hb⟩
  · rintro ⟨s, hs, ht, -⟩
    exact ⟨s, hs, ht⟩

example : (WireChat.system.runWith WireChat.framed .init
    [.accept 0 7 .connected, .client 0 (.input .resume), .client 0 (.input (.line [97])),
      .client 0 .sendThread, .recv 0 6, .logic, .send, .client 0 (.recvThread 12)]).any (fun s =>
        (s.conns.find 0).any fun c => decide (c.client.recvQueue = [.sServerEnterOk 1])) =
      true := by
  decide +kernel

end Chat

end ChattingServer.V11
