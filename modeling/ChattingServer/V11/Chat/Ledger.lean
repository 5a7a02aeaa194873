import ChattingServer.V11.Chat.Link

namespace ChattingServer.V11

open Lib

namespace Server

def Reaches (s : Server) (s' : Server) : Prop :=
  ∃ ps, s'.packages = s.packages ++ ps ∧
    ∀ pkg ∈ ps, ∀ w, pkg.session = some w → s.user w ≠ .unused

theorem reaches_of_none {s s' : Server} (h : s'.packages = s.packages) : s.Reaches s' :=
  ⟨[], h.trans (List.append_nil _).symm, List.forall_mem_nil _⟩

theorem reaches_of_casts {s s' : Server} {users : List UserPtr} {p : Packet}
    (h : s'.packages = s.packages ++ casts users p) (hu : ∀ w ∈ users, s.user w ≠ .unused) :
    s.Reaches s' := by
  refine ⟨_, h, fun pkg hpkg w hw => ?_⟩
  obtain ⟨v, hv, rfl⟩ := List.mem_map.mp hpkg
  exact Option.some.inj hw ▸ hu v hv

theorem Registry.known {s : Server} (h : Registry s) {v : UserPtr} (hv : s.Registered v) :
    s.user v ≠ .unused := by
  obtain ⟨u, hu, -⟩ := h.live hv
  rw [hu]
  nofun

theorem reaches_removed {s : Server} (h : Registry s) (v : UserPtr) (u : User) :
    s.Reaches (s.removed v u) := by
  unfold removed
  split
  · exact reaches_of_none rfl
  · rename_i r hr
    exact reaches_of_casts (p := .sRoomExit u.userId) rfl fun w hw =>
      (h.member (List.mem_filter.mp hw).1).2

theorem Processed.reaches {s s' : Server} (h : Registry s) {session : UserPtr} {packet : Packet}
    (hsession : s.user session ≠ .unused) (hp : s.Processed session packet s') : s.Reaches s' := by
  have self : ∀ {w}, some session = some w → s.user w ≠ .unused := fun hw =>
    Option.some.inj hw ▸ hsession
  cases hp with
  | serverEnter sender nickname =>
    exact ⟨_, List.append_assoc .., List.forall_mem_cons.mpr
      ⟨fun w hw => self hw, List.forall_mem_singleton.mpr fun w hw => self hw⟩⟩
  | serverExit sender members => exact reaches_removed h _ _
  | lobbyRoomInfo => exact ⟨_, rfl, List.forall_mem_singleton.mpr fun w hw => self hw⟩
  | @roomCreate id hid roomName =>
    exact ⟨_, rfl, List.forall_mem_singleton.mpr fun w hw => h.known ⟨id, hw⟩⟩
  | @roomEnter id v u rid r sender room =>
    have hv : s.user v ≠ .unused := h.known ⟨id, sender.registered⟩
    refine ⟨_, rfl, List.forall_mem_append.mpr ⟨fun pkg hpkg w hw => ?_,
      List.forall_mem_singleton.mpr fun w hw => Option.some.inj hw ▸ hv⟩⟩
    obtain ⟨x, hx, rfl⟩ := List.mem_map.mp hpkg
    obtain rfl : x = w := Option.some.inj hw
    rw [room_setRoom_self] at hx
    rcases StdSet.mem_insert.mp hx with rfl | hx
    · exact hv
    · exact (h.member hx).2
  | @roomExit id v u r sender room =>
    exact reaches_of_casts (p := .sRoomExit u.userId) rfl fun w hw => (h.member hw).2
  | @unicast id v u sender recver found found_eq text =>
    have hv : s.user v ≠ .unused := h.known ⟨id, sender.registered⟩
    refine ⟨unicastPackages v u text found, rfl, ?_⟩
    cases found with
    | none => exact List.forall_mem_singleton.mpr fun w hw => Option.some.inj hw ▸ hv
    | some x =>
      have hx : s.user x ≠ .unused :=
        h.known (StdMap.mem_values_iff.mp (findByNickname_mem found_eq))
      exact List.forall_mem_cons.mpr ⟨fun w hw => Option.some.inj hw ▸ hv,
        List.forall_mem_singleton.mpr fun w hw => Option.some.inj hw ▸ hx⟩
  | @multicast id v u r sender room text =>
    exact reaches_of_casts (p := .sMulticast u.nickname text) rfl fun w hw => (h.member hw).2
  | @broadcast id v u sender text =>
    rw [broadCast_eq]
    refine ⟨_, rfl, fun pkg hpkg w hw => ?_⟩
    obtain ⟨r, -, hr⟩ := List.mem_flatMap.mp hpkg
    obtain ⟨x, hx, rfl⟩ := List.mem_map.mp hr
    exact Option.some.inj hw ▸ (h.member hx).2
  | unhandled => exact reaches_of_none rfl

theorem reaches_of_step {s s' : Server} (h : Registry s) {a : Action} (hs : s.step a = .ok s')
    (hknown : ∀ package, a = .process package → s.user package.session ≠ .unused) :
    s.Reaches s' := by
  cases a with
  | accept addr socket outcome => exact reaches_of_none (accepted_of_ok hs).2.packages
  | removeUser id =>
    rcases h.removedById hs with ⟨-, rfl⟩ | ⟨v, u, -, -, -, rfl⟩
    · exact reaches_of_none rfl
    · exact reaches_removed h v u
  | process package => exact (processed_of_ok hs).reaches h (hknown package rfl)

theorem unused_of_step {s s' : Server} {a : Action} (hs : s.step a = .ok s') {w : UserPtr}
    (hw : s'.user w = .unused) : s.user w = .unused := by
  cases a with
  | accept addr socket outcome =>
    obtain ⟨-, hacc⟩ := accepted_of_ok hs
    have hne : w ≠ addr := by
      rintro rfl
      exact hacc.user_ne_unused hw
    exact (hacc.user_of_ne hne).symm.trans hw
  | removeUser id =>
    rcases removedById_of_ok hs with ⟨-, rfl⟩ | ⟨v, u, -, -, -, rfl⟩
    · exact hw
    · rw [user_removed] at hw
      split at hw
      · contradiction
      · exact hw
  | process package => exact (processed_of_ok hs).unused hw

theorem live_of_step {s s' : Server} {a : Action} (hs : s.step a = .ok s') {w : UserPtr} {u' : User}
    (hne : s.user w ≠ .unused) (hw : s'.user w = .live u') : ∃ u, s.user w = .live u := by
  cases hu : s.user w with
  | unused => exact absurd hu hne
  | live u => exact ⟨u, rfl⟩
  | freed =>
    rw [freed_of_step hs hu] at hw
    contradiction

def pushes (s : Server) (a : Action) : List SendPackage :=
  match s.step a with
  | .ok s' => s'.packages.drop s.packages.length
  | .error _ => []

theorem Reaches.pushes {s s' : Server} (h : s.Reaches s') {a : Action} (hs : s.step a = .ok s') :
    s'.packages = s.packages ++ s.pushes a ∧
      ∀ w, s.user w = .unused → packetsFor w (s.pushes a) = [] := by
  obtain ⟨ps, hps, hknown⟩ := h
  have heq : s.pushes a = ps := by simp [Server.pushes, hs, hps]
  refine ⟨heq ▸ hps, fun w hw => ?_⟩
  rw [heq, packetsFor, List.map_eq_nil_iff, List.filter_eq_nil_iff]
  exact fun pkg hpkg hsession => hknown pkg hpkg w (of_decide_eq_true hsession) hw

end Server

namespace Conn

def issues (c : Conn) : Action → List Packet
  | .input i =>
    match c.client.stateThread c.client.page i with
    | .ok client => client.sendQueue.drop c.client.sendQueue.length
    | .error _ => []
  | .logicThread memory =>
    match c.client.recvQueue with
    | packet :: recvQueue =>
      ({ c.client with recvQueue }.recvProcess memory packet).sendQueue.drop
        c.client.sendQueue.length
    | [] => []
  | _ => []

def handles (c : Conn) : Action → List Packet
  | .logicThread _ => c.client.recvQueue.head?.toList
  | _ => []

theorem Stepped.issues {c c' : Conn} {a : Action} (h : c.Stepped a c') :
    c'.up ++ c'.client.sendQueue = c.up ++ c.client.sendQueue ++ c.issues a := by
  cases h with
  | @input i client turn =>
    have hsends : ∃ ps, client.sendQueue = c.client.sendQueue ++ ps := by
      rcases Client.turned_or_entered turn with ht | ⟨-, nickname, rfl⟩
      · exact ht.sends.imp fun _ => And.left
      · exact ⟨_, rfl⟩
    obtain ⟨ps, hps⟩ := hsends
    simp [Conn.issues, turn, hps]
  | sendThread hq => simp [Conn.issues, hq]
  | recvThread => simp [Conn.issues]
  | @logicThread packet recvQueue hq memory =>
    obtain ⟨ps, hps, -⟩ := (Client.received_recvProcess { c.client with recvQueue } memory
      packet).handled.exists_sendQueue
    simp [Conn.issues, hq, hps]

theorem Stepped.handles {c c' : Conn} {a : Action} (h : c.Stepped a c') :
    c.handles a ++ (c'.client.recvQueue ++ c'.down) = c.client.recvQueue ++ c.down := by
  cases h with
  | @input i client turn =>
    have hrecv : client.recvQueue = c.client.recvQueue := by
      rcases Client.turned_or_entered turn with ht | ⟨-, nickname, rfl⟩
      · exact ht.recvQueue
      · rfl
    simp [Conn.handles, hrecv]
  | sendThread => rfl
  | recvThread hdown => simp [Conn.handles, hdown]
  | @logicThread packet recvQueue hq memory =>
    have hrecv := (Client.received_recvProcess { c.client with recvQueue } memory
      packet).handled.recvQueue
    simp [Conn.handles, hq, hrecv]

end Conn

/-- What has happened so far: the requests that clients have made and those of them that have been
processed, what each step of the server has pushed, and the packets that clients have handled. -/
structure Ledger where
  issued : List RecvPackage
  processed : List RecvPackage
  log : List (List SendPackage)
  handled : List RecvPackage

namespace Chat

def ofConn (s : Chat) (f : Conn → Conn.Action → List Packet) : Action → List RecvPackage
  | .client v a =>
    match s.conns.find v with
    | some c => (f c a).map (⟨v, ·⟩)
    | none => []
  | _ => []

def processes (s : Chat) : Action → List RecvPackage
  | .logic => s.jobQueue.head?.toList
  | _ => []

def enter (k : Ledger) (s : Chat) (a : Action) : Ledger where
  issued := k.issued ++ s.ofConn Conn.issues a
  processed := k.processed ++ s.processes a
  log := k.log ++ ((s.serverAction a).map s.server.pushes).toList
  handled := k.handled ++ s.ofConn Conn.handles a

def kept : System (Chat × Ledger) Action Fault := system.withHistory ⟨[], [], [], []⟩ enter

structure Balanced (s : Chat) (k : Ledger) : Prop where
  registry : s.server.Registry
  known : ∀ {w c}, s.conns.find w = some c → s.server.user w ≠ .unused
  unconnected : ∀ {w}, s.conns.find w = none → packetsOf w k.issued = [] ∧
    packetsOf w k.processed = [] ∧ packetsOf w s.jobQueue = [] ∧ packetsOf w k.handled = []
  unused : ∀ {w}, s.server.user w = .unused → packetsFor w s.server.packages = [] ∧
    k.log.flatMap (packetsFor w) = []
  requests : ∀ {w c}, s.conns.find w = some c →
    packetsOf w k.issued = packetsOf w k.processed ++ s.outgoing w c
  replies : ∀ {w c}, s.conns.find w = some c →
    packetsOf w k.handled ++ (c.client.recvQueue ++ c.down) <+: k.log.flatMap (packetsFor w)
  live : ∀ {w c u}, s.conns.find w = some c → s.server.user w = .live u →
    k.log.flatMap (packetsFor w) = packetsOf w k.handled ++ s.incoming w c

theorem balanced_init : Balanced .init ⟨[], [], [], []⟩ where
  registry := Server.registry_init
  known := nofun
  unconnected _ := ⟨rfl, rfl, rfl, rfl⟩
  unused _ := ⟨rfl, rfl⟩
  requests := nofun
  replies := nofun
  live := nofun

theorem packetsOf_map (w v : UserPtr) (ps : List Packet) :
    packetsOf w (ps.map (⟨v, ·⟩)) = if v = w then ps else [] := by
  induction ps with
  | nil => simp
  | cons p ps ih =>
    rw [List.map_cons, packetsOf_cons, ih]
    split <;> rfl

theorem outgoing_eq (s : Chat) (w : UserPtr) (c : Conn) :
    s.outgoing w c = packetsOf w s.jobQueue ++ (c.up ++ c.client.sendQueue) :=
  List.append_assoc ..

theorem Balanced.setConn {s s' : Chat} {k k' : Ledger} (h : s.Balanced k) {v : UserPtr}
    {c c' : Conn} (hc : s.conns.find v = some c) (hserver : s'.server = s.server)
    (hconns : s'.conns = s.conns.set v c') (hlog : k'.log = k.log)
    (hothers : ∀ w, v ≠ w → packetsOf w k'.issued = packetsOf w k.issued ∧
      packetsOf w k'.processed = packetsOf w k.processed ∧
      packetsOf w s'.jobQueue = packetsOf w s.jobQueue ∧
      packetsOf w k'.handled = packetsOf w k.handled)
    (hrequests : packetsOf v k'.issued = packetsOf v k'.processed ++ s'.outgoing v c')
    (hreplies : packetsOf v k'.handled ++ (c'.client.recvQueue ++ c'.down) =
      packetsOf v k.handled ++ (c.client.recvQueue ++ c.down)) : s'.Balanced k' := by
  have hfind : ∀ {w d}, s'.conns.find w = some d →
      v = w ∧ d = c' ∨ v ≠ w ∧ s.conns.find w = some d := by
    intro w d hd
    rw [hconns, StdMap.find_set] at hd
    split at hd
    · exact .inl ⟨‹_›, (Option.some.inj hd).symm⟩
    · exact .inr ⟨‹_›, hd⟩
  refine ⟨hserver ▸ h.registry, fun {w d} hd => ?_, fun {w} hw => ?_, fun {w} hw => ?_,
    fun {w d} hd => ?_, fun {w d} hd => ?_, fun {w d u} hd hu => ?_⟩
  · rw [hserver]
    rcases hfind hd with ⟨rfl, rfl⟩ | ⟨-, hd⟩
    · exact h.known hc
    · exact h.known hd
  · rw [hconns, StdMap.find_set] at hw
    split at hw
    · contradiction
    · rename_i hne
      obtain ⟨hissued, hprocessed, hjobs, hhandled⟩ := hothers w hne
      rw [hissued, hprocessed, hjobs, hhandled]
      exact h.unconnected hw
  · rw [hlog, hserver]
    exact h.unused (hserver ▸ hw)
  · rcases hfind hd with ⟨rfl, rfl⟩ | ⟨hne, hd⟩
    · exact hrequests
    · obtain ⟨hissued, hprocessed, hjobs, -⟩ := hothers w hne
      rw [hissued, hprocessed, outgoing, hjobs]
      exact h.requests hd
  · rw [hlog]
    rcases hfind hd with ⟨rfl, rfl⟩ | ⟨hne, hd⟩
    · exact hreplies ▸ h.replies hc
    · exact (hothers w hne).2.2.2 ▸ h.replies hd
  · rw [hserver] at hu
    rw [hlog, incoming, hserver]
    rcases hfind hd with ⟨rfl, rfl⟩ | ⟨hne, hd⟩
    · rw [← List.append_assoc, hreplies, List.append_assoc]
      exact h.live hc hu
    · rw [(hothers w hne).2.2.2]
      exact h.live hd hu

theorem Balanced.client {s : Chat} {k : Ledger} (h : s.Balanced k) {v : UserPtr} {c c' : Conn}
    {a : Conn.Action} (hc : s.conns.find v = some c) (hs : c.Stepped a c') :
    Balanced { s with conns := s.conns.set v c' } (enter k s (.client v a)) := by
  have hk : enter k s (.client v a) = { k with
      issued := k.issued ++ (c.issues a).map (⟨v, ·⟩)
      handled := k.handled ++ (c.handles a).map (⟨v, ·⟩) } := by
    simp [enter, ofConn, processes, serverAction, hc]
  rw [hk]
  refine h.setConn hc rfl rfl rfl (fun w hne => ?_) ?_ ?_
  · simp [packetsOf_map, hne]
  · rw [packetsOf_append, packetsOf_map, if_pos rfl, h.requests hc, outgoing_eq, outgoing_eq,
      hs.issues]
    simp only [List.append_assoc]
  · rw [packetsOf_append, packetsOf_map, if_pos rfl, List.append_assoc, hs.handles]

theorem Balanced.recv {s : Chat} {k : Ledger} (h : s.Balanced k) {v : UserPtr} {client : Client}
    {packet : Packet} {up down : List Packet}
    (hc : s.conns.find v = some ⟨client, packet :: up, down⟩) :
    Balanced { s with
      jobQueue := s.jobQueue ++ [⟨v, packet⟩]
      conns := s.conns.set v ⟨client, up, down⟩ } k := by
  refine h.setConn hc rfl rfl rfl (fun w hne => ?_) ?_ rfl
  · simp [hne]
  · simp [h.requests hc, outgoing]

theorem Balanced.send {s : Chat} {k : Ledger} (h : s.Balanced k) {package : SendPackage}
    {packages : List SendPackage} (hq : s.server.packages = package :: packages) :
    Balanced { s with server := { s.server with packages }, conns := s.deliver package } k := by
  have hfor : ∀ w, packetsFor w s.server.packages =
      if package.session = some w then package.packet :: packetsFor w packages
      else packetsFor w packages := fun w => by rw [hq, packetsFor_cons]
  have hfind : ∀ {w d}, (s.deliver package).find w = some d →
      ∃ c, s.conns.find w = some c ∧ (d = c ∧
          (package.session = some w → ∀ u, s.server.user w ≠ .live u) ∨
        package.session = some w ∧ d = { c with down := c.down ++ [package.packet] } ∧
          ∃ u, s.server.user w = .live u) := by
    intro w d hd
    rcases Mirror.find_deliver s package w with ⟨hfind, hgone⟩ | ⟨hsession, hlive, hfind⟩
    · exact ⟨d, hfind.symm.trans hd, .inl ⟨rfl, hgone⟩⟩
    · obtain ⟨c, hc, rfl⟩ := Option.map_eq_some_iff.mp (hfind.symm.trans hd)
      exact ⟨c, hc, .inr ⟨hsession, rfl, hlive⟩⟩
  refine ⟨h.registry.queue packages s.server.closed, fun {w d} hd => ?_, fun {w} hw => ?_,
    fun {w} hw => ?_, fun {w d} hd => ?_, fun {w d} hd => ?_, fun {w d u} hd hu => ?_⟩
  · obtain ⟨c, hc, -⟩ := hfind hd
    exact h.known hc
  · refine h.unconnected (Option.eq_none_iff_forall_ne_some.mpr fun c hc => ?_)
    rcases Mirror.find_deliver s package w with ⟨hfind, -⟩ | ⟨-, -, hfind⟩
    · rw [hfind, hc] at hw
      contradiction
    · rw [hfind, hc] at hw
      contradiction
  · obtain ⟨hpackages, hlog⟩ := h.unused hw
    refine ⟨?_, hlog⟩
    rw [hfor] at hpackages
    split at hpackages
    · contradiction
    · exact hpackages
  · obtain ⟨c, hc, ⟨rfl, -⟩ | ⟨-, rfl, -⟩⟩ := hfind hd
    · exact h.requests hc
    · exact (h.requests hc :)
  · obtain ⟨c, hc, ⟨rfl, -⟩ | ⟨hsession, rfl, u, hu⟩⟩ := hfind hd
    · exact h.replies hc
    · rw [h.live hc hu, incoming, hfor, if_pos hsession]
      exact ⟨packetsFor w packages, by simp⟩
  · obtain ⟨c, hc, ⟨rfl, hgone⟩ | ⟨hsession, rfl, -⟩⟩ := hfind hd
    · rw [h.live hc hu, incoming, incoming, hfor, if_neg fun hsession => hgone hsession u hu]
    · rw [h.live hc hu, incoming, incoming, hfor, if_pos hsession]
      simp

theorem Balanced.served {s s' : Chat} {k k' : Ledger} (h : s.Balanced k) {b : Server.Action}
    (hs : s.server.step b = .ok s'.server)
    (hsession : ∀ package, b = .process package → s.server.user package.session ≠ .unused)
    (hissued : k'.issued = k.issued) (hhandled : k'.handled = k.handled)
    (hlog : k'.log = k.log ++ [s.server.pushes b])
    (hqueue : ∀ w, packetsOf w k'.processed ++ packetsOf w s'.jobQueue =
      packetsOf w k.processed ++ packetsOf w s.jobQueue)
    (hnone : ∀ w, s'.conns.find w = none → s.conns.find w = none)
    (hopened : ∀ w c, s'.conns.find w = some c → s.conns.find w = some c ∨
      s.server.user w = .unused ∧ s'.server.user w ≠ .unused ∧ c = .init) : s'.Balanced k' := by
  obtain ⟨hpackages, hsilent⟩ := (Server.reaches_of_step h.registry hs hsession).pushes hs
  have hfor : ∀ w, k'.log.flatMap (packetsFor w) =
      k.log.flatMap (packetsFor w) ++ packetsFor w (s.server.pushes b) := fun w => by simp [hlog]
  have hclosed : ∀ {w}, s.server.user w = .unused → s.conns.find w = none := fun {w} hw =>
    Option.eq_none_iff_forall_ne_some.mpr fun c hc => h.known hc hw
  have hunused : ∀ {w}, s'.server.user w = .unused → s.server.user w = .unused := fun {w} =>
    Server.unused_of_step hs
  refine ⟨h.registry.step hs, fun {w c} hc => ?_, fun {w} hw => ?_, fun {w} hw => ?_,
    fun {w c} hc => ?_, fun {w c} hc => ?_, fun {w c u} hc hu => ?_⟩
  · rcases hopened w c hc with hc | ⟨-, hne, -⟩
    · exact fun hw => h.known hc (hunused hw)
    · exact hne
  · obtain ⟨hnoissued, hnoprocessed, hnojobs, hnohandled⟩ := h.unconnected (hnone w hw)
    have hnil := hqueue w
    rw [hnoprocessed, hnojobs, List.append_nil, List.append_eq_nil_iff] at hnil
    exact ⟨hissued ▸ hnoissued, hnil.1, hnil.2, hhandled ▸ hnohandled⟩
  · obtain ⟨hnopackages, hnolog⟩ := h.unused (hunused hw)
    rw [hpackages, packetsFor_append, hfor, hnopackages, hnolog, hsilent w (hunused hw)]
    exact ⟨rfl, rfl⟩
  · rcases hopened w c hc with hc | ⟨hw, -, rfl⟩
    · rw [hissued, h.requests hc, outgoing_eq, outgoing_eq, ← List.append_assoc, ← hqueue w,
        List.append_assoc]
    · obtain ⟨hnoissued, hnoprocessed, hnojobs, -⟩ := h.unconnected (hclosed hw)
      have hnil := hqueue w
      rw [hnoprocessed, hnojobs, List.append_nil] at hnil
      rw [hissued, hnoissued, outgoing_eq, ← List.append_assoc, hnil]
      rfl
  · rcases hopened w c hc with hc | ⟨hw, -, rfl⟩
    · rw [hhandled, hfor]
      exact (h.replies hc).trans (List.prefix_append ..)
    · rw [hhandled, (h.unconnected (hclosed hw)).2.2.2]
      exact List.nil_prefix
  · rw [hfor, hhandled, incoming, hpackages, packetsFor_append]
    rcases hopened w c hc with hc | ⟨hw, -, rfl⟩
    · obtain ⟨v, hv⟩ := Server.live_of_step hs (h.known hc) hu
      rw [h.live hc hv, incoming]
      simp only [List.append_assoc]
    · rw [(h.unused hw).2, (h.unused hw).1, (h.unconnected (hclosed hw)).2.2.2]
      rfl

theorem Balanced.accept {s : Chat} {k : Ledger} (h : s.Balanced k) {addr : UserPtr}
    {socket : Socket} {outcome : Server.ConnectOutcome} {server : Server}
    (hs : s.server.accept addr socket outcome = .ok server) :
    Balanced { s with
      server
      conns := if outcome = .connected then s.conns.set addr .init else s.conns }
      { k with log := k.log ++ [s.server.pushes (.accept addr socket outcome)] } := by
  obtain ⟨haddr, hacc⟩ := Server.accepted_of_ok hs
  have hnone : s.conns.find addr = none :=
    Option.eq_none_iff_forall_ne_some.mpr fun c hc => h.known hc haddr
  have hfind {w c} := find_accept hnone outcome (w := w) (c := c)
  refine h.served (b := .accept addr socket outcome) hs (by rintro _ ⟨⟩) rfl rfl rfl (fun _ => rfl)
    (fun w hw => ?_) fun w c hc => ?_
  · refine Option.eq_none_iff_forall_ne_some.mpr fun c hc => ?_
    rw [show _ = some c from hfind.mpr (.inl hc)] at hw
    contradiction
  · rcases hfind.mp hc with hc | ⟨-, rfl, rfl⟩
    · exact .inl hc
    · exact .inr ⟨haddr, hacc.user_ne_unused, rfl⟩

theorem Balanced.known_of_job {s : Chat} {k : Ledger} (h : s.Balanced k) {package : RecvPackage}
    {jobQueue : List RecvPackage} (hq : s.jobQueue = package :: jobQueue) :
    s.server.user package.session ≠ .unused := by
  intro hunused
  have hnone : s.conns.find package.session = none :=
    Option.eq_none_iff_forall_ne_some.mpr fun c hc => h.known hc hunused
  have hjobs := (h.unconnected hnone).2.2.1
  rw [hq, packetsOf_cons, if_pos rfl] at hjobs
  contradiction

theorem Balanced.logic {s : Chat} {k : Ledger} (h : s.Balanced k) {package : RecvPackage}
    {jobQueue : List RecvPackage} {server : Server} (hq : s.jobQueue = package :: jobQueue)
    (hs : s.server.process package = .ok server) :
    Balanced { s with server, jobQueue }
      { k with
        processed := k.processed ++ [package]
        log := k.log ++ [s.server.pushes (.process package)] } := by
  refine h.served (b := .process package) hs (fun p hp => ?_) rfl rfl rfl (fun w => ?_)
    (fun _ => id) fun w c hc => .inl hc
  · obtain rfl : package = p := Server.Action.process.inj hp
    exact h.known_of_job hq
  · rw [hq, packetsOf_append, packetsOf_cons, packetsOf_cons]
    split <;> simp

theorem Balanced.step {s s' : Chat} {k : Ledger} (h : s.Balanced k) {a : Action}
    (hs : s.step a = .ok s') : s'.Balanced (enter k s a) := by
  cases stepped_of_ok hs with
  | accept hacc =>
    simpa [enter, ofConn, processes, serverAction] using h.accept hacc
  | recv hc hu => simpa [enter, ofConn, processes, serverAction] using h.recv hc
  | @disconnect session id server hid hremoved =>
    have hbalanced : Balanced { s with server }
        { k with log := k.log ++ [s.server.pushes (.removeUser id)] } :=
      h.served (b := .removeUser id) hremoved (by rintro _ ⟨⟩) rfl rfl rfl (fun _ => rfl)
        (fun _ hw => hw) fun _ _ => .inl
    simpa [enter, ofConn, processes, serverAction, hid] using hbalanced
  | logic hq hp => simpa [enter, ofConn, processes, serverAction, hq] using h.logic hq hp
  | send hq => simpa [enter, ofConn, processes, serverAction] using h.send hq
  | client hc hstep => exact h.client hc hstep

theorem balanced_of_reach {G : Chat × Ledger → Action → Prop} {x : Chat × Ledger}
    (h : kept.Reach G x) : x.1.Balanced x.2 :=
  h.invariant (P := fun x => x.1.Balanced x.2) balanced_init fun x a x' _ hx _ hs => by
    obtain ⟨hstep, hk⟩ := System.withHistory_step.mp hs
    rw [hk]
    exact hx.step hstep

/-- Requests and packets are neither lost nor made up nor reordered on their way.  The requests of
a client are processed in the order it has made them; and all clients handle the packets of one
log, each those that are addressed to it, in its order and without a gap: up to the last one for a
user that is there, and as far as they were delivered for a user that is gone. -/
theorem conveyed {x : Chat × Ledger} (h : kept.Reachable x) {w : UserPtr} {c : Conn}
    (hc : x.1.conns.find w = some c) :
    packetsOf w x.2.issued = packetsOf w x.2.processed ++ x.1.outgoing w c ∧
      packetsOf w x.2.handled ++ (c.client.recvQueue ++ c.down) <+:
        x.2.log.flatMap (packetsFor w) ∧
      ∀ u, x.1.server.user w = .live u → x.2.log.flatMap (packetsFor w) =
        packetsOf w x.2.handled ++ x.1.incoming w c := by
  have hbalanced := balanced_of_reach h
  exact ⟨hbalanced.requests hc, hbalanced.replies hc, fun u hu => hbalanced.live hc hu⟩

theorem conveyed_chat :
    ∃ x c, kept.Reachable x ∧ x.1.conns.find 0 = some c ∧
      (packetsOf 0 x.2.processed).getLast? = some (.cMulticast [104]) ∧
      c.client.recvQueue ++ c.down = [.sMulticast [97] [104]] ∧
      packetsOf 0 x.2.issued = packetsOf 0 x.2.processed ++ x.1.outgoing 0 c ∧
      packetsOf 0 x.2.handled ++ (c.client.recvQueue ++ c.down) <+:
        x.2.log.flatMap (packetsFor 0) := by
  obtain ⟨x, hx, hp⟩ := System.exists_of_run (S := kept)
    (p := fun x => (x.1.conns.find 0).any fun c =>
      decide ((packetsOf 0 x.2.processed).getLast? = some (.cMulticast [104]) ∧
        c.client.recvQueue ++ c.down = [.sMulticast [97] [104]]))
    (login 0 [97] ++ pressEnter 0 ++ requests 0 1 ++ replies 0 1 ++ pressEnter 0 ++ requests 0 1 ++
      replies 0 2 ++ enterLine 0 [104] ++ requests 0 1 ++ [.send, .client 0 .recvThread])
    (by decide +kernel : (kept.run kept.init _).any _ = true)
  obtain ⟨c, hc, hq⟩ := (Option.any_eq_true _ _).mp hp
  obtain ⟨hprocessed, harriving⟩ := of_decide_eq_true hq
  obtain ⟨hrequests, hreplies, -⟩ := conveyed hx hc
  exact ⟨x, c, hx, hc, hprocessed, harriving, hrequests, hreplies⟩

end Chat

end ChattingServer.V11
