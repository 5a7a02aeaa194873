import ChattingServer.V11.Server.Threads

namespace ChattingServer.V11

open Lib

namespace Session

def isConnected (s : Session) : Bool := s.socket.isSome

/-- `Session::Close`: the sockets that it closes, and the session after that.  `socket_` is left
as it is. -/
def close (s : Session) : List Socket × Session :=
  if s.isConnected then (s.socket.toList, s) else ([], s)

theorem fst_close (s : Session) : s.close.1 = s.socket.toList := by
  unfold close isConnected
  cases s.socket <;> rfl

@[simp] theorem snd_close (s : Session) : s.close.2 = s := by
  unfold close
  split <;> rfl

theorem isConnected_iff {s : Session} : s.isConnected = true ↔ ∃ k, s.socket = some k :=
  Option.isSome_iff_exists

end Session

namespace Server

def sessionOf (s : Server) (v : UserPtr) : Option Session :=
  match s.user v with
  | .live u => some u.session
  | _ => none

end Server

namespace ChatServer

/-- The `catch` branch of `ChatServer::WorkerThread`. -/
def caught (s : ChatServer) (session : UserPtr) : Except Fault ChatServer := do
  let (_, u) ← s.server.deref (some session)
  if u.session.isConnected then s.removeSession session else return s

def Action.socket : Action → Option Socket
  | .accept _ socket _ => some socket
  | _ => none

/-- The sessions that `Session::Close` is called for in a step, once for each call. -/
def closes (s : ChatServer) : Action → List UserPtr
  | .accept addr _ .recvFailed => [addr, addr]
  | .worker i (.received _ false) => s.pending[i]?.toList.map (·.session)
  | a => (s.deletion a).toList.map Prod.snd

def leaves (s : ChatServer) : Action → List Session
  | .accept _ socket .recvFailed =>
    -- the session is closed in `BindRecv` and again in `Connect`
    let session := (Session.close ⟨some socket, s.server.userId⟩).2
    [session, session.close.2]
  | a => (s.closes a).filterMap fun v => (s.server.sessionOf v).map fun session => session.close.2

/-- No `BindRecv` of the step fails. -/
def Action.bindsRecv : Action → Bool
  | .accept _ _ outcome => outcome ≠ .recvFailed
  | .worker _ (.received _ bound) => bound
  | _ => true

end ChatServer

/-- The server with the sockets that it has accepted, the users whose sessions have been closed
and the sessions as each `Session::Close` has left them.  A handle that the kernel gives out a
second time is another socket. -/
structure Closing where
  chat : ChatServer
  accepted : List Socket
  closed : List UserPtr
  left : List Session

namespace Server

theorem sessionOf_of_live {s : Server} {v : UserPtr} {u : User} (h : s.user v = .live u) :
    s.sessionOf v = some u.session := by
  simp [sessionOf, h]

theorem live_of_sessionOf {s : Server} {v : UserPtr} {session : Session}
    (h : s.sessionOf v = some session) : ∃ u, s.user v = .live u ∧ u.session = session := by
  unfold sessionOf at h
  split at h
  · exact ⟨_, ‹_›, Option.some.inj h⟩
  · contradiction

theorem sessionOf_setUser {s : Server} {v : UserPtr} {u u' : User} (hu : s.user v = .live u)
    (h : u'.session = u.session) (w : UserPtr) :
    (s.setUser v (.live u')).sessionOf w = s.sessionOf w := by
  by_cases hw : w = v
  · subst hw
    rw [sessionOf_of_live (user_setUser_self ..), sessionOf_of_live hu, h]
  · rw [sessionOf, user_setUser_of_ne s hw, sessionOf]

theorem sessionOf_removed (s : Server) (v w : UserPtr) (u : User) :
    (s.removed v u).sessionOf w = if w = v then none else s.sessionOf w := by
  by_cases hw : w = v
  · rw [sessionOf, user_removed, if_pos hw, if_pos hw]
  · rw [sessionOf, user_removed, if_neg hw, if_neg hw, sessionOf]

theorem sessionOf_of_removed {s : Server} {v w : UserPtr} {u : User} {session : Session}
    (h : (s.removed v u).sessionOf w = some session) : w ≠ v ∧ s.sessionOf w = some session := by
  rw [sessionOf_removed] at h
  split at h
  · contradiction
  · exact ⟨‹_›, h⟩

theorem closed_removed (s : Server) (v : UserPtr) (u : User) :
    (s.removed v u).closed = s.closed ++ u.session.close.1 := by
  rw [Session.fst_close]
  unfold removed
  split <;> rfl

/-- What a step does to the sessions: the socket that it accepts, the sessions that it closes and
whether every receive of it is posted. -/
inductive Effect (s : Server) : Option Socket → List UserPtr → Bool → Server → Prop
  | quiet {s' : Server} (closed : s'.closed = s.closed)
      (session : ∀ v, s'.sessionOf v = s.sessionOf v)
      (unused : ∀ {v}, s'.user v = .unused → s.user v = .unused) : Effect s none [] true s'
  | removed {v : UserPtr} {u : User} (live : s.user v = .live u) :
      Effect s none [v] true (s.removed v u)
  | unbound {v : UserPtr} {u : User} (live : s.user v = .live u) :
      Effect s none [v] false (ChatServer.closeSession s u)
  | connected {addr : UserPtr} {socket : Socket} {u : User} {s' : Server}
      (unused : s.user addr = .unused) (socket_eq : u.session.socket = some socket)
      (closed : s'.closed = s.closed) (user : s'.user = Function.update s.user addr (.live u)) :
      Effect s (some socket) [] true s'
  | bindFailed {addr : UserPtr} {socket : Socket} {s' : Server}
      (unused : s.user addr = .unused) (closed : s'.closed = s.closed ++ [socket])
      (user : s'.user = Function.update s.user addr .freed) :
      Effect s (some socket) [] true s'
  | recvFailed {addr : UserPtr} {socket : Socket} {s' : Server}
      (unused : s.user addr = .unused) (closed : s'.closed = s.closed ++ [socket, socket, socket])
      (user : s'.user = Function.update s.user addr .freed) :
      Effect s (some socket) [addr, addr] false s'

theorem Effect.same {s s' : Server} (closed : s'.closed = s.closed) (user : s'.user = s.user) :
    Effect s none [] true s' :=
  .quiet closed (fun v => by rw [sessionOf, user, sessionOf]) fun h => user ▸ h

theorem Processed.effect {s s' : Server} {session : UserPtr} {packet : Packet}
    (hp : s.Processed session packet s') (hexit : packet ≠ .cServerExit) :
    Effect s none [] true s' := by
  have hunused : ∀ {w}, s'.user w = .unused → s.user w = .unused := hp.unused
  cases hp with
  | serverEnter sender | roomEnter sender | roomExit sender =>
    exact .quiet rfl (sessionOf_setUser sender.live rfl) hunused
  | serverExit => exact absurd rfl hexit
  | broadcast =>
    rw [broadCast_eq]
    exact .same rfl rfl
  | lobbyRoomInfo | roomCreate | unicast | multicast | unhandled => exact .same rfl rfl

theorem effect_of_accept {s s' : Server} {addr : UserPtr} {socket : Socket}
    {outcome : ConnectOutcome} (h : s.accept addr socket outcome = .ok s') :
    Effect s (some socket) (if outcome = .recvFailed then [addr, addr] else [])
      (outcome ≠ .recvFailed) s' := by
  obtain ⟨haddr, -⟩ := accepted_of_ok h
  simp only [accept, createUser, newUser, haddr, ok_bind] at h
  cases outcome with
  | connected =>
    cases h
    exact .connected (u := ⟨⟨some socket, s.userId⟩, s.userId, none, []⟩) haddr rfl rfl rfl
  | bindFailed =>
    cases h
    exact .bindFailed haddr rfl (Function.update_idem ..)
  | recvFailed =>
    cases h
    exact .recvFailed haddr (List.append_assoc ..) (Function.update_idem ..)

end Server

namespace ChatServer

theorem effect_of_worker {s s' : ChatServer} {i : Nat} {result : IoResult} {c : Completion}
    {pending : List Completion} (hc : s.pending[i]? = some c)
    (h : { s with pending }.workerThread c result = .ok s') :
    Server.Effect s.server none (s.closes (.worker i result)) (Action.worker i result).bindsRecv
      s'.server := by
  have removed : ∀ {t : ChatServer}, t.removeSession c.session = .ok s' → t.server = s.server →
      Server.Effect s.server none ((s.deletion (.worker i .failed)).toList.map Prod.snd) true
        s'.server := by
    intro t ht hserver
    simp only [removeSession, hserver, bind_eq_ok_iff] at ht
    obtain ⟨id, hid, server, hserver, ht⟩ := ht
    cases ht
    have hdel : s.deletion (.worker i .failed) = (s.server.userList.find id).map fun v =>
        ({ s with pending := s.pending.eraseIdx i }, v) := by
      simp only [deletion, hc, Server.sessionUser, hid, ok_bind, pure_eq_ok, Server.getUser]
      cases s.server.userList.find id <;> rfl
    rw [hdel]
    rcases Server.removedById_of_ok hserver with ⟨hnone, rfl⟩ | ⟨v, u, hv, hu, -, rfl⟩
    · rw [hnone]
      exact .same rfl rfl
    · rw [hv]
      exact .removed hu
  obtain ⟨session, io⟩ := c
  cases result with
  | failed => exact removed h rfl
  | zeroBytes => exact removed h rfl
  | sent =>
    cases io with
    | recv => contradiction
    | send =>
      simp only [workerThread, bind_eq_ok_iff] at h
      obtain ⟨_, -, h⟩ := h
      cases h
      exact .same rfl rfl
  | received packet bound =>
    cases io with
    | send => contradiction
    | recv =>
      simp only [workerThread, bind_eq_ok_iff, Prod.exists, Server.deref_ok_iff] at h
      obtain ⟨_, u, ⟨⟨⟩, hu⟩, h⟩ := h
      cases h
      cases bound with
      | true => exact .same rfl rfl
      | false =>
        have hclosed : s.closes (.worker i (.received packet false)) = [session] := by
          simp [closes, hc]
        rw [hclosed]
        exact .unbound hu

theorem effect_of_step {s s' : ChatServer} {a : Action} (h : s.step a = .ok s') :
    Server.Effect s.server a.socket (s.closes a) a.bindsRecv s'.server := by
  cases a with
  | accept addr socket outcome =>
    simp only [step, accept, bind_eq_ok_iff] at h
    obtain ⟨server, hserver, h⟩ := h
    cases h
    have heffect := Server.effect_of_accept hserver
    cases outcome <;> exact heffect
  | worker i result =>
    simp only [step, worker] at h
    cases hc : s.pending[i]? with
    | none => simp [hc] at h
    | some c =>
      rw [hc] at h
      exact effect_of_worker hc h
  | logic =>
    simp only [step, runProcess] at h
    split at h
    · contradiction
    · rename_i package jobQueue hq
      obtain ⟨session, packet⟩ := package
      simp only [bind_eq_ok_iff] at h
      obtain ⟨server, hserver, h⟩ := h
      cases h
      have hp := Server.processed_of_ok hserver
      by_cases hexit : packet = .cServerExit
      · subst hexit
        cases hp with
        | @serverExit id v u sender members =>
          have hcloses : s.closes .logic = [v] := by
            simp [closes, deletion, hq, Server.sessionUser, sender.session, sender.registered]
          rw [hcloses]
          exact .removed sender.live
        | unhandled hnot => contradiction
      · have hcloses : s.closes .logic = [] := by
          simp only [closes, deletion, hq]
          cases packet with
          | cServerExit => contradiction
          | _ => rfl
        rw [hcloses]
        exact hp.effect hexit
  | send outcome =>
    simp only [step, sendRun] at h
    split at h
    · contradiction
    · split at h
      · cases h
        exact .same rfl rfl
      · simp only [bind_eq_ok_iff] at h
        obtain ⟨_, -, h⟩ := h
        split at h <;> (cases h; exact .same rfl rfl)

end ChatServer

/-- A session that says that it is not connected, which keeps it from being closed again and its
user from being removed by a worker that has caught it. -/
structure Session.Disconnected (session : Session) : Prop where
  isConnected : session.isConnected = false
  close : session.close = ([], session)
  caught : ∀ {chat : ChatServer} {v : UserPtr} {u : User}, chat.server.user v = .live u →
    u.session = session → chat.caught v = .ok chat

theorem Session.disconnected_iff {session : Session} :
    session.Disconnected ↔ session.isConnected = false := by
  refine ⟨Disconnected.isConnected, fun h => ⟨h, by simp [Session.close, h], ?_⟩⟩
  rintro chat v u hu rfl
  rw [ChatServer.caught, Server.deref_ok_iff.mpr ⟨rfl, hu⟩, ok_bind]
  simp [h]

namespace Closing

def init : Closing := ⟨.init, [], [], []⟩

def step (x : Closing) (a : ChatServer.Action) : Except Fault Closing := do
  if ∃ socket ∈ a.socket, socket ∈ x.accepted then throw .disabled
  let chat ← x.chat.step a
  return {
    chat
    accepted := x.accepted ++ a.socket.toList
    closed := x.closed ++ x.chat.closes a
    left := x.left ++ x.chat.leaves a }

def system : System Closing ChatServer.Action Fault where
  init := init
  step := step

def Once (x : Closing) : Prop := ∀ socket, x.chat.server.closed.count socket ≤ 1

structure ClosedOnce (x : Closing) : Prop where
  once : x.Once
  disconnected : ∀ session ∈ x.left, session.Disconnected

/-- The step closes no session twice, and none that has been closed before. -/
def ClosesAnew (x : Closing) (a : ChatServer.Action) : Prop :=
  (x.chat.closes a).Nodup ∧ ∀ v ∈ x.chat.closes a, v ∉ x.closed

structure Owned (x : Closing) : Prop where
  accepted : ∀ {k}, k ∈ x.chat.server.closed → k ∈ x.accepted
  socket : ∀ {v session}, x.chat.server.sessionOf v = some session →
    ∃ k ∈ x.accepted, session.socket = some k
  unique : ∀ {v w session session'}, x.chat.server.sessionOf v = some session →
    x.chat.server.sessionOf w = some session' → session.socket = session'.socket → v = w
  closer : ∀ {v session k}, x.chat.server.sessionOf v = some session →
    session.socket = some k → (k ∈ x.chat.server.closed ↔ v ∈ x.closed)
  used : ∀ {v}, v ∈ x.closed → x.chat.server.user v ≠ .unused

theorem owned_init : Owned init where
  accepted h := by simp [init, ChatServer.init, Server.init] at h
  socket h := by simp [init, ChatServer.init, Server.init, Server.sessionOf] at h
  unique h := by simp [init, ChatServer.init, Server.init, Server.sessionOf] at h
  closer h := by simp [init, ChatServer.init, Server.init, Server.sessionOf] at h
  used h := by simp [init] at h

theorem Owned.mono {x x' : Closing} (h : Owned x) {ks : List Socket}
    (hsession : ∀ {w session}, x'.chat.server.sessionOf w = some session →
      x.chat.server.sessionOf w = some session)
    (hsockets : x'.chat.server.closed = x.chat.server.closed ++ ks)
    (hks : ∀ k ∈ ks, k ∈ x'.accepted)
    (hcloser : ∀ {w session k}, x'.chat.server.sessionOf w = some session →
      session.socket = some k → (w ∈ x'.closed ↔ w ∈ x.closed ∨ k ∈ ks))
    (haccepted : x.accepted ⊆ x'.accepted)
    (hused : ∀ {v}, v ∈ x'.closed → x'.chat.server.user v ≠ .unused) : Owned x' where
  accepted {k} hk := by
    rw [hsockets] at hk
    exact (List.mem_append.mp hk).elim (fun hk => haccepted (h.accepted hk)) (hks k)
  socket hv := by
    obtain ⟨k, hk, heq⟩ := h.socket (hsession hv)
    exact ⟨k, haccepted hk, heq⟩
  unique hv hw heq := h.unique (hsession hv) (hsession hw) heq
  closer {v session k} hv hsocket := by
    rw [hsockets, List.mem_append, h.closer (hsession hv) hsocket]
    exact (hcloser hv hsocket).symm
  used := hused

theorem sessionOf_update {s s' : Server} {addr : UserPtr} {cell : Cell}
    (haddr : s.user addr = .unused) (huser : s'.user = Function.update s.user addr cell)
    {w : UserPtr} {session : Session} (hw : s'.sessionOf w = some session) :
    w = addr ∧ (∃ u, cell = .live u ∧ u.session = session) ∨
      w ≠ addr ∧ s.sessionOf w = some session := by
  obtain ⟨u, hu, rfl⟩ := Server.live_of_sessionOf hw
  rw [huser] at hu
  by_cases hwa : w = addr
  · subst hwa
    rw [Function.update_self] at hu
    exact .inl ⟨rfl, u, hu, rfl⟩
  · rw [Function.update_of_ne hwa] at hu
    exact .inr ⟨hwa, Server.sessionOf_of_live hu⟩

theorem used_update {x : Closing} (h : Owned x) {addr v : UserPtr} {cell : Cell}
    (hv : v ∈ x.closed) (hcell : cell ≠ .unused) :
    Function.update x.chat.server.user addr cell v ≠ .unused := by
  by_cases hva : v = addr
  · subst hva
    rwa [Function.update_self]
  · rw [Function.update_of_ne hva]
    exact h.used hv

theorem Owned.connected {x : Closing} (h : Owned x) {chat : ChatServer} {addr : UserPtr}
    {socket : Socket} {u : User} (hfresh : socket ∉ x.accepted)
    (haddr : x.chat.server.user addr = .unused) (hsocket : u.session.socket = some socket)
    (hsockets : chat.server.closed = x.chat.server.closed)
    (huser : chat.server.user = Function.update x.chat.server.user addr (.live u))
    (left : List Session) : Owned ⟨chat, x.accepted ++ [socket], x.closed, left⟩ := by
  have hcases := @sessionOf_update _ _ _ _ haddr huser
  have hnew : ∀ {w session}, x.chat.server.sessionOf w = some session →
      session.socket ≠ some socket := by
    intro w session hw heq
    obtain ⟨k, hk, hsession⟩ := h.socket hw
    rw [heq] at hsession
    exact hfresh (Option.some.inj hsession ▸ hk)
  refine ⟨fun {k} hk => ?_, fun {v session} hv => ?_, fun {v w session session'} hv hw heq => ?_,
    fun {v session k} hv hk => ?_, fun {v} hv => ?_⟩
  · exact List.mem_append_left _ (h.accepted (hsockets ▸ hk))
  · rcases hcases hv with ⟨-, _, ⟨⟩, rfl⟩ | ⟨-, hv⟩
    · exact ⟨socket, List.mem_append_right _ (List.mem_singleton_self _), hsocket⟩
    · obtain ⟨k, hk, hsession⟩ := h.socket hv
      exact ⟨k, List.mem_append_left _ hk, hsession⟩
  · rcases hcases hv with ⟨rfl, _, ⟨⟩, rfl⟩ | ⟨-, hv⟩
    · rcases hcases hw with ⟨rfl, -⟩ | ⟨-, hw⟩
      · rfl
      · exact absurd (heq.symm.trans hsocket) (hnew hw)
    · rcases hcases hw with ⟨rfl, _, ⟨⟩, rfl⟩ | ⟨-, hw⟩
      · exact absurd (heq.trans hsocket) (hnew hv)
      · exact h.unique hv hw heq
  · change k ∈ chat.server.closed ↔ v ∈ x.closed
    rw [hsockets]
    rcases hcases hv with ⟨rfl, _, ⟨⟩, rfl⟩ | ⟨-, hv⟩
    · obtain rfl := Option.some.inj (hsocket.symm.trans hk)
      exact iff_of_false (fun hmem => hfresh (h.accepted hmem)) fun hmem => h.used hmem haddr
    · exact h.closer hv hk
  · change chat.server.user v ≠ .unused
    rw [huser]
    exact used_update h hv Cell.noConfusion

theorem Owned.refused {x : Closing} (h : Owned x) {chat : ChatServer} {addr : UserPtr}
    {socket : Socket} {ks : List Socket} {closes : List UserPtr} (hfresh : socket ∉ x.accepted)
    (haddr : x.chat.server.user addr = .unused)
    (hsockets : chat.server.closed = x.chat.server.closed ++ ks) (hks : ∀ k ∈ ks, k = socket)
    (huser : chat.server.user = Function.update x.chat.server.user addr .freed)
    (hcloses : ∀ v ∈ closes, v = addr) (left : List Session) :
    Owned ⟨chat, x.accepted ++ [socket], x.closed ++ closes, left⟩ := by
  have hsession : ∀ {w session}, chat.server.sessionOf w = some session →
      w ≠ addr ∧ x.chat.server.sessionOf w = some session := by
    intro w session hw
    rcases sessionOf_update haddr huser hw with ⟨-, _, ⟨⟩, -⟩ | hw
    exact hw
  refine h.mono (fun hw => (hsession hw).2) hsockets (fun k hk => ?_)
    (fun {w session k} hw hk => ?_) (List.subset_append_left ..) fun {v} hv => ?_
  · rw [hks k hk]
    exact List.mem_append_right _ (List.mem_singleton_self _)
  · obtain ⟨hne, hw⟩ := hsession hw
    obtain ⟨k', hk', heq⟩ := h.socket hw
    obtain rfl := Option.some.inj (hk.symm.trans heq)
    have hother : k ∉ ks := fun hmem => hfresh (hks k hmem ▸ hk')
    have hkept : w ∉ closes := fun hmem => hne (hcloses w hmem)
    simp only [List.mem_append, hother, hkept, or_false]
  · change chat.server.user v ≠ .unused
    rw [huser]
    rcases List.mem_append.mp hv with hv | hv
    · exact used_update h hv Cell.noConfusion
    · rw [hcloses v hv, Function.update_self]
      nofun

theorem Owned.owner {x : Closing} (h : Owned x) {v : UserPtr} {u : User}
    (live : x.chat.server.user v = .live u) :
    ∃ k ∈ x.accepted, u.session.close.1 = [k] ∧ u.session.socket = some k ∧
      ∀ {w session}, x.chat.server.sessionOf w = some session →
        (session.socket = some k ↔ w = v) := by
  have hv := Server.sessionOf_of_live live
  obtain ⟨k, hk, heq⟩ := h.socket hv
  refine ⟨k, hk, by rw [Session.fst_close, heq, Option.toList_some], heq, fun {w session} hw => ?_⟩
  constructor
  · exact fun hs => h.unique hw hv (hs.trans heq.symm)
  · rintro rfl
    rw [← Option.some.inj (hv.symm.trans hw)]
    exact heq

theorem Owned.removed {x : Closing} (h : Owned x) {chat : ChatServer} {v : UserPtr} {u : User}
    (live : x.chat.server.user v = .live u) (hserver : chat.server = x.chat.server.removed v u)
    (left : List Session) : Owned ⟨chat, x.accepted, x.closed ++ [v], left⟩ := by
  obtain ⟨_, jobQueue, pending⟩ := chat
  subst hserver
  obtain ⟨k, hk, hclose, -, howner⟩ := h.owner live
  refine h.mono (fun hw => (Server.sessionOf_of_removed hw).2)
    ((Server.closed_removed ..).trans (congrArg _ hclose)) (fun j hj => ?_)
    (fun {w session j} hw hj => ?_) (List.Subset.refl _) fun {w} hw => ?_
  · rwa [List.mem_singleton.mp hj]
  · obtain ⟨hne, hold⟩ := Server.sessionOf_of_removed hw
    have hother : j ≠ k := by
      rintro rfl
      exact hne ((howner hold).mp hj)
    simp only [List.mem_append, List.mem_singleton, hne, hother]
  · change (x.chat.server.removed v u).user w ≠ .unused
    rw [Server.user_removed]
    split
    · nofun
    · rename_i hne
      rcases List.mem_append.mp hw with hw | hw
      · exact h.used hw
      · exact absurd (List.mem_singleton.mp hw) hne

theorem Owned.unbound {x : Closing} (h : Owned x) {chat : ChatServer} {v : UserPtr} {u : User}
    (live : x.chat.server.user v = .live u)
    (hserver : chat.server = ChatServer.closeSession x.chat.server u) (left : List Session) :
    Owned ⟨chat, x.accepted, x.closed ++ [v], left⟩ := by
  obtain ⟨_, jobQueue, pending⟩ := chat
  subst hserver
  obtain ⟨k, hk, -, hsocket, howner⟩ := h.owner live
  have hclosed : (ChatServer.closeSession x.chat.server u).closed =
      x.chat.server.closed ++ [k] := by
    rw [ChatServer.closeSession, hsocket, Option.toList_some]
  refine h.mono id hclosed (fun j hj => ?_) (fun {w session j} hw hj => ?_) (List.Subset.refl _)
    fun {w} hw => ?_
  · rwa [List.mem_singleton.mp hj]
  · rw [List.mem_append, List.mem_singleton, List.mem_singleton, ← howner hw, hj,
      Option.some.injEq]
  · rcases List.mem_append.mp hw with hw | hw
    · exact h.used hw
    · rw [List.mem_singleton.mp hw]
      exact live.trans_ne nofun

theorem Owned.effect {x : Closing} (h : Owned x) {chat : ChatServer} {socket : Option Socket}
    {closes : List UserPtr} {bound : Bool} (hfresh : ∀ k ∈ socket, k ∉ x.accepted)
    (he : Server.Effect x.chat.server socket closes bound chat.server) (left : List Session) :
    Owned ⟨chat, x.accepted ++ socket.toList, x.closed ++ closes, left⟩ := by
  obtain ⟨server, jobQueue, pending⟩ := chat
  change Server.Effect x.chat.server socket closes bound server at he
  cases he with
  | quiet closed session unused =>
    rw [Option.toList_none, List.append_nil, List.append_nil]
    exact h.mono (fun hw => (session _).symm.trans hw) (closed.trans (List.append_nil _).symm)
      (List.forall_mem_nil _) (by simp) (List.Subset.refl _)
      fun {v} hv hun => h.used hv (unused hun)
  | removed live =>
    rw [Option.toList_none, List.append_nil]
    exact h.removed live rfl left
  | unbound live =>
    rw [Option.toList_none, List.append_nil]
    exact h.unbound live rfl left
  | connected unused socket_eq closed user =>
    rw [List.append_nil]
    exact h.connected (hfresh _ rfl) unused socket_eq closed user left
  | bindFailed unused closed user =>
    exact h.refused (hfresh _ rfl) unused closed (by simp) user (List.forall_mem_nil _) left
  | recvFailed unused closed user =>
    exact h.refused (hfresh _ rfl) unused closed (by simp) user (by simp) left

theorem step_ok {x x' : Closing} {a : ChatServer.Action} (h : x.step a = .ok x') :
    (∀ k ∈ a.socket, k ∉ x.accepted) ∧
      Server.Effect x.chat.server a.socket (x.chat.closes a) a.bindsRecv x'.chat.server ∧
        x' = ⟨x'.chat, x.accepted ++ a.socket.toList, x.closed ++ x.chat.closes a,
          x.left ++ x.chat.leaves a⟩ := by
  unfold step at h
  split at h
  · contradiction
  · rename_i hfresh
    simp only [not_exists, not_and] at hfresh
    simp only [pure_eq_ok, bind_eq_ok_iff] at h
    obtain ⟨chat, hchat, h⟩ := h
    cases h
    exact ⟨hfresh, ChatServer.effect_of_step hchat, rfl⟩

theorem Owned.step {x x' : Closing} (h : Owned x) {a : ChatServer.Action}
    (hs : x.step a = .ok x') : Owned x' := by
  obtain ⟨hfresh, heffect, heq⟩ := step_ok hs
  rw [heq]
  exact h.effect hfresh heffect _

theorem owned_of_reachable {x : Closing} (h : system.Reachable x) : Owned x :=
  h.invariant owned_init fun _ _ _ _ hx _ hs => hx.step hs

theorem count_append_singleton {closed : List Socket} (h : ∀ k, closed.count k ≤ 1) {k : Socket} :
    (∀ j, (closed ++ [k]).count j ≤ 1) ↔ k ∉ closed := by
  constructor
  · intro h' hmem
    have hpos := List.count_pos_iff.mpr hmem
    have := h' k
    rw [List.count_append, List.count_singleton_self] at this
    omega
  · intro hk j
    rw [List.count_append, List.count_singleton]
    have := h j
    split
    · rename_i heq
      rw [← beq_iff_eq.mp heq, List.count_eq_zero.mpr hk]
    · omega

theorem Owned.once_iff {x x' : Closing} (h : Owned x) (hx : x.Once) {a : ChatServer.Action}
    (hs : x.step a = .ok x') : x'.Once ↔ x.ClosesAnew a := by
  obtain ⟨hfresh, he, -⟩ := step_ok hs
  unfold Once ClosesAnew
  generalize x'.chat.server = server at he
  generalize x.chat.closes a = closes at he
  generalize a.socket = socket at he hfresh
  generalize a.bindsRecv = bound at he
  cases he with
  | quiet closed =>
    rw [closed]
    exact iff_of_true hx ⟨List.nodup_nil, List.forall_mem_nil _⟩
  | @removed v u live =>
    obtain ⟨k, -, hclose, hsocket, -⟩ := h.owner live
    rw [Server.closed_removed, hclose, count_append_singleton hx,
      h.closer (Server.sessionOf_of_live live) hsocket]
    simp
  | @unbound v u live =>
    obtain ⟨k, -, hclose, hsocket, -⟩ := h.owner live
    rw [ChatServer.closeSession, ← Session.fst_close, hclose, count_append_singleton hx,
      h.closer (Server.sessionOf_of_live live) hsocket]
    simp
  | connected unused socket_eq closed user =>
    rw [closed]
    exact iff_of_true hx ⟨List.nodup_nil, List.forall_mem_nil _⟩
  | @bindFailed addr k s' unused closed user =>
    rw [closed, count_append_singleton hx]
    exact iff_of_true (fun hmem => hfresh k rfl (h.accepted hmem))
      ⟨List.nodup_nil, List.forall_mem_nil _⟩
  | @recvFailed addr k s' unused closed user =>
    refine iff_of_false (fun hx' => ?_) (by simp)
    have hcount := hx' k
    rw [closed, List.count_append] at hcount
    simp at hcount

def Gone (x : Closing) : Prop := ∀ v ∈ x.closed, x.chat.server.sessionOf v = none

theorem Gone.step {x x' : Closing} (h : x.Gone) (hx : Owned x) {a : ChatServer.Action}
    (hbound : a.bindsRecv = true) (hs : x.step a = .ok x') : x'.Gone ∧ x.ClosesAnew a := by
  obtain ⟨-, he, heq⟩ := step_ok hs
  have hclosed : x'.closed = x.closed ++ x.chat.closes a := by rw [heq]
  unfold Gone ClosesAnew
  rw [hclosed]
  generalize x'.chat.server = server at he
  generalize x.chat.closes a = closes at he
  generalize a.socket = socket at he
  rw [hbound] at he
  cases he with
  | quiet closed session =>
    simp only [List.append_nil, session]
    exact ⟨h, List.nodup_nil, List.forall_mem_nil _⟩
  | @removed v u live =>
    refine ⟨fun w hw => ?_, List.nodup_singleton v, fun w hw hmem => ?_⟩
    · rw [Server.sessionOf_removed]
      split
      · rfl
      · rename_i hne
        rcases List.mem_append.mp hw with hw | hw
        · exact h w hw
        · exact absurd (List.mem_singleton.mp hw) hne
    · have hnone := h w hmem
      rw [List.mem_singleton.mp hw, Server.sessionOf_of_live live] at hnone
      contradiction
  | connected unused socket_eq closed user | bindFailed unused closed user =>
    refine ⟨fun w hw => Option.eq_none_iff_forall_ne_some.mpr fun session hsession => ?_,
      List.nodup_nil, List.forall_mem_nil _⟩
    rw [List.append_nil] at hw
    rcases sessionOf_update unused user hsession with ⟨rfl, -⟩ | ⟨-, hsession⟩
    · exact hx.used hw unused
    · rw [h w hw] at hsession
      contradiction

theorem Owned.connected_of_leaves {x x' : Closing} (h : Owned x) {a : ChatServer.Action}
    (hs : x.step a = .ok x') (hcloses : x.chat.closes a ≠ []) :
    ∃ session ∈ x.chat.leaves a, session.isConnected = true := by
  have found : ∀ {v u}, x.chat.server.user v = .live u → x.chat.closes a = [v] →
      x.chat.leaves a = ((x.chat.closes a).filterMap fun v =>
        (x.chat.server.sessionOf v).map fun session => session.close.2) →
      ∃ session ∈ x.chat.leaves a, session.isConnected = true := by
    intro v u live hv hleaves
    obtain ⟨k, -, -, hsocket, -⟩ := h.owner live
    refine ⟨u.session, ?_, Session.isConnected_iff.mpr ⟨k, hsocket⟩⟩
    rw [hleaves, hv]
    simp [Server.sessionOf_of_live live]
  obtain ⟨-, he, -⟩ := step_ok hs
  cases a with
  | accept addr socket outcome =>
    cases outcome with
    | recvFailed =>
      exact ⟨_, List.mem_cons_self, by simp [Session.isConnected]⟩
    | connected | bindFailed => exact absurd rfl hcloses
  | worker | logic | send =>
    generalize hc : x.chat.closes _ = closes at he hcloses
    generalize x'.chat.server = server at he
    generalize ChatServer.Action.bindsRecv _ = bound at he
    cases he with
    | quiet => contradiction
    | removed live | unbound live => exact found live hc rfl

theorem ClosedOnce.step_iff {x x' : Closing} (h : ClosedOnce x) (hx : Owned x)
    {a : ChatServer.Action} (hs : x.step a = .ok x') :
    ClosedOnce x' ↔ x.chat.closes a = [] := by
  have hleft : x'.left = x.left ++ x.chat.leaves a := by rw [(step_ok hs).2.2]
  constructor
  · intro h'
    by_contra hcloses
    obtain ⟨session, hsession, hconnected⟩ := hx.connected_of_leaves hs hcloses
    have hdown := (h'.disconnected session (hleft ▸ List.mem_append_right _ hsession)).isConnected
    rw [hconnected] at hdown
    contradiction
  · intro hcloses
    have hleaves : x.chat.leaves a = [] := by
      unfold ChatServer.leaves
      split
      · contradiction
      · rw [hcloses, List.filterMap_nil]
    refine ⟨(hx.once_iff h.once hs).mpr ?_, fun session hsession => h.disconnected session ?_⟩
    · rw [ClosesAnew, hcloses]
      exact ⟨List.nodup_nil, List.forall_mem_nil _⟩
    · rwa [hleft, hleaves, List.append_nil] at hsession

theorem once_init : init.Once := fun _ => Nat.zero_le _

theorem closedOnce_init : ClosedOnce init := ⟨once_init, List.forall_mem_nil _⟩

theorem closesAnew_of_bindsRecv {t : List (Closing × ChatServer.Action)} {x : Closing}
    (h : system.Trace t x) (hbound : ∀ y ∈ t, y.2.bindsRecv = true) :
    x.Gone ∧ ∀ y ∈ t, y.1.ClosesAnew y.2 := by
  induction h with
  | init => exact ⟨List.forall_mem_nil _, List.forall_mem_nil _⟩
  | step ht hs ih =>
    rw [List.forall_mem_append, List.forall_mem_singleton] at hbound
    obtain ⟨hgone, hall⟩ := ih hbound.1
    obtain ⟨hgone', hanew⟩ := hgone.step (owned_of_reachable ht.reachable) hbound.2 hs
    rw [List.forall_mem_append, List.forall_mem_singleton]
    exact ⟨hgone', hall, hanew⟩

/-- All sockets are closed once, and all sessions that have been closed are disconnected, along
a run exactly when no session is closed in it.  The first half alone: exactly when no session is
closed again, so always when no `BindRecv` fails. -/
theorem closedOnce_iff {t : List (Closing × ChatServer.Action)} {x : Closing}
    (h : system.Trace t x) :
    (System.Always ClosedOnce t x ↔ ∀ y ∈ t, y.1.chat.closes y.2 = []) ∧
      (System.Always Once t x ↔ ∀ y ∈ t, y.1.ClosesAnew y.2) ∧
      ((∀ y ∈ t, y.2.bindsRecv = true) → System.Always Once t x) := by
  have honce : System.Always Once t x ↔ ∀ y ∈ t, y.1.ClosesAnew y.2 :=
    h.always_iff once_init fun x a x' hr hx hs => (owned_of_reachable hr).once_iff hx hs
  have hboth : System.Always ClosedOnce t x ↔ ∀ y ∈ t, y.1.chat.closes y.2 = [] :=
    h.always_iff closedOnce_init fun x a x' hr hx hs => hx.step_iff (owned_of_reachable hr) hs
  exact ⟨hboth, honce, fun hbound => honce.mpr (closesAnew_of_bindsRecv h hbound).2⟩

theorem closedOnce_of_two :
    (∃ t x, system.Trace t x ∧ x.chat.server.closed = [8] ∧ System.Always ClosedOnce t x) ∧
      ∃ t x, system.Trace t x ∧ x.chat.server.closed = [8, 7] ∧ System.Always Once t x := by
  obtain ⟨t, x, ht, hg, hp⟩ := System.exists_trace_of_runWith (S := system)
    (g := fun x a => decide (x.chat.closes a = []))
    (p := fun x => decide (x.chat.server.closed = [8]))
    [.accept 10 7 .connected, .accept 11 8 .bindFailed] (by decide)
  obtain ⟨t', x', ht', hg', hp'⟩ := System.exists_trace_of_runWith (S := system)
    (g := fun _ a => a.bindsRecv) (p := fun x => decide (x.chat.server.closed = [8, 7]))
    [.accept 10 7 .connected, .accept 11 8 .bindFailed, .worker 0 (.received .cServerExit true),
      .logic] (by decide)
  exact ⟨⟨t, x, ht, of_decide_eq_true hp,
      (closedOnce_iff ht).1.mpr fun y hy => of_decide_eq_true (hg y hy)⟩,
    t', x', ht', of_decide_eq_true hp', (closedOnce_iff ht').2.2 hg'⟩

/-- A user that leaves is still connected after the `Session::Close` of its removal; and when a
`BindRecv` has failed for it before, its socket is closed again. -/
theorem not_closedOnce :
    (∃ x, system.Reachable x ∧ x.Once ∧ ¬ ClosedOnce x) ∧ ∃ x, system.Reachable x ∧ ¬ x.Once := by
  obtain ⟨x, hx, hp⟩ := System.exists_of_run (S := system)
    (p := fun x => decide (x.chat.server.closed = [7]) && x.left.any Session.isConnected)
    [.accept 10 7 .connected, .worker 0 (.received .cServerExit true), .logic] (by decide)
  obtain ⟨y, hy, hp'⟩ := System.exists_of_run (S := system)
    (p := fun x => decide (x.chat.server.closed = [7, 7]))
    [.accept 10 7 .connected, .worker 0 (.received .cServerExit false), .logic] (by decide)
  simp only [Bool.and_eq_true, decide_eq_true_eq, List.any_eq_true] at hp
  obtain ⟨hclosed, session, hsession, hconnected⟩ := hp
  refine ⟨⟨x, hx, fun k => ?_, fun h => ?_⟩, y, hy, fun h => ?_⟩
  · rw [hclosed]
    exact List.count_le_length
  · have hdown := (h.disconnected session hsession).isConnected
    rw [hconnected] at hdown
    contradiction
  · have hcount := h 7
    rw [of_decide_eq_true hp'] at hcount
    contradiction

end Closing

end ChattingServer.V11
