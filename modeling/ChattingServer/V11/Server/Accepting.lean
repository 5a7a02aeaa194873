import ChattingServer.V11.Server.LobbySet

namespace ChattingServer.V11

open Lib

namespace Server

def insertUser (s : Server) (addr : UserPtr) : Server :=
  Server.pushIntoLobby
    { s with userList := s.userList.insert s.userId addr, userId := s.userId + 1 } addr

theorem Stays.live {s s' : Server} {session : UserPtr} (h : s.Stays session s') {w : UserPtr} :
    (∃ u, s'.user w = .live u) ↔ ∃ u, s.user w = .live u := by
  rw [← Cell.status_eq_live_iff, h.status, Cell.status_eq_live_iff]

theorem Stays.registered {s s' : Server} {session : UserPtr} (h : s.Stays session s')
    {w : UserPtr} : s'.Registered w ↔ s.Registered w := by
  rw [Registered, h.userList, Registered]

end Server

/-- The threads of the server, with `CreateUser` taken apart: `creating` is the user that
`Initialize` has posted a receive for and that is not in `userList_` yet. -/
structure Accepting where
  chat : ChatServer
  creating : Option UserPtr

namespace Accepting

inductive Action
  /-- `new User` and its `Initialize`. -/
  | newUser (addr : UserPtr) (socket : Socket) (outcome : Server.ConnectOutcome)
  | insertUser
  | worker (i : Nat) (result : IoResult)
  | logic
  | send (outcome : SendOutcome)

def init : Accepting where
  chat := .init
  creating := none

def newUser (x : Accepting) (addr : UserPtr) (socket : Socket) :
    Server.ConnectOutcome → Except Fault Accepting
  | .connected => do
    let server ← x.chat.server.newUser addr socket
    return ⟨{ x.chat with server, pending := x.chat.pending ++ [⟨addr, .recv⟩] }, some addr⟩
  | outcome => do
    let chat ← x.chat.accept addr socket outcome
    return { x with chat }

def insertUser (x : Accepting) (addr : UserPtr) : Accepting where
  chat := { x.chat with server := x.chat.server.insertUser addr }
  creating := none

def step (x : Accepting) : Action → Except Fault Accepting
  | .newUser addr socket outcome =>
    if x.creating = none then x.newUser addr socket outcome else .error .disabled
  | .insertUser =>
    match x.creating with
    | none => .error .disabled
    | some addr => .ok (x.insertUser addr)
  | .worker i result => do
    let chat ← x.chat.worker i result
    return { x with chat }
  | .logic => do
    let chat ← x.chat.runProcess
    return { x with chat }
  | .send outcome => do
    let chat ← x.chat.sendRun outcome
    return { x with chat }

def system : System Accepting Action Fault where
  init := init
  step := step

theorem accept_of_newUser_insertUser {x : Accepting} (h : x.creating = none) (addr : UserPtr)
    (socket : Socket) :
    (x.newUser addr socket .connected >>= fun x' => .ok (x'.insertUser addr)) =
      x.chat.accept addr socket .connected >>= fun chat => .ok { x with chat } := by
  obtain ⟨chat, creating⟩ := x
  subst h
  simp only [newUser, ChatServer.accept, Server.accept, Server.createUser]
  cases chat.server.newUser addr socket with
  | error e => rfl
  | ok server => rfl

def hangUp (hungUp : List UserPtr) (x : Accepting) : Action → List UserPtr
  | .worker i .failed | .worker i .zeroBytes =>
    match x.chat.pending[i]? with
    | none => hungUp
    | some c => c.session :: hungUp
  | _ => hungUp

def tracked : System (Accepting × List UserPtr) Action Fault := system.withHistory [] hangUp

/-- A handler of the package that comes next finds the user of its session. -/
def SenderKnown (x : Accepting) : Action → Prop
  | .logic => ∀ job ∈ x.chat.jobQueue.head?,
    ∃ v, x.chat.server.sessionUser job.session = .ok (some v)
  | _ => True

/-- Nothing points to a user that has hung up, once `CreateUser` has returned. -/
def Gone (x : Accepting × List UserPtr) : Prop :=
  ∀ v ∈ x.2, x.1.creating ≠ some v →
    ¬ x.1.chat.server.Registered v ∧ v ∉ x.1.chat.server.userInLobby ∧
      ∀ r, v ∉ (x.1.chat.server.room r).users

/-- No package is processed and no connection lost of a user that is still being created, a user
hangs up from the lobby only, and one that goes leaves no package behind. -/
def losesNobody (x : Accepting) : Action → Bool
  | .insertUser => x.chat.server.userList.find x.chat.server.userId = none
  | .worker i .failed | .worker i .zeroBytes =>
    x.chat.pending[i]?.all fun c =>
      x.creating ≠ some c.session ∧ x.chat.server.currRoom c.session = none ∧
        ChatServer.strayMember x.chat.server c.session = false ∧
        ∀ job ∈ x.chat.jobQueue, job.session ≠ c.session
  | .logic =>
    match x.chat.jobQueue with
    | [] => true
    | job :: jobs =>
      x.creating ≠ some job.session ∧
        (job.packet = .cServerExit → ∀ job' ∈ jobs, job'.session ≠ job.session)
  | _ => true

/-! One step of a run that loses nobody -/

structure Creating (s : Server) (v : UserPtr) : Prop where
  not_registered : ¬ s.Registered v
  user : ∃ u, s.user v = .live u ∧ u.userId = s.userId ∧ u.session.userId = s.userId

structure Sound (x : Accepting) : Prop where
  registry : x.chat.server.Registry
  live : ∀ {v u}, x.chat.server.user v = .live u →
    x.chat.server.Registered v ∨ x.creating = some v
  creating : ∀ {v}, x.creating = some v → Creating x.chat.server v
  jobs : ∀ job ∈ x.chat.jobQueue, ∃ u, x.chat.server.user job.session = .live u

theorem sound_init : Sound init where
  registry := Server.registry_init
  live h := by simp [init, ChatServer.init, Server.init] at h
  creating h := by simp [init] at h
  jobs := by simp [init, ChatServer.init]

structure Left (s : Server) (v : UserPtr) : Prop where
  user : s.user v = .freed
  lobby : v ∉ s.userInLobby
  room : ∀ r, v ∉ (s.room r).users

theorem Left.gone {x : Accepting} (hx : Sound x) {v : UserPtr} (h : Left x.chat.server v) :
    ¬ x.chat.server.Registered v ∧ v ∉ x.chat.server.userInLobby ∧
      ∀ r, v ∉ (x.chat.server.room r).users := by
  refine ⟨fun hreg => ?_, h.lobby, h.room⟩
  obtain ⟨u, hu, -⟩ := hx.registry.live hreg
  rw [h.user] at hu
  contradiction

theorem Sound.queue {x : Accepting} (h : Sound x) (packages : List SendPackage)
    (closed : List Socket) {jobQueue : List RecvPackage} (pending : List Completion)
    (hjobs : ∀ job ∈ jobQueue, ∃ u, x.chat.server.user job.session = .live u) :
    Sound { x with chat := ⟨{ x.chat.server with packages, closed }, jobQueue, pending⟩ } where
  registry := h.registry.queue packages closed
  live := h.live
  creating hv := ⟨(h.creating hv).not_registered, (h.creating hv).user⟩
  jobs := hjobs

theorem Sound.removed {x : Accepting} (h : Sound x) {v : UserPtr} {u : User}
    (hu : x.chat.server.user v = .live u) (hv : x.chat.server.userList.find u.userId = some v)
    {jobQueue : List RecvPackage} (pending : List Completion)
    (hjobs : ∀ job ∈ jobQueue, job ∈ x.chat.jobQueue ∧ job.session ≠ v) :
    Sound { x with chat := ⟨x.chat.server.removed v u, jobQueue, pending⟩ } where
  registry := h.registry.removed hu hv
  live {w y} hw := by
    rw [Server.user_removed] at hw
    split at hw
    · contradiction
    · rename_i hne
      exact (h.live hw).imp_left fun hreg =>
        (Server.registered_removed h.registry hu hv).mpr ⟨hreg, hne⟩
  creating {w} hw := by
    obtain ⟨hnot, y, hy, hid⟩ := h.creating hw
    have hne : w ≠ v := by
      rintro rfl
      exact hnot ⟨_, hv⟩
    refine ⟨fun hreg => hnot ((Server.registered_removed h.registry hu hv).mp hreg).1, y, ?_, ?_⟩
    · rw [Server.user_removed, if_neg hne]
      exact hy
    · rwa [Server.userId_removed]
  jobs job hjob := by
    obtain ⟨hold, hne⟩ := hjobs job hjob
    rw [Server.user_removed, if_neg hne]
    exact h.jobs job hold

theorem Sound.stays {x : Accepting} (h : Sound x) {session : UserPtr} {server : Server}
    (hs : x.chat.server.Registered session) (hk : x.chat.server.Stays session server)
    (hreg : server.Registry) {jobQueue : List RecvPackage} (pending : List Completion)
    (hjobs : ∀ job ∈ jobQueue, job ∈ x.chat.jobQueue) :
    Sound { x with chat := ⟨server, jobQueue, pending⟩ } where
  registry := hreg
  live {w y} hw := by
    obtain ⟨z, hz⟩ := hk.live.mp ⟨y, hw⟩
    exact (h.live hz).imp_left hk.registered.mpr
  creating {w} hw := by
    obtain ⟨hnot, y, hy, hid⟩ := h.creating hw
    have hne : w ≠ session := by
      rintro rfl
      exact hnot hs
    refine ⟨fun hreg => hnot (hk.registered.mp hreg), y, (hk.user hne).trans hy, ?_⟩
    rwa [hk.userId]
  jobs job hjob := hk.live.mpr (h.jobs job (hjobs job hjob))

theorem Left.removed {s : Server} {v w : UserPtr} {u : User} (h : Left s w) :
    Left (s.removed v u) w where
  user := by
    rw [Server.user_removed]
    split
    · rfl
    · exact h.user
  lobby := by
    rw [Server.userInLobby_removed]
    split
    · exact fun hw => h.lobby (StdSet.mem_erase.mp hw).1
    · exact h.lobby
  room r hw := h.room r (Server.mem_removed hw).1

theorem Left.stays {s s' : Server} {session w : UserPtr} (h : Left s w)
    (hk : s.Stays session s') (hne : w ≠ session) : Left s' w where
  user := (hk.user hne).trans h.user
  lobby hw := (hk.userInLobby hw).elim h.lobby hne
  room r hw := (hk.member hw).elim (h.room r) hne

theorem left_removed {s : Server} (hreg : s.Registry) {v : UserPtr} {u : User}
    (hu : s.user v = .live u) (hroom : s.currRoom v = none)
    (hstray : ChatServer.strayMember s v = false) : Left (s.removed v u) v where
  user := by rw [Server.user_removed, if_pos rfl]
  lobby := by
    rw [Server.userInLobby_removed, if_pos ((Server.currRoom_of_live hu).symm.trans hroom)]
    exact fun hv => (StdSet.mem_erase.mp hv).2 rfl
  room r hv := by
    have hin := ChatServer.not_mem_of_strayMember hreg hu hstray (Server.mem_removed hv).1
    rw [← Server.currRoom_of_live hu, hroom] at hin
    contradiction

theorem Left.setUnused {s s' : Server} {addr w : UserPtr} (h : Left s w)
    (haddr : s.user addr = .unused) (huser : ∀ w, w ≠ addr → s'.user w = s.user w)
    (hlobby : ∀ w, w ∈ s'.userInLobby → w ∈ s.userInLobby ∨ w = addr)
    (hroom : s'.room = s.room) : Left s' w := by
  have hne : w ≠ addr := by
    rintro rfl
    rw [h.user] at haddr
    contradiction
  exact ⟨(huser w hne).trans h.user, fun hw => (hlobby w hw).elim h.lobby hne,
    fun r hw => h.room r (hroom ▸ hw)⟩

theorem Sound.newUser {x x' : Accepting} (h : Sound x) (hnone : x.creating = none)
    {addr : UserPtr} {socket : Socket} {outcome : Server.ConnectOutcome}
    (hs : x.newUser addr socket outcome = .ok x') :
    Sound x' ∧ ∀ w, Left x.chat.server w → Left x'.chat.server w := by
  have live_ne : ∀ {w u}, x.chat.server.user addr = .unused → x.chat.server.user w = .live u →
      w ≠ addr := by
    rintro w u haddr hw rfl
    rw [haddr] at hw
    contradiction
  cases outcome with
  | connected =>
    simp only [Accepting.newUser, Server.newUser, bind_eq_ok_iff] at hs
    obtain ⟨server, hserver, hs⟩ := hs
    split at hserver
    · rename_i haddr
      cases hserver
      cases hs
      have hother := fun w hw => Server.user_setUser_of_ne x.chat.server (v := addr) (w := w) hw
        (.live ⟨⟨some socket, x.chat.server.userId⟩, x.chat.server.userId, none, []⟩)
      refine ⟨⟨h.registry.setUnused haddr _ (by rintro u ⟨⟩; rfl), fun {w u} hw => ?_,
        fun {w} hw => ?_, fun job hjob => ?_⟩,
        fun w hw => hw.setUnused haddr hother (fun _ => .inl) rfl⟩
      · by_cases hne : w = addr
        · exact .inr (congrArg some hne.symm)
        · refine .inl ((h.live ((hother w hne).symm.trans hw)).resolve_right ?_)
          simp [hnone]
      · obtain rfl := Option.some.inj hw
        refine ⟨fun hreg => ?_, _, Server.user_setUser_self .., rfl, rfl⟩
        obtain ⟨u, hu, -⟩ := h.registry.live hreg
        exact live_ne haddr hu rfl
      · obtain ⟨u, hu⟩ := h.jobs job hjob
        exact ⟨u, (hother _ (live_ne haddr hu)).trans hu⟩
    · contradiction
  | bindFailed | recvFailed =>
    simp only [Accepting.newUser, ChatServer.accept, bind_eq_ok_iff, pure_eq_ok,
      Except.ok.injEq] at hs
    obtain ⟨_, ⟨server, hserver, rfl⟩, rfl⟩ := hs
    obtain ⟨haddr, hacc⟩ := Server.accepted_of_ok hserver
    have hreg := h.registry.accept haddr hacc
    cases hacc with
    | failed hne closed =>
      have hother := fun w hw => Server.user_setUser_of_ne x.chat.server (v := addr) (w := w) hw
        .freed
      refine ⟨⟨hreg, fun {w u} hw => ?_, fun {w} hw => ?_, fun job hjob => ?_⟩,
        fun w hw => hw.setUnused haddr hother (fun _ => .inl) rfl⟩
      · have hne : w ≠ addr := by
          rintro rfl
          rw [Server.user_setUser_self] at hw
          contradiction
        exact h.live ((hother w hne).symm.trans hw)
      · rw [hnone] at hw
        contradiction
      · obtain ⟨u, hu⟩ := h.jobs job hjob
        exact ⟨u, (hother _ (live_ne haddr hu)).trans hu⟩

theorem Sound.insertUser {x : Accepting} (h : Sound x) {addr : UserPtr}
    (haddr : x.creating = some addr)
    (hfree : x.chat.server.userList.find x.chat.server.userId = none) :
    Sound (x.insertUser addr) ∧
      ∀ w, Left x.chat.server w → Left (x.insertUser addr).chat.server w := by
  obtain ⟨hnot, u, hu, hid, hsession⟩ := h.creating haddr
  refine ⟨⟨⟨fun {id w} hw => ?_, h.registry.roomId, h.registry.room, h.registry.currRoom,
    h.registry.member⟩, fun {w y} hw => ?_, nofun, h.jobs⟩,
    fun w hw => ⟨hw.user, fun hin => ?_, hw.room⟩⟩
  · rcases StdMap.find_of_find_insert hw with hw | ⟨rfl, rfl, -⟩
    · exact h.registry.user hw
    · exact ⟨u, hu, hid, hsession⟩
  · refine .inl ((StdMap.exists_find_insert_iff hfree).mpr ?_)
    rcases h.live hw with hreg | hw
    · exact .inr hreg
    · exact .inl (Option.some.inj (haddr.symm.trans hw)).symm
  · rcases StdSet.mem_insert.mp hin with rfl | hin
    · have hfreed := hw.user
      rw [hu] at hfreed
      contradiction
    · exact hw.lobby hin

theorem Sound.removeSession {x : Accepting} (h : Sound x) {chat : ChatServer}
    {session : UserPtr} (hnot : x.creating ≠ some session)
    (hs : x.chat.removeSession session = .ok chat) :
    ∃ u, x.chat.server.user session = .live u ∧
      x.chat.server.userList.find u.userId = some session ∧
      chat = { x.chat with server := x.chat.server.removed session u } := by
  simp only [ChatServer.removeSession, bind_eq_ok_iff, Server.sessionId_ok_iff, pure_eq_ok,
    Except.ok.injEq] at hs
  obtain ⟨id, ⟨u, hu, rfl⟩, server, hserver, rfl⟩ := hs
  have hreg := (h.live hu).resolve_right hnot
  obtain ⟨y, hy, hid, hsession⟩ := h.registry.live hreg
  rw [hu] at hy
  cases hy
  rcases Server.removedById_of_ok hserver with ⟨hnone, -⟩ | ⟨v, y, hv, hy, -, rfl⟩
  · rw [hsession] at hnone
    contradiction
  · obtain rfl := Option.some.inj (hsession.symm.trans hv)
    rw [hu] at hy
    cases hy
    exact ⟨u, hu, hid, rfl⟩

theorem Sound.hangUp {x : Accepting} (h : Sound x) {chat : ChatServer} {i : Nat}
    {session : UserPtr}
    (hg : x.creating ≠ some session ∧ x.chat.server.currRoom session = none ∧
      ChatServer.strayMember x.chat.server session = false ∧
      ∀ job ∈ x.chat.jobQueue, job.session ≠ session)
    (hs : ({ x.chat with pending := x.chat.pending.eraseIdx i } : ChatServer).removeSession
      session = .ok chat) :
    Sound { x with chat } ∧ (∀ w, Left x.chat.server w → Left chat.server w) ∧
      Left chat.server session := by
  obtain ⟨hnot, hroom, hstray, hjobs⟩ := hg
  have htake := h.queue x.chat.server.packages x.chat.server.closed
    (x.chat.pending.eraseIdx i) h.jobs
  obtain ⟨u, hu, hid, rfl⟩ := htake.removeSession hnot hs
  exact ⟨h.removed hu hid _ fun job hjob => ⟨hjob, hjobs job hjob⟩, fun w => Left.removed,
    left_removed h.registry hu hroom hstray⟩

theorem Sound.worker {x : Accepting} (h : Sound x) {chat : ChatServer} {i : Nat}
    {result : IoResult} (hg : x.losesNobody (.worker i result) = true)
    (hs : x.chat.worker i result = .ok chat) :
    Sound { x with chat } ∧ (∀ w, Left x.chat.server w → Left chat.server w) ∧
      ∀ v ∈ Accepting.hangUp [] x (.worker i result), Left chat.server v := by
  unfold ChatServer.worker at hs
  cases hc : x.chat.pending[i]? with
  | none => simp [hc] at hs
  | some c =>
    obtain ⟨session, io⟩ := c
    simp only [hc] at hs
    cases result with
    | failed | zeroBytes =>
      simp only [losesNobody, hc, Option.all_some, decide_eq_true_eq] at hg
      simp only [Accepting.hangUp, hc, List.mem_singleton, forall_eq]
      exact h.hangUp hg hs
    | sent =>
      cases io with
      | recv => cases hs
      | send =>
        simp only [ChatServer.workerThread, bind_eq_ok_iff, pure_eq_ok, Except.ok.injEq] at hs
        obtain ⟨_, -, rfl⟩ := hs
        exact ⟨h.queue x.chat.server.packages x.chat.server.closed _ h.jobs, fun _ => id,
          List.forall_mem_nil _⟩
    | received packet bound =>
      cases io with
      | send => cases hs
      | recv =>
        simp only [ChatServer.workerThread, bind_eq_ok_iff, Prod.exists, Server.deref_ok_iff,
          pure_eq_ok, Except.ok.injEq] at hs
        obtain ⟨v, u, ⟨hv, hu⟩, rfl⟩ := hs
        obtain rfl := Option.some.inj hv
        have hjobs : ∀ job ∈ x.chat.jobQueue ++ [⟨session, packet⟩],
            ∃ u, x.chat.server.user job.session = .live u := by
          intro job hjob
          rcases List.mem_append.mp hjob with hjob | hjob
          · exact h.jobs job hjob
          · exact ⟨u, List.mem_singleton.mp hjob ▸ hu⟩
        refine ⟨?_, fun w hw => ?_, List.forall_mem_nil _⟩
        · cases bound with
          | true => exact h.queue x.chat.server.packages x.chat.server.closed _ hjobs
          | false => exact h.queue x.chat.server.packages _ _ hjobs
        · cases bound with
          | true => exact hw
          | false => exact ⟨hw.user, hw.lobby, hw.room⟩

theorem Sound.logic {x : Accepting} (h : Sound x) {chat : ChatServer}
    (hg : x.losesNobody .logic = true) (hs : x.chat.runProcess = .ok chat) :
    Sound { x with chat } ∧ ∀ w, Left x.chat.server w → Left chat.server w := by
  unfold ChatServer.runProcess at hs
  cases hj : x.chat.jobQueue with
  | nil => simp [hj] at hs
  | cons job jobs =>
    obtain ⟨session, packet⟩ := job
    simp only [losesNobody, hj, decide_eq_true_eq] at hg
    simp only [hj, bind_eq_ok_iff, pure_eq_ok, Except.ok.injEq] at hs
    obtain ⟨server, hserver, rfl⟩ := hs
    obtain ⟨hnot, hlast⟩ := hg
    have hold : ∀ job' ∈ jobs, job' ∈ x.chat.jobQueue := fun job' hjob' =>
      hj ▸ List.mem_cons_of_mem _ hjob'
    obtain ⟨y, hy⟩ := h.jobs ⟨session, packet⟩ (hj ▸ List.mem_cons_self)
    have hreg := (h.live hy).resolve_right hnot
    have hp := Server.processed_of_ok hserver
    by_cases hexit : packet = .cServerExit
    · subst hexit
      cases hp with
      | serverExit sender members =>
        obtain rfl := h.registry.sender_eq sender hreg
        have hid := h.registry.sender_id sender ▸ sender.registered
        exact ⟨h.removed sender.live hid _ fun job' hjob' =>
          ⟨hold job' hjob', hlast rfl job' hjob'⟩, fun w => Left.removed⟩
      | unhandled hno => contradiction
    · have hk := hp.stays hexit h.registry hreg
      refine ⟨h.stays hreg hk (h.registry.processed hp) _ hold, fun w hw => hw.stays hk ?_⟩
      rintro rfl
      rw [hw.user] at hy
      contradiction

theorem Sound.send {x : Accepting} (h : Sound x) {chat : ChatServer} {outcome : SendOutcome}
    (hs : x.chat.sendRun outcome = .ok chat) :
    Sound { x with chat } ∧ ∀ w, Left x.chat.server w → Left chat.server w := by
  have hqueue : ∀ packages pending, Sound { x with chat :=
      { x.chat with server := { x.chat.server with packages }, pending } } ∧ ∀ w,
      Left x.chat.server w → Left { x.chat.server with packages } w := fun packages pending =>
    ⟨h.queue packages x.chat.server.closed pending h.jobs,
      fun w hw => ⟨hw.user, hw.lobby, hw.room⟩⟩
  unfold ChatServer.sendRun at hs
  cases hp : x.chat.server.packages with
  | nil => simp [hp] at hs
  | cons package packages =>
    simp only [hp] at hs
    split at hs
    · cases hs
      exact hqueue packages _
    · simp only [bind_eq_ok_iff] at hs
      obtain ⟨_, -, hs⟩ := hs
      split at hs
      · cases hs
        exact hqueue packages _
      · cases hs
        exact hqueue packages _

theorem Sound.step {x x' : Accepting} (h : Sound x) {a : Action} (hg : x.losesNobody a = true)
    (hs : x.step a = .ok x') :
    Sound x' ∧ (∀ w, Left x.chat.server w → Left x'.chat.server w) ∧
      ∀ v ∈ Accepting.hangUp [] x a, Left x'.chat.server v := by
  cases a with
  | newUser addr socket outcome =>
    simp only [Accepting.step] at hs
    split at hs
    · rename_i hnone
      obtain ⟨hx', hleft⟩ := h.newUser hnone hs
      exact ⟨hx', hleft, List.forall_mem_nil _⟩
    · contradiction
  | insertUser =>
    simp only [Accepting.step] at hs
    split at hs
    · contradiction
    · rename_i addr haddr
      cases hs
      obtain ⟨hx', hleft⟩ := h.insertUser haddr (of_decide_eq_true hg)
      exact ⟨hx', hleft, List.forall_mem_nil _⟩
  | worker i result =>
    simp only [Accepting.step, bind_eq_ok_iff, pure_eq_ok, Except.ok.injEq] at hs
    obtain ⟨chat, hchat, rfl⟩ := hs
    exact h.worker hg hchat
  | logic =>
    simp only [Accepting.step, bind_eq_ok_iff, pure_eq_ok, Except.ok.injEq] at hs
    obtain ⟨chat, hchat, rfl⟩ := hs
    obtain ⟨hx', hleft⟩ := h.logic hg hchat
    exact ⟨hx', hleft, List.forall_mem_nil _⟩
  | send outcome =>
    simp only [Accepting.step, bind_eq_ok_iff, pure_eq_ok, Except.ok.injEq] at hs
    obtain ⟨chat, hchat, rfl⟩ := hs
    obtain ⟨hx', hleft⟩ := h.send hchat
    exact ⟨hx', hleft, List.forall_mem_nil _⟩

/-! Runs that lose nobody -/

theorem mem_hangUp {hungUp : List UserPtr} {x : Accepting} {a : Action} {v : UserPtr} :
    v ∈ hangUp hungUp x a ↔ v ∈ hangUp [] x a ∨ v ∈ hungUp := by
  cases a with
  | worker i result =>
    cases result with
    | failed | zeroBytes =>
      simp only [hangUp]
      cases x.chat.pending[i]? <;> simp
    | sent | received => simp [hangUp]
  | newUser | insertUser | logic | send => simp [hangUp]

theorem sound_of_reach {x : Accepting × List UserPtr}
    (h : tracked.Reach (fun x a => x.1.losesNobody a = true) x) :
    Sound x.1 ∧ ∀ v ∈ x.2, Left x.1.chat.server v := by
  refine h.invariant (P := fun x => Sound x.1 ∧ ∀ v ∈ x.2, Left x.1.chat.server v)
    ⟨sound_init, List.forall_mem_nil _⟩ fun x a x' _ hx hg hs => ?_
  obtain ⟨hs, hhung⟩ := System.withHistory_step.mp hs
  obtain ⟨hx', hleft, hnew⟩ := hx.1.step hg hs
  refine ⟨hx', fun v hv => ?_⟩
  rw [hhung, mem_hangUp] at hv
  exact hv.elim (hnew v) fun hv => hleft v (hx.2 v hv)

theorem Sound.senderKnown {x : Accepting} (h : Sound x) {a : Action}
    (hg : x.losesNobody a = true) : SenderKnown x a := by
  cases a with
  | logic =>
    intro job hjob
    obtain ⟨jobs, hj⟩ := List.head?_eq_some_iff.mp hjob
    simp only [losesNobody, hj, decide_eq_true_eq] at hg
    obtain ⟨u, hu⟩ := h.jobs job (hj ▸ List.mem_cons_self)
    exact ⟨job.session, h.registry.sessionUser ((h.live hu).resolve_right hg.1)⟩
  | newUser | insertUser | worker | send => trivial

/-- In a run that loses nobody, every package comes from a user that its handler finds, and no user
that has hung up is left anywhere. -/
theorem senderKnown_and_gone {x : Accepting × List UserPtr}
    (h : tracked.Reach (fun x a => x.1.losesNobody a = true) x) :
    (∀ a, x.1.losesNobody a = true → SenderKnown x.1 a) ∧ Gone x := by
  obtain ⟨hx, hleft⟩ := sound_of_reach h
  exact ⟨fun a => hx.senderKnown, fun v hv _ => (hleft v hv).gone hx⟩

theorem senderKnown_and_gone_two :
    ∃ x, tracked.Reachable x ∧ x.2 = [0] ∧ x.1.chat.jobQueue.length = 1 ∧
      SenderKnown x.1 .logic ∧ Gone x := by
  obtain ⟨x, hx, hp⟩ := System.exists_of_runWith (S := tracked)
    (G := fun x a => x.1.losesNobody a = true) (g := fun x a => x.1.losesNobody a)
    (p := fun x => decide (x.2 = [0] ∧ x.1.chat.jobQueue.length = 1 ∧
      x.1.losesNobody .logic = true))
    (fun _ _ h => h)
    [.newUser 0 7 .connected, .insertUser, .newUser 1 8 .connected,
      .worker 1 (.received (.cServerEnter [97]) true), .insertUser, .worker 0 .zeroBytes]
    (by decide)
  have hend := of_decide_eq_true hp
  obtain ⟨hknown, hgone⟩ := senderKnown_and_gone hx
  exact ⟨x, hx.reachable, hend.1, hend.2.1, hknown _ hend.2.2, hgone⟩

/-- The client closes its connection while `CreateUser` has not got to `userList_` yet. -/
theorem not_senderKnown_and_gone :
    ¬ ∀ x, tracked.Reachable x → (∀ a, SenderKnown x.1 a) ∧ Gone x := by
  intro h
  obtain ⟨x, hx, hp⟩ := System.exists_of_run (S := tracked)
    (p := fun x => decide (0 ∈ x.2 ∧ x.1.creating = none ∧ 0 ∈ x.1.chat.server.userInLobby))
    [.newUser 0 7 .connected, .worker 0 .zeroBytes, .insertUser] (by decide)
  obtain ⟨hhung, hnone, hlobby⟩ := of_decide_eq_true hp
  exact ((h x hx).2 0 hhung (by simp [hnone])).2.1 hlobby

end Accepting

end ChattingServer.V11
