import ChattingServer.V11.Server.SessionSafety

namespace ChattingServer.V11

open Lib

inductive Event
  | login (x : UserPtr) (u : User) (nickname : Str) (list : Packet)
  | rooms (x : UserPtr) (list : Packet)
  | enter (x : UserPtr) (u : User) (r : RoomPtr) (roomName : Str)
  | leave (x : UserPtr) (u : User) (r : RoomPtr)
  | remove (x : UserPtr) (u : User)
  | chat (packet : Packet) (recvers : List UserPtr)

def packetsFor (w : UserPtr) (ps : List SendPackage) : List Packet :=
  (ps.filter fun pkg => pkg.session = some w).map (·.packet)

@[simp] theorem packetsFor_nil (w : UserPtr) : packetsFor w [] = [] := rfl

@[simp] theorem packetsFor_cons (w : UserPtr) (pkg : SendPackage) (ps : List SendPackage) :
    packetsFor w (pkg :: ps) =
      if pkg.session = some w then pkg.packet :: packetsFor w ps else packetsFor w ps := by
  unfold packetsFor
  split <;> simp_all

@[simp] theorem packetsFor_append (w : UserPtr) (ps qs : List SendPackage) :
    packetsFor w (ps ++ qs) = packetsFor w ps ++ packetsFor w qs := by
  simp [packetsFor]

theorem packetsFor_flatten (w : UserPtr) (log : List (List SendPackage)) :
    packetsFor w log.flatten = log.flatMap (packetsFor w) := by
  induction log with
  | nil => rfl
  | cons ps log ih => rw [List.flatten_cons, packetsFor_append, ih, List.flatMap_cons]

theorem packetsFor_casts (w : UserPtr) (users : List UserPtr) (p : Packet) :
    packetsFor w (Server.casts users p) = List.replicate (users.count w) p := by
  induction users with
  | nil => rfl
  | cons v users ih =>
    have hcons : Server.casts (v :: users) p = ⟨some v, p⟩ :: Server.casts users p := rfl
    rw [hcons, packetsFor_cons, ih, List.count_cons]
    by_cases hv : v = w <;> simp [hv, List.replicate_succ]

theorem packetsFor_casts_nodup {w : UserPtr} {users : List UserPtr} (h : users.Nodup) (p : Packet) :
    packetsFor w (Server.casts users p) = if w ∈ users then [p] else [] := by
  rw [packetsFor_casts, h.count]
  split <;> rfl

namespace Event

def news (s : Server) (w : UserPtr) : Event → List Packet
  | .login x u _ list => if w = x then [.sServerEnterOk u.userId, list] else []
  | .rooms x list => if w = x then [list] else []
  | .enter x u r roomName =>
    if w = x then [.sRoomEnter u.userId u.nickname, .sRoomName roomName]
    else if s.currRoom w = some r then [.sRoomEnter u.userId u.nickname] else []
  | .leave _ u r => if s.currRoom w = some r then [.sRoomExit u.userId] else []
  | .remove x u =>
    if w ≠ x ∧ u.currRoom ≠ none ∧ s.currRoom w = u.currRoom then [.sRoomExit u.userId] else []
  | .chat packet recvers => List.replicate (recvers.count w) packet

def user (s : Server) : Event → UserPtr → Cell
  | .login x u nickname _ => Function.update s.user x (.live { u with nickname })
  | .enter x u r _ => Function.update s.user x (.live { u with currRoom := some r })
  | .leave x u _ => Function.update s.user x (.live { u with currRoom := none })
  | .remove x _ => Function.update s.user x .freed
  | .rooms _ _ | .chat _ _ => s.user

def userList (s : Server) : Event → StdMap UInt32 UserPtr
  | .remove _ u => s.userList.erase u.userId
  | _ => s.userList

def isCast : Packet → Bool
  | .sMulticast _ _ | .sBroadcast _ _ | .sUnicastOk _ _ | .sUnicastNo => true
  | _ => false

def isRoomList : Packet → Bool
  | .sLobbyRoomInfo _ _ _ => true
  | _ => false

inductive Occurs (s : Server) : Event → Prop
  | login {x : UserPtr} {u : User} (hu : s.user x = .live u) (nickname : Str) {list : Packet}
    (hlist : isRoomList list = true) : Occurs s (.login x u nickname list)
  | rooms {x : UserPtr} (hx : s.user x ≠ .unused) {list : Packet}
    (hlist : isRoomList list = true) : Occurs s (.rooms x list)
  | enter {x : UserPtr} {u : User} (hu : s.user x = .live u) {r : RoomPtr}
    (hfrom : u.currRoom = none ∨ u.currRoom = some r) (roomName : Str) :
    Occurs s (.enter x u r roomName)
  | leave {x : UserPtr} {u : User} (hu : s.user x = .live u) {r : RoomPtr}
    (hr : u.currRoom = some r) : Occurs s (.leave x u r)
  | remove {x : UserPtr} {u : User} (hu : s.user x = .live u) : Occurs s (.remove x u)
  | chat {packet : Packet} (hcast : isCast packet = true) {recvers : List UserPtr}
    (hrecvers : ∀ w ∈ recvers, s.Registered w) : Occurs s (.chat packet recvers)

def By (session : UserPtr) (packet : Packet) : Event → Prop
  | .login x _ nickname _ => x = session ∧ packet = .cServerEnter nickname
  | .rooms x _ => x = session ∧ (packet = .cLobbyRoomInfo ∨ ∃ name, packet = .cRoomCreate name)
  | .enter x _ _ _ => x = session ∧ ∃ rid, packet = .cRoomEnter rid
  | .leave x _ _ => x = session ∧ packet = .cRoomExit
  | .remove x _ => x = session ∧ packet = .cServerExit
  | .chat _ _ => (∀ nickname, packet ≠ .cServerEnter nickname) ∧ ∀ rid, packet ≠ .cRoomEnter rid

def logsIn (w : UserPtr) : Event → Bool
  | .login x _ _ _ => x = w
  | _ => false

def Follows (w : UserPtr) (loggedIn : Bool) : Event → Prop
  | .login x _ _ _ => x = w → loggedIn = false
  | .rooms x _ | .enter x _ _ _ | .leave x _ _ => x = w → loggedIn = true
  | .remove _ _ | .chat _ _ => True

def FromOutside : Event → Prop
  | .login _ u _ _ => u.currRoom = none
  | _ => True

def subject : Event → Option (UserPtr × User)
  | .login x u _ _ | .enter x u _ _ | .leave x u _ | .remove x u => some (x, u)
  | .rooms _ _ | .chat _ _ => none

def entry (r : RoomPtr) : Event → Option Str
  | .enter _ u t _ => if t = r then some u.nickname else none
  | _ => none

def ListsInLobby (s : Server) : Event → Prop
  | .rooms x _ => s.currRoom x = none
  | _ => True

def ChatsInRooms (s : Server) : Event → Prop
  | .chat _ recvers => ∀ w ∈ recvers, s.currRoom w ≠ none
  | _ => True

end Event

namespace Server

structure Does (s : Server) (e : Event) (s' : Server) : Prop where
  user : s'.user = e.user s
  userList : s'.userList = e.userList s
  packages : ∃ ps, s'.packages = s.packages ++ ps ∧ ∀ w, packetsFor w ps = e.news s w

structure Orderly (s : Server) : Prop where
  registry : Registry s
  membership : Membership s
  accounted : Accounted s

theorem Orderly.mem_room_iff {s : Server} (h : Orderly s) {r : RoomPtr} {w : UserPtr} :
    w ∈ (s.room r).users.elems ↔ s.currRoom w = some r := by
  refine (h.membership r w).trans (and_iff_right_of_imp fun hr => ?_)
  obtain ⟨u, hu, -⟩ := live_of_currRoom hr
  exact (h.accounted.live hu).1

theorem Orderly.membersRegistered {s : Server} (h : Orderly s) : s.MembersRegistered :=
  fun hw => ((h.membership _ _).mp hw).1

theorem Orderly.sender {s : Server} (h : Orderly s) {session v : UserPtr} {id : UInt32} {u : User}
    (hs : s.Sender session id v u) : v = session ∧ id = u.userId := by
  obtain ⟨x, hx, -⟩ := sessionId_ok_iff.mp hs.session
  exact ⟨h.registry.sender_eq hs (h.accounted.live hx).1, (h.registry.sender_id hs).symm⟩

theorem user_event {s : Server} {e : Event} (h : e.Occurs s) (w : UserPtr) :
    e.user s w = s.user w ∨ ∃ u, s.user w = .live u ∧
      ((∃ u', e.user s w = .live u') ∨ e = .remove w u ∧ e.user s w = .freed) := by
  cases h with
  | rooms | chat => exact .inl rfl
  | @login x u hu | @enter x u hu | @leave x u hu =>
    by_cases hw : w = x
    · subst hw
      exact .inr ⟨u, hu, .inl ⟨_, Function.update_self ..⟩⟩
    · exact .inl (Function.update_of_ne hw ..)
  | @remove x u hu =>
    by_cases hw : w = x
    · subst hw
      exact .inr ⟨u, hu, .inr ⟨rfl, Function.update_self ..⟩⟩
    · exact .inl (Function.update_of_ne hw ..)

theorem user_unused_event {s : Server} {e : Event} (h : e.Occurs s) {w : UserPtr} :
    e.user s w = .unused ↔ s.user w = .unused := by
  rcases user_event h w with heq | ⟨u, hu, ⟨u', hu'⟩ | ⟨-, hf⟩⟩
  · rw [heq]
  · simp [hu, hu']
  · simp [hu, hf]

theorem live_of_event {s : Server} {e : Event} (h : e.Occurs s) {w : UserPtr} {u' : User}
    (hu' : e.user s w = .live u') : ∃ u, s.user w = .live u := by
  rcases user_event h w with heq | ⟨u, hu, -⟩
  · exact ⟨u', heq ▸ hu'⟩
  · exact ⟨u, hu⟩

theorem Orderly.news_unused {s : Server} (h : Orderly s) {e : Event} (ho : e.Occurs s)
    {w : UserPtr} (hw : s.user w = .unused) : e.news s w = [] := by
  have hroom : ∀ r, s.currRoom w ≠ some r := fun r hr => by
    obtain ⟨u, hu, -⟩ := live_of_currRoom hr
    rw [hw] at hu
    contradiction
  have hne : ∀ {x u}, s.user x = .live u → w ≠ x := by
    rintro x u hu rfl
    rw [hw] at hu
    contradiction
  cases ho with
  | login hu => simp [Event.news, hne hu]
  | @rooms x hx =>
    have : w ≠ x := by
      rintro rfl
      exact hx hw
    simp [Event.news, this]
  | enter hu => simp [Event.news, hne hu, hroom]
  | leave hu => simp [Event.news, hroom]
  | @remove x u hu =>
    cases hr : u.currRoom with
    | none => simp [Event.news, hr]
    | some r => simp [Event.news, hr, hroom]
  | chat _ hrecvers =>
    have hnot : w ∉ _ := fun hmem => by
      obtain ⟨u, hu, -⟩ := h.registry.live (hrecvers w hmem)
      exact hne hu rfl
    simp [Event.news, List.count_eq_zero.mpr hnot]

theorem Registry.eq_of_userId {s : Server} (h : Registry s) {v w : UserPtr} {u x : User}
    (hv : s.Registered v) (hw : s.Registered w) (hu : s.user v = .live u) (hx : s.user w = .live x)
    (hid : x.userId = u.userId) : w = v := by
  obtain ⟨u', hu', hv', -⟩ := h.live hv
  obtain ⟨x', hx', hw', -⟩ := h.live hw
  rw [hu] at hu'
  rw [hx] at hx'
  cases hu'
  cases hx'
  rw [hid] at hw'
  exact Option.some.inj (hw'.symm.trans hv')

theorem Orderly.userId_ne {s : Server} (h : Orderly s) {v w : UserPtr} {u x : User}
    (hu : s.user v = .live u) (hx : s.user w = .live x) (hne : w ≠ v) : x.userId ≠ u.userId :=
  fun hid => hne (h.registry.eq_of_userId (h.accounted.live hu).1 (h.accounted.live hx).1 hu hx hid)

inductive Hears (s : Server) (w : UserPtr) (u : User) :
    Event → Bool → List Packet → User → Bool → Prop
  | login {nickname : Str} {list : Packet} (hnone : u.currRoom = none)
    (hlist : Event.isRoomList list = true) : Hears s w u (.login w u nickname list) false
      [.sServerEnterOk u.userId, list] { u with nickname } true
  | rooms {list : Packet} (hlist : Event.isRoomList list = true) :
    Hears s w u (.rooms w list) true [list] u true
  | enter {r : RoomPtr} (hfrom : u.currRoom = none ∨ u.currRoom = some r) (roomName : Str) :
    Hears s w u (.enter w u r roomName) true
      [.sRoomEnter u.userId u.nickname, .sRoomName roomName] { u with currRoom := some r } true
  | leave {r : RoomPtr} (hr : u.currRoom = some r) : Hears s w u (.leave w u r) true
      [.sRoomExit u.userId] { u with currRoom := none } true
  | chat {packet : Packet} {recvers : List UserPtr} {b : Bool} (hcast : Event.isCast packet = true)
    (hb : u.currRoom ≠ none → b = true) : Hears s w u (.chat packet recvers) b
      (List.replicate (recvers.count w) packet) u b
  | entrance {x : UserPtr} {y : User} {r : RoomPtr} {roomName : Str} (hw : w ≠ x)
    (hr : u.currRoom = some r) : Hears s w u (.enter x y r roomName) true
      [.sRoomEnter y.userId y.nickname] u true
  | departure {e : Event} {x : UserPtr} {y : User} {r : RoomPtr} (hw : w ≠ x)
    (hy : s.user x = .live y) (hr : u.currRoom = some r) (he : e.subject = some (x, y))
    (hentry : ∀ t, e.entry t = none) : Hears s w u e true [.sRoomExit y.userId] u true
  | elsewhere {e : Event} {x : UserPtr} {y : User} {b : Bool} (hw : w ≠ x)
    (hy : s.user x = .live y) (he : e.subject = some (x, y))
    (hout : ∀ r, u.currRoom = some r → e.entry r = none ∧ y.currRoom ≠ some r) :
    Hears s w u e b [] u b
  | nothing {x : UserPtr} {list : Packet} {b : Bool} : Hears s w u (.rooms x list) b [] u b

theorem user_of_subject {s : Server} {e : Event} {w : UserPtr}
    (h : ∀ x y, e.subject = some (x, y) → w ≠ x) : e.user s w = s.user w := by
  cases e with
  | login | enter | leave | remove => exact Function.update_of_ne (h _ _ rfl) ..
  | rooms | chat => rfl

theorem hears_own {s : Server} {e : Event} {w : UserPtr} {u u' : User} {b : Bool}
    (ho : e.Occurs s) (hfrom : e.FromOutside) (hsubject : e.subject = some (w, u))
    (hu' : e.user s w = .live u') (hf : e.Follows w b) :
    s.Hears w u e b (e.news s w) u' (b || e.logsIn w) := by
  cases ho with
  | login hy nickname hlist =>
    obtain ⟨rfl, rfl⟩ := Prod.mk.inj (Option.some.inj hsubject)
    obtain rfl := hf rfl
    obtain rfl := Cell.live.inj (hu'.symm.trans (Function.update_self ..))
    rw [Event.news, if_pos rfl, Event.logsIn, decide_eq_true rfl]
    exact .login hfrom hlist
  | enter hy hr roomName =>
    obtain ⟨rfl, rfl⟩ := Prod.mk.inj (Option.some.inj hsubject)
    obtain rfl := hf rfl
    obtain rfl := Cell.live.inj (hu'.symm.trans (Function.update_self ..))
    rw [Event.news, if_pos rfl]
    exact .enter hr roomName
  | leave hy hr =>
    obtain ⟨rfl, rfl⟩ := Prod.mk.inj (Option.some.inj hsubject)
    obtain rfl := hf rfl
    obtain rfl := Cell.live.inj (hu'.symm.trans (Function.update_self ..))
    rw [Event.news, if_pos (currRoom_of_live hy ▸ hr)]
    exact .leave hr
  | remove hy =>
    obtain ⟨rfl, rfl⟩ := Prod.mk.inj (Option.some.inj hsubject)
    simp [Event.user] at hu'
  | rooms | chat => contradiction

theorem hears_other {s : Server} {e : Event} {w x : UserPtr} {u y : User} {b : Bool}
    (ho : e.Occurs s) (hfrom : e.FromOutside) (hsubject : e.subject = some (x, y)) (hw : w ≠ x)
    (hu : s.user w = .live u) (inRoom : ∀ r, u.currRoom = some r → b = true) :
    s.Hears w u e b (e.news s w) u (b || e.logsIn w) := by
  have hcurr := currRoom_of_live hu
  cases ho with
  | login hy nickname hlist =>
    obtain ⟨rfl, rfl⟩ := Prod.mk.inj (Option.some.inj hsubject)
    have hnone := hfrom
    simp only [Event.FromOutside] at hnone
    rw [Event.news, if_neg hw, Event.logsIn, decide_eq_false (Ne.symm hw), Bool.or_false]
    exact .elsewhere hw hy rfl fun r _ => ⟨rfl, by simp [hnone]⟩
  | enter hy hr roomName =>
    obtain ⟨rfl, rfl⟩ := Prod.mk.inj (Option.some.inj hsubject)
    simp only [Event.logsIn, Bool.or_false, Event.news, hcurr]
    rw [if_neg hw]
    split
    · rename_i hin
      obtain rfl := inRoom _ hin
      exact .entrance hw hin
    · rename_i hout
      refine .elsewhere hw hy rfl fun t ht => ⟨?_, fun hyt => ?_⟩
      · rw [Event.entry, if_neg]
        rintro rfl
        exact hout ht
      · rcases hr with hr | hr
        · rw [hr] at hyt
          contradiction
        · exact hout (ht.trans (hyt.symm.trans hr))
  | leave hy hr =>
    obtain ⟨rfl, rfl⟩ := Prod.mk.inj (Option.some.inj hsubject)
    simp only [Event.logsIn, Bool.or_false, Event.news, hcurr]
    split
    · rename_i hin
      obtain rfl := inRoom _ hin
      exact .departure hw hy hin rfl fun _ => rfl
    · rename_i hout
      exact .elsewhere hw hy rfl fun t ht => ⟨rfl, fun hyt =>
        hout (ht.trans (hyt.symm.trans hr))⟩
  | remove hy =>
    obtain ⟨rfl, rfl⟩ := Prod.mk.inj (Option.some.inj hsubject)
    simp only [Event.logsIn, Bool.or_false, Event.news, hcurr]
    split
    · rename_i hin
      obtain ⟨r, hr⟩ := Option.ne_none_iff_exists'.mp hin.2.1
      have hin' := hin.2.2.trans hr
      obtain rfl := inRoom _ hin'
      exact .departure hw hy hin' rfl fun _ => rfl
    · rename_i hout
      exact .elsewhere hw hy rfl fun t ht => ⟨rfl, fun hyt =>
        hout ⟨hw, by simp [hyt], ht.trans hyt.symm⟩⟩
  | rooms | chat => contradiction

theorem live_of_subject {s : Server} {e : Event} (ho : e.Occurs s) {x : UserPtr} {y : User}
    (h : e.subject = some (x, y)) : s.user x = .live y := by
  cases ho with
  | login hy | enter hy | leave hy | remove hy =>
    obtain ⟨rfl, rfl⟩ := Prod.mk.inj (Option.some.inj h)
    exact hy
  | rooms | chat => contradiction

theorem Does.hears {s s' : Server} {e : Event} {w : UserPtr} {u u' : User} {b : Bool}
    (hd : s.Does e s') (ho : e.Occurs s) (hfrom : e.FromOutside) (hu : s.user w = .live u)
    (hu' : s'.user w = .live u') (hroom : b = false → u.currRoom = none) (hf : e.Follows w b) :
    s.Hears w u e b (e.news s w) u' (b || e.logsIn w) := by
  rw [hd.user] at hu'
  have entered : u.currRoom ≠ none → b = true := fun hne => by
    cases b with
    | true => rfl
    | false => exact absurd (hroom rfl) hne
  by_cases hown : ∃ y, e.subject = some (w, y)
  · obtain ⟨y, hsubject⟩ := hown
    obtain rfl := Cell.live.inj (hu.symm.trans (live_of_subject ho hsubject))
    exact hears_own ho hfrom hsubject hu' hf
  · have hother : ∀ x y, e.subject = some (x, y) → w ≠ x := by
      rintro x y hsubject rfl
      exact hown ⟨y, hsubject⟩
    obtain rfl := Cell.live.inj (hu'.symm.trans ((user_of_subject hother).trans hu))
    cases hsubject : e.subject with
    | some xy =>
      exact hears_other ho hfrom hsubject (hother _ _ hsubject) hu fun r hr =>
        entered (by simp [hr])
    | none =>
      cases ho with
      | rooms hx hlist =>
        simp only [Event.logsIn, Bool.or_false, Event.news]
        split
        · rename_i hw
          subst hw
          obtain rfl := hf rfl
          exact .rooms hlist
        · exact .nothing
      | chat hcast hrecvers =>
        simp only [Event.logsIn, Bool.or_false, Event.news]
        exact .chat hcast entered
      | login | enter | leave | remove => contradiction

theorem orderly_init : Orderly init where
  registry := registry_init
  membership := membership_init
  accounted := ⟨nofun, nofun, nofun⟩

theorem Orderly.pushPackages {s : Server} (h : Orderly s) (ps : List SendPackage) :
    Orderly (s.pushPackages ps) where
  registry := h.registry.pushPackages ps
  membership := h.membership
  accounted := ⟨h.accounted.unused, h.accounted.live, h.accounted.freed⟩

theorem Orderly.removed {s : Server} (h : Orderly s) {v : UserPtr} {u : User}
    (hu : s.user v = .live u) (hv : s.userList.find u.userId = some v) :
    Orderly (s.removed v u) where
  registry := h.registry.removed hu hv
  membership := h.membership.removed h.registry hu hv
  accounted := h.accounted.removed h.registry hu hv

theorem Orderly.processed {s s' : Server} (h : Orderly s) {session : UserPtr} {packet : Packet}
    (hg : s.entersFromLobby (.process ⟨session, packet⟩) = true)
    (hp : s.Processed session packet s') : Orderly s' := by
  have kept : packet ≠ .cServerExit → (∃ id, s.sessionId session = .ok id) → Orderly s' := by
    rintro hexit ⟨id, hid⟩
    obtain ⟨x, hx, -⟩ := sessionId_ok_iff.mp hid
    exact ⟨h.registry.processed hp, h.membership.processed h.registry hg hp,
      (hp.kept hexit h.registry h.membersRegistered (h.accounted.live hx).1).accounted h.accounted⟩
  cases hp with
  | serverExit sender members =>
    exact h.removed sender.live (h.registry.sender_id sender ▸ sender.registered)
  | lobbyRoomInfo => exact h.pushPackages _
  | unhandled _ => exact h
  | roomCreate hid roomName => exact kept nofun ⟨_, hid⟩
  | serverEnter sender | roomEnter sender | roomExit sender | unicast sender | multicast sender
  | broadcast sender => exact kept nofun ⟨_, sender.session⟩

def freshId (s : Server) : Action → Bool
  | .accept _ _ _ => s.userList.find s.userId = none
  | _ => true

theorem Orderly.step {s s' : Server} (h : Orderly s) {a : Action}
    (hg : s.entersFromLobby a = true) (hid : s.freshId a = true) (hs : s.step a = .ok s') :
    Orderly s' := by
  cases a with
  | accept addr socket outcome =>
    obtain ⟨haddr, hacc⟩ := accepted_of_ok hs
    exact ⟨h.registry.accept haddr hacc, h.membership.accept haddr hacc,
      h.accounted.accept haddr (by simpa [freshId] using hid) hacc⟩
  | removeUser id =>
    rcases h.registry.removedById hs with ⟨-, rfl⟩ | ⟨v, u, -, hid, hu, rfl⟩
    · exact h
    · exact h.removed hu hid
  | process package => exact h.processed hg (processed_of_ok hs)

/-! The events of the handlers. -/

theorem does_entered {s : Server} (h : Orderly s) (r : RoomPtr) (v : UserPtr) (u : User) :
    s.Does (.enter v u r (s.room r).roomName) (s.entered r v u) := by
  refine ⟨rfl, rfl, _, rfl, fun w => ?_⟩
  rw [packetsFor_append, packetsFor_casts_nodup (StdSet.nodup _), room_setRoom_self]
  have hmem : w ∈ ((s.room r).users.insert v).elems ↔ w = v ∨ s.currRoom w = some r :=
    StdSet.mem_insert.trans (or_congr_right h.mem_room_iff)
  by_cases hw : w = v
  · subst hw
    simp [setUser, hmem, Event.news]
  · simp [setUser, hmem, Event.news, hw, Ne.symm hw]

theorem does_left {s : Server} (h : Orderly s) (r : RoomPtr) (v : UserPtr) (u : User) :
    s.Does (.leave v u r) ((s.left r v u (s.room r).users.elems).pushIntoLobby v) := by
  refine ⟨rfl, rfl, _, rfl, fun w => ?_⟩
  rw [packetsFor_casts_nodup (StdSet.nodup _)]
  simp only [h.mem_room_iff, Event.news]

theorem does_removed {s : Server} (h : Orderly s) {v : UserPtr} {u : User}
    (hu : s.user v = .live u) (hv : s.userList.find u.userId = some v) :
    s.Does (.remove v u) (s.removed v u) := by
  have huser : (s.removed v u).user = Function.update s.user v .freed := by
    funext w
    rw [user_removed, Function.update_apply]
  have hlist : (s.removed v u).userList = s.userList.erase u.userId := by
    unfold removed
    split <;> rfl
  have hpkgs : ∃ ps, (s.removed v u).packages = s.packages ++ ps ∧
      ∀ w, packetsFor w ps = (Event.remove v u).news s w := by
    unfold removed
    split
    · rename_i hout
      exact ⟨[], (List.append_nil _).symm, fun w => by simp [Event.news, hout]⟩
    · rename_i r hr
      refine ⟨_, rfl, fun w => ?_⟩
      have hmem : w ∈ s.exitCasts u.userId (s.room r).users.elems true ↔
          w ≠ v ∧ s.currRoom w = some r := by
        rw [exitCasts, List.mem_filter, h.mem_room_iff, and_comm]
        apply and_congr_left
        intro hw
        obtain ⟨x, hx, -⟩ := live_of_currRoom hw
        have hid : x.userId = u.userId ↔ w = v :=
          ⟨h.registry.eq_of_userId ⟨_, hv⟩ (h.accounted.live hx).1 hu hx, by
            rintro rfl
            rw [hu] at hx
            cases hx
            rfl⟩
        simp [hasId, hx, hid]
      have hnodup : (s.exitCasts u.userId (s.room r).users.elems true).Nodup :=
        (StdSet.nodup _).filter _
      rw [packetsFor_casts_nodup hnodup]
      simp only [hmem, Event.news, hr, ne_eq, reduceCtorEq, not_false_eq_true, true_and]
  exact ⟨huser, hlist, hpkgs⟩

def listsInLobby (s : Server) : Action → Bool
  | .process ⟨session, .cLobbyRoomInfo⟩ | .process ⟨session, .cRoomCreate _⟩ =>
    s.currRoom session = none
  | _ => true

def whispersInRooms (s : Server) : Action → Bool
  | .process ⟨session, .cUnicast recver _⟩ =>
    (s.currRoom session).isSome &&
      match s.findByNickname recver s.userList.values with
      | .ok (some w) => (s.currRoom w).isSome
      | _ => true
  | _ => true

inductive Causes (s : Server) : Action → Event → Prop
  | removeUser (id : UInt32) (x : UserPtr) (u : User) : Causes s (.removeUser id) (.remove x u)
  | process {session : UserPtr} {packet : Packet} {e : Event} (hby : e.By session packet)
    (hlist : s.listsInLobby (.process ⟨session, packet⟩) = true → e.ListsInLobby s)
    (hchat : s.whispersInRooms (.process ⟨session, packet⟩) = true → e.ChatsInRooms s) :
    Causes s (.process ⟨session, packet⟩) e

theorem does_login {s : Server} (v : UserPtr) (u : User) (nickname : Str) :
    s.Does (.login v u nickname s.roomListPacket) (s.accepted v u.userId v u nickname) := by
  refine ⟨rfl, rfl, _, List.append_assoc .., fun w => ?_⟩
  by_cases hw : w = v
  · simp [Event.news, hw, roomListPacket, setUser, pushPackages]
  · simp [Event.news, hw, Ne.symm hw]

theorem does_rooms {s t : Server} (session : UserPtr) (list : Packet) (huser : t.user = s.user)
    (hlist : t.userList = s.userList) (hpkgs : t.packages = s.packages ++ [⟨some session, list⟩]) :
    s.Does (.rooms session list) t := by
  refine ⟨huser, hlist, _, hpkgs, fun w => ?_⟩
  by_cases hw : w = session
  · simp [Event.news, hw]
  · simp [Event.news, hw, Ne.symm hw]

theorem does_chat (s : Server) (packet : Packet) (recvers : List UserPtr) :
    s.Does (.chat packet recvers) (s.pushPackages (casts recvers packet)) :=
  ⟨rfl, rfl, _, rfl, fun w => packetsFor_casts w recvers packet⟩

theorem Orderly.roomChat {s : Server} (h : Orderly s) {session : UserPtr} {packet p : Packet}
    {recvers : List UserPtr} (hby : (Event.chat p recvers).By session packet)
    (hcast : Event.isCast p = true)
    (hrecvers : ∀ w ∈ recvers, ∃ r, w ∈ (s.room r).users.elems) :
    ∃ e : Event, e.Occurs s ∧ s.Causes (.process ⟨session, packet⟩) e ∧
      s.Does e (s.pushPackages (casts recvers p)) := by
  refine ⟨.chat p recvers, .chat hcast fun w hw => ?_, .process hby (fun _ => trivial)
    fun _ w hw => ?_, s.does_chat p recvers⟩
  · obtain ⟨r, hr⟩ := hrecvers w hw
    exact h.membersRegistered hr
  · obtain ⟨r, hr⟩ := hrecvers w hw
    simp [h.mem_room_iff.mp hr]

theorem Processed.event {s s' : Server} (h : Orderly s) {session : UserPtr} {packet : Packet}
    (hsession : s.user session ≠ .unused)
    (hg : s.entersFromLobby (.process ⟨session, packet⟩) = true)
    (hp : s.Processed session packet s') :
    ∃ e : Event, e.Occurs s ∧ s.Causes (.process ⟨session, packet⟩) e ∧ s.Does e s' := by
  cases hp with
  | @serverEnter id v u sender nickname =>
    obtain ⟨rfl, rfl⟩ := h.sender sender
    exact ⟨.login v u nickname s.roomListPacket, .login sender.live _ rfl,
      .process ⟨rfl, rfl⟩ (fun _ => trivial) fun _ => trivial, does_login v u nickname⟩
  | @serverExit id v u sender members =>
    obtain ⟨rfl, rfl⟩ := h.sender sender
    exact ⟨.remove v u, .remove sender.live,
      .process ⟨rfl, rfl⟩ (fun _ => trivial) fun _ => trivial,
      does_removed h sender.live sender.registered⟩
  | lobbyRoomInfo =>
    refine ⟨.rooms session s.roomListPacket, .rooms hsession rfl,
      .process ⟨rfl, .inl rfl⟩ (fun hlist => ?_) fun _ => trivial,
      does_rooms session s.roomListPacket rfl rfl rfl⟩
    simpa [listsInLobby, Event.ListsInLobby] using hlist
  | @roomCreate id hid roomName =>
    obtain ⟨x, hx, hxid⟩ := sessionId_ok_iff.mp hid
    obtain ⟨u, sender⟩ := h.registry.sender (h.accounted.live hx).1
    have hid' : (s.newRoom roomName).getSession id = some session := by
      rw [Except.ok.inj (hid.symm.trans sender.session)]
      exact sender.registered
    refine ⟨.rooms session (s.newRoom roomName).roomListPacket, .rooms hsession rfl,
      .process ⟨rfl, .inr ⟨_, rfl⟩⟩ (fun hlist => ?_) fun _ => trivial,
      does_rooms session (s.newRoom roomName).roomListPacket rfl rfl ?_⟩
    · simpa [listsInLobby, Event.ListsInLobby] using hlist
    · rw [← hid']
      rfl
  | @roomEnter id v u rid r sender room =>
    obtain ⟨rfl, rfl⟩ := h.sender sender
    have hfrom : u.currRoom = none ∨ u.currRoom = some r := by
      simpa [entersFromLobby, sender.senderOf, room] using hg
    exact ⟨.enter v u r _, .enter sender.live hfrom _,
      .process ⟨rfl, rid, rfl⟩ (fun _ => trivial) fun _ => trivial, does_entered h r v u⟩
  | @roomExit id v u r sender room =>
    obtain ⟨rfl, rfl⟩ := h.sender sender
    exact ⟨.leave v u r, .leave sender.live room,
      .process ⟨rfl, rfl⟩ (fun _ => trivial) fun _ => trivial, does_left h r v u⟩
  | @unicast id v u sender recver found found_eq text =>
    obtain ⟨rfl, rfl⟩ := h.sender sender
    have hv : s.Registered v := ⟨_, sender.registered⟩
    cases found with
    | none =>
      have hrecvers : ∀ w ∈ [v], s.Registered w := fun w hw => List.mem_singleton.mp hw ▸ hv
      refine ⟨.chat .sUnicastNo [v], .chat rfl hrecvers, .process ⟨by rintro _ ⟨⟩, by rintro _ ⟨⟩⟩
        (fun _ => trivial) fun hin w hw => ?_, s.does_chat _ [v]⟩
      rw [List.mem_singleton.mp hw]
      simp only [whispersInRooms, Bool.and_eq_true, Option.isSome_iff_ne_none] at hin
      exact hin.1
    | some x =>
      have hx : s.Registered x := StdMap.mem_values_iff.mp (findByNickname_mem found_eq)
      have hrecvers : ∀ w ∈ [v, x], s.Registered w := by simp [hv, hx]
      refine ⟨.chat (.sUnicastOk u.nickname text) [v, x], .chat rfl hrecvers,
        .process ⟨by rintro _ ⟨⟩, by rintro _ ⟨⟩⟩ (fun _ => trivial) fun hin w hw => ?_,
        s.does_chat _ [v, x]⟩
      simp only [whispersInRooms, found_eq, Bool.and_eq_true, Option.isSome_iff_ne_none] at hin
      simp only [List.mem_cons, List.not_mem_nil, or_false] at hw
      rcases hw with rfl | rfl
      · exact hin.1
      · exact hin.2
  | @multicast id v u r sender room text =>
    exact h.roomChat ⟨by rintro _ ⟨⟩, by rintro _ ⟨⟩⟩ rfl fun w hw => ⟨r, hw⟩
  | @broadcast id v u sender text =>
    have hcasts : s.broadCast (.sBroadcast u.nickname text) =
        s.pushPackages (casts (s.roomList.values.flatMap fun r => (s.room r).users.elems)
          (.sBroadcast u.nickname text)) := by
      rw [broadCast_eq, casts, List.map_flatMap]
      rfl
    rw [hcasts]
    exact h.roomChat ⟨by rintro _ ⟨⟩, by rintro _ ⟨⟩⟩ rfl fun w hw =>
      (List.mem_flatMap.mp hw).imp fun _ hr => hr.2
  | unhandled hnot =>
    refine ⟨.chat .sUnicastNo [], .chat rfl (List.forall_mem_nil _), .process ⟨?_, ?_⟩
      (fun _ => trivial) fun _ => List.forall_mem_nil _,
      rfl, rfl, [], (List.append_nil _).symm, fun _ => rfl⟩
    · rintro nickname rfl
      cases hnot
    · rintro rid rfl
      cases hnot

end Server

end ChattingServer.V11
