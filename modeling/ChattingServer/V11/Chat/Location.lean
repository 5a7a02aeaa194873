import ChattingServer.V11.Chat.Link

namespace ChattingServer.V11

open Lib

def User.location (u : User) : View :=
  ⟨if u.currRoom = none then .lobby else .room, u.userId⟩

def User.seen (u : User) : Bool → View
  | false => ⟨.outside, 0⟩
  | true => u.location

namespace Server

/-- A room is entered from the lobby, and ids are not in use twice. -/
def locationGuard (s : Server) (a : Action) : Bool := s.entersFromLobby a && s.freshId a

/-- And room lists go to users in the lobby, and whispers from a room to a room. -/
def castGuard (s : Server) (a : Action) : Bool :=
  s.locationGuard a && s.listsInLobby a && s.whispersInRooms a

theorem Causes.sound {s : Server} {a : Action} {e : Event} (h : s.Causes a e)
    (hlist : s.listsInLobby a = true) (hchat : s.whispersInRooms a = true) :
    e.ListsInLobby s ∧ e.ChatsInRooms s := by
  cases h with
  | removeUser => exact ⟨trivial, trivial⟩
  | process _ hl hc => exact ⟨hl hlist, hc hchat⟩

end Server

def locationMirror (strict : Bool) : Mirror View Unit where
  receiver := View.receiver strict
  view := Client.view
  place := View.place
  seen _ _ _ u b := u.seen b
  history _ _ _ := ()
  guard :=
    match strict with
    | true => Server.castGuard
    | false => Server.locationGuard

namespace View

variable {strict : Bool}

theorem plays_casts {v : View} {p : Packet} (hp : Event.isCast p = true) (n : Nat)
    (hroom : strict = true → n ≠ 0 → v.place = .room) :
    (receiver strict).Plays v (List.replicate n p) v := by
  refine Receiver.plays_const (fun q hq => ?_) fun q hq hs => ?_
  · obtain rfl := List.eq_of_mem_replicate hq
    cases q <;> first | rfl | nomatch hp
  · obtain ⟨hn, rfl⟩ := List.mem_replicate.mp hq
    have hv := hroom hs hn
    cases q <;> first | exact hv | nomatch hp

theorem plays_roomList {v : View} {p : Packet} (hp : Event.isRoomList p = true)
    (hlobby : strict = true → v.place = .lobby) : (receiver strict).Plays v [p] v := by
  cases p with
  | sLobbyRoomInfo => exact .cons hlobby .nil
  | _ => nomatch hp

theorem plays_enter (u : User) {r : RoomPtr} (hfrom : u.currRoom = none ∨ u.currRoom = some r)
    (roomName : Str) :
    (receiver strict).Plays u.location [.sRoomEnter u.userId u.nickname, .sRoomName roomName]
      { u with currRoom := some r }.location := by
  have hroom : (u.location.recv (.sRoomEnter u.userId u.nickname)) =
      { u with currRoom := some r }.location := by
    rcases hfrom with hr | hr <;> simp [User.location, hr, recv]
  refine .cons (fun _ => ?_) (.cons (fun _ => ?_) ?_)
  · change u.location.place ≠ .outside
    rcases hfrom with hr | hr <;> simp [User.location, hr]
  · exact congrArg View.place hroom
  · exact Receiver.plays_nil_iff.mpr hroom

theorem plays_otherEnter {u : User} {r : RoomPtr} (hr : u.currRoom = some r) (uid : UInt32)
    (name : Str) : (receiver strict).Plays u.location [.sRoomEnter uid name] u.location := by
  refine .cons (fun _ => ?_) (Receiver.plays_nil_iff.mpr ?_)
  · change u.location.place ≠ .outside
    simp [User.location, hr]
  · simp [User.location, hr, receiver, recv]

theorem plays_exit (u : User) :
    (receiver strict).Plays u.location [.sRoomExit u.userId]
      { u with currRoom := none }.location := by
  refine .cons (fun _ => .inl rfl) (Receiver.plays_nil_iff.mpr ?_)
  simp [User.location, receiver, recv]

theorem plays_otherExit {u : User} {r : RoomPtr} (hr : u.currRoom = some r) {uid : UInt32}
    (hid : uid ≠ u.userId) : (receiver strict).Plays u.location [.sRoomExit uid] u.location := by
  refine .cons (fun _ => .inr ?_) (Receiver.plays_nil_iff.mpr ?_)
  · simp [User.location, hr]
  · simp [User.location, receiver, recv, hid]

end View

theorem plays_news {strict : Bool} {s : Server} {e : Event} {w : UserPtr} {u u' : User}
    {b b' : Bool} {ps : List Packet} (h : s.Orderly) (hu : s.user w = .live u)
    (hsound : strict = true → e.ListsInLobby s ∧ e.ChatsInRooms s)
    (hh : s.Hears w u e b ps u' b') :
    (View.receiver strict).Plays (u.seen b) ps (u'.seen b') := by
  have hcurr := Server.currRoom_of_live hu
  cases hh with
  | @login nickname list hnone hlist =>
    have hlobby : ({ u with nickname } : User).location = ⟨.lobby, u.userId⟩ := by
      simp [User.location, hnone]
    rw [User.seen, User.seen, hlobby]
    exact .cons (fun _ => trivial) (View.plays_roomList hlist fun _ => rfl)
  | rooms hlist =>
    apply View.plays_roomList hlist
    intro hs
    have hnone : u.currRoom = none := hcurr.symm.trans (hsound hs).1
    simp [User.seen, User.location, hnone]
  | enter hfrom roomName => exact View.plays_enter u hfrom roomName
  | leave hr => exact View.plays_exit u
  | chat hcast hb =>
    apply View.plays_casts hcast _
    intro hs hn
    have hne := (hsound hs).2 w (List.count_pos_iff.mp (Nat.pos_of_ne_zero hn))
    rw [hcurr] at hne
    obtain rfl := hb hne
    simp [User.seen, User.location, hne]
  | entrance _ hr => exact View.plays_otherEnter hr ..
  | departure hw hy hr => exact View.plays_otherExit hr (h.userId_ne hu hy (Ne.symm hw))
  | elsewhere | nothing => exact .nil

theorem locationMirror_guard {strict : Bool} {s : Server} {a : Server.Action}
    (h : (locationMirror strict).guard s a = true) :
    s.entersFromLobby a = true ∧ s.freshId a = true ∧
      (strict = true → s.listsInLobby a = true ∧ s.whispersInRooms a = true) := by
  cases strict with
  | true =>
    simp only [locationMirror, Server.castGuard, Server.locationGuard, Bool.and_eq_true] at h
    exact ⟨h.1.1.1, h.1.1.2, fun _ => ⟨h.1.2, h.2⟩⟩
  | false =>
    simp only [locationMirror, Server.locationGuard, Bool.and_eq_true] at h
    exact ⟨h.1, h.2, nofun⟩

theorem locationMirror_lawful (strict : Bool) : (locationMirror strict).Lawful where
  guard_orderly h := ⟨(locationMirror_guard h).1, (locationMirror_guard h).2.1⟩
  place_view _ := rfl
  place_recv h := View.recv_ne_outside h _
  view_congr hplace hid _ := by
    simp only [locationMirror, Client.view, hplace, hid]
  view_recv _ _ memory := (Client.received_recvProcess _ memory _).view
  seen_outside := rfl
  seen_packages := rfl
  event horder hg _ ha _ hu _ hh :=
    plays_news horder hu (fun hs =>
      have hsound := (locationMirror_guard hg).2.2 hs
      ha.sound hsound.1 hsound.2) hh
  accept _ _ _ _ := rfl

namespace Chat

theorem linked_of_reach (strict : Bool) {s : Chat}
    (h : system.Reach (fun s a => s.allows (locationMirror strict).guard a = true) s) :
    (locationMirror strict).Linked s () := by
  obtain ⟨k, hk⟩ := h.exists_history () (record (locationMirror strict).history)
  exact Mirror.linked_of_reach (locationMirror_lawful strict) hk

/-- Without packets under way, a client that has sent its nickname is where the server has it. -/
theorem location_agrees {s : Chat}
    (h : system.Reach (fun s a => s.allows Server.locationGuard a = true) s) (hq : s.Quiescent)
    {w : UserPtr} {c : Conn} {u : User} (hc : s.conns.find w = some c)
    (hu : s.server.user w = .live u) (hin : c.client.state ≠ .login) :
    (c.client.state = .chatroom ↔ u.currRoom ≠ none) ∧
      (u.currRoom = none → c.client.state = .lobby) := by
  have hview : c.client.view = u.location :=
    (linked_of_reach false h).settled hq hc hu hin
  have hplace : c.client.state.place = u.location.place := congrArg View.place hview
  rw [← ClientState.place_eq_room_iff, ← ClientState.place_eq_lobby_iff, hplace]
  cases hr : u.currRoom <;> simp [User.location, hr]

theorem location_agrees_in_room :
    ∃ s c u, system.Reachable s ∧ s.conns.find 0 = some c ∧ s.server.user 0 = .live u ∧
      c.client.state = .chatroom ∧ u.currRoom ≠ none := by
  obtain ⟨s, hs, hp⟩ := System.exists_of_runWith (S := system) (fun _ _ h => h)
    (p := fun s => decide (s.Quiescent ∧ (s.server.user 0).status = some true) &&
      (s.conns.find 0).any fun c => decide (c.client.state = .chatroom))
    (login 0 [97] ++ pressEnter 0 ++ requests 0 1 ++ replies 0 1 ++ pressEnter 0 ++ requests 0 1 ++
      replies 0 2)
    (by decide +kernel : (system.runWith (allows Server.locationGuard) _ _).any _ = true)
  simp only [Bool.and_eq_true, decide_eq_true_eq, Option.any_eq_true] at hp
  obtain ⟨⟨hq, hlive⟩, c, hc, hst⟩ := hp
  obtain ⟨u, hu⟩ := Cell.status_eq_live_iff.mp hlive
  have hin : c.client.state ≠ .login := by simp [hst]
  exact ⟨s, c, u, hs.reachable, hc, hu, hst, (location_agrees hs hq hc hu hin).1.mp hst⟩

/-- A user that has entered two rooms and left one is told of who enters the other. -/
theorem not_location_agrees :
    ¬ ∀ s, system.Reachable s → s.Quiescent → ∀ w c u, s.conns.find w = some c →
      s.server.user w = .live u → c.client.state ≠ .login →
      (c.client.state = .chatroom ↔ u.currRoom ≠ none) ∧
        (u.currRoom = none → c.client.state = .lobby) := by
  intro h
  obtain ⟨s, hs, hp⟩ := System.exists_of_run (S := system)
    (p := fun s => decide (s.Quiescent ∧ (s.server.user 0).status = some true ∧
      s.server.currRoom 0 = none) &&
        (s.conns.find 0).any fun c => decide (c.client.state = .chatroom))
    (login 0 [97] ++ pressEnter 0 ++ pressEnter 0 ++ requests 0 2 ++ replies 0 2 ++
      pressEnter 0 ++ pressDown 0 ++ pressEnter 0 ++ requests 0 2 ++ replies 0 4 ++
      enterLine 0 RoomDisplay.lobbyCommand ++ requests 0 1 ++ replies 0 1 ++
      login 1 [98] ++ pressEnter 1 ++ requests 1 1 ++ List.replicate 3 .send ++ arrives 1 2 ++
      arrives 0 1)
    (by decide +kernel)
  simp only [Bool.and_eq_true, decide_eq_true_eq, Option.any_eq_true] at hp
  obtain ⟨⟨hq, hlive, hr⟩, c, hc, hst⟩ := hp
  obtain ⟨u, hu⟩ := Cell.status_eq_live_iff.mp hlive
  rw [Server.currRoom_of_live hu] at hr
  exact (h s hs hq 0 c u hc hu (by simp [hst])).1.mp hst hr

end Chat

end ChattingServer.V11
