import ChattingServer.V11.Chat.Location

namespace ChattingServer.V11

open Lib

abbrev Roster := UInt32 → Option Str

def Roster.empty : Roster := fun _ => none

namespace Server

def entersOnlyFromLobby (s : Server) : Action → Bool
  | .process ⟨session, .cRoomEnter _⟩ =>
    match s.senderOf session with
    | .ok (_, u) => u.currRoom = none
    | .error _ => true
  | _ => true

def rosterGuard (s : Server) (a : Action) : Bool :=
  s.entersOnlyFromLobby a && s.freshId a && s.listsInLobby a

def entrances (k : List UserPtr) : Action → List UserPtr
  | .process ⟨session, .cRoomEnter _⟩ => session :: k
  | _ => k

def roster (s : Server) (k : List UserPtr) (w : UserPtr) (r : RoomPtr) : Roster := fun id =>
  match s.userList.find id with
  | some x =>
    match s.user x with
    | .live y => if y.currRoom = some r ∧ k.idxOf x ≤ k.idxOf w then some y.nickname else none
    | _ => none
  | none => none

def rosterOf (s : Server) (k : List UserPtr) (w : UserPtr) (u : User) : Roster :=
  match u.currRoom with
  | some r => s.roster k w r
  | none => Roster.empty

def shown (s : Server) (k : List UserPtr) (w : UserPtr) (u : User) (b : Bool) : View × Roster :=
  (u.seen b, if b then s.rosterOf k w u else Roster.empty)

end Server

namespace View

def recvRoster (v : View) (ρ : Roster) : Packet → Roster
  | .sServerEnterOk _ => Roster.empty
  | .sRoomEnter uid name =>
    match v.place with
    | .outside => ρ
    | .lobby => Function.update Roster.empty uid (some name)
    | .room => Function.update ρ uid (some name)
  | .sRoomExit uid => if uid = v.userId then Roster.empty else Function.update ρ uid none
  | _ => ρ

end View

def rosterReceiver : Receiver (View × Roster) Packet where
  recv v p := (v.1.recv p, v.1.recvRoster v.2 p)
  takes v p := Event.isRoomList p = true → v.1.place ≠ .room

def rosterMirror : Mirror (View × Roster) (List UserPtr) where
  receiver := rosterReceiver
  view c := (c.view, c.display.roster)
  place v := v.1.place
  seen := Server.shown
  history k _ a := Server.entrances k a
  guard := Server.rosterGuard

theorem Display.roster_empty {d : Display} (h : d.place ≠ .room) : d.roster = Roster.empty := by
  cases d with
  | login | lobby => rfl
  | room => exact absurd rfl h

namespace Client

theorem roster_onLobbyDisplay {c : Client} (h : c.display.place ≠ .room) (memory : Display)
    (f : LobbyDisplay → LobbyDisplay) :
    (c.onLobbyDisplay memory f).display.roster = Roster.empty := by
  obtain ⟨d, hd, heq⟩ := c.onLobbyDisplay_eq memory f
  rw [heq]
  exact Display.roster_empty (hd ▸ h)

theorem roster_onRoomDisplay (c : Client) (memory : Display) (f : RoomDisplay → RoomDisplay)
    (g : Roster → Roster) (hf : ∀ d, (f d).users.find = g d.users.find) :
    (c.onRoomDisplay memory f).display.roster =
      if c.display.place = .room then g c.display.roster else Roster.empty := by
  split
  · rename_i hroom
    obtain ⟨d, hd⟩ := Display.room_of_place hroom
    simp [onRoomDisplay, hd, Display.roster, hf]
  · rename_i hroom
    obtain ⟨d, hd, heq⟩ := c.onRoomDisplay_eq memory f
    rw [heq]
    exact Display.roster_empty (hd ▸ hroom)

theorem roster_onRoomDisplay_same (c : Client) (memory : Display) {f : RoomDisplay → RoomDisplay}
    (hf : ∀ d, (f d).users = d.users) :
    (c.onRoomDisplay memory f).display.roster = c.display.roster := by
  rw [c.roster_onRoomDisplay memory f (fun ρ => ρ) fun d => congrArg _ (hf d)]
  split
  · rfl
  · rename_i hne
    exact (Display.roster_empty hne).symm

theorem find_updatePlayer (uid : UInt32) (name : Str) (d : RoomDisplay) :
    (d.updatePlayer uid name).users.find = Function.update d.users.find uid (some name) := by
  funext id
  simp [RoomDisplay.updatePlayer, Function.update_apply, eq_comm]

theorem find_removePlayer (uid : UInt32) (d : RoomDisplay) :
    (d.removePlayer uid).users.find = Function.update d.users.find uid none := by
  funext id
  simp [RoomDisplay.removePlayer, Function.update_apply, eq_comm]

theorem roster_recvProcess {c : Client} (h : c.Fits) {p : Packet}
    (hp : Event.isRoomList p = true → c.state.place ≠ .room) (memory : Display) :
    (c.recvProcess memory p).display.roster = c.view.recvRoster c.display.roster p := by
  unfold Fits at h
  cases p with
  | sServerEnterOk => rfl
  | sLobbyRoomInfo roomCount roomId roomName =>
    have hne : c.display.place ≠ .room := h ▸ hp rfl
    change (c.fLobbyRoomInfo memory roomCount roomId roomName).display.roster = c.display.roster
    rw [fLobbyRoomInfo]
    split
    · rfl
    · rw [roster_onLobbyDisplay hne]
      exact (Display.roster_empty hne).symm
  | sRoomEnter uid name =>
    change (c.fRoomEnter memory uid name).display.roster = _
    rw [fRoomEnter, roster_onRoomDisplay _ memory _
      (fun ρ => Function.update ρ uid (some name)) (find_updatePlayer uid name)]
    simp only [View.recvRoster, view]
    by_cases hst : c.state = .lobby
    · rw [moveToRoom, if_pos hst, hst]
      rfl
    · rw [moveToRoom, if_neg hst, ← h]
      cases hd : c.display with
      | login => rfl
      | lobby d =>
        have hlobby : c.state.place = .lobby := h.symm.trans (congrArg _ hd)
        exact absurd (ClientState.place_eq_lobby_iff.mp hlobby) hst
      | room d => rfl
  | sRoomExit uid =>
    change (c.fRoomExit memory uid).display.roster =
      if uid = c.userId then Roster.empty else Function.update c.display.roster uid none
    rw [fRoomExit]
    split
    · rfl
    · rw [roster_onRoomDisplay _ memory _ (fun ρ => Function.update ρ uid none)
        (find_removePlayer uid)]
      split
      · rfl
      · rename_i hne
        rw [Display.roster_empty hne]
        funext id
        simp [Roster.empty, Function.update_apply]
  | sRoomName => exact c.roster_onRoomDisplay_same memory fun _ => rfl
  | sMulticast | sBroadcast | sUnicastOk | sUnicastNo =>
    exact c.roster_onRoomDisplay_same memory fun _ => rfl
  | _ => rfl

end Client

namespace Event

def entrances (k : List UserPtr) : Event → List UserPtr
  | .enter x _ _ _ => x :: k
  | _ => k

def EntersFromLobby : Event → Prop
  | .enter _ u _ _ => u.currRoom = none
  | _ => True

end Event

namespace Server

theorem roster_congr {s s' : Server} {k k' : List UserPtr} {w : UserPtr} {r : RoomPtr} {id : UInt32}
    (hfind : s'.userList.find id = s.userList.find id)
    (h : ∀ x, s.userList.find id = some x → s'.user x = s.user x ∧
      (k'.idxOf x ≤ k'.idxOf w ↔ k.idxOf x ≤ k.idxOf w)) :
    s'.roster k' w r id = s.roster k w r id := by
  unfold roster
  rw [hfind]
  cases hx : s.userList.find id with
  | none => rfl
  | some x =>
    obtain ⟨huser, hk⟩ := h x hx
    simp only [huser, hk]

theorem roster_of_find {s : Server} {k : List UserPtr} {w x : UserPtr} {r : RoomPtr} {id : UInt32}
    {y : User} (hx : s.userList.find id = some x) (hy : s.user x = .live y) :
    s.roster k w r id =
      if y.currRoom = some r ∧ k.idxOf x ≤ k.idxOf w then some y.nickname else none := by
  simp [roster, hx, hy]

theorem Orderly.find_userId {s : Server} (h : Orderly s) {x : UserPtr} {y : User}
    (hy : s.user x = .live y) : s.userList.find y.userId = some x := by
  obtain ⟨z, hz, hfind, -⟩ := h.registry.live (h.accounted.live hy).1
  rw [hy] at hz
  cases hz
  exact hfind

theorem Orderly.roster_outsider {s : Server} (h : Orderly s) {k : List UserPtr} {w x : UserPtr}
    {r : RoomPtr} {y : User} (hy : s.user x = .live y) (hr : y.currRoom ≠ some r) :
    s.roster k w r y.userId = none := by
  rw [roster_of_find (h.find_userId hy) hy, if_neg fun hc => hr hc.1]

theorem Does.roster_same {s s' : Server} {e : Event} (hd : s.Does e s') (he : e.subject = none)
    (k : List UserPtr) (w : UserPtr) (r : RoomPtr) :
    s'.roster (e.entrances k) w r = s.roster k w r := by
  funext id
  cases e with
  | rooms | chat =>
    exact roster_congr (congrArg (·.find id) hd.userList) fun x _ =>
      ⟨congrFun hd.user x, Iff.rfl⟩
  | login | enter | leave | remove => cases he

theorem subject_live {s : Server} {e : Event} (ho : e.Occurs s) {x : UserPtr} {y : User}
    (he : e.subject = some (x, y)) : s.user x = .live y := by
  cases ho with
  | login hu | enter hu | leave hu | remove hu =>
    cases he
    exact hu
  | rooms | chat => cases he

theorem Orderly.ne_of_find {s : Server} (h : Orderly s) {x z : UserPtr} {y : User} {id : UInt32}
    (hy : s.user x = .live y) (hid : id ≠ y.userId) (hz : s.userList.find id = some z) : z ≠ x := by
  rintro rfl
  obtain ⟨y', hy', hyid, -⟩ := h.registry.user hz
  rw [hy] at hy'
  cases hy'
  exact hid hyid.symm

theorem Does.roster_entry {s s' : Server} {e : Event} (hd : s.Does e s') (h : Orderly s)
    (ho : e.Occurs s) {x : UserPtr} {y : User} (he : e.subject = some (x, y))
    (hfrom : e.FromOutside) (k : List UserPtr) (w : UserPtr) (r : RoomPtr) :
    s'.roster (e.entrances k) w r y.userId = e.entry r := by
  have hfind := h.find_userId (subject_live ho he)
  have hself : ∀ {y' : User}, Function.update s.user x (.live y') x = .live y' :=
    Function.update_self ..
  cases ho with
  | login hu nickname =>
    cases he
    have hnew := (congrFun hd.user x).trans hself
    rw [roster_of_find ((congrArg (·.find y.userId) hd.userList).trans hfind) hnew, if_neg]
    · rfl
    · rintro ⟨hr, -⟩
      exact absurd (hr.symm.trans hfrom) (Option.some_ne_none _)
  | enter hu =>
    cases he
    have hnew := (congrFun hd.user x).trans hself
    rw [roster_of_find ((congrArg (·.find y.userId) hd.userList).trans hfind) hnew]
    simp [Event.entry, Event.entrances]
  | leave hu hr =>
    cases he
    have hnew := (congrFun hd.user x).trans hself
    rw [roster_of_find ((congrArg (·.find y.userId) hd.userList).trans hfind) hnew]
    simp [Event.entry]
  | remove hu =>
    cases he
    have hnone : s'.userList.find y.userId = none := by
      rw [hd.userList]
      simp [Event.userList]
    simp [roster, hnone, Event.entry]
  | rooms | chat => cases he

theorem Does.roster_update {s s' : Server} {e : Event} (hd : s.Does e s') (h : Orderly s)
    (ho : e.Occurs s) {x : UserPtr} {y : User} (he : e.subject = some (x, y))
    (hfrom : e.FromOutside) {w : UserPtr} (hw : w ≠ x) (k : List UserPtr) (r : RoomPtr) :
    s'.roster (e.entrances k) w r = Function.update (s.roster k w r) y.userId (e.entry r) := by
  funext id
  by_cases hid : id = y.userId
  · rw [hid, Function.update_self]
    exact hd.roster_entry h ho he hfrom k w r
  · rw [Function.update_of_ne hid]
    have hother := fun z => h.ne_of_find (z := z) (subject_live ho he) hid
    refine roster_congr ?_ fun z hz => ⟨?_, ?_⟩
    · rw [hd.userList]
      cases ho with
      | login | enter | leave | rooms | chat => rfl
      | remove hu =>
        cases he
        simp [Event.userList, Ne.symm hid]
    · rw [hd.user]
      cases ho with
      | login | enter | leave | remove =>
        cases he
        exact Function.update_of_ne (hother z hz) ..
      | rooms | chat => rfl
    · cases ho with
      | enter =>
        cases he
        simp [Event.entrances, List.idxOf_cons_ne _ (Ne.symm (hother z hz)),
          List.idxOf_cons_ne _ (Ne.symm hw)]
      | login | leave | remove | rooms | chat => rfl

theorem Does.roster_entrant {s s' : Server} {x : UserPtr} {y : User} {r : RoomPtr} {roomName : Str}
    (hd : s.Does (.enter x y r roomName) s') (h : Orderly s) (hy : s.user x = .live y)
    (k : List UserPtr) :
    s'.roster (x :: k) x r = Function.update Roster.empty y.userId (some y.nickname) := by
  funext id
  have hfind : ∀ id, s'.userList.find id = s.userList.find id := fun id =>
    congrArg (·.find id) hd.userList
  have hnew : s'.user x = .live { y with currRoom := some r } := by
    rw [hd.user]
    exact Function.update_self ..
  by_cases hid : id = y.userId
  · subst hid
    rw [roster_of_find ((hfind _).trans (h.find_userId hy)) hnew]
    simp
  · rw [Function.update_of_ne hid]
    unfold roster
    rw [hfind]
    cases hz : s.userList.find id with
    | none => rfl
    | some z =>
      have hne : z ≠ x := h.ne_of_find hy hid hz
      simp only [List.idxOf_cons_self, List.idxOf_cons_ne _ (Ne.symm hne)]
      split <;> simp [Roster.empty]

end Server

/-! What a user hears takes its roster along. -/

theorem takes_other {v : View × Roster} {p : Packet} (hp : Event.isRoomList p = false) :
    rosterReceiver.takes v p := by
  intro hlist
  rw [hp] at hlist
  contradiction

theorem plays_one {v v' : View} {ρ : Roster} {p : Packet}
    (hv : (View.receiver false).Plays v [p] v') (hp : Event.isRoomList p = false) :
    rosterReceiver.Plays (v, ρ) [p] (v', v.recvRoster ρ p) := by
  refine .cons (takes_other hp) (Receiver.plays_nil_iff.mpr ?_)
  have := (Receiver.plays_cons_iff.mp hv).2
  exact Prod.ext (Receiver.plays_nil_iff.mp this) rfl

theorem plays_list {v : View} {ρ : Roster} {p : Packet} (hp : Event.isRoomList p = true)
    (hv : v.place ≠ .room) : rosterReceiver.Plays (v, ρ) [p] (v, ρ) := by
  cases p with
  | sLobbyRoomInfo => exact .cons (fun _ => hv) .nil
  | _ => nomatch hp

theorem plays_chat (v : View) (ρ : Roster) {p : Packet} (hp : Event.isCast p = true) (n : Nat) :
    rosterReceiver.Plays (v, ρ) (List.replicate n p) (v, ρ) := by
  refine Receiver.plays_const (fun q hq => ?_) fun q hq hl => ?_
  · obtain rfl := List.eq_of_mem_replicate hq
    cases q <;> first | rfl | nomatch hp
  · obtain rfl := List.eq_of_mem_replicate hq
    have hne : Event.isRoomList q = false := by
      cases q <;> first | rfl | nomatch hp
    exact takes_other hne hl

theorem plays_entrance {u : User} {r : RoomPtr} (hr : u.currRoom = some r) (ρ : Roster)
    (uid : UInt32) (name : Str) : rosterReceiver.Plays (u.location, ρ) [.sRoomEnter uid name]
      (u.location, Function.update ρ uid (some name)) := by
  have hplace : u.location.place = .room := by simp [User.location, hr]
  have := plays_one (ρ := ρ) (View.plays_otherEnter hr uid name) rfl
  rwa [View.recvRoster, hplace] at this

theorem plays_departure {u : User} {r : RoomPtr} (hr : u.currRoom = some r) (ρ : Roster)
    {uid : UInt32} (hid : uid ≠ u.userId) : rosterReceiver.Plays (u.location, ρ) [.sRoomExit uid]
      (u.location, Function.update ρ uid none) := by
  have hid' : ¬ uid = u.location.userId := hid
  have := plays_one (ρ := ρ) (View.plays_otherExit hr hid) rfl
  rwa [View.recvRoster, if_neg hid'] at this

theorem plays_own_departure (u : User) (ρ : Roster) :
    rosterReceiver.Plays (u.location, ρ) [.sRoomExit u.userId]
      ({ u with currRoom := none }.location, Roster.empty) := by
  have hid : u.userId = u.location.userId := rfl
  have := plays_one (ρ := ρ) (View.plays_exit u) rfl
  rwa [View.recvRoster, if_pos hid] at this

namespace Server

variable {s s' : Server} {e : Event} {k : List UserPtr} {w : UserPtr} {u : User} {b : Bool}

theorem shown_room {r : RoomPtr} (hr : u.currRoom = some r) :
    s.shown k w u true = (u.location, s.roster k w r) := by
  simp [shown, User.seen, rosterOf, hr]

theorem shown_lobby (hr : u.currRoom = none) :
    s.shown k w u true = (⟨.lobby, u.userId⟩, Roster.empty) := by
  simp [shown, User.seen, User.location, rosterOf, hr]

theorem Does.shown_elsewhere (hd : s.Does e s') (h : Orderly s) (ho : e.Occurs s) {x : UserPtr}
    {y : User} (he : e.subject = some (x, y)) (hfrom : e.FromOutside) (hw : w ≠ x)
    (hy : s.user x = .live y)
    (hnot : ∀ r, u.currRoom = some r → e.entry r = none ∧ y.currRoom ≠ some r) :
    s'.shown (e.entrances k) w u b = s.shown k w u b := by
  cases hr : u.currRoom with
  | none => simp [shown, rosterOf, hr]
  | some r =>
    obtain ⟨hentry, hout⟩ := hnot r hr
    have hsame : s'.roster (e.entrances k) w r = s.roster k w r := by
      rw [hd.roster_update h ho he hfrom hw, hentry, ← h.roster_outsider (k := k) (w := w) hy hout,
        Function.update_eq_self]
    simp [shown, rosterOf, hr, hsame]

theorem Does.shown_same (hd : s.Does e s') (he : e.subject = none) :
    s'.shown (e.entrances k) w u b = s.shown k w u b := by
  simp only [shown, rosterOf, hd.roster_same he]

end Server

theorem plays_roster {s s' : Server} {e : Event} {w : UserPtr} {u u' : User} {b b' : Bool}
    {ps : List Packet} (k : List UserPtr) (h : s.Orderly) (ho : e.Occurs s) (hd : s.Does e s')
    (hlist : e.ListsInLobby s) (hlobby : e.EntersFromLobby) (hfrom : e.FromOutside)
    (hu : s.user w = .live u) (hh : s.Hears w u e b ps u' b') :
    rosterReceiver.Plays (s.shown k w u b) ps (s'.shown (e.entrances k) w u' b') := by
  cases hh with
  | @login nickname list hnone hl =>
    have hnone' : ({ u with nickname } : User).currRoom = none := hnone
    rw [Server.shown_lobby hnone']
    exact .cons (takes_other rfl) (plays_list hl (by rintro ⟨⟩))
  | rooms hl =>
    have hnone : u.currRoom = none := (Server.currRoom_of_live hu).symm.trans hlist
    rw [hd.shown_same rfl, Server.shown_lobby hnone]
    exact plays_list hl (by rintro ⟨⟩)
  | enter =>
    rw [Server.shown_lobby hlobby, Server.shown_room rfl]
    refine .cons (takes_other rfl) (.cons (takes_other rfl) (Receiver.plays_nil_iff.mpr ?_))
    exact Prod.ext rfl (hd.roster_entrant h hu k).symm
  | leave hr =>
    rw [Server.shown_room hr, Server.shown_lobby rfl]
    exact plays_own_departure u _
  | chat hcast =>
    rw [hd.shown_same rfl]
    exact plays_chat _ _ hcast _
  | entrance hw hr =>
    rw [Server.shown_room hr, Server.shown_room hr, hd.roster_update h ho rfl hfrom hw, Event.entry,
      if_pos rfl]
    exact plays_entrance hr ..
  | departure hw hy hr he hentry =>
    rw [Server.shown_room hr, Server.shown_room hr, hd.roster_update h ho he hfrom hw, hentry]
    exact plays_departure hr _ (h.userId_ne hu hy (Ne.symm hw))
  | elsewhere hw hy he hout =>
    rw [hd.shown_elsewhere h ho he hfrom hw hy hout]
    exact .nil
  | nothing =>
    rw [hd.shown_same rfl]
    exact .nil

namespace Server

theorem rosterGuard_le {s : Server} {a : Action} (h : s.rosterGuard a = true) :
    s.entersFromLobby a = true ∧ s.freshId a = true := by
  simp only [rosterGuard, Bool.and_eq_true] at h
  refine ⟨?_, h.1.2⟩
  have hlobby := h.1.1
  unfold entersFromLobby
  split
  · rename_i session rid
    change (match s.senderOf session with
      | .ok (_, u) => decide (u.currRoom = none)
      | .error _ => true) = true at hlobby
    cases hs : s.senderOf session with
    | error f => rfl
    | ok sender =>
      rw [hs] at hlobby
      exact decide_eq_true (.inl (of_decide_eq_true hlobby))
  · rfl

theorem Causes.entersFromLobby {s : Server} (h : Orderly s) {a : Action} {e : Event}
    (ha : s.Causes a e) (ho : e.Occurs s) (hg : s.entersOnlyFromLobby a = true) :
    e.EntersFromLobby := by
  cases ho with
  | @enter x y hy =>
    cases ha with
    | process hby =>
      obtain ⟨rfl, rid, rfl⟩ := hby
      obtain ⟨u, sender⟩ := h.registry.sender (h.accounted.live hy).1
      obtain rfl := Cell.live.inj (hy.symm.trans sender.live)
      simpa [entersOnlyFromLobby, sender.senderOf, Event.EntersFromLobby] using hg
  | _ => trivial

theorem Causes.entrances_eq {s : Server} {a : Action} {e : Event} (h : s.Causes a e)
    (k : List UserPtr) : entrances k a = e.entrances k := by
  cases h with
  | removeUser => rfl
  | @process session packet _ hby =>
    cases e with
    | login x | leave x | remove x =>
      obtain ⟨rfl, rfl⟩ := hby
      rfl
    | rooms x =>
      obtain ⟨rfl, rfl | ⟨name, rfl⟩⟩ := hby <;> rfl
    | enter x =>
      obtain ⟨rfl, rid, rfl⟩ := hby
      rfl
    | chat =>
      cases packet with
      | cRoomEnter rid => exact absurd rfl (hby.2 rid)
      | _ => rfl

theorem Accepted.roster_eq {s s' : Server} (h : Orderly s) {addr : UserPtr} {socket : Socket}
    {outcome : ConnectOutcome} (haddr : s.user addr = .unused)
    (hacc : s.Accepted addr socket outcome s') (k : List UserPtr) (w : UserPtr) (r : RoomPtr) :
    s'.roster k w r = s.roster k w r := by
  funext id
  have hne : ∀ {x}, s.userList.find id = some x → x ≠ addr := by
    rintro x hx rfl
    obtain ⟨y, hy, -⟩ := h.registry.user hx
    rw [haddr] at hy
    contradiction
  cases hacc with
  | failed _ closed =>
    exact roster_congr rfl fun x hx => ⟨Function.update_of_ne (hne hx) .., Iff.rfl⟩
  | connected =>
    cases hfind : s.userList.find id with
    | some x =>
      refine roster_congr ?_ fun x hx => ⟨Function.update_of_ne (hne hx) .., Iff.rfl⟩
      exact (StdMap.find_insert_of_some hfind ..).trans hfind.symm
    | none =>
      have hnone : s.roster k w r id = none := by simp [roster, hfind]
      rw [hnone]
      unfold roster
      cases hnew : StdMap.find _ id with
      | none => rfl
      | some x =>
        rcases StdMap.find_of_find_insert hnew with hx | ⟨rfl, -⟩
        · rw [hfind] at hx
          contradiction
        · simp [pushIntoLobby, setUser]

end Server

theorem rosterMirror_lawful : rosterMirror.Lawful where
  guard_orderly := Server.rosterGuard_le
  place_view _ := rfl
  place_recv h := View.recv_ne_outside h _
  view_congr hplace hid hroster := by
    simp only [rosterMirror, Client.view, hplace, hid, hroster]
  view_recv hfits hp memory :=
    Prod.ext (Client.received_recvProcess _ memory _).view
      (Client.roster_recvProcess hfits hp memory)
  seen_outside := rfl
  seen_packages := rfl
  event {s s' k a e w u u' b b' ps} horder hg ho ha hd hu hfrom hh := by
    have hg' := hg
    simp only [rosterMirror, Server.rosterGuard, Bool.and_eq_true] at hg'
    have hlist : e.ListsInLobby s := by
      cases ha with
      | removeUser => trivial
      | process _ hl => exact hl hg'.2
    have hlobby := ha.entersFromLobby horder ho hg'.1.1
    have := plays_roster k horder ho hd hlist hlobby hfrom hu hh
    rwa [← ha.entrances_eq k] at this
  accept {s s' k addr socket outcome w u b} horder haddr hacc hu := by
    have hsame := fun r => Server.Accepted.roster_eq horder haddr hacc k w r
    simp only [rosterMirror, Server.shown, Server.rosterOf, Server.entrances, hsame]

theorem Server.Orderly.roster_eq_some_iff {s : Server} (h : s.Orderly) {k : List UserPtr}
    {w : UserPtr} {r : RoomPtr} {id : UInt32} {name : Str} :
    s.roster k w r id = some name ↔ ∃ x y, s.user x = .live y ∧ y.currRoom = some r ∧
      y.userId = id ∧ y.nickname = name ∧ k.idxOf x ≤ k.idxOf w := by
  constructor
  · intro hs
    cases hx : s.userList.find id with
    | none => simp [Server.roster, hx] at hs
    | some x =>
      obtain ⟨y, hy, hid, -⟩ := h.registry.user hx
      rw [Server.roster_of_find hx hy] at hs
      split at hs
      · rename_i hin
        exact ⟨x, y, hy, hin.1, hid, Option.some.inj hs, hin.2⟩
      · contradiction
  · rintro ⟨x, y, hy, hr, rfl, rfl, hk⟩
    rw [Server.roster_of_find (h.find_userId hy) hy, if_pos ⟨hr, hk⟩]

namespace Chat

def withEntrances : System (Chat × List UserPtr) Action Fault :=
  system.withHistory [] (record fun k _ a => Server.entrances k a)

def EnteredBefore (k : List UserPtr) (x w : UserPtr) : Prop := k.idxOf w < k.idxOf x

instance (k : List UserPtr) (x w : UserPtr) : Decidable (EnteredBefore k x w) :=
  inferInstanceAs (Decidable (_ < _))

/-- Without packets under way, a room display shows the members of its room exactly when none of
them was there before its own user came. -/
theorem roster_complete_iff {s : Chat} {k : List UserPtr}
    (h : withEntrances.Reach (fun s a => s.1.allows Server.rosterGuard a = true) (s, k))
    (hq : s.Quiescent) {w : UserPtr} {c : Conn} {u : User} {r : RoomPtr}
    (hc : s.conns.find w = some c) (hu : s.server.user w = .live u) (hr : u.currRoom = some r) :
    ∃ d, c.client.display = .room d ∧
      ((∀ id name, d.users.find id = some name ↔ ∃ x y, s.server.Registered x ∧
          s.server.user x = .live y ∧ y.currRoom = some r ∧ y.userId = id ∧ y.nickname = name) ↔
        ∀ x, s.server.currRoom x = some r → ¬ EnteredBefore k x w) := by
  have hl : rosterMirror.Linked s k := Mirror.linked_of_reach rosterMirror_lawful h
  have hin : c.client.state ≠ .login := fun hst => by
    obtain ⟨b, hphase, hout, -⟩ := (hl.conn hc).live u hu
    rw [hout (hphase.eq_false_of_login hst)] at hr
    contradiction
  have hview : (c.client.view, c.client.display.roster) = (u.location, s.server.roster k w r) :=
    (hl.settled hq hc hu hin).trans (Server.shown_room hr)
  have hroom : u.location.place = .room := by simp [User.location, hr]
  have hplace : c.client.display.place = .room :=
    (hl.conn hc).fits.trans ((congrArg (fun v => v.1.place) hview).trans hroom)
  obtain ⟨d, hd⟩ := Display.room_of_place hplace
  have hroster : d.users.find = s.server.roster k w r := by
    have := congrArg Prod.snd hview
    rwa [hd] at this
  refine ⟨d, hd, ?_⟩
  simp only [hroster, hl.orderly.roster_eq_some_iff, EnteredBefore, not_lt]
  constructor
  · intro hall x hx
    obtain ⟨y, hy, hyr⟩ := Server.live_of_currRoom hx
    obtain ⟨z, y', hy', -, hid, -, hk⟩ := (hall y.userId y.nickname).mpr
      ⟨x, y, (hl.orderly.accounted.live hy).1, hy, hyr, rfl, rfl⟩
    obtain rfl := hl.orderly.registry.eq_of_userId (hl.orderly.accounted.live hy).1
      (hl.orderly.accounted.live hy').1 hy hy' hid
    exact hk
  · intro hall id name
    constructor
    · rintro ⟨x, y, hy, hyr, hid, hname, -⟩
      exact ⟨x, y, (hl.orderly.accounted.live hy).1, hy, hyr, hid, hname⟩
    · rintro ⟨x, y, -, hy, hyr, hid, hname⟩
      exact ⟨x, y, hy, hyr, hid, hname, hall x ((Server.currRoom_of_live hy).trans hyr)⟩

theorem roster_complete_of_first :
    ∃ s c d, system.Reachable s ∧ s.conns.find 0 = some c ∧ c.client.display = .room d ∧
      s.server.currRoom 1 = some 0 ∧ ∀ id name, d.users.find id = some name ↔
        ∃ x y, s.server.Registered x ∧ s.server.user x = .live y ∧ y.currRoom = some 0 ∧
          y.userId = id ∧ y.nickname = name := by
  obtain ⟨⟨s, k⟩, hs, hp⟩ := System.exists_of_runWith (S := withEntrances)
    (G := fun s a => s.1.allows Server.rosterGuard a = true)
    (g := fun s a => s.1.allows Server.rosterGuard a) (fun _ _ h => h)
    (p := fun s => decide (s.1.Quiescent ∧ s.2 = [1, 0] ∧ (s.1.server.room 0).users.elems = [0, 1] ∧
      s.1.server.currRoom 0 = some 0))
    (login 0 [97] ++ pressEnter 0 ++ requests 0 1 ++ replies 0 1 ++ pressEnter 0 ++ requests 0 1 ++
      replies 0 2 ++ login 1 [98] ++ pressEnter 1 ++ requests 1 1 ++ List.replicate 3 .send ++
      arrives 1 2 ++ arrives 0 1)
    (by decide +kernel)
  obtain ⟨hq, rfl, hmem, hr⟩ := of_decide_eq_true hp
  have hreach : system.Reachable s := System.Reach.reachable (System.Reach.withHistory_fst
    (S := system) (G := fun s a => s.allows Server.rosterGuard a = true) hs)
  have hl := Mirror.linked_of_reach rosterMirror_lawful hs
  have hroom : ∀ x, s.server.currRoom x = some 0 ↔ x = 0 ∨ x = 1 := fun x => by
    rw [← hl.orderly.mem_room_iff, hmem]
    simp
  obtain ⟨u, hu, hur⟩ := Server.live_of_currRoom hr
  obtain ⟨c, hc⟩ := hl.live hu
  obtain ⟨d, hd, hiff⟩ := roster_complete_iff hs hq hc hu hur
  refine ⟨s, c, d, hreach, hc, hd, (hroom 1).mpr (.inr rfl), hiff.mpr fun x hx => ?_⟩
  rcases (hroom x).mp hx with rfl | rfl <;> decide

/-- The second user to enter a room is not shown the first. -/
theorem not_roster_complete :
    ¬ ∀ s, system.Reach (fun s a => s.allows Server.entersOnlyFromLobby a = true) s →
      s.Quiescent → ∀ w c u r, s.conns.find w = some c → s.server.user w = .live u →
      u.currRoom = some r → ∃ d, c.client.display = .room d ∧
        ∀ id name, d.users.find id = some name ↔ ∃ x y, s.server.Registered x ∧
          s.server.user x = .live y ∧ y.currRoom = some r ∧ y.userId = id ∧ y.nickname = name := by
  intro h
  obtain ⟨s, hs, hp⟩ := System.exists_of_runWith (S := system) (fun _ _ h => h)
    (p := fun s => decide (s.Quiescent ∧ s.server.currRoom 1 = some 0 ∧
      s.server.userList.find 1 = some 0) &&
        ((s.server.deref (some 0)).toOption.any fun e =>
          decide (e.2.currRoom = some 0 ∧ e.2.userId = 1)) &&
        (s.conns.find 1).any fun c => decide (c.client.display.roster 1 = none))
    (login 0 [97] ++ pressEnter 0 ++ requests 0 1 ++ replies 0 1 ++ pressEnter 0 ++ requests 0 1 ++
      replies 0 2 ++ login 1 [98] ++ pressEnter 1 ++ requests 1 1 ++ List.replicate 3 .send ++
      arrives 1 2 ++ arrives 0 1)
    (by decide +kernel : (system.runWith (allows Server.entersOnlyFromLobby) _ _).any _ = true)
  simp only [Bool.and_eq_true, decide_eq_true_eq, Option.any_eq_true] at hp
  obtain ⟨⟨⟨hq, hr, hfind⟩, ⟨v, y⟩, hderef, hyr, hid⟩, c, hc, hnone⟩ := hp
  obtain ⟨hv, hy⟩ := Server.deref_ok_iff.mp (toOption_eq_some_iff.mp hderef)
  obtain rfl := Option.some.inj hv
  obtain ⟨u, hu, hur⟩ := Server.live_of_currRoom hr
  obtain ⟨d, hd, hall⟩ := h s hs hq 1 c u 0 hc hu hur
  have hshown := (hall 1 y.nickname).mpr ⟨0, y, ⟨1, hfind⟩, hy, hyr, hid, rfl⟩
  rw [hd] at hnone
  exact absurd (hshown.symm.trans hnone) (Option.some_ne_none _)

end Chat

end ChattingServer.V11
