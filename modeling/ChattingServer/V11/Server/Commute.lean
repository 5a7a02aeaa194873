import ChattingServer.V11.Server.Registry

namespace ChattingServer.V11

open Lib

namespace Server

inductive Acts (s : Server) (v : UserPtr) (u : User) (r : RoomPtr) : RecvPackage → Prop
  | multicast {session : UserPtr} {id : UInt32} (sender : s.Sender session id v u)
      (room : u.currRoom = some r) (text : Str) : Acts s v u r ⟨session, .cMulticast text⟩
  | roomExit {session : UserPtr} {id : UInt32} (sender : s.Sender session id v u)
      (room : u.currRoom = some r) : Acts s v u r ⟨session, .cRoomExit⟩
  | roomEnter {session : UserPtr} {id : UInt32} {rid : UInt16} (sender : s.Sender session id v u)
      (lobby : u.currRoom = none) (room : s.getRoom rid = some r) :
      Acts s v u r ⟨session, .cRoomEnter rid⟩

structure Change where
  user : User
  users : StdSet UserPtr
  intoLobby : Bool
  packages : List SendPackage

def changeOf (room : Room) (v : UserPtr) (u : User) (r : RoomPtr) : Packet → Change
  | .cRoomEnter _ =>
    let users := room.users.insert v
    ⟨{ u with currRoom := some r }, users, false,
      casts users.elems (.sRoomEnter u.userId u.nickname) ++ [⟨some v, .sRoomName room.roomName⟩]⟩
  | .cRoomExit =>
    ⟨{ u with currRoom := none }, room.users.erase v, true,
      casts room.users.elems (.sRoomExit u.userId)⟩
  | .cMulticast text =>
    ⟨u, room.users, false, casts room.users.elems (.sMulticast u.nickname text)⟩
  | _ => ⟨u, room.users, false, []⟩

def change (s : Server) (v : UserPtr) (r : RoomPtr) (c : Change) : Server :=
  { s with
    user := Function.update s.user v (.live c.user)
    room := Function.update s.room r { s.room r with users := c.users }
    userInLobby := if c.intoLobby then s.userInLobby.insert v else s.userInLobby
    packages := s.packages ++ c.packages }

structure SameToAll (s s' : Server) : Prop where
  users : ∀ r, (s.room r).users = (s'.room r).users
  currRoom : ∀ v, s.currRoom v = s'.currRoom v
  userInLobby : s.userInLobby = s'.userInLobby
  packages : ∀ v, s.packages.filter (·.session = some v) = s'.packages.filter (·.session = some v)

theorem Acts.sender {s : Server} {v : UserPtr} {u : User} {r : RoomPtr} {package : RecvPackage}
    (h : s.Acts v u r package) : ∃ id, s.Sender package.session id v u := by
  cases h with
  | multicast sender | roomExit sender | roomEnter sender => exact ⟨_, sender⟩

theorem sessionUser_of_sender {s : Server} {session v : UserPtr} {id : UInt32} {u : User}
    (h : s.Sender session id v u) : s.sessionUser session = .ok (some v) := by
  rw [sessionUser, h.session, ok_bind, h.registered]
  rfl

theorem process_of_acts {s : Server} {v : UserPtr} {u : User} {r : RoomPtr}
    {package : RecvPackage} (h : s.Acts v u r package) :
    s.process package = .ok (s.change v r (changeOf (s.room r) v u r package.packet)) := by
  obtain ⟨id, sender⟩ := h.sender
  have huser := sessionUser_of_sender sender
  have hderef : s.deref (some v) = .ok (v, u) := deref_ok_iff.mpr ⟨rfl, sender.live⟩
  cases h with
  | multicast _ room text =>
    simp only [process, cMulticast, huser, hderef, ok_bind, room, pure_eq_ok]
    have hchange : changeOf (s.room r) v u r (.cMulticast text) = ⟨u, (s.room r).users, false,
        casts (s.room r).users.elems (.sMulticast u.nickname text)⟩ := rfl
    rw [hchange]
    simp only [change, ← sender.live, Function.update_eq_self]
    rfl
  | roomExit _ room =>
    simp only [process, cRoomExit, huser, hderef, ok_bind, room, pure_eq_ok]
    have hexit : s.exitRoom r v false = .ok (s.left r v u (s.room r).users.elems) :=
      exitRoom_ok_iff.mpr ⟨u, sender.live, fun h => absurd h Bool.false_ne_true, rfl⟩
    rw [hexit]
    rfl
  | roomEnter _ lobby room =>
    simp only [process, cRoomEnter, huser, ok_bind, room]
    refine enterRoom_ok_iff.mpr ⟨v, u, rfl, sender.live, ?_⟩
    simp only [entered, room_setRoom_self]
    rfl

theorem sessionId_change {s : Server} {v : UserPtr} {u : User} (hu : s.user v = .live u)
    (r : RoomPtr) {c : Change} (h : c.user.session = u.session) (session : UserPtr) :
    (s.change v r c).sessionId session = s.sessionId session :=
  sessionId_setUser hu c.user h session

theorem session_changeOf (room : Room) (v : UserPtr) (u : User) (r : RoomPtr) (packet : Packet) :
    (changeOf room v u r packet).user.session = u.session := by
  cases packet <;> rfl

theorem Sender.change {s : Server} {session v w : UserPtr} {id : UInt32} {u x : User}
    (h : s.Sender session id w x) (hu : s.user v = .live u) (hne : w ≠ v) (r : RoomPtr)
    {c : Change} (hc : c.user.session = u.session) :
    (s.change v r c).Sender session id w x where
  session := (sessionId_change hu r hc session).trans h.session
  registered := h.registered
  live := (Function.update_of_ne hne ..).trans h.live

theorem Acts.change {s : Server} {v w : UserPtr} {u x : User} {t : RoomPtr}
    {package : RecvPackage} (h : s.Acts w x t package) (hu : s.user v = .live u) (hne : w ≠ v)
    (r : RoomPtr) {c : Change} (hc : c.user.session = u.session) :
    (s.change v r c).Acts w x t package := by
  cases h with
  | multicast sender room text => exact .multicast (sender.change hu hne r hc) room text
  | roomExit sender room => exact .roomExit (sender.change hu hne r hc) room
  | roomEnter sender lobby room => exact .roomEnter (sender.change hu hne r hc) lobby room

theorem room_change_of_ne (s : Server) {r t : RoomPtr} (h : t ≠ r) (v : UserPtr) (c : Change) :
    (s.change v r c).room t = s.room t :=
  Function.update_of_ne h ..

theorem change_comm (s : Server) {v w : UserPtr} {r t : RoomPtr} (hvw : v ≠ w) (hrt : r ≠ t)
    (c d : Change) :
    (s.change v r c).change w t d =
      { (s.change w t d).change v r c with
        packages := s.packages ++ c.packages ++ d.packages } := by
  have huser := Function.update_comm hvw (Cell.live c.user) (.live d.user) s.user
  have hroom := Function.update_comm hrt ({ s.room r with users := c.users } : Room)
    { s.room t with users := d.users } s.room
  simp only [change, Function.update_of_ne hrt, Function.update_of_ne hrt.symm, huser, hroom]
  cases c.intoLobby <;> cases d.intoLobby <;> simp [StdSet.insert_comm _ v w]

theorem packages_changeOf {room : Room} {v : UserPtr} {u : User} {r : RoomPtr} {packet : Packet} :
    ∀ p ∈ (changeOf room v u r packet).packages,
      ∃ w, p.session = some w ∧ (w ∈ room.users ∨ w = v) := by
  have hcasts : ∀ {users : StdSet UserPtr} {packet : Packet},
      (∀ w ∈ users, w ∈ room.users ∨ w = v) → ∀ p ∈ casts users.elems packet,
        ∃ w, p.session = some w ∧ (w ∈ room.users ∨ w = v) := by
    intro users packet h p hp
    obtain ⟨w, hw, rfl⟩ := List.mem_map.mp hp
    exact ⟨w, rfl, h w hw⟩
  cases packet with
  | cRoomEnter _ =>
    intro p hp
    rcases List.mem_append.mp hp with hp | hp
    · exact hcasts (fun w hw => (StdSet.mem_insert.mp hw).symm) p hp
    · rw [List.mem_singleton.mp hp]
      exact ⟨v, rfl, .inr rfl⟩
  | cRoomExit => exact hcasts fun w hw => .inl hw
  | cMulticast _ => exact hcasts fun w hw => .inl hw
  | _ => exact List.forall_mem_nil _

theorem filter_packages_changeOf {room : Room} {v w : UserPtr} {u : User} {r : RoomPtr}
    {packet : Packet} (h : ¬ (w ∈ room.users ∨ w = v)) :
    (changeOf room v u r packet).packages.filter (·.session = some w) = [] := by
  refine List.filter_eq_nil_iff.mpr fun p hp => ?_
  obtain ⟨y, hy, hmem⟩ := packages_changeOf p hp
  rw [hy]
  simp only [Option.some.injEq, decide_eq_true_eq]
  rintro rfl
  exact h hmem

/-- Packages about different rooms, with no user on both sides, can be processed in either order:
no session, and nobody who looks at the rooms and the lobby, can tell. -/
theorem process_comm {s : Server} {v w : UserPtr} {u x : User} {r t : RoomPtr}
    {p q : RecvPackage} (hp : s.Acts v u r p) (hq : s.Acts w x t q) (hrt : r ≠ t)
    (hdisjoint : ∀ y, (y ∈ (s.room r).users ∨ y = v) → ¬ (y ∈ (s.room t).users ∨ y = w)) :
    ∃ s₁ s₂ s₁₂ s₂₁, s.process p = .ok s₁ ∧ s₁.process q = .ok s₁₂ ∧
      s.process q = .ok s₂ ∧ s₂.process p = .ok s₂₁ ∧ SameToAll s₁₂ s₂₁ := by
  have hvw : v ≠ w := fun heq => hdisjoint v (.inr rfl) (.inr heq)
  obtain ⟨id, hsender⟩ := hp.sender
  obtain ⟨id', hsender'⟩ := hq.sender
  have hq' := hq.change hsender.live hvw.symm r
    (session_changeOf (s.room r) v u r p.packet)
  have hp' := hp.change hsender'.live hvw t
    (session_changeOf (s.room t) w x t q.packet)
  refine ⟨_, _, _, _, process_of_acts hp, process_of_acts hq', process_of_acts hq,
    process_of_acts hp', ?_⟩
  rw [room_change_of_ne s hrt.symm, room_change_of_ne s hrt, change_comm s hvw hrt]
  refine ⟨fun _ => rfl, fun _ => rfl, rfl, fun y => ?_⟩
  change List.filter _ (s.packages ++ _ ++ _) = List.filter _ (s.packages ++ _ ++ _)
  simp only [List.append_assoc, List.filter_append]
  by_cases hy : y ∈ (s.room r).users ∨ y = v
  · rw [filter_packages_changeOf (hdisjoint y hy), List.append_nil, List.nil_append]
  · rw [filter_packages_changeOf hy, List.append_nil, List.nil_append]

theorem process_comm_two :
    ∃ s, system.Reachable s ∧ ∃ s₁ s₂ s₁₂ s₂₁, s.process ⟨10, .cMulticast [104]⟩ = .ok s₁ ∧
      s₁.process ⟨11, .cRoomExit⟩ = .ok s₁₂ ∧ s.process ⟨11, .cRoomExit⟩ = .ok s₂ ∧
      s₂.process ⟨10, .cMulticast [104]⟩ = .ok s₂₁ ∧ SameToAll s₁₂ s₂₁ := by
  obtain ⟨s, hs, hp⟩ := System.exists_of_run (S := system)
    (p := fun s => (s.deref (some 10)).toOption.any fun x : UserPtr × User =>
      (s.deref (some 11)).toOption.any fun y : UserPtr × User => decide (x.2.currRoom = some 0 ∧
        x.2.session.userId = 1 ∧ y.2.currRoom = some 1 ∧ y.2.session.userId = 2 ∧
        s.getUser 1 = some 10 ∧ s.getUser 2 = some 11 ∧ (s.room 0).users.elems = [10] ∧
        (s.room 1).users.elems = [11]))
    [.accept 10 7 .connected, .accept 11 8 .connected, .process ⟨10, .cRoomCreate [97]⟩,
      .process ⟨10, .cRoomCreate [98]⟩, .process ⟨10, .cRoomEnter 1⟩,
      .process ⟨11, .cRoomEnter 2⟩] (by decide)
  obtain ⟨⟨v, u⟩, hderef, hp⟩ := (Option.any_eq_true ..).mp hp
  obtain ⟨⟨w, x⟩, hderef', hp⟩ := (Option.any_eq_true ..).mp hp
  obtain ⟨hv, hu⟩ := deref_ok_iff.mp (toOption_eq_some_iff.mp hderef)
  obtain ⟨hw, hx⟩ := deref_ok_iff.mp (toOption_eq_some_iff.mp hderef')
  obtain ⟨hroom, hid, hroom', hid', hget, hget', husers, husers'⟩ := of_decide_eq_true hp
  cases hv
  cases hw
  have sender : s.Sender 10 1 10 u := ⟨sessionId_ok_iff.mpr ⟨u, hu, hid⟩, hget, hu⟩
  have sender' : s.Sender 11 2 11 x := ⟨sessionId_ok_iff.mpr ⟨x, hx, hid'⟩, hget', hx⟩
  refine ⟨s, hs, process_comm (.multicast sender hroom [104]) (.roomExit sender' hroom')
    (by decide) fun y hy hy' => ?_⟩
  simp only [StdSet.mem_def, husers, husers', List.mem_singleton, or_self] at hy hy'
  exact absurd (hy.symm.trans hy') (by decide)

end Server

end ChattingServer.V11
