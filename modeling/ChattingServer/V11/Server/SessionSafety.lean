import ChattingServer.V11.Server.Membership
import ChattingServer.V11.Server.NullSafety
import ChattingServer.V11.Server.Threads

namespace ChattingServer.V11

open Lib

namespace Server

structure Accounted (s : Server) : Prop where
  unused : ∀ {v}, s.user v = .unused → v ∉ s.deleted
  live : ∀ {v u}, s.user v = .live u → s.Registered v ∧ v ∉ s.deleted
  freed : ∀ {v}, s.user v = .freed → s.deleted.count v = 1

def MembersRegistered (s : Server) : Prop := ∀ {r v}, v ∈ (s.room r).users → s.Registered v

theorem status_setUser {s : Server} {v : UserPtr} {u u' : User} (hu : s.user v = .live u)
    (w : UserPtr) : ((s.setUser v (.live u')).user w).status = (s.user w).status := by
  by_cases hw : w = v
  · subst hw
    rw [user_setUser_self, hu]
    rfl
  · rw [user_setUser_of_ne s hw]

structure Stays (s : Server) (session : UserPtr) (s' : Server) : Prop where
  userList : s'.userList = s.userList
  userId : s'.userId = s.userId
  deleted : s'.deleted = s.deleted
  user : ∀ {w}, w ≠ session → s'.user w = s.user w
  status : ∀ w, (s'.user w).status = (s.user w).status
  userInLobby : ∀ {w}, w ∈ s'.userInLobby → w ∈ s.userInLobby ∨ w = session
  member : ∀ {r w}, w ∈ (s'.room r).users → w ∈ (s.room r).users ∨ w = session

theorem Stays.push (s : Server) (session : UserPtr) (ps : List SendPackage) :
    s.Stays session (s.pushPackages ps) :=
  ⟨rfl, rfl, rfl, fun _ => rfl, fun _ => rfl, .inl, .inl⟩

theorem Processed.stays {s s' : Server} {session : UserPtr} {packet : Packet}
    (hp : s.Processed session packet s') (hexit : packet ≠ .cServerExit) (hreg : Registry s)
    (hs : s.Registered session) : s.Stays session s' := by
  cases hp with
  | serverEnter sender nickname =>
    obtain rfl := hreg.sender_eq sender hs
    exact ⟨rfl, rfl, rfl, fun hw => user_setUser_of_ne s hw _, status_setUser sender.live,
      .inl, .inl⟩
  | serverExit => exact absurd rfl hexit
  | lobbyRoomInfo => exact .push s session _
  | roomCreate hid roomName =>
    refine ⟨rfl, rfl, rfl, fun _ => rfl, fun _ => rfl, .inl, fun {r w} hw => ?_⟩
    by_cases hr : r = s.nextRoom
    · subst hr
      simp [createRoom, sendRoomListToOne, pushPackages, newRoom] at hw
    · simp only [createRoom, sendRoomListToOne, pushPackages, newRoom,
        Function.update_of_ne hr] at hw
      exact .inl hw
  | roomEnter sender room =>
    obtain rfl := hreg.sender_eq sender hs
    refine ⟨rfl, rfl, rfl, fun hw => user_setUser_of_ne s hw _, status_setUser sender.live, .inl,
      fun hw => ?_⟩
    rcases mem_entered.mp hw with ⟨-, hw⟩ | hw
    · exact .inr hw
    · exact .inl hw
  | roomExit sender room =>
    obtain rfl := hreg.sender_eq sender hs
    exact ⟨rfl, rfl, rfl, fun hw => user_setUser_of_ne (s.pushPackages _) hw _,
      status_setUser (s := s.pushPackages _) sender.live,
      fun hw => (StdSet.mem_insert.mp hw).symm, fun hw => .inl (mem_left.mp hw).2⟩
  | unicast sender found_eq text => exact .push s session _
  | multicast sender room text => exact .push s session _
  | broadcast sender text =>
    rw [broadCast_eq]
    exact .push s session _
  | unhandled _ => exact ⟨rfl, rfl, rfl, fun _ => rfl, fun _ => rfl, .inl, .inl⟩

structure Kept (s : Server) (session : UserPtr) (s' : Server) : Prop where
  userList : s'.userList = s.userList
  deleted : s'.deleted = s.deleted
  status : ∀ w, (s'.user w).status = (s.user w).status
  member : ∀ {r w}, w ∈ (s'.room r).users → w ∈ (s.room r).users ∨ w = session
  packages : ∃ ps, s'.packages = s.packages ++ ps ∧
    ∀ pkg ∈ ps, ∀ w, pkg.session = some w → s.Registered w

theorem Kept.close (s : Server) (session : UserPtr) (closed : List Socket) :
    s.Kept session { s with closed } :=
  ⟨rfl, rfl, fun _ => rfl, .inl, [], (List.append_nil _).symm, nofun⟩

theorem casts_registered {s : Server} {users : List UserPtr} {p : Packet}
    (h : ∀ w ∈ users, s.Registered w) :
    ∀ pkg ∈ casts users p, ∀ w, pkg.session = some w → s.Registered w := by
  simp only [casts, List.mem_map]
  rintro _ ⟨v, hv, rfl⟩ w hw
  exact Option.some.inj hw ▸ h v hv

theorem findByNickname_mem {s : Server} {name : Str} {users : List UserPtr} {w : UserPtr}
    (h : s.findByNickname name users = .ok (some w)) : w ∈ users := by
  induction users with
  | nil => cases h
  | cons v users ih =>
    simp only [findByNickname, bind_eq_ok_iff, Prod.exists] at h
    obtain ⟨_, u, hv, h⟩ := h
    obtain ⟨⟨⟩, -⟩ := deref_ok_iff.mp hv
    split at h
    · cases h
      exact List.mem_cons_self
    · exact List.mem_cons_of_mem _ (ih h)

theorem Processed.kept {s s' : Server} {session : UserPtr} {packet : Packet}
    (hp : s.Processed session packet s') (hexit : packet ≠ .cServerExit) (hreg : Registry s)
    (hmem : s.MembersRegistered) (hs : s.Registered session) : s.Kept session s' := by
  have one : ∀ {p : Packet}, ∀ pkg ∈ [(⟨some session, p⟩ : SendPackage)],
      ∀ w, pkg.session = some w → s.Registered w := by
    simp only [List.mem_singleton]
    rintro p _ rfl w hw
    exact Option.some.inj hw ▸ hs
  have hstays := hp.stays hexit hreg hs
  refine ⟨hstays.userList, hstays.deleted, hstays.status, hstays.member, ?_⟩
  cases hp with
  | serverEnter sender nickname =>
    refine ⟨_, List.append_assoc .., fun pkg hp => ?_⟩
    rcases List.mem_append.mp hp with hp | hp
    · exact one pkg hp
    · exact one pkg hp
  | serverExit => exact absurd rfl hexit
  | lobbyRoomInfo => exact ⟨_, rfl, one⟩
  | @roomCreate id hid roomName =>
    refine ⟨_, rfl, List.forall_mem_singleton.mpr fun w hw => ?_⟩
    exact ⟨id, hw⟩
  | @roomEnter id v u rid r sender room =>
    obtain rfl := hreg.sender_eq sender hs
    refine ⟨_, rfl, fun pkg hp => ?_⟩
    rcases List.mem_append.mp hp with hp | hp
    · refine casts_registered (fun w hw => ?_) pkg hp
      rw [room_setRoom_self] at hw
      rcases StdSet.mem_insert.mp hw with rfl | hw
      · exact hs
      · exact hmem hw
    · exact one pkg hp
  | roomExit => exact ⟨_, rfl, casts_registered fun w hw => hmem hw⟩
  | @unicast id v u sender recver found found_eq text =>
    have hv : s.Registered v := ⟨id, sender.registered⟩
    refine ⟨_, rfl, ?_⟩
    cases found with
    | none =>
      simp only [unicastPackages, List.mem_singleton]
      rintro _ rfl w hw
      exact Option.some.inj hw ▸ hv
    | some x =>
      have hx : s.Registered x := StdMap.mem_values_iff.mp (findByNickname_mem found_eq)
      simp only [unicastPackages, List.mem_cons, List.not_mem_nil, or_false]
      rintro _ (rfl | rfl) w hw
      · exact Option.some.inj hw ▸ hv
      · exact Option.some.inj hw ▸ hx
  | multicast => exact ⟨_, rfl, casts_registered fun w hw => hmem hw⟩
  | broadcast =>
    rw [broadCast_eq]
    refine ⟨_, rfl, fun pkg hp => ?_⟩
    obtain ⟨r, -, hp⟩ := List.mem_flatMap.mp hp
    exact casts_registered (fun w hw => hmem hw) pkg hp
  | unhandled => exact ⟨[], (List.append_nil _).symm, List.forall_mem_nil _⟩

theorem Kept.registered {s s' : Server} {session : UserPtr} (h : s.Kept session s') {w : UserPtr} :
    s'.Registered w ↔ s.Registered w := by
  rw [Registered, h.userList, Registered]

theorem Kept.accounted {s s' : Server} {session : UserPtr} (h : s.Kept session s')
    (ha : Accounted s) : Accounted s' where
  unused {v} hv := by
    have hst := h.status v
    rw [hv] at hst
    rw [h.deleted]
    cases hc : s.user v with
    | unused => exact ha.unused hc
    | live _ | freed => simp [hc, Cell.status] at hst
  live {v u} hv := by
    have hst := h.status v
    rw [hv] at hst
    rw [h.deleted, h.registered]
    cases hc : s.user v with
    | live _ => exact ha.live hc
    | unused | freed => simp [hc, Cell.status] at hst
  freed {v} hv := by
    have hst := h.status v
    rw [hv] at hst
    rw [h.deleted]
    cases hc : s.user v with
    | freed => exact ha.freed hc
    | live _ | unused => simp [hc, Cell.status] at hst

theorem Kept.membersRegistered {s s' : Server} {session : UserPtr} (h : s.Kept session s')
    (hmem : s.MembersRegistered) (hs : s.Registered session) : s'.MembersRegistered := by
  intro r w hw
  rw [h.registered]
  rcases h.member hw with hw | rfl
  · exact hmem hw
  · exact hs

/-! What a removal does to the same data. -/

theorem deleted_removed (s : Server) (v : UserPtr) (u : User) :
    (s.removed v u).deleted = s.deleted ++ [v] := by
  unfold removed
  split <;> rfl

theorem mem_removed {s : Server} {v w : UserPtr} {u : User} {r : RoomPtr}
    (h : w ∈ ((s.removed v u).room r).users) :
    w ∈ (s.room r).users ∧ ¬ (u.currRoom = some r ∧ w = v) := by
  unfold removed at h
  split at h
  · rename_i hout
    exact ⟨h, by simp [hout]⟩
  · rename_i t ht
    obtain ⟨hne, hmem⟩ := mem_left.mp h
    refine ⟨hmem, ?_⟩
    rintro ⟨hr, rfl⟩
    rw [ht] at hr
    exact hne ⟨(Option.some.inj hr).symm, rfl⟩

theorem packages_removed {s : Server} {v : UserPtr} {u : User} (hu : s.user v = .live u) :
    ∃ ps, (s.removed v u).packages = s.packages ++ ps ∧
      ∀ pkg ∈ ps, ∀ w, pkg.session = some w → w ≠ v ∧ ∃ r, w ∈ (s.room r).users := by
  unfold removed
  split
  · exact ⟨[], (List.append_nil _).symm, nofun⟩
  · rename_i r hr
    refine ⟨_, rfl, ?_⟩
    simp only [casts, List.mem_map, exitCasts, List.mem_filter]
    rintro _ ⟨x, ⟨hx, hid⟩, rfl⟩ w hw
    obtain rfl : x = w := Option.some.inj hw
    refine ⟨?_, r, hx⟩
    rintro rfl
    simp [hasId, hu] at hid

theorem Accounted.removed {s : Server} (ha : Accounted s) (h : Registry s) {v : UserPtr} {u : User}
    (hu : s.user v = .live u) (hv : s.userList.find u.userId = some v) :
    Accounted (s.removed v u) where
  unused {w} hw := by
    rw [user_removed] at hw
    split at hw
    · contradiction
    · rename_i hne
      simp [deleted_removed, ha.unused hw, hne]
  live {w x} hw := by
    rw [user_removed] at hw
    split at hw
    · contradiction
    · rename_i hne
      simp [registered_removed h hu hv, deleted_removed, ha.live hw, hne]
  freed {w} hw := by
    rw [user_removed] at hw
    rw [deleted_removed, List.count_append]
    split at hw
    · rename_i heq
      simp [heq, List.count_eq_zero.mpr (ha.live hu).2]
    · rename_i hne
      simp [ha.freed hw, Ne.symm hne]

theorem Accounted.accept {s s' : Server} (ha : Accounted s) {addr : UserPtr} {socket : Socket}
    {outcome : ConnectOutcome} (haddr : s.user addr = .unused)
    (hfree : s.userList.find s.userId = none) (hacc : Accepted s addr socket outcome s') :
    Accounted s' := by
  have hnot : addr ∉ s.deleted := ha.unused haddr
  cases hacc with
  | connected =>
    refine ⟨fun {w} hw => ?_, fun {w x} hw => ?_, fun {w} hw => ?_⟩
    · by_cases hne : w = addr
      · subst hne
        simp [pushIntoLobby] at hw
      · exact ha.unused ((user_setUser_of_ne s hne _).symm.trans hw)
    · by_cases hne : w = addr
      · subst hne
        exact ⟨(StdMap.exists_find_insert_iff hfree).mpr (.inl rfl), hnot⟩
      · obtain ⟨hreg, hd⟩ := ha.live ((user_setUser_of_ne s hne _).symm.trans hw)
        exact ⟨(StdMap.exists_find_insert_iff hfree).mpr (.inr hreg), hd⟩
    · by_cases hne : w = addr
      · subst hne
        simp [pushIntoLobby] at hw
      · exact ha.freed ((user_setUser_of_ne s hne _).symm.trans hw)
  | failed _ closed =>
    refine ⟨fun {w} hw => ?_, fun {w x} hw => ?_, fun {w} hw => ?_⟩
    · by_cases hne : w = addr
      · subst hne
        simp at hw
      · simpa [hne] using ha.unused ((user_setUser_of_ne s hne _).symm.trans hw)
    · by_cases hne : w = addr
      · subst hne
        simp at hw
      · obtain ⟨hreg, hd⟩ := ha.live ((user_setUser_of_ne s hne _).symm.trans hw)
        exact ⟨hreg, by simpa [hne] using hd⟩
    · by_cases hne : w = addr
      · subst hne
        simp [List.count_eq_zero.mpr hnot]
      · simpa [Ne.symm hne, List.count_append] using
          ha.freed ((user_setUser_of_ne s hne _).symm.trans hw)

theorem findByNickname_ok {s : Server} {users : List UserPtr}
    (h : ∀ v ∈ users, ∃ u, s.user v = .live u) (name : Str) :
    ∃ found, s.findByNickname name users = .ok found := by
  induction users with
  | nil => exact ⟨none, rfl⟩
  | cons v users ih =>
    obtain ⟨u, hu⟩ := h v List.mem_cons_self
    obtain ⟨found, hfound⟩ := ih fun w hw => h w (List.mem_cons_of_mem _ hw)
    have hderef : s.deref (some v) = .ok (v, u) := deref_ok_iff.mpr ⟨rfl, hu⟩
    by_cases hname : name = u.nickname
    · exact ⟨some v, by simp [findByNickname, hderef, hname]⟩
    · exact ⟨found, by simp [findByNickname, hderef, hname, hfound]⟩

theorem removeUser_ok {s : Server} (h : Registry s) (hmem : s.MembersRegistered) {v : UserPtr}
    (hv : s.Registered v) :
    ∃ u, s.user v = .live u ∧ s.userList.find u.userId = some v ∧
      s.removeUser (some v) = .ok (s.removed v u) := by
  obtain ⟨u, hu, hid, -⟩ := h.live hv
  refine ⟨u, hu, hid, removeUser_ok_iff.mpr ⟨v, u, rfl, hu, fun r _ w hw => ?_, rfl⟩⟩
  obtain ⟨x, hx, -⟩ := h.live (hmem hw)
  exact ⟨x, hx⟩

theorem Registry.sessionUser {s : Server} (h : Registry s) {session : UserPtr}
    (hs : s.Registered session) : s.sessionUser session = .ok (some session) := by
  obtain ⟨u, sender⟩ := h.sender hs
  simp [Server.sessionUser, sender.session, sender.registered]

theorem fails_process {s : Server} (h : Registry s) (hmem : s.MembersRegistered)
    {session : UserPtr} (hs : s.Registered session) (packet : Packet) :
    Fails (· = .nullRoom) (s.process ⟨session, packet⟩) := by
  obtain ⟨u, sender⟩ := h.sender hs
  have hid := sender.session
  have hu := sender.live
  have huser := h.sessionUser hs
  have hderef : s.deref (some session) = .ok (session, u) := deref_ok_iff.mpr ⟨rfl, hu⟩
  have hexit : ∀ r, ∃ t, s.exitRoom r session false = .ok t := fun r =>
    ⟨_, exitRoom_ok_iff.mpr ⟨u, hu, by rintro ⟨⟩, rfl⟩⟩
  cases packet with
  | cServerEnter nickname =>
    have hid' := (sessionId_setUser hu { u with nickname } rfl session).trans hid
    simp [process, cServerEnter, huser, hderef, hid', fails_ok]
  | cServerExit =>
    obtain ⟨x, -, -, hok⟩ := removeUser_ok h hmem hs
    simp [process, cServerExit, huser, hok, fails_ok]
  | cLobbyRoomInfo => simp [process, cLobbyRoomInfo, fails_ok]
  | cRoomCreate roomName => simp [process, cRoomCreate, hid, fails_ok]
  | cRoomEnter rid =>
    cases hroom : s.getRoom rid with
    | none => simp [process, cRoomEnter, huser, hroom, throw, throwThe, MonadExceptOf.throw]
    | some r => simp [process, cRoomEnter, huser, hroom, enterRoom, hderef, fails_ok]
  | cRoomExit =>
    cases hroom : u.currRoom with
    | none =>
      simp [process, cRoomExit, huser, hderef, hroom, throw, throwThe, MonadExceptOf.throw]
    | some r =>
      obtain ⟨t, ht⟩ := hexit r
      simp [process, cRoomExit, huser, hderef, hroom, ht, fails_ok]
  | cUnicast recver text =>
    have hlive : ∀ v ∈ s.userList.values, ∃ u, s.user v = .live u := fun v hv =>
      (h.live (StdMap.mem_values_iff.mp hv)).imp fun _ hx => hx.1
    obtain ⟨found, hfound⟩ := findByNickname_ok hlive recver
    cases found <;> simp [process, cUnicast, huser, hfound, hderef, fails_ok]
  | cMulticast text =>
    cases hroom : u.currRoom with
    | none =>
      simp [process, cMulticast, huser, hderef, hroom, throw, throwThe, MonadExceptOf.throw]
    | some r => simp [process, cMulticast, huser, hderef, hroom, fails_ok]
  | cBroadcast text => simp [process, cBroadcast, huser, hderef, fails_ok]
  | _ => simp [process, fails_ok]

end Server

namespace ChatServer

/-- A user is deleted only when nothing else holds it, and gets an id that is not in use. -/
def deletesUnreferenced (s : ChatServer) (a : Action) : Bool :=
  match a with
  | .accept _ _ _ => s.server.userList.find s.server.userId = none
  | a =>
    match s.deletion a with
    | none => true
    | some (t, v) => !decide (t.Holds v) && !strayMember t.server v

structure Sound (s : ChatServer) : Prop where
  registry : s.server.Registry
  members : s.server.MembersRegistered
  holds : ∀ {v}, s.Holds v → s.server.Registered v
  accounted : s.server.Accounted

theorem sound_init : Sound init where
  registry := Server.registry_init
  members h := by simp [init, Server.init] at h
  holds h := by simp [init, Server.init, Holds] at h
  accounted := ⟨nofun, nofun, nofun⟩

theorem not_mem_of_strayMember {s : Server} (h : s.Registry) {v : UserPtr} {u : User}
    (hu : s.user v = .live u) (hstray : strayMember s v = false) {r : RoomPtr}
    (hv : v ∈ (s.room r).users) : u.currRoom = some r := by
  have hr := (h.member hv).1
  simp only [strayMember, List.any_eq_false, List.mem_range, decide_eq_true_eq, not_and,
    not_not] at hstray
  exact (Server.currRoom_of_live hu).symm.trans (hstray r hr hv)

theorem Sound.requeue {s t : ChatServer} (h : Sound s) (hserver : t.server = s.server)
    (hjobs : ∀ job ∈ t.jobQueue, job ∈ s.jobQueue ∨ s.server.Registered job.session)
    (hpending : ∀ c ∈ t.pending, c ∈ s.pending ∨ s.server.Registered c.session) : Sound t where
  registry := hserver ▸ h.registry
  members := hserver ▸ h.members
  holds {v} hv := by
    rw [hserver]
    rcases hv with ⟨job, hj, rfl⟩ | ⟨pkg, hp, hpv⟩ | ⟨c, hc, rfl⟩
    · exact (hjobs job hj).elim (fun hj => h.holds (.inl ⟨job, hj, rfl⟩)) id
    · exact h.holds (.inr (.inl ⟨pkg, hserver ▸ hp, hpv⟩))
    · exact (hpending c hc).elim (fun hc => h.holds (.inr (.inr ⟨c, hc, rfl⟩))) id
  accounted := hserver ▸ h.accounted

theorem Sound.popPackage {s : ChatServer} (h : Sound s) {package : SendPackage}
    {packages : List SendPackage} (hp : s.server.packages = package :: packages) :
    Sound { s with server := { s.server with packages } } where
  registry := h.registry.queue packages s.server.closed
  members := h.members
  holds {v} hv := by
    rcases hv with hv | ⟨pkg, hpkg, hpv⟩ | hv
    · exact h.holds (.inl hv)
    · exact h.holds (.inr (.inl ⟨pkg, hp ▸ List.mem_cons_of_mem _ hpkg, hpv⟩))
    · exact h.holds (.inr (.inr hv))
  accounted := ⟨h.accounted.unused, h.accounted.live, h.accounted.freed⟩

theorem Sound.removed {s : ChatServer} (h : Sound s) {v : UserPtr} {u : User}
    (hu : s.server.user v = .live u) (hv : s.server.userList.find u.userId = some v)
    (hout : ¬ s.Holds v) (hstray : strayMember s.server v = false) :
    Sound { s with server := s.server.removed v u } where
  registry := h.registry.removed hu hv
  members {r w} hw := by
    obtain ⟨hmem, hne⟩ := Server.mem_removed hw
    refine (Server.registered_removed h.registry hu hv).mpr ⟨h.members hmem, ?_⟩
    rintro rfl
    exact hne ⟨not_mem_of_strayMember h.registry hu hstray hmem, rfl⟩
  holds {w} hw := by
    rw [Server.registered_removed h.registry hu hv]
    have old : s.Holds w → s.server.Registered w ∧ w ≠ v := fun hold =>
      ⟨h.holds hold, fun heq => hout (heq ▸ hold)⟩
    rcases hw with hw | ⟨pkg, hp, hpw⟩ | hw
    · exact old (.inl hw)
    · obtain ⟨ps, hps, hnew⟩ := Server.packages_removed hu
      rw [hps] at hp
      rcases List.mem_append.mp hp with hp | hp
      · exact old (.inr (.inl ⟨pkg, hp, hpw⟩))
      · obtain ⟨hne, r, hmem⟩ := hnew pkg hp w hpw
        exact ⟨h.members hmem, hne⟩
    · exact old (.inr (.inr hw))
  accounted := h.accounted.removed h.registry hu hv

theorem Sound.kept {s : ChatServer} (h : Sound s) {session : UserPtr} {server : Server}
    (hs : s.server.Registered session) (hk : s.server.Kept session server)
    (hreg : server.Registry) : Sound { s with server } where
  registry := hreg
  members := hk.membersRegistered h.members hs
  holds {w} hw := by
    rw [hk.registered]
    rcases hw with hw | ⟨pkg, hp, hpw⟩ | hw
    · exact h.holds (.inl hw)
    · obtain ⟨ps, hps, hnew⟩ := hk.packages
      rw [hps] at hp
      rcases List.mem_append.mp hp with hp | hp
      · exact h.holds (.inr (.inl ⟨pkg, hp, hpw⟩))
      · exact hnew pkg hp w hpw
    · exact h.holds (.inr (.inr hw))
  accounted := hk.accounted h.accounted

theorem Sound.accept {s s' : ChatServer} (h : Sound s) {addr : UserPtr} {socket : Socket}
    {outcome : Server.ConnectOutcome} (hfree : s.server.userList.find s.server.userId = none)
    (hs : s.accept addr socket outcome = .ok s') : Sound s' := by
  simp only [ChatServer.accept, bind_eq_ok_iff, pure_eq_ok, Except.ok.injEq] at hs
  obtain ⟨server, hserver, rfl⟩ := hs
  obtain ⟨haddr, hacc⟩ := Server.accepted_of_ok hserver
  have hold : ∀ {w}, s.server.Registered w → server.Registered w := by
    rintro w ⟨id, hid⟩
    cases hacc with
    | connected => exact ⟨id, StdMap.find_insert_of_some hid ..⟩
    | failed _ _ => exact ⟨id, hid⟩
  refine ⟨h.registry.accept haddr hacc, fun {r w} hw => hold ?_, fun {w} hw => ?_,
    h.accounted.accept haddr hfree hacc⟩
  · apply h.members (r := r)
    cases hacc with
    | connected => exact hw
    | failed _ _ => exact hw
  · have hpkgs := hacc.packages
    rcases hw with hw | ⟨pkg, hp, hpw⟩ | ⟨c, hc, hcw⟩
    · exact hold (h.holds (.inl hw))
    · exact hold (h.holds (.inr (.inl ⟨pkg, hpkgs ▸ hp, hpw⟩)))
    · split at hc
      · rename_i hconn
        rcases List.mem_append.mp hc with hc | hc
        · exact hold (h.holds (.inr (.inr ⟨c, hc, hcw⟩)))
        · rw [List.mem_singleton.mp hc] at hcw
          subst hconn hcw
          cases hacc with
          | connected => exact (StdMap.exists_find_insert_iff hfree).mpr (.inl rfl)
          | failed hne _ => exact absurd rfl hne
      · exact hold (h.holds (.inr (.inr ⟨c, hc, hcw⟩)))

theorem Sound.removeUser {s : ChatServer} (h : Sound s) {session : UserPtr} {server : Server}
    (hs : s.server.Registered session)
    (hok : s.server.removeUser (some session) = .ok server)
    (hout : ¬ s.Holds session) (hstray : strayMember s.server session = false) :
    Sound { s with server } := by
  obtain ⟨u, hu, hid, hok'⟩ := Server.removeUser_ok h.registry h.members hs
  rw [hok'] at hok
  cases hok
  exact h.removed hu hid hout hstray

theorem Sound.removeSession {s s' : ChatServer} (h : Sound s) {session : UserPtr}
    (hs : s.server.Registered session) (hok : s.removeSession session = .ok s')
    (hout : ¬ s.Holds session) (hstray : strayMember s.server session = false) : Sound s' := by
  obtain ⟨u, sender⟩ := h.registry.sender hs
  simp only [ChatServer.removeSession, sender.session, ok_bind, bind_eq_ok_iff, pure_eq_ok,
    Except.ok.injEq] at hok
  obtain ⟨server, hserver, rfl⟩ := hok
  have hfind : s.server.userList.find u.userId = some session := sender.registered
  rw [Server.removeUserById, hfind] at hserver
  exact h.removeUser hs hserver hout hstray

theorem deletion_worker {s : ChatServer} (h : Sound s) {i : Nat} {c : Completion}
    (hc : s.pending[i]? = some c) (hs : s.server.Registered c.session) {result : IoResult}
    (hres : result = .failed ∨ result = .zeroBytes) :
    s.deletion (.worker i result) =
      some ({ s with pending := s.pending.eraseIdx i }, c.session) := by
  rcases hres with rfl | rfl <;> simp [deletion, hc, h.registry.sessionUser hs]

theorem deletion_exit {s : ChatServer} (h : Sound s) {session : UserPtr} {jobs : List RecvPackage}
    (hj : s.jobQueue = ⟨session, .cServerExit⟩ :: jobs) (hs : s.server.Registered session) :
    s.deletion .logic = some ({ s with jobQueue := jobs }, session) := by
  simp [deletion, hj, h.registry.sessionUser hs]

theorem guard_deletion {s t : ChatServer} {a : Action} {v : UserPtr}
    (hg : s.deletesUnreferenced a = true) (hd : s.deletion a = some (t, v)) :
    ¬ t.Holds v ∧ strayMember t.server v = false := by
  cases a with
  | accept => simp [deletion] at hd
  | worker | logic | send => simpa [deletesUnreferenced, hd] using hg

theorem Sound.worker {s s' : ChatServer} (h : Sound s) {i : Nat} {result : IoResult}
    (hg : s.deletesUnreferenced (.worker i result) = true)
    (hs : s.worker i result = .ok s') : Sound s' := by
  unfold ChatServer.worker at hs
  cases hc : s.pending[i]? with
  | none => simp [hc] at hs
  | some c =>
    simp only [hc] at hs
    have hreg : s.server.Registered c.session :=
      h.holds (.inr (.inr ⟨c, List.mem_of_getElem? hc, rfl⟩))
    have htake : Sound { s with pending := s.pending.eraseIdx i } :=
      h.requeue rfl (fun _ hj => .inl hj) fun _ hc => .inl (List.mem_of_mem_eraseIdx hc)
    obtain ⟨session, io⟩ := c
    cases result with
    | failed =>
      obtain ⟨hout, hstray⟩ := guard_deletion hg (deletion_worker h hc hreg (.inl rfl))
      exact htake.removeSession hreg (by simpa [workerThread] using hs) hout hstray
    | zeroBytes =>
      obtain ⟨hout, hstray⟩ := guard_deletion hg (deletion_worker h hc hreg (.inr rfl))
      exact htake.removeSession hreg (by simpa [workerThread] using hs) hout hstray
    | sent =>
      cases io with
      | recv => nomatch hs
      | send =>
        simp only [workerThread, bind_eq_ok_iff, pure_eq_ok, Except.ok.injEq] at hs
        obtain ⟨_, -, rfl⟩ := hs
        exact htake
    | received packet bound =>
      cases io with
      | send => nomatch hs
      | recv =>
        simp only [workerThread, bind_eq_ok_iff, Prod.exists, pure_eq_ok, Except.ok.injEq] at hs
        obtain ⟨_, u, -, rfl⟩ := hs
        have hqueued : Sound { s with
            jobQueue := s.jobQueue ++ [⟨session, packet⟩]
            pending := if bound then s.pending.eraseIdx i ++ [⟨session, .recv⟩]
              else s.pending.eraseIdx i } := by
          refine htake.requeue rfl (fun job hj => ?_) fun c hc => ?_
          · rcases List.mem_append.mp hj with hj | hj
            · exact .inl hj
            · exact .inr (List.mem_singleton.mp hj ▸ hreg)
          · split at hc
            · rcases List.mem_append.mp hc with hc | hc
              · exact .inl hc
              · exact .inr (List.mem_singleton.mp hc ▸ hreg)
            · exact .inl hc
        cases bound with
        | true => exact hqueued
        | false =>
          exact hqueued.kept hreg (.close s.server session _)
            (h.registry.queue s.server.packages _)

theorem Sound.logic {s s' : ChatServer} (h : Sound s)
    (hg : s.deletesUnreferenced .logic = true) (hs : s.runProcess = .ok s') : Sound s' := by
  unfold ChatServer.runProcess at hs
  cases hj : s.jobQueue with
  | nil => simp [hj] at hs
  | cons job jobs =>
    obtain ⟨session, packet⟩ := job
    simp only [hj, bind_eq_ok_iff, pure_eq_ok, Except.ok.injEq] at hs
    obtain ⟨server, hserver, rfl⟩ := hs
    have hreg : s.server.Registered session := h.holds (.inl ⟨⟨session, packet⟩, by simp [hj], rfl⟩)
    have htake : Sound { s with jobQueue := jobs } :=
      h.requeue rfl (fun _ hj' => .inl (hj ▸ List.mem_cons_of_mem _ hj')) fun _ hc => .inl hc
    have hp := Server.processed_of_ok hserver
    by_cases hexit : packet = .cServerExit
    · subst hexit
      obtain ⟨hout, hstray⟩ := guard_deletion hg (deletion_exit h hj hreg)
      simp only [Server.process, Server.cServerExit, h.registry.sessionUser hreg,
        ok_bind] at hserver
      exact htake.removeUser hreg hserver hout hstray
    · exact htake.kept hreg (hp.kept hexit h.registry h.members hreg) (h.registry.processed hp)

theorem Sound.send {s s' : ChatServer} (h : Sound s) {outcome : SendOutcome}
    (hs : s.sendRun outcome = .ok s') : Sound s' := by
  unfold ChatServer.sendRun at hs
  cases hp : s.server.packages with
  | nil => simp [hp] at hs
  | cons package packages =>
    simp only [hp] at hs
    have htake : Sound { s with server := { s.server with packages } } :=
      h.popPackage hp
    split at hs
    · cases hs
      exact htake
    · rename_i session hsession
      have hreg : s.server.Registered session :=
        h.holds (.inr (.inl ⟨package, by simp [hp], hsession⟩))
      simp only [bind_eq_ok_iff, Prod.exists] at hs
      obtain ⟨_, _, -, hs⟩ := hs
      split at hs
      · cases hs
        refine htake.requeue rfl (fun _ hj => .inl hj) fun c hc => ?_
        rcases List.mem_append.mp hc with hc | hc
        · exact .inl hc
        · exact .inr (List.mem_singleton.mp hc ▸ hreg)
      · cases hs
        exact htake

theorem Sound.step {s s' : ChatServer} (h : Sound s) {a : Action}
    (hg : s.deletesUnreferenced a = true) (hs : s.step a = .ok s') : Sound s' := by
  cases a with
  | accept addr socket outcome => exact h.accept (by simpa [deletesUnreferenced] using hg) hs
  | worker i result => exact h.worker hg hs
  | logic => exact h.logic hg hs
  | send outcome => exact h.send hs

theorem sound_of_reach {s : ChatServer}
    (h : system.Reach (fun s a => s.deletesUnreferenced a = true) s) : Sound s :=
  h.invariant sound_init fun _ _ _ _ hr hg hs => hr.step hg hs

theorem fails_worker {s : ChatServer} (h : Sound s) (i : Nat) (result : IoResult) :
    Fails (· ≠ .freed) (s.worker i result) := by
  unfold ChatServer.worker
  cases hc : s.pending[i]? with
  | none => simp
  | some c =>
    obtain ⟨session, io⟩ := c
    have hreg : s.server.Registered session :=
      h.holds (.inr (.inr ⟨_, List.mem_of_getElem? hc, rfl⟩))
    obtain ⟨u, sender⟩ := h.registry.sender hreg
    have hfind : s.server.userList.find u.userId = some session := sender.registered
    have hderef : s.server.deref (some session) = .ok (session, u) :=
      Server.deref_ok_iff.mpr ⟨rfl, sender.live⟩
    obtain ⟨x, -, -, hok⟩ := Server.removeUser_ok h.registry h.members hreg
    have hremove : ∀ pending, Fails (· ≠ Fault.freed)
        (({ s with pending } : ChatServer).removeSession session) := fun pending => by
      simp [removeSession, sender.session, Server.removeUserById, hfind, hok, fails_ok]
    cases result with
    | failed => exact hremove _
    | zeroBytes => exact hremove _
    | sent => cases io <;> simp [workerThread, sender.session, fails_ok]
    | received packet bound => cases io <;> simp [workerThread, hderef, fails_ok]

theorem fails_step {s : ChatServer} (h : Sound s) (a : Action) :
    Fails (· ≠ .freed) (s.step a) := by
  cases a with
  | accept addr socket outcome =>
    refine (Fails.bind ?_ fun _ _ => fails_ok ..)
    unfold Server.accept Server.createUser Server.newUser
    cases s.server.user addr with
    | unused => cases outcome <;> exact fails_ok ..
    | live _ | freed => exact fails_error.mpr nofun
  | worker i result => exact fails_worker h i result
  | logic =>
    unfold step runProcess
    cases hj : s.jobQueue with
    | nil => exact fails_error.mpr nofun
    | cons job jobs =>
      have hreg := h.holds (.inl ⟨job, by simp [hj], rfl⟩)
      have hok := Server.fails_process h.registry h.members hreg job.packet
      exact (hok.mono fun e he => he ▸ nofun).bind fun _ _ => fails_ok ..
  | send outcome =>
    unfold step sendRun
    cases hp : s.server.packages with
    | nil => exact fails_error.mpr nofun
    | cons package packages =>
      obtain ⟨session, packet⟩ := package
      cases session with
      | none => exact fails_ok ..
      | some session =>
        have hreg : s.server.Registered session :=
          h.holds (.inr (.inl ⟨⟨some session, packet⟩, by simp [hp], rfl⟩))
        obtain ⟨u, sender⟩ := h.registry.sender hreg
        have hderef : Server.deref { s.server with packages } (some session) = .ok (session, u) :=
          Server.deref_ok_iff.mpr ⟨rfl, sender.live⟩
        simp only [hderef, ok_bind]
        split <;> exact fails_ok ..

/-- No queue holds a session that is gone, no step reads one, and each user is deleted once. -/
structure SessionSafe (s : ChatServer) : Prop where
  held : ∀ v, s.Holds v → s.server.Registered v
  reads : ∀ a, s.step a ≠ .error .freed
  deleted : ∀ v, s.server.user v ≠ .unused →
    s.server.Registered v ∧ v ∉ s.server.deleted ∨
      ¬ s.server.Registered v ∧ s.server.deleted.count v = 1

theorem Sound.sessionSafe {s : ChatServer} (h : Sound s) : SessionSafe s where
  held _ := h.holds
  reads a ha := (fails_step h a).of_error ha rfl
  deleted v hv := by
    cases hc : s.server.user v with
    | unused => exact absurd hc hv
    | live u => exact .inl (h.accounted.live hc)
    | freed =>
      refine .inr ⟨fun hreg => ?_, h.accounted.freed hc⟩
      obtain ⟨u, hu, -⟩ := h.registry.live hreg
      rw [hc] at hu
      contradiction

theorem sessionSafe_of_deletesUnreferenced {s : ChatServer}
    (h : system.Reach (fun s a => s.deletesUnreferenced a = true) s) : SessionSafe s :=
  (sound_of_reach h).sessionSafe

theorem sessionSafe_disconnected :
    ∃ s, system.Reachable s ∧ s.server.deleted = [0] ∧ s.Holds 1 ∧ SessionSafe s := by
  obtain ⟨s, hs, hp⟩ := System.exists_of_runWith (S := system) (g := deletesUnreferenced)
    (fun _ _ h => h) (p := fun s => decide (s.server.deleted = [0] ∧ s.Holds 1))
    [.accept 0 7 .connected, .accept 1 8 .connected,
      .worker 0 (.received (.cServerEnter [97]) true), .logic, .send .sent, .send .sent,
      .worker 2 .sent, .worker 2 .sent, .worker 1 .zeroBytes] (by decide)
  simp only [decide_eq_true_eq] at hp
  exact ⟨s, hs.reachable, hp.1, hp.2, sessionSafe_of_deletesUnreferenced hs⟩

/-- `C_SERVER_EXIT` deletes the user while the next receive is already posted. -/
theorem not_sessionSafe : ¬ ∀ s, system.Reachable s → SessionSafe s := by
  intro h
  obtain ⟨s, hs, hp⟩ := System.exists_of_run (S := system)
    (p := fun s => decide (s.Holds 0 ∧ 0 ∉ s.server.userList.values))
    [.accept 0 7 .connected, .worker 0 (.received .cServerExit true), .logic] (by decide)
  simp only [decide_eq_true_eq] at hp
  exact hp.2 (StdMap.mem_values_iff.mpr ((h s hs).held 0 hp.1))

end ChatServer

end ChattingServer.V11
