import ChattingServer.V11.Chat.Events

namespace ChattingServer.V11

open Lib

def Packet.voiced (nickname : Str) : Packet → Option Packet
  | .cUnicast _ text => some (.sUnicastOk nickname text)
  | .cMulticast text => some (.sMulticast nickname text)
  | .cBroadcast text => some (.sBroadcast nickname text)
  | _ => none

def Packet.naming (nickname : Str) : Packet → Str
  | .cServerEnter name => name
  | _ => nickname

theorem Packet.naming_of_ne {p : Packet} (h : ∀ name, p ≠ .cServerEnter name) (nickname : Str) :
    p.naming nickname = nickname := by
  cases p <;> first | rfl | exact absurd rfl (h _)

def Packet.speaks : Packet → Bool
  | .sUnicastOk _ _ | .sMulticast _ _ | .sBroadcast _ _ => true
  | _ => false

namespace Server

def LiveRegistered (s : Server) : Prop := ∀ v u, s.user v = .live u → s.Registered v

structure Voices (s : Server) (session : UserPtr) (packet : Packet) (pkg : SendPackage) : Prop where
  speaker : pkg.packet.speaks = true →
    ∃ u, s.user session = .live u ∧ packet.voiced u.nickname = some pkg.packet
  audience : Event.isCast pkg.packet = false → ∀ w, pkg.session = some w → w ≠ session →
    ∃ r, w ∈ (s.room r).users

theorem voices_of_mute {s : Server} {session : UserPtr} {packet : Packet} {pkg : SendPackage}
    (hp : pkg.packet.speaks = false)
    (h : ∀ w, pkg.session = some w → w ≠ session → ∃ r, w ∈ (s.room r).users) :
    s.Voices session packet pkg :=
  ⟨fun hs => by simp [hp] at hs, fun _ => h⟩

theorem voices_of_own {s : Server} {session : UserPtr} {packet p : Packet}
    (hp : p.speaks = false) : s.Voices session packet ⟨some session, p⟩ :=
  voices_of_mute hp fun _ hw hne => absurd (Option.some.inj hw).symm hne

theorem voices_of_casts {s : Server} {session : UserPtr} {packet p : Packet} {users : List UserPtr}
    (hp : p.speaks = false) (h : ∀ w ∈ users, w ≠ session → ∃ r, w ∈ (s.room r).users) :
    ∀ pkg ∈ casts users p, s.Voices session packet pkg := fun pkg hpkg => by
  obtain ⟨v, hv, rfl⟩ := List.mem_map.mp hpkg
  exact voices_of_mute hp fun w hw => Option.some.inj hw ▸ h v hv

theorem voices_of_speaker {s : Server} {session : UserPtr} {packet : Packet} {pkg : SendPackage}
    {u : User} (hu : s.user session = .live u) (hp : packet.voiced u.nickname = some pkg.packet)
    (hcast : Event.isCast pkg.packet = true) : s.Voices session packet pkg :=
  ⟨fun _ => ⟨u, hu, hp⟩, fun hno => by simp [hcast] at hno⟩

theorem packages_removed_eq (s : Server) (v : UserPtr) (u : User) :
    ∃ recvers, (s.removed v u).packages = s.packages ++ casts recvers (.sRoomExit u.userId) ∧
      ∀ w ∈ recvers, ∃ r, w ∈ (s.room r).users := by
  unfold removed
  split
  · exact ⟨[], (List.append_nil _).symm, List.forall_mem_nil _⟩
  · rename_i r hr
    exact ⟨_, rfl, fun w hw => ⟨r, (List.mem_filter.mp hw).1⟩⟩

theorem LiveRegistered.own {s : Server} (hlive : s.LiveRegistered) (h : Registry s)
    {session v : UserPtr} {id : UInt32} {u : User} (sender : s.Sender session id v u) :
    v = session := by
  obtain ⟨x, hx, -⟩ := sessionId_ok_iff.mp sender.session
  exact h.sender_eq sender (hlive _ _ hx)

theorem Processed.voices {s s' : Server} (h : Registry s) (hlive : s.LiveRegistered)
    {session : UserPtr} {packet : Packet} (hp : s.Processed session packet s') :
    ∃ ps, s'.packages = s.packages ++ ps ∧ ∀ pkg ∈ ps, s.Voices session packet pkg := by
  cases hp with
  | serverEnter sender nickname =>
    exact ⟨_, List.append_assoc .., List.forall_mem_cons.mpr ⟨voices_of_own rfl,
      List.forall_mem_singleton.mpr (voices_of_own rfl)⟩⟩
  | @serverExit id v u sender members =>
    obtain ⟨recvers, hpackages, hrecvers⟩ := packages_removed_eq s v u
    exact ⟨_, hpackages, voices_of_casts rfl fun w hw _ => hrecvers w hw⟩
  | lobbyRoomInfo => exact ⟨_, rfl, List.forall_mem_singleton.mpr (voices_of_own rfl)⟩
  | @roomCreate id hid roomName =>
    obtain ⟨x, hx, -⟩ := sessionId_ok_iff.mp hid
    obtain ⟨u, sender⟩ := h.sender (hlive _ _ hx)
    have hself : (s.newRoom roomName).getSession id = some session := by
      rw [Except.ok.inj (hid.symm.trans sender.session)]
      exact sender.registered
    refine ⟨_, rfl, List.forall_mem_singleton.mpr ?_⟩
    rw [hself]
    exact voices_of_own rfl
  | @roomEnter id v u rid r sender room =>
    obtain rfl := hlive.own h sender
    refine ⟨_, rfl, List.forall_mem_append.mpr ⟨voices_of_casts rfl fun w hw hne => ?_,
      List.forall_mem_singleton.mpr (voices_of_own rfl)⟩⟩
    rw [room_setRoom_self] at hw
    exact ⟨r, (StdSet.mem_insert.mp hw).resolve_left hne⟩
  | @roomExit id v u r sender room =>
    exact ⟨_, rfl, voices_of_casts rfl fun w hw _ => ⟨r, hw⟩⟩
  | @unicast id v u sender recver found found_eq text =>
    obtain rfl := hlive.own h sender
    refine ⟨unicastPackages v u text found, rfl, ?_⟩
    cases found with
    | none => exact List.forall_mem_singleton.mpr (voices_of_own rfl)
    | some w =>
      exact List.forall_mem_cons.mpr ⟨voices_of_speaker sender.live rfl rfl,
        List.forall_mem_singleton.mpr (voices_of_speaker sender.live rfl rfl)⟩
  | @multicast id v u r sender room text =>
    obtain rfl := hlive.own h sender
    refine ⟨_, rfl, fun pkg hpkg => ?_⟩
    obtain ⟨w, -, rfl⟩ := List.mem_map.mp hpkg
    exact voices_of_speaker sender.live rfl rfl
  | @broadcast id v u sender text =>
    obtain rfl := hlive.own h sender
    rw [broadCast_eq]
    refine ⟨_, rfl, fun pkg hpkg => ?_⟩
    obtain ⟨r, -, hr⟩ := List.mem_flatMap.mp hpkg
    obtain ⟨w, -, rfl⟩ := List.mem_map.mp hr
    exact voices_of_speaker sender.live rfl rfl
  | unhandled => exact ⟨[], (List.append_nil _).symm, List.forall_mem_nil _⟩

theorem Processed.others {s s' : Server} (h : Registry s) (hlive : s.LiveRegistered)
    {session : UserPtr} {packet : Packet} (hp : s.Processed session packet s') {w : UserPtr}
    (hw : w ≠ session) :
    s'.user w = s.user w ∧ ∀ r, w ∈ (s'.room r).users → w ∈ (s.room r).users := by
  cases hp with
  | @serverExit id v u sender members =>
    obtain rfl := hlive.own h sender
    exact ⟨by rw [user_removed, if_neg hw], fun r hr => (mem_removed hr).1⟩
  | serverEnter sender nickname =>
    obtain rfl := hlive.own h sender
    exact ⟨user_setUser_of_ne s hw _, fun _ => id⟩
  | roomCreate hid roomName =>
    refine ⟨rfl, fun r hr => ?_⟩
    by_cases hnew : r = s.nextRoom
    · subst hnew
      simp [createRoom, sendRoomListToOne, pushPackages, newRoom] at hr
    · simpa only [createRoom, sendRoomListToOne, pushPackages, newRoom,
        Function.update_of_ne hnew] using hr
  | roomEnter sender room =>
    obtain rfl := hlive.own h sender
    exact ⟨user_setUser_of_ne s hw _, fun t ht =>
      (mem_entered.mp ht).resolve_left fun heq => hw heq.2⟩
  | roomExit sender room =>
    obtain rfl := hlive.own h sender
    exact ⟨user_setUser_of_ne (s.pushPackages _) hw _, fun t ht => (mem_left.mp ht).2⟩
  | broadcast =>
    rw [broadCast_eq]
    exact ⟨rfl, fun _ => id⟩
  | lobbyRoomInfo | unicast | multicast | unhandled => exact ⟨rfl, fun _ => id⟩

theorem Processed.nickname {s s' : Server} (h : Registry s) (hlive : s.LiveRegistered)
    {session : UserPtr} {packet : Packet} (hp : s.Processed session packet s') {u' : User}
    (hu' : s'.user session = .live u') :
    ∃ u, s.user session = .live u ∧ u'.nickname = packet.naming u.nickname := by
  cases hp with
  | @serverExit id v u sender members =>
    obtain rfl := hlive.own h sender
    rw [user_removed, if_pos rfl] at hu'
    contradiction
  | @serverEnter id v u sender nickname =>
    obtain rfl := hlive.own h sender
    obtain rfl := Cell.live.inj (hu'.symm.trans (user_setUser_self ..))
    exact ⟨u, sender.live, rfl⟩
  | @roomEnter id v u rid r sender room =>
    obtain rfl := hlive.own h sender
    obtain rfl := Cell.live.inj (hu'.symm.trans (user_setUser_self ..))
    exact ⟨u, sender.live, rfl⟩
  | @roomExit id v u r sender room =>
    obtain rfl := hlive.own h sender
    obtain rfl := Cell.live.inj (hu'.symm.trans (user_setUser_self (s.pushPackages _) _ _))
    exact ⟨u, sender.live, rfl⟩
  | broadcast =>
    rw [broadCast_eq] at hu'
    exact ⟨u', hu', rfl⟩
  | lobbyRoomInfo | roomCreate | unicast | multicast => exact ⟨u', hu', rfl⟩
  | unhandled hno =>
    refine ⟨u', hu', ?_⟩
    cases packet <;> first | rfl | contradiction

theorem LiveRegistered.removed {s : Server} (hlive : s.LiveRegistered) (h : Registry s)
    {v : UserPtr} {u : User} (hu : s.user v = .live u) (hv : s.userList.find u.userId = some v) :
    (s.removed v u).LiveRegistered := by
  intro w x hx
  rw [user_removed] at hx
  split at hx
  · contradiction
  · rename_i hne
    exact (registered_removed h hu hv).mpr ⟨hlive _ _ hx, hne⟩

theorem LiveRegistered.processed {s s' : Server} (hlive : s.LiveRegistered) (h : Registry s)
    {session : UserPtr} {packet : Packet} (hp : s.Processed session packet s') :
    s'.LiveRegistered := by
  have kept : s'.userList = s.userList → s'.LiveRegistered := fun hlist w u' hu' => by
    rw [Registered, hlist]
    rcases hp.user_eq w with heq | ⟨⟨u, hu⟩, -⟩
    · exact hlive _ _ (heq ▸ hu')
    · exact hlive _ _ hu
  cases hp with
  | serverExit sender members =>
    exact hlive.removed h sender.live (h.sender_id sender ▸ sender.registered)
  | broadcast => exact kept (by rw [broadCast_eq]; rfl)
  | serverEnter | lobbyRoomInfo | roomCreate | roomEnter | roomExit | unicast | multicast
  | unhandled => exact kept rfl

theorem LiveRegistered.accept {s s' : Server} (hlive : s.LiveRegistered) {addr : UserPtr}
    {socket : Socket} {outcome : ConnectOutcome} (hfree : s.userList.find s.userId = none)
    (hacc : Accepted s addr socket outcome s') : s'.LiveRegistered := by
  cases hacc with
  | connected =>
    intro w x hw
    by_cases hne : w = addr
    · subst hne
      exact (StdMap.exists_find_insert_iff hfree).mpr (.inl rfl)
    · exact (StdMap.exists_find_insert_iff hfree).mpr
        (.inr (hlive _ _ ((user_setUser_of_ne s hne _).symm.trans hw)))
  | failed _ closed =>
    intro w x hw
    by_cases hne : w = addr
    · subst hne
      simp at hw
    · exact hlive _ _ ((user_setUser_of_ne s hne _).symm.trans hw)

end Server

end ChattingServer.V11
