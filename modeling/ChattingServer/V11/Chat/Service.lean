import ChattingServer.Service.Service
import ChattingServer.V11.Client.Whisper
import ChattingServer.V11.Server.RoomRegistry
import ChattingServer.V11.Server.Frame
import ChattingServer.V11.Server.Rooms
import ChattingServer.V11.Chat.Location
import ChattingServer.V11.Chat.Ledger

namespace ChattingServer.V11

open Lib

abbrev ChatNote := Note UInt32 UInt16 Str Str

abbrev ChatMember := Member UInt32 UInt16 Str Str

abbrev ChatRequest := Request UInt32 UInt16 Str Str

abbrev ChatService := Service UInt32 UInt16 Str Str

namespace Packet

def note : Packet → Option ChatNote
  | .sServerEnterOk uid => some (.welcome uid)
  | .sLobbyRoomInfo _ roomId roomName => some (.rooms (roomId.zip roomName))
  | .sRoomEnter uid nickname => some (.came uid nickname)
  | .sRoomName roomName => some (.title roomName)
  | .sRoomExit uid => some (.went uid)
  | .sUnicastNo => some .nobody
  | .sUnicastOk nickname text => some (.whispered nickname text)
  | .sMulticast nickname text => some (.said nickname text)
  | .sBroadcast nickname text => some (.announced nickname text)
  | _ => none

@[simp] theorem filterMap_note_cons (p : Packet) (ps : List Packet) :
    (p :: ps).filterMap note = p.note.toList ++ ps.filterMap note := by
  rw [List.filterMap_cons]
  cases p.note <;> rfl

def request (id : UInt32) : Packet → Option ChatRequest
  | .cServerEnter nickname => some (.login id nickname)
  | .cServerExit => some (.leave id)
  | .cLobbyRoomInfo => some (.list id)
  | .cRoomCreate roomName => some (.create id roomName)
  | .cRoomEnter rid => some (.enter id rid)
  | .cRoomExit => some (.exit id)
  | .cUnicast recver text => some (.whisper id recver text)
  | .cMulticast text => some (.say id text)
  | .cBroadcast text => some (.announce id text)
  | _ => none

end Packet

namespace Server

def notesFor (s : Server) (v : UserPtr) : List ChatNote :=
  (packetsFor v s.packages).filterMap Packet.note

def seen (s : Server) (v : UserPtr) (u : User) : ChatMember where
  name := u.nickname
  place := u.currRoom.map fun r => (s.room r).roomId
  heard := s.notesFor v

/-- The service that the server is: the users that are registered, and what they have been sent. -/
def view (s : Server) : ChatService where
  member id := (s.userList.find id).bind fun v =>
    match s.user v with
    | .live u => some (s.seen v u)
    | _ => none
  rooms rid := (s.roomList.find rid).map fun r => (s.room r).roomName

/-- What an action asks the service for.  A refused connection, an unknown id, a deleted user and a
packet without a handler ask for nothing. -/
def request (s : Server) : Action → Option ChatRequest
  | .accept _ _ outcome => if outcome = .connected then some (.join s.userId) else none
  | .removeUser id => if s.userList.find id = none then none else some (.leave id)
  | .process package =>
    match s.sessionId package.session with
    | .ok id => package.packet.request id
    | .error _ => none

def Labelled (s : Server) : Prop := ∀ i r, s.roomList.find i = some r → (s.room r).roomId = i

theorem labelled_of_step {s s' : Server} (hreg : Registry s) (h : Labelled s) {a : Action}
    (hs : s.step a = .ok s') : Labelled s' := by
  rcases rooms_of_step hs [] with ⟨-, hsame⟩ | ⟨id, name, -, rfl⟩
  · intro i r hr
    rw [hsame.roomList] at hr
    exact (hsame.room r).1.trans (h i r hr)
  · intro i r hr
    rcases StdMap.find_of_find_insert hr with hr | ⟨rfl, rfl, -⟩
    · exact (congrArg Room.roomId (hreg.room_newRoom hr name).2).trans (h i r hr)
    · have hnew : (s.createRoom id name).room s.nextRoom = ⟨s.roomId, name, .empty⟩ :=
        Function.update_self ..
      rw [hnew]

structure Viewable (s : Server) : Prop where
  orderly : Orderly s
  labelled : Labelled s
  silent : ∀ w, s.user w = .unused → packetsFor w s.packages = []

theorem member_of_live {s : Server} (h : Orderly s) {v : UserPtr} {u : User}
    (hu : s.user v = .live u) : s.view.member u.userId = some (s.seen v u) := by
  obtain ⟨u', hu', hid, -⟩ := h.registry.live (h.accounted.live hu).1
  obtain rfl := Cell.live.inj (hu.symm.trans hu')
  simp [view, hid, hu]

theorem live_of_member {s : Server} (h : Orderly s) {id : UInt32} {m : ChatMember}
    (hm : s.view.member id = some m) :
    ∃ v u, s.user v = .live u ∧ u.userId = id ∧ s.userList.find id = some v ∧ m = s.seen v u := by
  obtain ⟨v, hv, hm⟩ := Option.bind_eq_some_iff.mp hm
  obtain ⟨u, hu, hid, -⟩ := h.registry.user hv
  rw [hu] at hm
  exact ⟨v, u, hu, hid, hv, (Option.some.inj hm).symm⟩

theorem place_of_live {s : Server} (h : Orderly s) {v : UserPtr} {u : User}
    (hu : s.user v = .live u) :
    s.view.place u.userId = (s.currRoom v).map fun r => (s.room r).roomId := by
  rw [Service.place, member_of_live h hu, currRoom_of_live hu]
  rfl

theorem Viewable.place_eq_iff {s : Server} (h : s.Viewable) {v : UserPtr} {u : User}
    (hu : s.user v = .live u) {i : UInt16} {r : RoomPtr} (hr : s.roomList.find i = some r) :
    s.view.place u.userId = some (s.room r).roomId ↔ s.currRoom v = some r := by
  rw [place_of_live h.orderly hu, Option.map_eq_some_iff]
  constructor
  · rintro ⟨t, ht, heq⟩
    obtain ⟨j, hj⟩ := h.orderly.registry.currRoom ht
    rw [h.labelled j t hj, h.labelled i r hr] at heq
    rw [heq, hr] at hj
    exact ht.trans hj.symm
  · exact fun ht => ⟨r, ht, rfl⟩

theorem Does.view_eq {s s' : Server} {e : Event} (hd : s.Does e s') (h : Orderly s)
    (hlist : e.userList s = s.userList)
    (hlabel : ∀ w r, s'.currRoom w = some r → (s'.room r).roomId = (s.room r).roomId)
    {t : ChatService} (hrooms : s'.view.rooms = t.rooms)
    (hnone : ∀ id, s.view.member id = none → t.member id = none)
    (hmember : ∀ w x, s.user w = .live x → ∃ y, e.user s w = .live y ∧
      t.member x.userId = some ((s.seen w y).hear ((e.news s w).filterMap Packet.note))) :
    s'.view = t := by
  refine Service.ext (funext fun id => ?_) hrooms
  cases hid : s.userList.find id with
  | none =>
    rw [hnone id (by simp [view, hid])]
    simp [view, hd.userList, hlist, hid]
  | some w =>
    obtain ⟨x, hx, rfl, -⟩ := h.registry.user hid
    obtain ⟨y, hy, hm⟩ := hmember w x hx
    obtain ⟨ps, hps, hnews⟩ := hd.packages
    have hy' : s'.user w = .live y := by rw [hd.user, hy]
    have hplace : y.currRoom.map (fun r => (s'.room r).roomId) =
        y.currRoom.map fun r => (s.room r).roomId :=
      Option.map_congr fun r hr => hlabel w r ((currRoom_of_live hy').trans hr)
    rw [hm]
    simp [view, hd.userList, hlist, hid, hy', seen, notesFor, Member.hear, hplace, hps, hnews]

theorem note_roomListPacket (s : Server) : s.roomListPacket.note = some (.rooms s.rooms) :=
  congrArg (Option.map Note.rooms) (roomList_roomListPacket s)

theorem Viewable.lists {s : Server} (h : s.Viewable) : s.view.Lists s.rooms := by
  refine ⟨?_, fun i name => ?_⟩
  · refine List.Nodup.map_on (fun r hr t ht heq => ?_)
      (StdMap.values_nodup fun i j r => h.orderly.registry.roomId)
    obtain ⟨i, hi⟩ := StdMap.mem_values_iff.mp hr
    obtain ⟨j, hj⟩ := StdMap.mem_values_iff.mp ht
    have hid := congrArg Prod.fst heq
    simp only [h.labelled i r hi, h.labelled j t hj] at hid
    subst hid
    exact Option.some.inj (hi.symm.trans hj)
  · simp only [rooms, List.mem_map, Prod.mk.injEq, StdMap.mem_values_iff, view,
      Option.map_eq_some_iff]
    constructor
    · rintro ⟨r, ⟨j, hr⟩, rfl, rfl⟩
      exact ⟨r, (h.labelled j r hr).symm ▸ hr, rfl⟩
    · rintro ⟨r, hr, rfl⟩
      exact ⟨r, ⟨i, hr⟩, h.labelled i r hr, rfl⟩

/-! The service after each event. -/

theorem view_accepted {s : Server} (h : Orderly s) {v : UserPtr} {u : User}
    (hu : s.user v = .live u) (nickname : Str) :
    (s.accepted v u.userId v u nickname).view =
      (s.view.modify u.userId ({ · with name := nickname })).answer u.userId
        [.welcome u.userId, .rooms s.rooms] := by
  refine (does_login v u nickname).view_eq h rfl (fun _ _ _ => rfl) rfl
    (fun id hid => by simp [hid]) fun w x hx => ?_
  by_cases hw : w = v
  · subst hw
    obtain rfl := Cell.live.inj (hu.symm.trans hx)
    refine ⟨{ u with nickname }, Function.update_self .., ?_⟩
    simp only [Service.member_answer, Service.member_modify, member_of_live h hu, Event.news,
      Packet.filterMap_note_cons, note_roomListPacket, if_true, Option.map_some]
    rfl
  · refine ⟨x, (Function.update_of_ne hw ..).trans hx, ?_⟩
    simp [member_of_live h hx, h.userId_ne hu hx hw, Event.news, hw]

theorem view_rooms {s : Server} (h : Orderly s) {v : UserPtr} {u : User} (hu : s.user v = .live u)
    {list : List (UInt16 × Str)} {p : Packet} (hp : p.note = some (.rooms list)) (s' : Server)
    (t : ChatService) (huser : s'.user = s.user) (hlist : s'.userList = s.userList)
    (hpackages : s'.packages = s.packages ++ [⟨some v, p⟩])
    (hlabel : ∀ w r, s.currRoom w = some r → (s'.room r).roomId = (s.room r).roomId)
    (hmember : t.member = s.view.member) (hrooms : s'.view.rooms = t.rooms) :
    s'.view = t.answer u.userId [.rooms list] := by
  refine (does_rooms v p huser hlist hpackages).view_eq h rfl (fun w r hr => hlabel w r ?_) hrooms
    (fun id hid => by simp [hmember, hid]) fun w x hx => ⟨x, hx, ?_⟩
  · rwa [currRoom, huser] at hr
  · by_cases hw : w = v
    · subst hw
      obtain rfl := Cell.live.inj (hu.symm.trans hx)
      simp [hmember, member_of_live h hu, Event.news, hp]
    · simp [hmember, member_of_live h hx, h.userId_ne hu hx hw, Event.news, hw]

theorem view_entered {s : Server} (h : s.Viewable) {v : UserPtr} {u : User}
    (hu : s.user v = .live u) {i : UInt16} {r : RoomPtr} (hr : s.roomList.find i = some r) :
    (s.entered r v u).view =
      ((s.view.modify u.userId ({ · with place := some i })).tellRoom i
        (.came u.userId u.nickname)).answer u.userId [.title (s.room r).roomName] := by
  obtain rfl := h.labelled i r hr
  have hsame := s.sameRooms_entered r v u
  refine (does_entered h.orderly r v u).view_eq h.orderly rfl (fun _ t _ => (hsame.room t).1) ?_
    (fun id hid => by simp [hid]) fun w x hx => ?_
  · funext j
    simp only [view, Service.rooms_answer, Service.rooms_tellRoom, Service.rooms_modify,
      hsame.roomList, hsame.room]
  · by_cases hw : w = v
    · subst hw
      obtain rfl := Cell.live.inj (hu.symm.trans hx)
      refine ⟨{ u with currRoom := some r }, Function.update_self .., ?_⟩
      simp only [Service.member_answer, Service.member_tellRoom, Service.member_modify,
        Service.place_modify, member_of_live h.orderly hu, Event.news, if_true, Option.map_some,
        Option.bind_some, Member.hear_hear]
      rfl
    · refine ⟨x, (Function.update_of_ne hw ..).trans hx, ?_⟩
      simp only [Service.member_answer, Service.member_tellRoom, Service.member_modify,
        Service.place_modify, member_of_live h.orderly hx, h.orderly.userId_ne hu hx hw, Event.news,
        hw, h.place_eq_iff hx hr, if_false, Option.map_some, Member.hear_nil]
      split <;> rfl

theorem view_left {s : Server} (h : s.Viewable) {v : UserPtr} {u : User}
    (hu : s.user v = .live u) {r : RoomPtr} (hr : u.currRoom = some r) :
    ((s.left r v u (s.room r).users.elems).pushIntoLobby v).view =
      (s.view.tellRoom (s.room r).roomId (.went u.userId)).modify u.userId
        ({ · with place := none }) := by
  have hcurr := (currRoom_of_live hu).trans hr
  obtain ⟨i, hi⟩ := h.orderly.registry.currRoom hcurr
  have hsame := s.sameRooms_left r v u (s.room r).users.elems
  refine (does_left h.orderly r v u).view_eq h.orderly rfl (fun _ t _ => (hsame.room t).1) ?_
    (fun id hid => by simp [hid]) fun w x hx => ?_
  · funext j
    simp only [view, pushIntoLobby, Service.rooms_tellRoom, Service.rooms_modify, hsame.roomList,
      hsame.room]
  · by_cases hw : w = v
    · subst hw
      obtain rfl := Cell.live.inj (hu.symm.trans hx)
      refine ⟨{ u with currRoom := none }, Function.update_self .., ?_⟩
      simp only [Service.member_tellRoom, Service.member_modify, member_of_live h.orderly hu,
        h.place_eq_iff hu hi, hcurr, Event.news, if_true, Option.map_some]
      rfl
    · refine ⟨x, (Function.update_of_ne hw ..).trans hx, ?_⟩
      simp only [Service.member_tellRoom, Service.member_modify, member_of_live h.orderly hx,
        h.orderly.userId_ne hu hx hw, h.place_eq_iff hx hi, Event.news, if_false, Option.map_some]
      split <;> rfl

theorem view_removed {s : Server} (h : s.Viewable) {v : UserPtr} {u : User}
    (hu : s.user v = .live u) :
    (s.removed v u).view = (s.view.put u.userId none).tell fun j =>
      if (s.seen v u).place ≠ none ∧ s.view.place j = (s.seen v u).place then [.went u.userId]
      else [] := by
  have hv : s.userList.find u.userId = some v := by
    obtain ⟨u', hu', hid, -⟩ := h.orderly.registry.live (h.orderly.accounted.live hu).1
    obtain rfl := Cell.live.inj (hu.symm.trans hu')
    exact hid
  have hd := does_removed h.orderly hu hv
  obtain ⟨ps, hps, hnews⟩ := hd.packages
  have hsame := s.sameRooms_removed v u
  refine Service.ext (funext fun id => ?_) (funext fun j => ?_)
  · cases hid : s.userList.find id with
    | none => simp [view, hd.userList, Event.userList, hid]
    | some w =>
      obtain ⟨x, hx, rfl, -⟩ := h.orderly.registry.user hid
      by_cases hw : w = v
      · subst hw
        obtain rfl := Cell.live.inj (hu.symm.trans hx)
        simp [view, hd.userList, Event.userList]
      · have hne := h.orderly.userId_ne hu hx hw
        have hx' : (s.removed v u).user w = .live x := by
          rw [hd.user]
          exact (Function.update_of_ne hw ..).trans hx
        have hseen : (s.removed v u).seen w x =
            (s.seen w x).hear (((Event.remove v u).news s w).filterMap Packet.note) := by
          simp [seen, notesFor, Member.hear, hps, hnews, hsame.room]
        have hfound : (s.removed v u).view.member x.userId = some ((s.removed v u).seen w x) := by
          simp [view, hd.userList, Event.userList, hne.symm, hid, hx']
        rw [hfound, hseen, Service.member_tell, Service.member_put, if_neg hne,
          member_of_live h.orderly hx, Option.map_some]
        congr 2
        cases hr : u.currRoom with
        | none => simp [Event.news, seen, hr]
        | some r =>
          obtain ⟨i, hi⟩ := h.orderly.registry.currRoom ((currRoom_of_live hu).trans hr)
          simp only [Event.news, seen, hr, Option.map_some, h.place_eq_iff hx hi, hw, ne_eq,
            reduceCtorEq, not_false_eq_true, true_and]
          split <;> rfl
  · simp only [view, Service.rooms_tell, Service.rooms_put, hsame.roomList, hsame.room]

theorem view_casts {s : Server} (h : Orderly s) {p : Packet} {note : ChatNote}
    (hnote : p.note = some note) {recvers : List UserPtr} (hnodup : recvers.Nodup)
    {meant : UInt32 → Prop} [DecidablePred meant]
    (hmeant : ∀ w x, s.user w = .live x → (meant x.userId ↔ w ∈ recvers)) :
    (s.pushPackages (casts recvers p)).view =
      s.view.tell fun j => if meant j then [note] else [] := by
  refine (s.does_chat p recvers).view_eq h rfl (fun _ _ _ => rfl) rfl (fun id hid => by simp [hid])
    fun w x hx => ⟨x, hx, ?_⟩
  simp only [Service.member_tell, member_of_live h hx, Option.map_some, Event.news, hnodup.count,
    hmeant w x hx]
  split <;> simp [hnote]

theorem view_answer {s : Server} (h : Orderly s) {v : UserPtr} {u : User}
    (hu : s.user v = .live u) {p : Packet} {note : ChatNote} (hnote : p.note = some note) :
    (s.pushPackages [⟨some v, p⟩]).view = s.view.answer u.userId [note] :=
  view_casts h hnote (List.nodup_singleton v) fun w x hx => by
    rw [List.mem_singleton]
    constructor
    · intro hid
      by_contra hw
      exact h.userId_ne hu hx hw hid
    · rintro rfl
      rw [Cell.live.inj (hu.symm.trans hx)]

theorem view_nobody {s : Server} (h : Orderly s) {v : UserPtr} (hv : ∀ u, s.user v ≠ .live u)
    (p : Packet) : (s.pushPackages [⟨some v, p⟩]).view = s.view :=
  (s.does_chat p [v]).view_eq h rfl (fun _ _ _ => rfl) rfl (fun _ => id) fun w x hx => by
    have hw : w ≠ v := by
      rintro rfl
      exact hv x hx
    exact ⟨x, hx, by simp [member_of_live h hx, Event.news, Ne.symm hw]⟩

theorem rooms_createRoom {s : Server} (h : Registry s) (id : UInt32) (roomName : Str) :
    (s.createRoom id roomName).view.rooms = (s.view.openRoom s.roomId roomName).rooms := by
  have hnew : (s.newRoom roomName).room s.nextRoom = ⟨s.roomId, roomName, .empty⟩ :=
    Function.update_self ..
  have hold : ∀ i r, s.roomList.find i = some r →
      ((s.newRoom roomName).room r).roomName = (s.room r).roomName := fun i r hr =>
    congrArg Room.roomName (h.room_newRoom hr roomName).2
  funext j
  change ((s.roomList.insert s.roomId s.nextRoom).find j).map
    (fun r => ((s.newRoom roomName).room r).roomName) = _
  simp only [view, Service.openRoom, Option.map_eq_none_iff]
  cases hid : s.roomList.find s.roomId with
  | none =>
    rw [StdMap.find_insert_of_none hid]
    by_cases hj : j = s.roomId
    · simp [hj, hnew]
    · simpa [hj, Ne.symm hj] using Option.map_congr (hold j)
  | some r =>
    rw [StdMap.insert_of_some hid]
    simpa using Option.map_congr (hold j)

theorem view_roomCast {s : Server} (h : s.Viewable) {i : UInt16} {r : RoomPtr}
    (hr : s.roomList.find i = some r) {p : Packet} {note : ChatNote} (hnote : p.note = some note) :
    (s.roomCast r p).view = s.view.tellRoom (s.room r).roomId note := by
  obtain ⟨hnodup, hmem⟩ := mem_roomCast h.orderly.membership r
  exact view_casts h.orderly hnote hnodup fun w x hx => by
    rw [h.place_eq_iff hx hr, hmem]
    exact (and_iff_right (h.orderly.accounted.live hx).1).symm

theorem view_broadCast {s : Server} (h : Orderly s) {p : Packet} {note : ChatNote}
    (hnote : p.note = some note) :
    (s.broadCast p).view = s.view.tell fun j => if s.view.place j ≠ none then [note] else [] := by
  obtain ⟨hnodup, hmem⟩ := mem_broadCast h.membership h.registry
  have hcasts : s.broadCast p =
      s.pushPackages (casts (s.roomList.values.flatMap fun r => (s.room r).users.elems) p) := by
    rw [broadCast_eq, casts, List.map_flatMap]
    rfl
  rw [hcasts]
  refine view_casts h hnote hnodup fun w x hx => ?_
  rw [place_of_live h hx, hmem, and_iff_right (h.accounted.live hx).1, ne_eq,
    Option.map_eq_none_iff, ← ne_eq, Option.ne_none_iff_exists']

theorem view_connected {s s' : Server} (h : s.Viewable) {addr : UserPtr} {socket : Socket}
    (haddr : s.user addr = .unused) (hfree : s.userList.find s.userId = none)
    (hacc : s.Accepted addr socket .connected s') :
    s'.view = s.view.put s.userId (some ⟨[], none, []⟩) := by
  cases hacc with
  | failed hout => contradiction
  | connected =>
    refine Service.ext (funext fun id => ?_) rfl
    rw [Service.member_put]
    by_cases hid : id = s.userId
    · subst hid
      have hsilent : ∀ cell, packetsFor addr (s.setUser addr cell).packages = [] :=
        fun _ => h.silent addr haddr
      simp [view, pushIntoLobby, StdMap.find_insert_of_none hfree, seen, notesFor, hsilent]
    · rw [if_neg hid]
      simp only [view, pushIntoLobby, StdMap.find_insert_of_none hfree, if_neg (Ne.symm hid)]
      refine Option.bind_congr fun w hw => ?_
      obtain ⟨x, hx, -⟩ := h.orderly.registry.user hw
      have hne : w ≠ addr := by
        rintro rfl
        rw [haddr] at hx
        contradiction
      rw [user_setUser_of_ne s hne]
      rfl

theorem view_failed {s s' : Server} (h : s.Viewable) {addr : UserPtr} {socket : Socket}
    {outcome : ConnectOutcome} (hout : outcome ≠ .connected)
    (haddr : s.user addr = .unused) (hacc : s.Accepted addr socket outcome s') :
    s'.view = s.view := by
  cases hacc with
  | connected => contradiction
  | failed _ closed =>
    refine Service.ext (funext fun id => ?_) rfl
    refine Option.bind_congr fun w hw => ?_
    obtain ⟨x, hx, -⟩ := h.orderly.registry.user hw
    have hne : w ≠ addr := by
      rintro rfl
      rw [haddr] at hx
      contradiction
    rw [user_setUser_of_ne s hne]
    rfl

def fromUser (s : Server) : Action → Bool
  | .process package => (s.user package.session).status ≠ none
  | _ => true

/-- A room is entered from the lobby, ids are not in use twice, and packages are of users. -/
def serviceGuard (s : Server) (a : Action) : Bool := s.locationGuard a && s.fromUser a

theorem serviceGuard_iff {s : Server} {a : Action} :
    s.serviceGuard a = true ↔ s.entersFromLobby a = true ∧ s.freshId a = true ∧
      s.fromUser a = true := by
  simp [serviceGuard, locationGuard, and_assoc]

theorem viewable_init : Viewable init where
  orderly := orderly_init
  labelled := nofun
  silent _ _ := rfl

theorem Viewable.step {s s' : Server} (h : s.Viewable) {a : Action}
    (hg : s.serviceGuard a = true) (hs : s.step a = .ok s') : s'.Viewable := by
  obtain ⟨hlobby, hfresh, huser⟩ := serviceGuard_iff.mp hg
  have hknown : ∀ package, a = .process package → s.user package.session ≠ .unused := by
    rintro package rfl hunused
    simp [fromUser, hunused, Cell.status] at huser
  obtain ⟨hpackages, hsilent⟩ := (reaches_of_step h.orderly.registry hs hknown).pushes hs
  refine ⟨h.orderly.step hlobby hfresh hs, labelled_of_step h.orderly.registry h.labelled hs,
    fun w hw => ?_⟩
  have hw := unused_of_step hs hw
  rw [hpackages, packetsFor_append, h.silent w hw, hsilent w hw]
  rfl

theorem Sender.request {s : Server} {session v : UserPtr} {id : UInt32} {u : User}
    (h : s.Sender session id v u) (packet : Packet) :
    s.request (.process ⟨session, packet⟩) = packet.request id := by
  simp [Server.request, h.session]

/-! What each handler does to what the service shows -/

theorem Viewable.cServerEnter {s : Server} (h : s.Viewable) {session v : UserPtr} {id : UInt32}
    {u : User} (sender : s.Sender session id v u) (nickname : Str) :
    Moves Service.Step s.view (s.request (.process ⟨session, .cServerEnter nickname⟩))
      (s.accepted session id v u nickname).view := by
  rw [sender.request]
  obtain ⟨rfl, rfl⟩ := h.orderly.sender sender
  rw [view_accepted h.orderly sender.live]
  exact .login (member_of_live h.orderly sender.live) nickname h.lists

theorem Viewable.cServerExit {s : Server} (h : s.Viewable) {session v : UserPtr} {id : UInt32}
    {u : User} (sender : s.Sender session id v u) :
    Moves Service.Step s.view (s.request (.process ⟨session, .cServerExit⟩))
      (s.removed v u).view := by
  rw [sender.request]
  obtain ⟨rfl, rfl⟩ := h.orderly.sender sender
  rw [view_removed h sender.live]
  exact .leave (member_of_live h.orderly sender.live)

theorem Viewable.cLobbyRoomInfo {s : Server} (h : s.Viewable) (session : UserPtr) :
    Moves Service.Step s.view (s.request (.process ⟨session, .cLobbyRoomInfo⟩))
      (s.sendRoomListToOne (some session)).view := by
  cases hu : s.user session with
  | live u =>
    obtain ⟨u', sender⟩ := h.orderly.registry.sender (h.orderly.accounted.live hu).1
    rw [sender.request]
    obtain ⟨-, hid⟩ := h.orderly.sender sender
    rw [sendRoomListToOne, view_answer h.orderly sender.live (note_roomListPacket s)]
    exact .list (member_of_live h.orderly sender.live) h.lists
  | unused | freed =>
    have hnone : s.request (.process ⟨session, .cLobbyRoomInfo⟩) = none := by
      simp only [Server.request]
      split
      · rename_i hid
        obtain ⟨x, hx, -⟩ := sessionId_ok_iff.mp hid
        rw [hu] at hx
        contradiction
      · rfl
    rw [hnone]
    exact view_nobody h.orderly (by simp [hu]) _

theorem Viewable.cRoomCreate {s : Server} (h : s.Viewable) {session : UserPtr} {id : UInt32}
    (hid : s.sessionId session = .ok id) (roomName : Str)
    (h' : (s.createRoom id roomName).Viewable) :
    Moves Service.Step s.view (s.request (.process ⟨session, .cRoomCreate roomName⟩))
      (s.createRoom id roomName).view := by
  obtain ⟨x, hx, hxid⟩ := sessionId_ok_iff.mp hid
  obtain ⟨u, sender⟩ := h.orderly.registry.sender (h.orderly.accounted.live hx).1
  obtain rfl := Except.ok.inj (hid.symm.trans sender.session)
  rw [sender.request]
  have hrooms := rooms_createRoom h.orderly.registry u.userId roomName
  have hlists := h'.lists.congr hrooms
  have hview : (s.createRoom u.userId roomName).view =
      (s.view.openRoom s.roomId roomName).answer u.userId
        [.rooms (s.createRoom u.userId roomName).rooms] := by
    refine view_rooms h.orderly sender.live (note_roomListPacket (s.newRoom roomName))
      (s.createRoom u.userId roomName) (s.view.openRoom s.roomId roomName) rfl rfl ?_
      (fun w r hr => ?_) rfl hrooms
    · change s.packages ++ [⟨s.getUser u.userId, _⟩] = _
      rw [sender.registered]
    · obtain ⟨i, hi⟩ := h.orderly.registry.currRoom hr
      exact congrArg Room.roomId (h.orderly.registry.room_newRoom hi roomName).2
  rw [hview]
  exact .create (member_of_live h.orderly sender.live) s.roomId roomName hlists

theorem Viewable.cRoomEnter {s : Server} (h : s.Viewable) {session v : UserPtr} {id : UInt32}
    {u : User} {rid : UInt16} {r : RoomPtr} (sender : s.Sender session id v u)
    (room : s.getRoom rid = some r)
    (hg : s.entersFromLobby (.process ⟨session, .cRoomEnter rid⟩) = true) :
    Moves Service.Step s.view (s.request (.process ⟨session, .cRoomEnter rid⟩))
      (s.entered r v u).view := by
  have hfrom : u.currRoom = none ∨ u.currRoom = some r := by
    simpa [entersFromLobby, sender.senderOf, room] using hg
  rw [sender.request]
  obtain ⟨rfl, rfl⟩ := h.orderly.sender sender
  rw [view_entered h sender.live room]
  refine .enter (member_of_live h.orderly sender.live) ?_ ?_
  · simp [view, show s.roomList.find rid = some r from room]
  · refine hfrom.imp (fun hnone => ?_) fun hsome => ?_
    · simp [seen, hnone]
    · simp [seen, hsome, h.labelled rid r room]

theorem Viewable.cRoomExit {s : Server} (h : s.Viewable) {session v : UserPtr} {id : UInt32}
    {u : User} {r : RoomPtr} (sender : s.Sender session id v u) (room : u.currRoom = some r) :
    Moves Service.Step s.view (s.request (.process ⟨session, .cRoomExit⟩))
      ((s.left r v u (s.room r).users.elems).pushIntoLobby v).view := by
  rw [sender.request]
  obtain ⟨rfl, rfl⟩ := h.orderly.sender sender
  rw [view_left h sender.live room]
  exact .exit (member_of_live h.orderly sender.live) (by simp [seen, room])

theorem Viewable.cUnicast {s : Server} (h : s.Viewable) {session v : UserPtr} {id : UInt32}
    {u : User} (sender : s.Sender session id v u) {recver : Str} {found : Option UserPtr}
    (found_eq : s.findByNickname recver s.userList.values = .ok found) (text : Str) :
    Moves Service.Step s.view (s.request (.process ⟨session, .cUnicast recver text⟩))
      (s.pushPackages (unicastPackages v u text found)).view := by
  rw [sender.request]
  obtain ⟨rfl, rfl⟩ := h.orderly.sender sender
  have hmember := member_of_live h.orderly sender.live
  cases found with
  | none =>
    rw [unicastPackages, view_answer h.orderly sender.live rfl]
    refine .nobody hmember (fun j m hm => ?_) text
    obtain ⟨w, x, hx, -, hid, rfl⟩ := live_of_member h.orderly hm
    exact nickname_ne_of_findByNickname found_eq (StdMap.mem_values_iff.mpr ⟨j, hid⟩) hx
  | some w =>
    obtain ⟨x, hx, rfl⟩ := nickname_of_findByNickname found_eq
    have htwo : s.pushPackages (unicastPackages v u text (some w)) =
        (s.pushPackages [⟨some v, .sUnicastOk u.nickname text⟩]).pushPackages
          [⟨some w, .sUnicastOk u.nickname text⟩] := by
      simp [pushPackages, unicastPackages]
    rw [htwo, view_answer (h.orderly.pushPackages _) (u := x) hx rfl,
      view_answer h.orderly sender.live rfl]
    exact .whisper hmember (member_of_live h.orderly hx) text

theorem Viewable.cMulticast {s : Server} (h : s.Viewable) {session v : UserPtr} {id : UInt32}
    {u : User} {r : RoomPtr} (sender : s.Sender session id v u) (room : u.currRoom = some r)
    (text : Str) :
    Moves Service.Step s.view (s.request (.process ⟨session, .cMulticast text⟩))
      (s.roomCast r (.sMulticast u.nickname text)).view := by
  rw [sender.request]
  obtain ⟨rfl, rfl⟩ := h.orderly.sender sender
  obtain ⟨i, hi⟩ := h.orderly.registry.currRoom ((currRoom_of_live sender.live).trans room)
  rw [view_roomCast h hi rfl]
  exact .say (member_of_live h.orderly sender.live) (by simp [seen, room]) text

theorem Viewable.cBroadcast {s : Server} (h : s.Viewable) {session v : UserPtr} {id : UInt32}
    {u : User} (sender : s.Sender session id v u) (text : Str) :
    Moves Service.Step s.view (s.request (.process ⟨session, .cBroadcast text⟩))
      (s.broadCast (.sBroadcast u.nickname text)).view := by
  rw [sender.request]
  obtain ⟨rfl, rfl⟩ := h.orderly.sender sender
  rw [view_broadCast h.orderly rfl]
  exact .announce (member_of_live h.orderly sender.live) text

theorem request_of_unhandled {s : Server} {session : UserPtr} {packet : Packet}
    (hnot : handled packet = false) : s.request (.process ⟨session, packet⟩) = none := by
  simp only [Server.request]
  split
  · cases packet <;> first | rfl | contradiction
  · rfl

theorem Processed.moves {s s' : Server} (h : s.Viewable) {session : UserPtr} {packet : Packet}
    (hg : s.entersFromLobby (.process ⟨session, packet⟩) = true) (h' : s'.Viewable)
    (hp : s.Processed session packet s') :
    Moves Service.Step s.view (s.request (.process ⟨session, packet⟩)) s'.view := by
  cases hp with
  | serverEnter sender nickname => exact h.cServerEnter sender nickname
  | serverExit sender members => exact h.cServerExit sender
  | lobbyRoomInfo => exact h.cLobbyRoomInfo session
  | roomCreate hid roomName => exact h.cRoomCreate hid roomName h'
  | roomEnter sender room => exact h.cRoomEnter sender room hg
  | roomExit sender room => exact h.cRoomExit sender room
  | unicast sender found_eq text => exact h.cUnicast sender found_eq text
  | multicast sender room text => exact h.cMulticast sender room text
  | broadcast sender text => exact h.cBroadcast sender text
  | unhandled hnot =>
    rw [request_of_unhandled hnot]
    rfl

theorem Viewable.moves {s s' : Server} (h : s.Viewable) {a : Action}
    (hg : s.serviceGuard a = true) (hs : s.step a = .ok s') :
    Moves Service.Step s.view (s.request a) s'.view := by
  obtain ⟨hlobby, hfresh, -⟩ := serviceGuard_iff.mp hg
  have h' := h.step hg hs
  cases a with
  | accept addr socket outcome =>
    obtain ⟨haddr, hacc⟩ := accepted_of_ok hs
    by_cases hout : outcome = .connected
    · subst hout
      have hfree : s.userList.find s.userId = none := by simpa [freshId] using hfresh
      rw [request, if_pos rfl, view_connected h haddr hfree hacc]
      exact .join (by simp [view, hfree])
    · rw [request, if_neg hout]
      exact view_failed h hout haddr hacc
  | removeUser id =>
    rcases h.orderly.registry.removedById hs with ⟨hnone, rfl⟩ | ⟨v, u, rfl, hid, hu, rfl⟩
    · rw [request, if_pos hnone]
      rfl
    · rw [request, if_neg (by simp [hid]), view_removed h hu]
      exact .leave (member_of_live h.orderly hu)
  | process package => exact (processed_of_ok hs).moves h hlobby h'

theorem Viewable.serves {s : Server} (h : s.Viewable) {package : RecvPackage} {q : ChatRequest}
    (hq : s.request (.process package) = some q) {t : ChatService} (ht : s.view.Step q t) :
    ∃ s', s.process package = .ok s' := by
  obtain ⟨session, packet⟩ := package
  cases hid : s.sessionId session with
  | error e => simp [request, hid] at hq
  | ok id =>
    simp only [request, hid] at hq
    obtain ⟨x, hx, -⟩ := sessionId_ok_iff.mp hid
    obtain ⟨u, sender⟩ := h.orderly.registry.sender (h.orderly.accounted.live hx).1
    obtain rfl := Except.ok.inj (hid.symm.trans sender.session)
    have hmember := member_of_live h.orderly sender.live
    have inside : ∀ {r}, (s.seen session u).place = some r → ∃ r, u.currRoom = some r :=
      fun hr => (Option.map_eq_some_iff.mp hr).imp fun _ => And.left
    cases packet with
    | cServerEnter nickname => exact ⟨_, (Processed.serverEnter sender nickname).ok⟩
    | cServerExit =>
      refine ⟨_, (Processed.serverExit sender fun r _ w hw => ?_).ok⟩
      obtain ⟨y, hy, -⟩ := h.orderly.registry.live (h.orderly.membersRegistered hw)
      exact ⟨y, hy⟩
    | cLobbyRoomInfo => exact ⟨_, Processed.lobbyRoomInfo.ok⟩
    | cRoomCreate roomName => exact ⟨_, (Processed.roomCreate hid roomName).ok⟩
    | cRoomEnter rid =>
      obtain rfl := Option.some.inj hq
      cases ht with
      | enter member room outside =>
        obtain ⟨r, hr, -⟩ := Option.map_eq_some_iff.mp room
        exact ⟨_, (Processed.roomEnter sender hr).ok⟩
    | cRoomExit =>
      obtain rfl := Option.some.inj hq
      cases ht with
      | exit member hplace =>
        obtain rfl := Option.some.inj (hmember.symm.trans member)
        obtain ⟨r, hr⟩ := inside hplace
        exact ⟨_, (Processed.roomExit sender hr).ok⟩
    | cUnicast recver text =>
      have hlive : ∀ v ∈ s.userList.values, ∃ y, s.user v = .live y := fun v hv =>
        (h.orderly.registry.live (StdMap.mem_values_iff.mp hv)).imp fun _ hy => hy.1
      obtain ⟨found, hfound⟩ := findByNickname_ok hlive recver
      exact ⟨_, (Processed.unicast sender hfound text).ok⟩
    | cMulticast text =>
      obtain rfl := Option.some.inj hq
      cases ht with
      | say member hplace =>
        obtain rfl := Option.some.inj (hmember.symm.trans member)
        obtain ⟨r, hr⟩ := inside hplace
        exact ⟨_, (Processed.multicast sender hr text).ok⟩
    | cBroadcast text => exact ⟨_, (Processed.broadcast sender text).ok⟩
    | _ => contradiction

end Server

namespace Chat

def told (x : Chat × Ledger) : Server := { x.1.server with packages := x.2.log.flatten }

theorem request_queued (s : Server) (packages : List SendPackage) (b : Server.Action) :
    Server.request { s with packages } b = s.request b := by
  cases b <;> rfl

theorem locationGuard_queued (s : Server) (packages : List SendPackage) (b : Server.Action) :
    Server.locationGuard { s with packages } b = s.locationGuard b := by
  cases b <;> rfl

theorem Stepped.server {s s' : Chat} {a : Action} (h : s.Stepped a s') :
    s.serverAction a = none ∧ s'.server = { s.server with packages := s'.server.packages } ∨
      ∃ b, s.serverAction a = some b ∧ s.server.step b = .ok s'.server := by
  cases h with
  | accept accepted => exact .inr ⟨_, rfl, accepted⟩
  | disconnect known removed => exact .inr ⟨.removeUser _, by simp [serverAction, known], removed⟩
  | logic queue processed => exact .inr ⟨.process _, by simp [serverAction, queue], processed⟩
  | recv | send | client => exact .inl ⟨rfl, rfl⟩

theorem told_of_step {x x' : Chat × Ledger} {a : Action} (hs : kept.step x a = .ok x') :
    x.1.serverAction a = none ∧ told x' = told x ∨
      ∃ b, x.1.serverAction a = some b ∧ (told x).step b = .ok (told x') := by
  obtain ⟨hstep, hk⟩ := System.withHistory_step.mp hs
  rcases (stepped_of_ok hstep).server with ⟨hnone, hserver⟩ | ⟨b, hb, hserver⟩
  · refine .inl ⟨hnone, ?_⟩
    rw [told, told, hserver, hk, enter, hnone]
    simp
  · refine .inr ⟨b, hb, ?_⟩
    obtain ⟨ps, hps, hqueued⟩ := Server.step_queued hserver
    have hpushes : x.1.server.pushes b = ps := by simp [Server.pushes, hserver, hps]
    rw [told, told, hqueued, hk, enter, hb]
    simp [hpushes]

theorem Balanced.fromUser {s : Chat} {k : Ledger} (h : s.Balanced k) {a : Action}
    {b : Server.Action} (hb : s.serverAction a = some b) : s.server.fromUser b = true := by
  cases a with
  | logic =>
    cases hq : s.jobQueue with
    | nil => simp [serverAction, hq] at hb
    | cons package jobQueue =>
      simp only [serverAction, hq, List.head?_cons, Option.map_some, Option.some.injEq] at hb
      rw [← hb]
      refine decide_eq_true fun hstatus => h.known_of_job hq ?_
      cases hu : s.server.user package.session with
      | unused => rfl
      | live | freed => simp [hu, Cell.status] at hstatus
  | accept => exact Option.some.inj hb ▸ rfl
  | disconnect session =>
    simp only [serverAction] at hb
    split at hb
    · exact Option.some.inj hb ▸ rfl
    · contradiction
  | recv | send | client => contradiction

def Located (x : Chat × Ledger) (a : Action) : Prop := x.1.allows Server.locationGuard a = true

theorem serviceGuard_told {x : Chat × Ledger} (h : x.1.Balanced x.2) {a : Action}
    (hg : Located x a) {b : Server.Action} (hb : x.1.serverAction a = some b) :
    (told x).serviceGuard b = true := by
  have hlocated : x.1.server.locationGuard b = true := by simpa [Located, allows, hb] using hg
  rw [Server.serviceGuard, told, locationGuard_queued, hlocated, Bool.true_and]
  exact h.fromUser hb

theorem viewable_told {x : Chat × Ledger} (h : kept.Reach Located x) : (told x).Viewable :=
  h.invariant (P := fun x => (told x).Viewable) (by exact Server.viewable_init)
      fun x a x' hr hx hg hs => by
    rcases told_of_step hs with ⟨-, heq⟩ | ⟨b, hb, hstep⟩
    · exact heq ▸ hx
    · exact hx.step (serviceGuard_told (balanced_of_reach hr) hg hb) hstep

def service : kept.Simulation Located (Service.empty : ChatService) Service.Step where
  view x := (told x).view
  label x a := (x.1.serverAction a).bind x.1.server.request
  init := rfl
  step {x x' a} hx hg hs := by
    rcases told_of_step hs with ⟨hnone, heq⟩ | ⟨b, hb, hstep⟩
    · rw [hnone, heq]
      rfl
    · have hmoves := (viewable_told hx).moves
        (serviceGuard_told (balanced_of_reach hx) hg hb) hstep
      rw [hb]
      rwa [told, request_queued] at hmoves

/-- Every run is one of the service, in which a member has been told what its client has handled and
is about to handle; and the server gets through the next request exactly if the service does it. -/
theorem refines {x : Chat × Ledger} {p : List ((Chat × Ledger) × Action)}
    (h : kept.Path Located kept.init p x) :
    Runs Service.Step Service.empty (service.trace p) (service.view x) ∧
      (∀ w c u, x.1.conns.find w = some c → x.1.server.user w = .live u →
        ∃ m, (service.view x).member u.userId = some m ∧ m.name = u.nickname ∧
          m.heard = (packetsOf w x.2.handled ++ x.1.incoming w c).filterMap Packet.note) ∧
      ∀ q, Located x .logic → service.label x .logic = some q →
        ((∃ s, x.1.logic = .ok s) ↔ ∃ t, (service.view x).Step q t) := by
  have hreach : kept.Reach Located x := h.reach .init
  have hbalanced := balanced_of_reach hreach
  have hview := viewable_told hreach
  refine ⟨service.runs h, fun w c u hc hu => ?_, fun q hg hq => ?_⟩
  · refine ⟨_, Server.member_of_live hview.orderly hu, rfl, ?_⟩
    rw [← hbalanced.live hc hu, ← packetsFor_flatten]
    rfl
  · constructor
    · rintro ⟨s, hs⟩
      have hstep : system.step x.1 .logic = .ok s := hs
      have hkept : kept.step x .logic = .ok (s, enter x.2 x.1 .logic) :=
        System.withHistory_step.mpr ⟨hstep, rfl⟩
      have hmoves := service.step hreach hg hkept
      rw [hq] at hmoves
      exact ⟨_, hmoves⟩
    · rintro ⟨t, ht⟩
      cases hjobs : x.1.jobQueue with
      | nil => simp [service, serverAction, hjobs] at hq
      | cons package jobQueue =>
        have hrequest : (told x).request (.process package) = some q := by
          simpa [service, serverAction, hjobs, told, request_queued] using hq
        obtain ⟨s, hs⟩ := hview.serves hrequest ht
        obtain ⟨ps, -, hqueued⟩ := Server.step_queued (a := .process package) hs
        have hprocess : x.1.server.process package = .ok _ := hqueued x.1.server.packages
        have hlogic : x.1.logic = x.1.server.process package >>= fun server =>
            return { x.1 with server, jobQueue } := by
          rw [logic, hjobs]
        rw [hlogic, hprocess]
        exact ⟨_, rfl⟩

theorem refines_chat :
    ∃ x p c u, kept.Path Located kept.init p x ∧ x.1.conns.find 0 = some c ∧
      c.client.recvQueue = [.sMulticast [97] [104]] ∧ x.1.server.user 0 = .live u ∧
      Runs Service.Step Service.empty (service.trace p) (service.view x) ∧
      ∃ m, (service.view x).member u.userId = some m ∧ m.name = u.nickname ∧
        m.heard = (packetsOf 0 x.2.handled ++ x.1.incoming 0 c).filterMap Packet.note := by
  have hrun : (kept.runWith (fun x a => x.1.allows Server.locationGuard a) kept.init
      (login 0 [97] ++ pressEnter 0 ++ requests 0 1 ++ replies 0 1 ++ pressEnter 0 ++
        requests 0 1 ++ replies 0 2 ++ enterLine 0 [104] ++ requests 0 1 ++
        [.send, .client 0 .recvThread])).any (fun x => (x.1.conns.find 0).any fun c =>
          decide (c.client.recvQueue = [.sMulticast [97] [104]] ∧
            (x.1.server.user 0).status = some true)) = true := by
    decide +kernel
  obtain ⟨x, hx, hp⟩ := (Option.any_eq_true _ _).mp hrun
  obtain ⟨p, hpath, -⟩ := System.exists_path_of_runWith_from (G := Located) (fun _ _ h => h) hx
  obtain ⟨c, hc, hq⟩ := (Option.any_eq_true _ _).mp hp
  obtain ⟨hq, hstatus⟩ := of_decide_eq_true hq
  obtain ⟨u, hu⟩ := Cell.status_eq_live_iff.mp hstatus
  obtain ⟨hruns, htold, -⟩ := refines hpath
  exact ⟨x, p, c, u, hpath, hc, hq, hu, hruns, htold 0 c u hc hu⟩

end Chat

end ChattingServer.V11
