import Mathlib.Data.List.Perm.Subperm
import Mathlib.Data.List.TakeWhile
import ChattingServer.V11.Client.Client
import ChattingServer.V11.Server.Outgoing

namespace ChattingServer.V11

open Lib

namespace LobbyDisplay

def row (d : LobbyDisplay) : Int := d.cursorIndex.toInt - lowerLimit

structure OnRow (d : LobbyDisplay) : Prop where
  nonneg : 0 ≤ d.row
  le : d.row ≤ d.chatRooms.length
  short : d.chatRooms.length < 255

theorem row_cursorDown {d : LobbyDisplay} (h : d.OnRow) :
    d.cursorDown.row = min (d.row + 1) d.chatRooms.length := by
  have hn := h.nonneg
  have hl := h.le
  have hs := h.short
  have hsucc : (d.cursorIndex + 1).toInt = d.cursorIndex.toInt + 1 := by
    rw [Int16.toInt_add]
    apply Int.bmod_eq_of_le <;> simp only [row, lowerLimit] at hn hl <;>
      simp only [Int16.toInt_one] <;> omega
  simp only [row, cursorDown, lowerLimit, hsucc] at hn hl ⊢
  rw [Int16.toInt_ofInt_of_le] <;> omega

theorem row_cursorUp {d : LobbyDisplay} (h : d.OnRow) : d.cursorUp.row = max (d.row - 1) 0 := by
  have hn := h.nonneg
  have hl := h.le
  have hs := h.short
  have hpred : (d.cursorIndex - 1).toInt = d.cursorIndex.toInt - 1 := by
    rw [Int16.toInt_sub]
    apply Int.bmod_eq_of_le <;> simp only [row, lowerLimit] at hn hl <;>
      simp only [Int16.toInt_one] <;> omega
  simp only [row, cursorUp, lowerLimit, hpred] at hn hl ⊢
  rw [Int16.toInt_ofInt_of_le] <;> omega

theorem OnRow.cursorDown {d : LobbyDisplay} (h : d.OnRow) : d.cursorDown.OnRow := by
  have hn := h.nonneg
  refine ⟨?_, ?_, h.short⟩
  · rw [row_cursorDown h]
    omega
  · rw [row_cursorDown h]
    exact Int.min_le_right ..

theorem OnRow.cursorUp {d : LobbyDisplay} (h : d.OnRow) : d.cursorUp.OnRow := by
  have hl := h.le
  refine ⟨?_, ?_, h.short⟩
  · rw [row_cursorUp h]
    exact Int.le_max_right ..
  · rw [row_cursorUp h]
    simp only [LobbyDisplay.cursorUp]
    omega

def InRow (console : Console) (name : Str) : Prop := console.breaks (roomLine name) = 0

instance (console : Console) (name : Str) : Decidable (InRow console name) :=
  inferInstanceAs (Decidable (_ = 0))

theorem not_inRow_of_mem {console : Console} {name : Str} (h0 : 0 ∉ name) (h : lineFeed ∈ name) :
    ¬ InRow console name := by
  have hcstr : name.takeWhile (· ≠ 0) = name :=
    List.takeWhile_eq_self_iff.mpr fun b hb => decide_eq_true (ne_of_mem_of_not_mem hb h0)
  refine Nat.ne_of_gt (console.breaks_pos_of_mem ?_)
  rw [roomLine, hcstr]
  exact List.mem_append_right _ h

theorem inRow_ofWidth_iff {width : Nat} {name : Str} (hw : 0 < width) (h : ∀ b ∈ name, 32 ≤ b) :
    InRow (.ofWidth width) name ↔ checkBox.length + name.length < width := by
  have hcstr : name.takeWhile (· ≠ 0) = name := by
    refine List.takeWhile_eq_self_iff.mpr fun b hb => decide_eq_true ?_
    rintro rfl
    exact absurd (h 0 hb) (by decide)
  rw [InRow, roomLine, hcstr, Console.breaks_ofWidth hw, List.length_append]
  intro b hb
  rcases List.mem_append.mp hb with hb | hb
  · exact of_decide_eq_true (List.all_eq_true.mp (by decide : checkBox.all (32 ≤ ·)) b hb)
  · exact h b hb

theorem createLine_drawLines {console : Console} {y : Nat} {names : List Str} {line : Line}
    (h : line ∈ drawLines console ⟨0, y⟩ names) (hnone : line.chatRoom = none) :
    y + names.length ≤ line.first.y ∧
      (line.first.y = y + names.length ↔ ∀ name ∈ names, InRow console name) := by
  induction names generalizing y with
  | nil =>
    rw [drawLines, List.mem_singleton] at h
    subst h
    exact ⟨Nat.le_refl _, iff_of_true rfl (List.forall_mem_nil _)⟩
  | cons name names ih =>
    simp only [drawLines, console.printf_line, List.mem_cons] at h
    rcases h with rfl | h
    · contradiction
    · obtain ⟨hle, hiff⟩ := ih h
      rw [List.forall_mem_cons, ← hiff, InRow, List.length_cons]
      omega

theorem exists_createLine (console : Console) (c : Coord) (names : List Str) :
    ∃ line ∈ drawLines console c names, line.chatRoom = none := by
  induction names generalizing c with
  | nil => exact ⟨_, List.mem_singleton_self _, rfl⟩
  | cons name names ih =>
    obtain ⟨line, hline, hnone⟩ := ih (console.printf c (roomLine name ++ [lineFeed]))
    exact ⟨line, List.mem_cons_of_mem _ hline, hnone⟩

theorem roomLine_drawLines {console : Console} {y : Nat} {names : List Str} {line : Line}
    {name : Str} (hrow : ∀ name ∈ names, InRow console name)
    (h : line ∈ drawLines console ⟨0, y⟩ names) (hname : line.chatRoom = some name) :
    ∃ i, names[i]? = some name ∧ line.first.y = y + i ∧ line.next.y = y + i + 1 := by
  induction names generalizing y with
  | nil =>
    rw [drawLines, List.mem_singleton] at h
    subst h
    contradiction
  | cons v names ih =>
    obtain ⟨hv, hrest⟩ := List.forall_mem_cons.mp hrow
    simp only [drawLines, console.printf_line, List.mem_cons] at h
    rw [InRow] at hv
    rw [hv, Nat.add_zero] at h
    rcases h with rfl | h
    · exact ⟨0, congrArg some (Option.some.inj hname), rfl, rfl⟩
    · obtain ⟨i, hi, hfirst, hnext⟩ := ih hrest h
      exact ⟨i + 1, hi, by omega, by omega⟩

end LobbyDisplay

abbrev viewer : UserPtr := 0

/-- The rooms of the server, a client that stays in the lobby, and the lists under way to it. -/
structure Lobby where
  server : Server
  client : Client

namespace Lobby

inductive Action
  | createRoom (uid : UInt32) (roomName : Str)
  | sendRoomListToOne
  | receive
  | cursorUp
  | cursorDown

def init : Lobby where
  server := Server.pushIntoLobby
    { Server.init.setUser viewer (.live ⟨⟨some 0, 1⟩, 1, none, []⟩) with
      userList := StdMap.empty.insert 1 viewer
      userId := 2 } viewer
  client := Client.init.fServerEnterOk 1

/-- The send thread takes the next package, and one `recv` of the client returns its bytes.  A
package without a session is passed over. -/
def receive (s : Lobby) : Except StreamFault Lobby :=
  match s.server.packages with
  | [] => .ok s
  | package :: packages =>
    let s := { s with server := { s.server with packages } }
    if package.session = some viewer then do
      let packet ← onRecv ((serverWire package.packet).take sockbufSize)
      return { s with client := s.client.recvProcess .login packet }
    else .ok s

def moveCursor (s : Lobby) (move : LobbyDisplay → LobbyDisplay) : Lobby :=
  { s with client := s.client.moveCursor s.client.displayId move }

def step (s : Lobby) : Action → Except StreamFault Lobby
  | .createRoom uid roomName => .ok { s with server := s.server.createRoom uid roomName }
  | .sendRoomListToOne => .ok { s with server := s.server.sendRoomListToOne (some viewer) }
  | .receive => s.receive
  | .cursorUp => .ok (s.moveCursor LobbyDisplay.cursorUp)
  | .cursorDown => .ok (s.moveCursor LobbyDisplay.cursorDown)

def system : System Lobby Action StreamFault where
  init := init
  step := step

/-- Room names are nonempty and free of NULs, and the list that is sent fits the buffer. -/
def allows (s : Lobby) : Action → Bool
  | .createRoom _ roomName => roomName ≠ [] ∧ 0 ∉ roomName
  | .receive => s.server.packages.head?.all fun package =>
    decide (package.packet.encoding.length ≤ sockbufSize)
  | _ => true

end Lobby

namespace Server

structure Numbered (s : Server) : Prop where
  roomId : ∀ {i r}, s.getRoom i = some r → (s.room r).roomId = i
  named : ∀ {i r}, s.getRoom i = some r → (s.room r).roomName ≠ []
  dense : ∀ {i}, i ≠ 0 → i < s.roomId ∨ s.roomId = 0 ∨ s.getRoom 0 ≠ none → s.getRoom i ≠ none
  full : s.getRoom 0 ≠ none → ∀ i, s.getRoom i ≠ none

theorem getRoom_newRoom_ne_none {s : Server} {roomName : Str} {i : UInt16} :
    (s.newRoom roomName).getRoom i ≠ none ↔ i = s.roomId ∨ s.getRoom i ≠ none := by
  simp only [getRoom, newRoom]
  cases h : s.roomList.find s.roomId with
  | none =>
    rw [StdMap.find_insert_of_none h]
    by_cases hi : i = s.roomId
    · simp [hi]
    · simp [hi, Ne.symm hi]
  | some r =>
    rw [StdMap.insert_of_some h]
    by_cases hi : i = s.roomId <;> simp [hi, h]

theorem Registry.room_newRoom {s : Server} (h : Registry s) {i : UInt16} {r : RoomPtr}
    (hr : s.getRoom i = some r) (roomName : Str) :
    (s.newRoom roomName).getRoom i = some r ∧ (s.newRoom roomName).room r = s.room r :=
  ⟨StdMap.find_insert_of_some hr .., Function.update_of_ne (h.room hr).ne ..⟩

theorem Numbered.newRoom {s : Server} (h : Numbered s) (hreg : Registry s) {roomName : Str}
    (hname : roomName ≠ []) : Numbered (s.newRoom roomName) := by
  have hroom : ∀ {i r}, (s.newRoom roomName).getRoom i = some r →
      s.getRoom i = some r ∨ r = s.nextRoom ∧ i = s.roomId := by
    intro i r hr
    exact (StdMap.find_of_find_insert hr).imp_right fun hnew => ⟨hnew.1, hnew.2.1⟩
  have hnew : (s.newRoom roomName).room s.nextRoom = ⟨s.roomId, roomName, .empty⟩ :=
    Function.update_self ..
  have hsucc : (s.newRoom roomName).roomId = s.roomId + 1 := rfl
  have hdense : ∀ {i}, i ≠ 0 → i < s.roomId + 1 ∨ s.roomId + 1 = 0 ∨ s.roomId = 0 ∨
      s.getRoom 0 ≠ none → i = s.roomId ∨ s.getRoom i ≠ none := by
    intro i hi hcase
    by_cases hid : i = s.roomId
    · exact .inl hid
    · refine .inr (h.dense hi ?_)
      rcases hcase with hlt | hwrap | hzero
      · left
        rw [UInt16.lt_iff_toNat_lt, UInt16.toNat_add] at *
        rw [← UInt16.toNat_inj] at hid
        have := s.roomId.toNat_lt
        simp at hlt
        omega
      · left
        rw [UInt16.lt_iff_toNat_lt]
        rw [← UInt16.toNat_inj] at hid hwrap
        rw [UInt16.toNat_add] at hwrap
        have := s.roomId.toNat_lt
        have := i.toNat_lt
        simp at hwrap
        omega
      · exact .inr hzero
  refine ⟨fun hr => ?_, fun hr => ?_, fun {i} hi hcase => ?_, fun hzero i => ?_⟩
  · rcases hroom hr with hr | ⟨rfl, rfl⟩
    · rw [(hreg.room_newRoom hr roomName).2]
      exact h.roomId hr
    · rw [hnew]
  · rcases hroom hr with hr | ⟨rfl, rfl⟩
    · rw [(hreg.room_newRoom hr roomName).2]
      exact h.named hr
    · rw [hnew]
      exact hname
  · rw [hsucc, getRoom_newRoom_ne_none, eq_comm (a := 0)] at hcase
    exact getRoom_newRoom_ne_none.mpr (hdense hi hcase)
  · rw [getRoom_newRoom_ne_none, eq_comm] at hzero
    rw [getRoom_newRoom_ne_none]
    by_cases hi : i = 0
    · subst hi
      exact hzero.imp_left Eq.symm
    · exact hdense hi (.inr (.inr hzero))

theorem Numbered.queue {s : Server} (h : Numbered s) (packages : List SendPackage) :
    Numbered { s with packages } :=
  ⟨h.roomId, h.named, h.dense, h.full⟩

structure Listing (s : Server) (ids : List UInt16) (names : List Str) : Prop where
  rooms : List.Forall₂ (fun id name => ∃ r, s.getRoom id = some r ∧ (s.room r).roomName = name)
    ids names
  positive : 0 ∈ ids → 255 ≤ names.length

theorem Listing.length_eq {s : Server} {ids : List UInt16} {names : List Str}
    (h : s.Listing ids names) : ids.length = names.length :=
  h.rooms.length_eq

theorem Listing.exists_room {s : Server} {ids : List UInt16} {names : List Str}
    (h : s.Listing ids names) {i : Nat} {name : Str} (hi : names[i]? = some name) :
    ∃ id r, ids[i]? = some id ∧ s.getRoom id = some r ∧ (s.room r).roomName = name := by
  obtain ⟨hlt, rfl⟩ := List.getElem?_eq_some_iff.mp hi
  have hlt' : i < ids.length := h.length_eq ▸ hlt
  obtain ⟨r, hr, hname⟩ := (List.forall₂_iff_get.mp h.rooms).2 i hlt' hlt
  exact ⟨ids[i], r, List.getElem?_eq_getElem hlt', hr, hname⟩

theorem Listing.newRoom {s : Server} {ids : List UInt16} {names : List Str}
    (h : s.Listing ids names) (hreg : Registry s) (roomName : Str) :
    (s.newRoom roomName).Listing ids names := by
  refine ⟨h.rooms.imp fun id name => ?_, h.positive⟩
  rintro ⟨r, hr, hname⟩
  obtain ⟨hr', hsame⟩ := hreg.room_newRoom hr roomName
  exact ⟨r, hr', by rw [hsame, hname]⟩

theorem Listing.queue {s : Server} {ids : List UInt16} {names : List Str}
    (h : s.Listing ids names) (packages : List SendPackage) :
    Listing { s with packages } ids names :=
  ⟨h.rooms, h.positive⟩

theorem Numbered.le_size {s : Server} (h : Numbered s) (hzero : s.getRoom 0 ≠ none) :
    255 ≤ s.roomList.size := by
  have hsub : (List.range 255).map UInt16.ofNat ⊆ s.roomList.entries.map Prod.fst := by
    intro i _
    obtain ⟨r, hr⟩ := Option.ne_none_iff_exists'.mp (h.full hzero i)
    exact List.mem_map.mpr ⟨(i, r), StdMap.mem_entries_iff.mpr hr, rfl⟩
  have hnodup : ((List.range 255).map UInt16.ofNat).Nodup := by
    apply List.Nodup.map_on _ List.nodup_range
    intro m hm n hn heq
    rw [List.mem_range] at hm hn
    have hsize : UInt16.size = 65536 := rfl
    have := congrArg UInt16.toNat heq
    rwa [UInt16.toNat_ofNat_of_lt' (by omega), UInt16.toNat_ofNat_of_lt' (by omega)] at this
  simpa [StdMap.size] using (List.subperm_of_subset hnodup hsub).length_le

theorem Numbered.listing {s : Server} (h : Numbered s) :
    s.Listing ((s.roomList.values.map s.room).map (·.roomId))
      ((s.roomList.values.map s.room).map (·.roomName)) where
  rooms := by
    rw [List.forall₂_map_left_iff, List.forall₂_map_right_iff, List.forall₂_same]
    intro x hx
    obtain ⟨r, hr, rfl⟩ := List.mem_map.mp hx
    obtain ⟨i, hi⟩ := StdMap.mem_values_iff.mp hr
    exact ⟨r, by rw [h.roomId hi]; exact hi, rfl⟩
  positive := by
    simp only [List.mem_map, List.length_map]
    rintro ⟨_, ⟨r, hr, rfl⟩, hzero⟩
    obtain ⟨i, hi⟩ := StdMap.mem_values_iff.mp hr
    have hsize := h.le_size (by rw [← hzero, h.roomId hi, getRoom, hi]; nofun)
    simpa [StdMap.values, StdMap.size] using hsize

structure Listed (s : Server) (p : Packet) : Prop where
  outgoing : Outgoing p
  list : ∃ count ids, p = .sLobbyRoomInfo count ids p.strings ∧ s.Listing ids p.strings
  le : p.strings.length ≤ s.roomList.size

theorem Listed.newRoom {s : Server} {p : Packet} (h : s.Listed p) (hreg : Registry s)
    (roomName : Str) : (s.newRoom roomName).Listed p where
  outgoing := h.outgoing
  list := by
    obtain ⟨count, ids, heq, hlist⟩ := h.list
    exact ⟨count, ids, heq, hlist.newRoom hreg roomName⟩
  le := h.le.trans (StdMap.size_le_insert ..)

theorem Listed.queue {s : Server} {p : Packet} (h : s.Listed p) (packages : List SendPackage) :
    Listed { s with packages } p where
  outgoing := h.outgoing
  list := by
    obtain ⟨count, ids, heq, hlist⟩ := h.list
    exact ⟨count, ids, heq, hlist.queue packages⟩
  le := h.le

theorem Numbered.listed {s : Server} (h : Numbered s) (hw : Wellspelled s) :
    s.Listed s.roomListPacket where
  outgoing := outgoing_roomListPacket hw
  list := ⟨_, _, rfl, h.listing⟩
  le := by simp [roomListPacket, Packet.strings, StdMap.values, StdMap.size]

theorem Listed.names_ne {s : Server} {p : Packet} (h : s.Listed p) (hn : Numbered s) :
    ∀ v ∈ p.strings, v ≠ [] := by
  intro v hv
  obtain ⟨count, ids, -, hlist⟩ := h.list
  obtain ⟨i, hi⟩ := List.getElem?_of_mem hv
  obtain ⟨id, r, -, hr, rfl⟩ := hlist.exists_room hi
  exact hn.named hr

theorem Listed.onRecv {s : Server} {p : Packet} (h : s.Listed p) (hn : Numbered s)
    (hfit : p.encoding.length ≤ sockbufSize) :
    onRecv ((serverWire p).take sockbufSize) = .ok p := by
  refine (delivered_iff h.outgoing).mpr ⟨h.names_ne hn, by omega, ?_⟩
  rw [List.drop_of_length_le hfit]
  exact List.forall_mem_nil _

theorem length_flatMap_str {names : List Str} (h : ∀ v ∈ names, v ≠ []) :
    2 * names.length ≤ (names.flatMap Packet.str).length := by
  induction names with
  | nil => exact Nat.zero_le _
  | cons v names ih =>
    have hpos := List.length_pos_iff.mpr (h v List.mem_cons_self)
    have := ih fun w hw => h w (List.mem_cons_of_mem _ hw)
    rw [List.flatMap_cons, List.length_append, Packet.length_str, List.length_cons]
    omega

theorem Listed.short {s : Server} {p : Packet} (h : s.Listed p) (hn : Numbered s)
    (hfit : p.encoding.length ≤ sockbufSize) : p.strings.length < 255 := by
  obtain ⟨count, ids, heq, hlist⟩ := h.list
  have hnames := length_flatMap_str (h.names_ne hn)
  have hids : (ids.flatMap Packet.u16).length = 2 * ids.length := by
    rw [List.length_flatMap]
    simp [Nat.mul_comm]
  have hlen := hlist.length_eq
  rw [Packet.length_encoding, heq, Packet.counted, Packet.payload, List.length_append,
    List.length_append, Packet.length_u16, hids] at hfit
  simp only [sockbufSize] at hfit
  omega

end Server

namespace Lobby

structure Shown (s : Lobby) (d : LobbyDisplay) : Prop where
  registry : Server.Registry s.server
  spelled : Server.Wellspelled s.server
  numbered : Server.Numbered s.server
  display : s.client.display = .lobby d
  listing : s.server.Listing d.chatRoomIds d.chatRooms
  onRow : d.OnRow
  listed : ∀ package ∈ s.server.packages, s.server.Listed package.packet
  grows : (d.chatRooms.length :: s.server.packages.map (·.packet.strings.length)).Pairwise (· ≤ ·)
  le : d.chatRooms.length ≤ s.server.roomList.size

theorem shown_init : Shown init .new where
  registry := Server.registry_init.accept rfl .connected
  spelled := by
    have h := Server.wellspelled_init.setUser viewer (.live ⟨⟨some 0, 1⟩, 1, none, []⟩)
      (by rintro _ ⟨⟩; exact .inl rfl)
    exact ⟨h.nickname, h.roomName, h.packages⟩
  numbered := by
    refine ⟨nofun, nofun, fun {i} hi hcase => ?_, fun hzero => absurd rfl hzero⟩
    rcases hcase with hlt | hwrap | hzero
    · rw [UInt16.lt_iff_toNat_lt] at hlt
      rw [Ne, ← UInt16.toNat_inj] at hi
      simp [init, Server.init, Server.pushIntoLobby, Server.setUser] at hlt
      exact absurd hlt hi
    · exact absurd hwrap (by decide)
    · exact absurd rfl hzero
  display := rfl
  listing := ⟨.nil, nofun⟩
  onRow := ⟨by decide, by decide, by decide⟩
  listed := nofun
  grows := List.pairwise_singleton ..
  le := Nat.zero_le _

theorem Shown.sendRoomListToOne {s : Lobby} {d : LobbyDisplay} (h : s.Shown d)
    (session : Option UserPtr) :
    Shown { s with server := s.server.sendRoomListToOne session } d where
  registry := h.registry.pushPackages _
  spelled := h.spelled.sendRoomListToOne session
  numbered := h.numbered.queue _
  display := h.display
  listing := h.listing.queue _
  onRow := h.onRow
  listed package hp := by
    rcases List.mem_append.mp hp with hp | hp
    · exact (h.listed package hp).queue _
    · rw [List.mem_singleton.mp hp]
      exact (h.numbered.listed h.spelled).queue _
  grows := by
    have hlast : (s.server.roomListPacket).strings.length = s.server.roomList.size := by
      simp [Server.roomListPacket, Packet.strings, StdMap.values, StdMap.size]
    simp only [Server.sendRoomListToOne, Server.pushPackages, List.map_append, ← List.cons_append]
    refine List.pairwise_append.mpr ⟨h.grows, List.pairwise_singleton .., ?_⟩
    intro n hn m hm
    rw [List.mem_singleton.mp hm]
    refine (?_ : n ≤ s.server.roomList.size).trans_eq hlast.symm
    rcases List.mem_cons.mp hn with rfl | hn
    · exact h.le
    · obtain ⟨package, hp, rfl⟩ := List.mem_map.mp hn
      exact (h.listed package hp).le
  le := h.le

theorem Shown.newRoom {s : Lobby} {d : LobbyDisplay} (h : s.Shown d) {roomName : Str}
    (hne : roomName ≠ []) (h0 : 0 ∉ roomName) :
    Shown { s with server := s.server.newRoom roomName } d where
  registry := h.registry.newRoom roomName
  spelled := h.spelled.newRoom (.inr ⟨hne, fun hmem => h0 (List.mem_of_mem_tail hmem)⟩)
  numbered := h.numbered.newRoom h.registry hne
  display := h.display
  listing := h.listing.newRoom h.registry roomName
  onRow := h.onRow
  listed package hp := (h.listed package hp).newRoom h.registry roomName
  grows := h.grows
  le := h.le.trans (StdMap.size_le_insert ..)

theorem Shown.pop {s : Lobby} {d : LobbyDisplay} (h : s.Shown d) {package : SendPackage}
    {packages : List SendPackage} (hq : s.server.packages = package :: packages) :
    Shown { s with server := { s.server with packages } } d where
  registry := h.registry.queue packages _
  spelled := ⟨h.spelled.nickname, h.spelled.roomName, fun pkg hp =>
    h.spelled.packages pkg (hq ▸ List.mem_cons_of_mem _ hp)⟩
  numbered := h.numbered.queue _
  display := h.display
  listing := h.listing.queue _
  onRow := h.onRow
  listed pkg hp := (h.listed pkg (hq ▸ List.mem_cons_of_mem _ hp)).queue _
  grows := by
    have := h.grows
    rw [hq] at this
    exact this.sublist (.cons_cons _ (List.sublist_cons_self ..))
  le := h.le

theorem Shown.setRoomList {s : Lobby} {d : LobbyDisplay} (h : s.Shown d) {p : Packet}
    (hp : s.server.Listed p) (hfit : p.encoding.length ≤ sockbufSize)
    (hgrows : (p.strings.length :: s.server.packages.map (·.packet.strings.length)).Pairwise
      (· ≤ ·)) (hle : d.chatRooms.length ≤ p.strings.length) :
    ∃ d', Shown { s with client := s.client.recvProcess .login p } d' := by
  obtain ⟨count, ids, heq, hlist⟩ := hp.list
  have hshort := hp.short h.numbered hfit
  have hsize := hp.le
  generalize p.strings = names at heq hlist hshort hsize hgrows hle
  subst heq
  change ∃ d', Shown { s with client := s.client.fLobbyRoomInfo .login count ids names } d'
  rw [Client.fLobbyRoomInfo]
  split
  · exact ⟨d, h⟩
  · refine ⟨d.setRoomList ids names, h.registry, h.spelled, h.numbered, ?_, hlist,
      ⟨h.onRow.nonneg, h.onRow.le.trans (Int.ofNat_le.mpr hle), hshort⟩, h.listed, hgrows, hsize⟩
    simp [Client.onLobbyDisplay, h.display]

theorem Shown.receive {s s' : Lobby} {d : LobbyDisplay} (h : s.Shown d)
    (hg : s.allows .receive = true) (hs : s.receive = .ok s') : ∃ d', Shown s' d' := by
  unfold Lobby.receive at hs
  split at hs
  · cases hs
    exact ⟨d, h⟩
  · rename_i package packages hq
    have hpop := h.pop hq
    have hlisted := h.listed package (hq ▸ List.mem_cons_self)
    have hfit : package.packet.encoding.length ≤ sockbufSize := by simpa [allows, hq] using hg
    have hgrows := h.grows
    rw [hq] at hgrows
    obtain ⟨hall, hrest⟩ := List.pairwise_cons.mp hgrows
    split at hs
    · rw [hlisted.onRecv h.numbered hfit] at hs
      cases hs
      exact hpop.setRoomList (hlisted.queue _) hfit hrest (hall _ List.mem_cons_self)
    · cases hs
      exact ⟨d, hpop⟩

theorem Shown.moveCursor {s : Lobby} {d : LobbyDisplay} (h : s.Shown d)
    {move : LobbyDisplay → LobbyDisplay} (hrooms : (move d).chatRooms = d.chatRooms)
    (hids : (move d).chatRoomIds = d.chatRoomIds) (hrow : (move d).OnRow) :
    Shown (s.moveCursor move) (move d) where
  registry := h.registry
  spelled := h.spelled
  numbered := h.numbered
  display := by simp [Lobby.moveCursor, Client.moveCursor, h.display]
  listing := by
    rw [hrooms, hids]
    exact h.listing
  onRow := hrow
  listed := h.listed
  grows := by
    rw [hrooms]
    exact h.grows
  le := by
    rw [hrooms]
    exact h.le

theorem Shown.step {s s' : Lobby} {d : LobbyDisplay} (h : s.Shown d) {a : Action}
    (hg : s.allows a = true) (hs : s.step a = .ok s') : ∃ d', Shown s' d' := by
  cases a with
  | createRoom uid roomName =>
    cases hs
    simp only [allows, decide_eq_true_eq] at hg
    exact ⟨d, (h.newRoom hg.1 hg.2).sendRoomListToOne _⟩
  | sendRoomListToOne =>
    cases hs
    exact ⟨d, h.sendRoomListToOne _⟩
  | receive => exact h.receive hg hs
  | cursorUp =>
    cases hs
    exact ⟨_, h.moveCursor rfl rfl h.onRow.cursorUp⟩
  | cursorDown =>
    cases hs
    exact ⟨_, h.moveCursor rfl rfl h.onRow.cursorDown⟩

theorem shown_of_reach {s : Lobby} (h : system.Reach (fun s a => s.allows a = true) s) :
    ∃ d, Shown s d := by
  refine h.invariant (P := fun s => ∃ d, Shown s d) ⟨_, shown_init⟩ fun s a s' _ hd hg hs => ?_
  obtain ⟨d, hd⟩ := hd
  exact hd.step hg hs

theorem Shown.step_ok {s : Lobby} {d : LobbyDisplay} (h : s.Shown d) {a : Action}
    (hg : s.allows a = true) : ∃ s', s.step a = .ok s' := by
  cases a with
  | receive =>
    simp only [Lobby.step, Lobby.receive]
    split
    · exact ⟨_, rfl⟩
    · rename_i package packages hq
      have hfit : package.packet.encoding.length ≤ sockbufSize := by simpa [allows, hq] using hg
      have hok := (h.listed package (hq ▸ List.mem_cons_self)).onRecv h.numbered hfit
      split
      · simp [hok]
      · exact ⟨_, rfl⟩
  | createRoom | sendRoomListToOne | cursorUp | cursorDown => exact ⟨_, rfl⟩

/-- What the selection is good for, with the list as it stands on the screen. -/
structure Selects (console : Console) (s : Server) (d : LobbyDisplay) : Prop where
  inRange : d.getSelection ≠ none
  room : ∀ line ∈ d.drawList console, ∀ name, line.chatRoom = some name →
    line.first.y ≤ d.cursorIndex.toInt → d.cursorIndex.toInt < line.next.y →
    ∃ id r, d.getSelection = some id ∧ s.getRoom id = some r ∧ (s.room r).roomName = name
  create : ∀ line ∈ d.drawList console, line.chatRoom = none →
    (d.getSelection = some 0 ↔ d.cursorIndex.toInt = line.first.y)

def Selecting (console : Console) (s : Lobby) : Prop :=
  ∃ d, s.client.display = .lobby d ∧ Selects console s.server d

def chatRooms (s : Lobby) : List Str :=
  match s.client.display with
  | .lobby d => d.chatRooms
  | _ => []

def Action.Press : Action → Prop
  | .cursorUp | .cursorDown => True
  | _ => False

def Action.InRow (console : Console) : Action → Prop
  | .createRoom _ roomName => LobbyDisplay.InRow console roomName
  | _ => True

instance (console : Console) (a : Action) : Decidable (a.InRow console) := by
  cases a <;> unfold Action.InRow <;> infer_instance

theorem Shown.chatRooms_eq {s : Lobby} {d : LobbyDisplay} (h : s.Shown d) :
    s.chatRooms = d.chatRooms := by
  rw [chatRooms, h.display]

theorem Shown.selecting {console : Console} {s : Lobby} {d : LobbyDisplay} (h : s.Shown d) :
    s.Selecting console ↔ Selects console s.server d := by
  refine ⟨?_, fun hsel => ⟨d, h.display, hsel⟩⟩
  rintro ⟨d', hd', hsel⟩
  obtain rfl := Display.lobby.inj (h.display.symm.trans hd')
  exact hsel

theorem Shown.getSelection_cases {s : Lobby} {d : LobbyDisplay} (h : s.Shown d) :
    d.row = d.chatRooms.length ∧ d.getSelection = some 0 ∨
      d.row < d.chatRooms.length ∧ ∃ id r, d.getSelection = some id ∧ id ≠ 0 ∧
        s.server.getRoom id = some r ∧
        d.chatRooms[d.row.toNat]? = some (s.server.room r).roomName := by
  have hn := h.onRow.nonneg
  have hle := h.onRow.le
  by_cases hlast : d.row = d.chatRooms.length
  · exact .inl ⟨hlast, if_pos hlast⟩
  · have hlt : d.row.toNat < d.chatRooms.length := by omega
    have hname := List.getElem?_eq_getElem hlt
    obtain ⟨id, r, hid, hr, hroom⟩ := h.listing.exists_room hname
    refine .inr ⟨by omega, id, r, ?_, ?_, hr, by rw [hname, hroom]⟩
    · rw [← hid]
      exact (if_neg hlast).trans (if_neg (Int.not_lt.mpr hn))
    · rintro rfl
      have := h.listing.positive (List.mem_of_getElem? hid)
      have := h.onRow.short
      omega

theorem Shown.inRange {s : Lobby} {d : LobbyDisplay} (h : s.Shown d) : d.getSelection ≠ none := by
  rcases h.getSelection_cases with ⟨-, hsel⟩ | ⟨-, id, r, hsel, -⟩ <;> simp [hsel]

theorem Shown.selects {console : Console} {s : Lobby} {d : LobbyDisplay} (h : s.Shown d)
    (hrow : ∀ name ∈ d.chatRooms, LobbyDisplay.InRow console name) :
    Selects console s.server d := by
  have hn := h.onRow.nonneg
  have hle := h.onRow.le
  have hlimit : LobbyDisplay.lowerLimit.toNat = 4 := rfl
  have hindex : d.cursorIndex.toInt = 4 + d.row := by
    simp only [LobbyDisplay.row, LobbyDisplay.lowerLimit]
    omega
  refine ⟨h.inRange, fun line hline name hname hfirst hnext => ?_, fun line hline hnone => ?_⟩
  · obtain ⟨i, hi, habove, hbelow⟩ := LobbyDisplay.roomLine_drawLines hrow hline hname
    obtain rfl : i = d.row.toNat := by omega
    rcases h.getSelection_cases with ⟨hlast, -⟩ | ⟨-, id, r, hsel, -, hr, hroom⟩
    · have := (List.getElem?_eq_some_iff.mp hi).1
      omega
    · exact ⟨id, r, hsel, hr, Option.some.inj (hroom.symm.trans hi)⟩
  · have hfirst := (LobbyDisplay.createLine_drawLines hline hnone).2.mpr hrow
    rcases h.getSelection_cases with ⟨hlast, hsel⟩ | ⟨hlt, id, r, hsel, hid, -⟩
    · exact iff_of_true hsel (by omega)
    · exact iff_of_false (fun heq => hid (Option.some.inj (hsel.symm.trans heq))) (by omega)

theorem Selects.inRow {console : Console} {s : Server} {d : LobbyDisplay}
    (h : Selects console s d) (hlast : d.row = d.chatRooms.length) :
    ∀ name ∈ d.chatRooms, LobbyDisplay.InRow console name := by
  obtain ⟨line, hline, hnone⟩ :=
    LobbyDisplay.exists_createLine console ⟨0, LobbyDisplay.lowerLimit.toNat⟩ d.chatRooms
  have hcursor := (h.create line hline hnone).mp (if_pos hlast)
  have hlimit : LobbyDisplay.lowerLimit.toNat = 4 := rfl
  refine (LobbyDisplay.createLine_drawLines hline hnone).2.mp ?_
  simp only [LobbyDisplay.row, LobbyDisplay.lowerLimit] at hlast
  omega

theorem Shown.press {s s' : Lobby} {d : LobbyDisplay} (h : s.Shown d) {a : Action} (ha : a.Press)
    (hs : s.step a = .ok s') : ∃ d', Shown s' d' ∧ d'.chatRooms = d.chatRooms := by
  cases a with
  | cursorUp =>
    cases hs
    exact ⟨_, h.moveCursor rfl rfl h.onRow.cursorUp, rfl⟩
  | cursorDown =>
    cases hs
    exact ⟨_, h.moveCursor rfl rfl h.onRow.cursorDown, rfl⟩
  | createRoom | sendRoomListToOne | receive => exact ha.elim

theorem Shown.presses {s s' : Lobby} {d : LobbyDisplay} (h : s.Shown d) {presses : List Action}
    (hp : ∀ a ∈ presses, a.Press) (hs : system.run s presses = some s') :
    ∃ d', Shown s' d' ∧ d'.chatRooms = d.chatRooms := by
  induction presses generalizing s d with
  | nil =>
    cases hs
    exact ⟨d, h, rfl⟩
  | cons a presses ih =>
    obtain ⟨ha, hp⟩ := List.forall_mem_cons.mp hp
    obtain ⟨t, ht, hs⟩ := System.run_cons.mp hs
    obtain ⟨d', hd', hsame⟩ := h.press ha ht
    obtain ⟨d'', hd'', hsame'⟩ := ih hd' hp hs
    exact ⟨d'', hd'', hsame'.trans hsame⟩

theorem Shown.cursorDowns {s : Lobby} {d : LobbyDisplay} (h : s.Shown d) (n : Nat) :
    ∃ s' d', system.run s (List.replicate n .cursorDown) = some s' ∧ Shown s' d' ∧
      d'.chatRooms = d.chatRooms ∧ d'.row = min (d.row + n) d.chatRooms.length := by
  induction n generalizing s d with
  | zero => exact ⟨s, d, rfl, h, rfl, by have := h.onRow.le; omega⟩
  | succ n ih =>
    have hdown : Shown (s.moveCursor LobbyDisplay.cursorDown) d.cursorDown :=
      h.moveCursor rfl rfl h.onRow.cursorDown
    obtain ⟨s', d', hs', hd', hsame, hrow⟩ := ih hdown
    refine ⟨s', d', System.run_cons.mpr ⟨_, rfl, hs'⟩, hd', hsame, ?_⟩
    rw [hrow, LobbyDisplay.row_cursorDown h.onRow]
    simp only [LobbyDisplay.cursorDown]
    omega

def NamesInRow (console : Console) (s : Lobby) : Prop :=
  ∀ {i r}, s.server.getRoom i = some r → LobbyDisplay.InRow console (s.server.room r).roomName

theorem NamesInRow.step {console : Console} {s s' : Lobby} {d : LobbyDisplay}
    (h : s.NamesInRow console) (hd : s.Shown d) {a : Action} (ha : a.InRow console)
    (hs : s.step a = .ok s') : s'.NamesInRow console := by
  cases a with
  | createRoom uid roomName =>
    cases hs
    intro i r hr
    rcases StdMap.find_of_find_insert hr with hr | ⟨rfl, -⟩
    · change LobbyDisplay.InRow console ((s.server.newRoom roomName).room r).roomName
      rw [(hd.registry.room_newRoom hr roomName).2]
      exact h hr
    · have hnew : (s.server.newRoom roomName).room s.server.nextRoom =
          ⟨s.server.roomId, roomName, .empty⟩ := Function.update_self ..
      change LobbyDisplay.InRow console ((s.server.newRoom roomName).room _).roomName
      rw [hnew]
      exact ha
  | receive =>
    simp only [Lobby.step, Lobby.receive] at hs
    split at hs
    · cases hs
      exact h
    · split at hs
      · obtain ⟨p, -, hs⟩ := bind_eq_ok_iff.mp hs
        cases hs
        exact h
      · cases hs
        exact h
  | sendRoomListToOne | cursorUp | cursorDown =>
    cases hs
    exact h

theorem namesInRow_init (console : Console) : NamesInRow console init := by
  rintro i r ⟨⟩

theorem inRow_of_reach {console : Console} {s : Lobby}
    (h : system.Reach (fun s a => s.allows a = true ∧ a.InRow console) s) :
    ∃ d, Shown s d ∧ ∀ name ∈ d.chatRooms, LobbyDisplay.InRow console name := by
  have hnames : s.NamesInRow console := by
    refine h.invariant (P := NamesInRow console) (namesInRow_init console) ?_
    intro s a s' hr hn hg hs
    obtain ⟨d, hd⟩ := shown_of_reach (hr.mono fun _ _ hg => hg.1)
    exact hn.step hd hg.2 hs
  obtain ⟨d, hd⟩ := shown_of_reach (h.mono fun _ _ hg => hg.1)
  refine ⟨d, hd, fun name hname => ?_⟩
  obtain ⟨i, hi⟩ := List.getElem?_of_mem hname
  obtain ⟨id, r, -, hr, rfl⟩ := hd.listing.exists_room hi
  exact hnames hr

/-- The client always has a list on display and a selection in its range.  The selection is right
wherever the cursor is put exactly when the rooms on display stay in their rows. -/
theorem selecting_iff (console : Console) {s : Lobby}
    (h : system.Reach (fun s a => s.allows a = true) s) :
    (∃ d, s.client.display = .lobby d ∧ d.getSelection ≠ none) ∧
      (∀ a, s.allows a = true → ∃ s', s.step a = .ok s') ∧
      ((∀ presses s', (∀ a ∈ presses, a.Press) → system.run s presses = some s' →
          s'.Selecting console) ↔
        ∀ name ∈ s.chatRooms, LobbyDisplay.InRow console name) ∧
      (system.Reach (fun s a => s.allows a = true ∧ a.InRow console) s → s.Selecting console) := by
  obtain ⟨d, hd⟩ := shown_of_reach h
  refine ⟨⟨d, hd.display, hd.inRange⟩, fun a hg => hd.step_ok hg, ⟨fun hsel => ?_, ?_⟩, ?_⟩
  · obtain ⟨s', d', hs', hd', hsame, hrow⟩ := hd.cursorDowns d.chatRooms.length
    rw [hd.chatRooms_eq, ← hsame]
    refine (hd'.selecting.mp (hsel _ s' ?_ hs')).inRow ?_
    · intro a ha
      rw [List.eq_of_mem_replicate ha]
      trivial
    · have := hd.onRow.nonneg
      rw [hrow, hsame]
      omega
  · intro hrow presses s' hp hs'
    obtain ⟨d', hd', hsame⟩ := hd.presses hp hs'
    rw [hd.chatRooms_eq, ← hsame] at hrow
    exact hd'.selecting.mpr (hd'.selects hrow)
  · intro hreach
    obtain ⟨d', hd', hrow⟩ := inRow_of_reach hreach
    exact hd'.selecting.mpr (hd'.selects hrow)

theorem selecting_second :
    ∃ s : Lobby, s.client.getSelection s.client.displayId 0 = 2 ∧ s.Selecting (.ofWidth 80) := by
  obtain ⟨s, hs, hp⟩ := System.exists_of_runWith (S := system)
    (G := fun s a => s.allows a = true ∧ a.InRow (.ofWidth 80))
    (g := fun s a => decide (s.allows a = true ∧ a.InRow (.ofWidth 80)))
    (fun _ _ h => of_decide_eq_true h)
    (p := fun s => decide (s.client.getSelection s.client.displayId 0 = 2))
    [.createRoom 1 [97], .createRoom 1 [98], .receive, .cursorDown, .receive, .cursorDown,
      .cursorUp] (by decide +kernel)
  exact ⟨s, of_decide_eq_true hp,
    (selecting_iff (.ofWidth 80) (hs.mono fun _ _ h => h.1)).2.2.2 hs⟩

/-- A room whose name has a line feed, another room, and the cursor as far down as it goes: at
the other room, with the selection that makes a room. -/
theorem not_selecting :
    ∃ s d, system.Reach (fun s a => s.allows a = true) s ∧ s.client.display = .lobby d ∧
      (∃ line ∈ d.drawList (.ofWidth 80), line.chatRoom = some [99] ∧
        d.cursorIndex.toInt = line.first.y) ∧
      d.getSelection = some 0 ∧ ¬ s.Selecting (.ofWidth 80) := by
  obtain ⟨s, hs, hp⟩ := System.exists_of_runWith (S := system)
    (G := fun s a => s.allows a = true) (g := allows) (fun _ _ h => h)
    (p := fun s => match s.client.display with
      | .lobby d => decide ((∃ line ∈ d.drawList (.ofWidth 80), line.chatRoom = some [99] ∧
          d.cursorIndex.toInt = line.first.y) ∧ d.getSelection = some 0 ∧
          ∃ line ∈ d.drawList (.ofWidth 80), line.chatRoom = none ∧
            d.cursorIndex.toInt ≠ line.first.y)
      | _ => false)
    [.createRoom 1 [97, 10, 98], .createRoom 1 [99], .receive, .receive, .cursorDown, .cursorDown,
      .cursorDown, .cursorDown] (by decide +kernel)
  split at hp
  · rename_i d hd
    obtain ⟨hroom, hsel, line, hline, hnone, hne⟩ := of_decide_eq_true hp
    refine ⟨s, d, hs, hd, hroom, hsel, ?_⟩
    rintro ⟨d', hd', hselects⟩
    obtain rfl := Display.lobby.inj (hd.symm.trans hd')
    exact hne ((hselects.create line hline hnone).mp hsel)
  · contradiction

end Lobby

end ChattingServer.V11
