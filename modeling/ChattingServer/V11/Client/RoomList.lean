import ChattingServer.V11.Client.View
import ChattingServer.V11.Codec.RoundTrip

namespace ChattingServer.V11

open Lib

namespace Packet

def roomList : Packet → Option (List (UInt16 × Str))
  | .sLobbyRoomInfo _ roomId roomName => some (roomId.zip roomName)
  | _ => none

def Shows (p : Packet) : Prop :=
  ∀ roomId roomName, p = .sLobbyRoomInfo 0 roomId roomName → roomName = []

def asksForList : Packet → Bool
  | .cServerEnter _ | .cLobbyRoomInfo | .cRoomCreate _ => true
  | _ => false

theorem shows_of_fits {p : Packet} (hcount : p.roomList ≠ none → p.counted = p)
    (hfit : p.roomList ≠ none → p.encoding.length ≤ sockbufSize) : p.Shows := by
  rintro roomId roomName rfl
  have hzero : UInt16.ofNat roomName.length = 0 := by
    simpa [counted] using hcount (Option.some_ne_none _)
  have hnames := length_le_flatMap_str roomName
  have hlen := hfit (Option.some_ne_none _)
  rw [length_encoding, counted, payload, List.length_append, List.length_append] at hlen
  simp only [sockbufSize] at hlen
  have hsize : UInt16.size = 65536 := rfl
  have hcast := congrArg UInt16.toNat hzero
  rw [UInt16.toNat_ofNat_of_lt' (by omega)] at hcast
  exact List.eq_nil_of_length_eq_zero hcast

end Packet

/-! The list that a client shows. -/

def Display.rooms : Display → List (UInt16 × Str)
  | .lobby d => d.chatRoomIds.zip d.chatRooms
  | _ => []

theorem Display.rooms_of_place {d : Display} (h : d.place ≠ .lobby) : d.rooms = [] := by
  cases d with
  | lobby => exact absurd rfl h
  | login | room => rfl

theorem Display.lobby_of_place {d : Display} (h : d.place = .lobby) : ∃ x, d = .lobby x := by
  cases d with
  | lobby x => exact ⟨x, rfl⟩
  | login | room => contradiction

namespace Client

def arrival (c : Client) : Packet → Option Bool
  | .sServerEnterOk _ => some true
  | .sRoomExit uid => if uid = c.userId then some false else none
  | _ => none

def createsRoom (c : Client) : Page → Input → Bool
  | .lobbyKey display, .key code memory =>
    code = KeyInput.keyEnter ∧ c.getSelection display memory = 0
  | _, _ => false

theorem rooms_moveCursor (c : Client) (display : Nat) {move : LobbyDisplay → LobbyDisplay}
    (hmove : ∀ d, (Display.lobby (move d)).rooms = (Display.lobby d).rooms) :
    (c.moveCursor display move).display.rooms = c.display.rooms := by
  unfold moveCursor
  split
  · rename_i d hd
    split
    · rw [hd]
      exact hmove d
    · rfl
  · rfl

theorem rooms_stateThread {c c' : Client} {page : Page} {i : Input}
    (h : c.stateThread page i = .ok c') : c'.display.rooms = c.display.rooms := by
  unfold stateThread at h
  split at h
  · rw [← Except.ok.inj h, stateProcess]
    split <;> rfl
  · rw [← Except.ok.inj h, sendNickname]
    split <;> rfl
  · rw [← Except.ok.inj h]
  · rw [← Except.ok.inj h, lobbyKey]
    split
    · rfl
    · dsimp only
      split <;> rfl
  · rw [← Except.ok.inj h, lobbyArrow]
    split
    · dsimp only
      split
      · exact rooms_moveCursor _ _ fun d => rfl
      · split
        · exact rooms_moveCursor _ _ fun d => rfl
        · rfl
    · rfl
  · rw [← Except.ok.inj h]
  · rw [← Except.ok.inj h, chatRoomLine]
    split
    · rfl
    · split <;> rfl
  · contradiction

theorem sendQueue_of_createsRoom {c c' : Client} {page : Page} {i : Input}
    (h : c.stateThread page i = .ok c') (hroom : c.createsRoom page i = true) :
    c'.sendQueue = c.sendQueue ++ [.cRoomCreate testRoomName] := by
  unfold createsRoom at hroom
  split at hroom
  · rename_i display code memory
    obtain ⟨rfl, hselect⟩ := of_decide_eq_true hroom
    have hselect' : { c with page := .lobbyPage display }.getSelection display memory = 0 := hselect
    rw [← Except.ok.inj h, lobbyKey, if_neg (by decide)]
    simp only [if_true, hselect', pushQueue]
  · contradiction

theorem rooms_fLobbyRoomInfo {c : Client} (hplace : c.display.place = .lobby) (memory : Display)
    {roomCount : UInt16} {roomId : List UInt16} {roomName : List Str}
    (hshows : (Packet.sLobbyRoomInfo roomCount roomId roomName).Shows)
    (hsub : c.display.rooms ⊆ roomId.zip roomName) :
    (c.fLobbyRoomInfo memory roomCount roomId roomName).display.rooms = roomId.zip roomName := by
  obtain ⟨d, hd⟩ := Display.lobby_of_place hplace
  unfold fLobbyRoomInfo
  split
  · rename_i hcount
    subst hcount
    obtain rfl := hshows _ _ rfl
    rw [List.zip_nil_right] at hsub ⊢
    exact List.subset_nil.mp hsub
  · simp [onLobbyDisplay, hd, Display.rooms, LobbyDisplay.setRoomList]

theorem Received.rooms {c c' : Client} {p : Packet} (h : c.Received p c') (hfits : c.Fits)
    (hst : c.state ≠ .lobby) :
    c'.display.rooms = [] ∧ (c'.state = .lobby → c.arrival p ≠ none) := by
  cases h with
  | enterOk pid => exact ⟨rfl, fun _ => Option.some_ne_none _⟩
  | entrance hlobby => exact absurd hlobby hst
  | exit hid =>
    refine ⟨rfl, fun _ => ?_⟩
    rw [arrival, if_pos hid]
    exact Option.some_ne_none _
  | redrawn hplace =>
    refine ⟨Display.rooms_of_place fun hlobby => hst ?_, fun hlobby => absurd hlobby hst⟩
    rw [← ClientState.place_eq_lobby_iff, ← hfits, ← hplace, hlobby]

theorem rooms_recvProcess {c : Client} (hfits : c.Fits) {p : Packet}
    (hsound : c.state = .lobby → c.castSound p = true) (hshows : p.Shows)
    (hsub : ∀ rooms, p.roomList = some rooms → c.display.rooms ⊆ rooms) (memory : Display) :
    (c.recvProcess memory p).display.rooms = [] ∧
        ((c.recvProcess memory p).state = .lobby → c.arrival p ≠ none) ∨
      c.state = .lobby ∧ c.arrival p = none ∧
        (c.recvProcess memory p).display.rooms = p.roomList.getD c.display.rooms := by
  by_cases hst : c.state = .lobby
  · have hplace : c.display.place = .lobby := hfits.trans (congrArg ClientState.place hst)
    have hroom : ¬ c.display.isRoom = true := by
      rw [Display.isRoom_iff, hplace]
      rintro ⟨⟩
    have hsound := hsound hst
    cases p with
    | sServerEnterOk pid => exact .inl ⟨rfl, fun _ => Option.some_ne_none _⟩
    | sLobbyRoomInfo roomCount roomId roomName =>
      exact .inr ⟨hst, rfl, rooms_fLobbyRoomInfo hplace memory hshows (hsub _ rfl)⟩
    | sRoomEnter uid name =>
      obtain ⟨d, hd, heq⟩ := c.moveToRoom.onRoomDisplay_eq memory (·.updatePlayer uid name)
      have hmove : c.recvProcess memory (.sRoomEnter uid name) =
          { c.moveToRoom with display := d } := heq
      rw [moveToRoom, if_pos hst] at hd hmove
      rw [hmove]
      exact .inl ⟨Display.rooms_of_place (hd.trans_ne (by rintro ⟨⟩)), by rintro ⟨⟩⟩
    | sRoomExit uid =>
      have hid : uid = c.userId := (of_decide_eq_true hsound).resolve_right hroom
      have harr : c.arrival (.sRoomExit uid) ≠ none := by
        rw [arrival, if_pos hid]
        exact Option.some_ne_none _
      refine .inl ⟨?_, fun _ => harr⟩
      change (c.fRoomExit memory uid).display.rooms = []
      rw [fRoomExit, if_pos hid]
      rfl
    | sRoomName | sMulticast | sBroadcast | sUnicastOk | sUnicastNo => exact absurd hsound hroom
    | _ => exact .inr ⟨hst, rfl, rfl⟩
  · exact .inl ((received_recvProcess c memory p).rooms hfits hst)

theorem mem_sendQueue_of_login {c : Client} {p : Packet} (h : c.arrival p = some true)
    (memory : Display) : .cLobbyRoomInfo ∈ (c.recvProcess memory p).sendQueue := by
  cases p with
  | sServerEnterOk pid => exact List.mem_append_right _ (List.mem_singleton_self _)
  | sRoomExit uid =>
    rw [arrival] at h
    split at h <;> contradiction
  | _ => contradiction

end Client

end ChattingServer.V11
