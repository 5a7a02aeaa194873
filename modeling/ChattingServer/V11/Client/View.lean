import ChattingServer.Lib.Receiver
import ChattingServer.V11.Client.Client

namespace ChattingServer.V11

open Lib

inductive Place
  | outside
  | lobby
  | room
  deriving DecidableEq

structure View where
  place : Place
  userId : UInt32
  deriving DecidableEq

def ClientState.place : ClientState → Place
  | .pending | .login => .outside
  | .lobby => .lobby
  | .chatroom => .room

def Display.place : Display → Place
  | .login => .outside
  | .lobby _ => .lobby
  | .room _ => .room

def Display.roster : Display → UInt32 → Option Str
  | .room d => d.users.find
  | _ => fun _ => none

theorem Display.isLobby_iff {d : Display} : d.isLobby = true ↔ d.place = .lobby := by
  cases d <;> simp [isLobby, place]

theorem Display.isRoom_iff {d : Display} : d.isRoom = true ↔ d.place = .room := by
  cases d <;> simp [isRoom, place]

theorem Display.room_of_place {d : Display} (h : d.place = .room) : ∃ x, d = .room x := by
  cases d with
  | login => contradiction
  | lobby x => contradiction
  | room x => exact ⟨x, rfl⟩

theorem Display.place_overwrite (d memory : Display) : (d.overwrite memory).place = d.place := by
  cases d <;> cases memory <;> rfl

theorem ClientState.place_eq_lobby_iff {st : ClientState} : st.place = .lobby ↔ st = .lobby := by
  cases st <;> simp [place]

theorem ClientState.place_eq_room_iff {st : ClientState} : st.place = .room ↔ st = .chatroom := by
  cases st <;> simp [place]

namespace View

def recv (v : View) : Packet → View
  | .sServerEnterOk pid => ⟨.lobby, pid⟩
  | .sRoomEnter _ _ => if v.place = .lobby then { v with place := .room } else v
  | .sRoomExit uid => if uid = v.userId then { v with place := .lobby } else v
  | _ => v

def castSound (v : View) : Packet → Prop
  | .sLobbyRoomInfo _ _ _ => v.place = .lobby
  | .sRoomEnter _ _ => v.place ≠ .outside
  | .sRoomExit uid => uid = v.userId ∨ v.place = .room
  | .sRoomName _ | .sMulticast _ _ | .sBroadcast _ _ | .sUnicastOk _ _ | .sUnicastNo =>
    v.place = .room
  | _ => True

def receiver (strict : Bool) : Receiver View Packet where
  recv := recv
  takes v p := strict = true → v.castSound p

theorem recv_ne_outside {v : View} (h : v.place ≠ .outside) (p : Packet) :
    (v.recv p).place ≠ .outside := by
  cases p with
  | sServerEnterOk pid => nofun
  | sRoomEnter uid name =>
    simp only [recv]
    split
    · nofun
    · exact h
  | sRoomExit uid =>
    simp only [recv]
    split
    · nofun
    · exact h
  | _ => exact h

end View

namespace Client

def view (c : Client) : View := ⟨c.state.place, c.userId⟩

def Fits (c : Client) : Prop := c.display.place = c.state.place

/-! A handler that works on the display keeps everything else. -/

theorem onLobbyDisplay_eq (c : Client) (memory : Display) (f : LobbyDisplay → LobbyDisplay) :
    ∃ display, display.place = c.display.place ∧
      c.onLobbyDisplay memory f = { c with display } := by
  unfold onLobbyDisplay
  split
  · rename_i d hd
    exact ⟨.lobby (f d), by rw [hd]; rfl, rfl⟩
  · exact ⟨_, Display.place_overwrite .., rfl⟩

theorem onRoomDisplay_eq (c : Client) (memory : Display) (f : RoomDisplay → RoomDisplay) :
    ∃ display, display.place = c.display.place ∧
      c.onRoomDisplay memory f = { c with display } := by
  unfold onRoomDisplay
  split
  · rename_i d hd
    exact ⟨.room (f d), by rw [hd]; rfl, rfl⟩
  · exact ⟨_, Display.place_overwrite .., rfl⟩

inductive Received (c : Client) : Packet → Client → Prop
  | enterOk (pid : UInt32) : Received c (.sServerEnterOk pid) (c.fServerEnterOk pid)
  | entrance {uid : UInt32} {name : Str} {display : Display} (hst : c.state = .lobby)
    (hplace : display.place = .room) :
    Received c (.sRoomEnter uid name) { c.moveToRoom with display }
  | exit {uid : UInt32} (hid : uid = c.userId) :
    Received c (.sRoomExit uid) ({ c with state := .lobby }.newDisplay (.lobby .new))
  | redrawn {p : Packet} {display : Display} (hplace : display.place = c.display.place)
    (hview : c.view.recv p = c.view) : Received c p { c with display }

theorem received_recvProcess (c : Client) (memory : Display) (p : Packet) :
    c.Received p (c.recvProcess memory p) := by
  cases p with
  | sServerEnterOk pid => exact .enterOk pid
  | sLobbyRoomInfo roomCount roomId roomName =>
    obtain ⟨d, hplace, hd⟩ := c.onLobbyDisplay_eq memory (·.setRoomList roomId roomName)
    change c.Received _ (c.fLobbyRoomInfo memory roomCount roomId roomName)
    rw [fLobbyRoomInfo, hd]
    split
    · exact .redrawn rfl rfl
    · exact .redrawn hplace rfl
  | sRoomEnter uid name =>
    obtain ⟨d, hplace, hd⟩ := c.moveToRoom.onRoomDisplay_eq memory (·.updatePlayer uid name)
    change c.Received _ (c.fRoomEnter memory uid name)
    rw [fRoomEnter, hd]
    by_cases hst : c.state = .lobby
    · rw [moveToRoom, if_pos hst] at hplace
      exact .entrance hst hplace
    · rw [moveToRoom, if_neg hst] at hplace ⊢
      exact .redrawn hplace (if_neg fun h => hst (ClientState.place_eq_lobby_iff.mp h))
  | sRoomExit uid =>
    obtain ⟨d, hplace, hd⟩ := c.onRoomDisplay_eq memory (·.removePlayer uid)
    change c.Received _ (c.fRoomExit memory uid)
    rw [fRoomExit, hd]
    split
    · rename_i hid
      exact .exit hid
    · rename_i hid
      exact .redrawn hplace (if_neg hid)
  | sRoomName roomName =>
    obtain ⟨d, hplace, hd⟩ := c.onRoomDisplay_eq memory (·.setRoomName roomName)
    change c.Received _ (c.fRoomName memory roomName)
    rw [fRoomName, hd]
    exact .redrawn hplace rfl
  | sMulticast | sBroadcast | sUnicastOk | sUnicastNo =>
    obtain ⟨d, hplace, hd⟩ := c.onRoomDisplay_eq memory id
    change c.Received _ (c.fRecvCast memory)
    rw [fRecvCast, hd]
    exact .redrawn hplace rfl
  | _ => exact .redrawn rfl rfl

theorem Received.view {c c' : Client} {p : Packet} (h : c.Received p c') :
    c'.view = c.view.recv p := by
  cases h with
  | enterOk pid => rfl
  | @entrance uid name display hst =>
    have hlobby : c.view.place = .lobby := ClientState.place_eq_lobby_iff.mpr hst
    rw [View.recv, if_pos hlobby, moveToRoom, if_pos hst]
    rfl
  | exit hid => exact (if_pos hid).symm
  | redrawn _ hview => exact hview.symm

theorem Received.fits {c c' : Client} {p : Packet} (h : c.Received p c') (hfits : c.Fits) :
    c'.Fits := by
  cases h with
  | enterOk pid => rfl
  | entrance hst hplace =>
    rw [moveToRoom, if_pos hst]
    exact hplace
  | exit hid => rfl
  | redrawn hplace => exact hplace.trans hfits

theorem Fits.castSound_iff {c : Client} (h : c.Fits) (p : Packet) :
    c.castSound p = true ↔ c.view.castSound p := by
  unfold Fits at h
  cases p with
  | sLobbyRoomInfo =>
    change c.display.isLobby = true ↔ c.state.place = .lobby
    rw [Display.isLobby_iff, h]
  | sRoomEnter uid name =>
    change c.moveToRoom.display.isRoom = true ↔ c.state.place ≠ .outside
    rw [Display.isRoom_iff, moveToRoom]
    split
    · rename_i hst
      simp [hst, newDisplay, Display.place, ClientState.place]
    · rename_i hst
      rw [h]
      cases hs : c.state <;> simp_all [ClientState.place]
  | sRoomExit uid =>
    change decide (uid = c.userId ∨ c.display.isRoom = true) = true ↔
      uid = c.userId ∨ c.state.place = .room
    rw [decide_eq_true_iff, Display.isRoom_iff, h]
  | sRoomName | sMulticast | sBroadcast | sUnicastOk | sUnicastNo =>
    change c.display.isRoom = true ↔ c.state.place = .room
    rw [Display.isRoom_iff, h]
  | _ => exact iff_of_true rfl trivial

structure Handled (c c' : Client) : Prop where
  page : c'.page = c.page
  recvQueue : c'.recvQueue = c.recvQueue
  outcome : c'.state = c.state ∧ c'.sendQueue = c.sendQueue ∨
    c'.state.place ≠ .outside ∧ ∃ ps, c'.sendQueue = c.sendQueue ++ ps ∧
      ∀ p ∈ ps, ∀ nickname, p ≠ .cServerEnter nickname

theorem Received.handled {c c' : Client} {p : Packet} (h : c.Received p c') : Handled c c' := by
  cases h with
  | enterOk pid =>
    refine ⟨rfl, rfl, .inr ⟨by rintro ⟨⟩, _, rfl, ?_⟩⟩
    simp
  | entrance hst =>
    rw [moveToRoom, if_pos hst]
    exact ⟨rfl, rfl, .inr ⟨by rintro ⟨⟩, [], (List.append_nil _).symm, List.forall_mem_nil _⟩⟩
  | exit =>
    exact ⟨rfl, rfl, .inr ⟨by rintro ⟨⟩, [], (List.append_nil _).symm, List.forall_mem_nil _⟩⟩
  | redrawn => exact ⟨rfl, rfl, .inl ⟨rfl, rfl⟩⟩

theorem Handled.state_of_outside {c c' : Client} (h : Handled c c')
    (hout : c'.state.place = .outside) : c'.state = c.state ∧ c'.sendQueue = c.sendQueue :=
  h.outcome.resolve_right fun hin => hin.1 hout

theorem Handled.login {c c' : Client} (h : Handled c c') (hst : c'.state = .login) :
    c.state = .login := by
  have hout : c'.state.place = .outside := by rw [hst]; rfl
  rw [← (h.state_of_outside hout).1, hst]

theorem Handled.exists_sendQueue {c c' : Client} (h : Handled c c') :
    ∃ ps, c'.sendQueue = c.sendQueue ++ ps ∧
      ∀ p ∈ ps, ∀ nickname, p ≠ .cServerEnter nickname := by
  rcases h.outcome with ⟨-, hsend⟩ | ⟨-, hsend⟩
  · exact ⟨[], hsend.trans (List.append_nil _).symm, List.forall_mem_nil _⟩
  · exact hsend

structure Turned (c c' : Client) : Prop where
  state : c'.state = c.state
  userId : c'.userId = c.userId
  place : c'.display.place = c.display.place
  roster : c'.display.roster = c.display.roster
  recvQueue : c'.recvQueue = c.recvQueue
  sends : ∃ ps, c'.sendQueue = c.sendQueue ++ ps ∧ ∀ p ∈ ps, ∀ nickname, p ≠ .cServerEnter nickname
  nickname : c'.page = .sendNickname → c.state = .login ∨ c.page = .sendNickname
  waits : c.state.place = .outside → c.page = .stateProcess ∨ c.page = .sendNickname →
    c'.sendQueue = c.sendQueue ∧ (c'.page = .stateProcess ∨ c'.page = .sendNickname)

theorem Turned.refl (c : Client) : Turned c c :=
  ⟨rfl, rfl, rfl, rfl, rfl, ⟨[], (List.append_nil _).symm, nofun⟩, .inr, fun _ h => ⟨rfl, h⟩⟩

theorem Turned.of_page {c : Client} {page : Page}
    (hname : page = .sendNickname → c.state = .login)
    (hwait : c.state.place = .outside → c.page = .stateProcess ∨ c.page = .sendNickname →
      page = .stateProcess ∨ page = .sendNickname) : Turned c { c with page } :=
  ⟨rfl, rfl, rfl, rfl, rfl, ⟨[], (List.append_nil _).symm, nofun⟩, fun hp => .inl (hname hp),
    fun hout hpage => ⟨rfl, hwait hout hpage⟩⟩

theorem Turned.pushQueue {c c' : Client} (h : Turned c c') {p : Packet}
    (hp : ∀ nickname, p ≠ .cServerEnter nickname)
    (hpage : c.page ≠ .stateProcess ∧ c.page ≠ .sendNickname) : Turned c (c'.pushQueue p) where
  state := h.state
  userId := h.userId
  place := h.place
  roster := h.roster
  recvQueue := h.recvQueue
  sends := by
    obtain ⟨ps, hps, hnot⟩ := h.sends
    refine ⟨ps ++ [p], by simp [Client.pushQueue, hps], fun q hq => ?_⟩
    rcases List.mem_append.mp hq with hq | hq
    · exact hnot q hq
    · exact List.mem_singleton.mp hq ▸ hp
  nickname := h.nickname
  waits _ hin := (hin.elim hpage.1 hpage.2).elim

theorem Turned.moveCursor {c c' : Client} (h : Turned c c') (display : Nat)
    (move : LobbyDisplay → LobbyDisplay) : Turned c (c'.moveCursor display move) := by
  unfold Client.moveCursor
  split
  · rename_i d hd
    split
    · refine ⟨h.state, h.userId, ?_, ?_, h.recvQueue, h.sends, h.nickname, h.waits⟩
      · rw [← h.place, hd]
        rfl
      · rw [← h.roster, hd]
        rfl
    · exact h
  · exact h

theorem sendChat_ne (text : Str) (nickname : Str) :
    RoomDisplay.sendChat text ≠ .cServerEnter nickname := by
  unfold RoomDisplay.sendChat
  split_ifs <;> nofun

theorem turned_stateProcess (c : Client) : Turned c c.stateProcess := by
  unfold Client.stateProcess
  split
  · rename_i hst
    exact .of_page (fun _ => hst) fun _ _ => .inr rfl
  · rename_i hst
    exact .of_page nofun fun hout => by simp [hst, ClientState.place] at hout
  · rename_i hst
    exact .of_page nofun fun hout => by simp [hst, ClientState.place] at hout
  · exact .refl c

theorem turned_lobbyKey {c : Client} {display : Nat} (hpage : c.page = .lobbyKey display)
    (code : Nat) (memory : UInt16) : Turned c (c.lobbyKey display code memory) := by
  have hout : c.page ≠ .stateProcess ∧ c.page ≠ .sendNickname := by simp [hpage]
  have hturn : ∀ page, page ≠ .sendNickname → Turned c { c with page } := fun page hne =>
    .of_page (fun h => absurd h hne) fun _ h => (h.elim hout.1 hout.2).elim
  unfold Client.lobbyKey
  split
  · exact hturn _ nofun
  · dsimp only
    split
    · refine (hturn (.lobbyPage display) nofun).pushQueue (fun nickname => ?_) hout
      split <;> nofun
    · exact hturn _ nofun

theorem turned_lobbyArrow {c : Client} {display : Nat} (hpage : c.page = .lobbyArrow display)
    (code : Nat) : Turned c (c.lobbyArrow display code) := by
  have hturn : ∀ page, page ≠ .sendNickname → Turned c { c with page } := fun page hne =>
    .of_page (fun h => absurd h hne) fun _ h => by simp [hpage] at h
  unfold Client.lobbyArrow
  split
  · dsimp only
    split
    · exact (hturn (.lobbyPage display) nofun).moveCursor ..
    · split
      · exact (hturn (.lobbyPage display) nofun).moveCursor ..
      · exact hturn _ nofun
  · exact hturn _ nofun

theorem turned_chatRoomLine {c : Client} (hpage : c.page = .chatRoomLine) (line : Str) :
    Turned c (c.chatRoomLine line) := by
  have hout : c.page ≠ .stateProcess ∧ c.page ≠ .sendNickname := by simp [hpage]
  have hturn : ∀ page, page ≠ .sendNickname → Turned c { c with page } := fun page hne =>
    .of_page (fun h => absurd h hne) fun _ h => (h.elim hout.1 hout.2).elim
  unfold Client.chatRoomLine
  split
  · exact hturn _ nofun
  · split
    · exact (hturn .chatRoomPage nofun).pushQueue (sendChat_ne line) hout
    · exact hturn _ nofun

theorem turned_or_entered {c c' : Client} {i : Input} (h : c.stateThread c.page i = .ok c') :
    Turned c c' ∨ c.page = .sendNickname ∧ ∃ nickname,
      c' = { c with nickname, state := .pending, page := .stateProcess }.pushQueue
        (.cServerEnter nickname) := by
  unfold Client.stateThread at h
  split at h
  · exact .inl (Except.ok.inj h ▸ turned_stateProcess c)
  · rename_i text hpage
    rw [← Except.ok.inj h, Client.sendNickname]
    split
    · exact .inl ⟨rfl, rfl, rfl, rfl, rfl, ⟨[], (List.append_nil _).symm, nofun⟩, .inr,
        fun _ h => ⟨rfl, h⟩⟩
    · exact .inr ⟨hpage, text, rfl⟩
  · rename_i display hpage
    rw [← Except.ok.inj h]
    refine .inl (.of_page ?_ fun _ h => by simp [hpage] at h)
    split <;> nofun
  · rename_i display code memory hpage
    exact .inl (Except.ok.inj h ▸ turned_lobbyKey hpage code memory)
  · rename_i display code memory hpage
    exact .inl (Except.ok.inj h ▸ turned_lobbyArrow hpage code)
  · rename_i hpage
    rw [← Except.ok.inj h]
    refine .inl (.of_page ?_ fun _ h => by simp [hpage] at h)
    split <;> nofun
  · rename_i text hpage
    exact .inl (Except.ok.inj h ▸ turned_chatRoomLine hpage text)
  · nomatch h

end Client

end ChattingServer.V11
