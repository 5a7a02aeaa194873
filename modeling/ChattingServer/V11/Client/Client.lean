import ChattingServer.V11.Client.Display
import ChattingServer.V11.Server.State

namespace ChattingServer.V11

open Lib

inductive ClientState
  | pending
  | login
  | lobby
  | chatroom
  deriving DecidableEq

/-- Where the thread of `StateProcess` stands.  `LobbyPage` keeps the display it was entered
with. -/
inductive Page
  | stateProcess
  | sendNickname
  | lobbyPage (display : Nat)
  | lobbyKey (display : Nat)
  | lobbyArrow (display : Nat)
  | chatRoomPage
  | chatRoomLine
  deriving DecidableEq

/-- What that thread goes on with: a test of `state_`, a key from `_getch` (with what the memory
holds that `GetSelection` may read by mistake) or a line from `getline`. -/
inductive Input
  | resume
  | key (code : Nat) (memory : UInt16)
  | line (text : Str)

namespace KeyInput

def keyUp : Nat := 72
def keyDown : Nat := 80
def keyEnter : Nat := 13
def keyPrefix : Nat := 224

end KeyInput

structure Client where
  nickname : Str
  userId : UInt32
  state : ClientState
  display : Display
  /-- Counts the displays made so far: tells a display from the ones deleted before it. -/
  displayId : Nat
  sendQueue : List Packet
  recvQueue : List Packet
  page : Page

namespace Client

def init : Client where
  nickname := []
  userId := 0
  state := .login
  display := .login
  displayId := 0
  sendQueue := []
  recvQueue := []
  page := .stateProcess

def pushQueue (c : Client) (packet : Packet) : Client :=
  { c with sendQueue := c.sendQueue ++ [packet] }

/-! The thread of `StateProcess` -/

def stateProcess (c : Client) : Client :=
  match c.state with
  | .login => { c with page := .sendNickname }
  | .lobby => { c with page := .lobbyPage c.displayId }
  | .chatroom => { c with page := .chatRoomPage }
  | .pending => c

def sendNickname (c : Client) (line : Str) : Client :=
  if line = [] then { c with nickname := line }
  else { c with nickname := line, state := .pending, page := .stateProcess }.pushQueue
    (.cServerEnter line)

/-- The display as `LobbyPage` sees it through the pointer it keeps. -/
def getSelection (c : Client) (display : Nat) (memory : UInt16) : UInt16 :=
  match c.display with
  | .lobby d => if display = c.displayId then d.getSelection.getD memory else memory
  | _ => memory

def moveCursor (c : Client) (display : Nat) (move : LobbyDisplay → LobbyDisplay) : Client :=
  match c.display with
  | .lobby d => if display = c.displayId then { c with display := .lobby (move d) } else c
  | _ => c

def testRoomName : Str := [84, 101, 115, 116, 32, 114, 111, 111, 109, 32, 110, 97, 109, 101]

def lobbyKey (c : Client) (display code : Nat) (memory : UInt16) : Client :=
  if code = KeyInput.keyPrefix then { c with page := .lobbyArrow display }
  else
    let c := { c with page := .lobbyPage display }
    if code = KeyInput.keyEnter then
      let selected := c.getSelection display memory
      c.pushQueue (if selected = 0 then .cRoomCreate testRoomName else .cRoomEnter selected)
    else c

def lobbyArrow (c : Client) (display code : Nat) : Client :=
  if c.state = .lobby then
    let c := { c with page := .lobbyPage display }
    if code = KeyInput.keyUp then c.moveCursor display LobbyDisplay.cursorUp
    else if code = KeyInput.keyDown then c.moveCursor display LobbyDisplay.cursorDown
    else c
  else { c with page := .stateProcess }

def chatRoomLine (c : Client) (line : Str) : Client :=
  if line = [] then { c with page := .chatRoomPage }
  else if c.state = .chatroom then
    { c with page := .chatRoomPage }.pushQueue (RoomDisplay.sendChat line)
  else { c with page := .stateProcess }

def stateThread (c : Client) : Page → Input → Except Fault Client
  | .stateProcess, .resume => .ok c.stateProcess
  | .sendNickname, .line text => .ok (c.sendNickname text)
  | .lobbyPage display, .resume =>
    .ok { c with page := if c.state = .lobby then .lobbyKey display else .stateProcess }
  | .lobbyKey display, .key code memory => .ok (c.lobbyKey display code memory)
  | .lobbyArrow display, .key code _ => .ok (c.lobbyArrow display code)
  | .chatRoomPage, .resume =>
    .ok { c with page := if c.state = .chatroom then .chatRoomLine else .stateProcess }
  | .chatRoomLine, .line text => .ok (c.chatRoomLine text)
  | _, _ => .error .disabled

/-! The handlers of received packets.  `memory` is what a display holds after a handler that took
it for a display of another class. -/

def overwriteDisplay (c : Client) (memory : Display) : Client :=
  { c with display := c.display.overwrite memory }

def newDisplay (c : Client) (display : Display) : Client :=
  { c with display, displayId := c.displayId + 1 }

def onLobbyDisplay (c : Client) (memory : Display) (f : LobbyDisplay → LobbyDisplay) : Client :=
  match c.display with
  | .lobby d => { c with display := .lobby (f d) }
  | _ => c.overwriteDisplay memory

def onRoomDisplay (c : Client) (memory : Display) (f : RoomDisplay → RoomDisplay) : Client :=
  match c.display with
  | .room d => { c with display := .room (f d) }
  | _ => c.overwriteDisplay memory

def fServerEnterOk (c : Client) (pid : UInt32) : Client :=
  ({ c with userId := pid, state := .lobby }.newDisplay (.lobby .new)).pushQueue .cLobbyRoomInfo

def fLobbyRoomInfo (c : Client) (memory : Display) (roomCount : UInt16) (roomId : List UInt16)
    (roomName : List Str) : Client :=
  if roomCount = 0 then c else c.onLobbyDisplay memory (·.setRoomList roomId roomName)

def moveToRoom (c : Client) : Client :=
  if c.state = .lobby then { c with state := .chatroom }.newDisplay (.room .new) else c

def fRoomEnter (c : Client) (memory : Display) (uid : UInt32) (name : Str) : Client :=
  c.moveToRoom.onRoomDisplay memory (·.updatePlayer uid name)

def fRoomExit (c : Client) (memory : Display) (uid : UInt32) : Client :=
  if uid = c.userId then { c with state := .lobby }.newDisplay (.lobby .new)
  else c.onRoomDisplay memory (·.removePlayer uid)

def fRoomName (c : Client) (memory : Display) (roomName : Str) : Client :=
  c.onRoomDisplay memory (·.setRoomName roomName)

def fRecvCast (c : Client) (memory : Display) : Client :=
  c.onRoomDisplay memory id

def recvProcess (c : Client) (memory : Display) : Packet → Client
  | .sServerEnterOk pid => c.fServerEnterOk pid
  | .sLobbyRoomInfo roomCount roomId roomName => c.fLobbyRoomInfo memory roomCount roomId roomName
  | .sRoomEnter uid name => c.fRoomEnter memory uid name
  | .sRoomExit uid => c.fRoomExit memory uid
  | .sRoomName roomName => c.fRoomName memory roomName
  | .sMulticast _ _ | .sBroadcast _ _ | .sUnicastOk _ _ | .sUnicastNo => c.fRecvCast memory
  | _ => c

/-- The `static_cast` of the handler that the packet is dispatched to finds a display of its
class. -/
def castSound (c : Client) : Packet → Bool
  | .sLobbyRoomInfo _ _ _ => c.display.isLobby
  | .sRoomEnter _ _ => c.moveToRoom.display.isRoom
  | .sRoomExit uid => uid = c.userId ∨ c.display.isRoom
  | .sRoomName _ | .sMulticast _ _ | .sBroadcast _ _ | .sUnicastOk _ _ | .sUnicastNo =>
    c.display.isRoom
  | _ => true

end Client

end ChattingServer.V11
