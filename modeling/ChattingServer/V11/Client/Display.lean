import Mathlib.Data.Int.Basic
import ChattingServer.Lib.Console
import ChattingServer.Lib.StdMap
import ChattingServer.V11.NetworkLib.Packet

namespace ChattingServer.V11

open Lib

structure LobbyDisplay where
  cursorIndex : Int16
  chatRooms : List Str
  chatRoomIds : List UInt16

namespace LobbyDisplay

def lowerLimit : Int := 4

def new : LobbyDisplay where
  cursorIndex := 4
  chatRooms := []
  chatRoomIds := []

def setRoomList (d : LobbyDisplay) (chatroomId : List UInt16) (chatroomName : List Str) :
    LobbyDisplay :=
  { d with chatRoomIds := chatroomId, chatRooms := chatroomName }

def cursorDown (d : LobbyDisplay) : LobbyDisplay :=
  let upperLimit := lowerLimit + d.chatRooms.length
  { d with cursorIndex := Int16.ofInt (min (d.cursorIndex + 1).toInt upperLimit) }

def cursorUp (d : LobbyDisplay) : LobbyDisplay :=
  { d with cursorIndex := Int16.ofInt (max (d.cursorIndex - 1).toInt lowerLimit) }

/-- `none` stands for an index outside `chatRoomIds_`. -/
def getSelection (d : LobbyDisplay) : Option UInt16 :=
  let index := d.cursorIndex.toInt - lowerLimit
  if index = d.chatRooms.length then some 0
  else if index < 0 then none
  else d.chatRoomIds[index.toNat]?

def checkBox : Str := [91, 32, 32, 32, 32, 93, 32]

def createRoom : Str := [195, 164, 198, 195, 185, 230, 32, 176, 179, 188, 179, 199, 207, 177, 226]

/-- What `printf("[    ] %s", ..)` makes of the `c_str()` of a name. -/
def roomLine (name : Str) : Str := checkBox ++ name.takeWhile (· ≠ 0)

/-- A line of the list: the room that it shows or, with `none`, the line that makes a room, and
where on the screen it begins and the next one. -/
structure Line where
  chatRoom : Option Str
  first : Coord
  next : Coord

def drawLines (console : Console) (c : Coord) : List Str → List Line
  | [] => [⟨none, c, console.printf c (checkBox ++ createRoom ++ [lineFeed])⟩]
  | name :: chatRooms =>
    let next := console.printf c (roomLine name ++ [lineFeed])
    ⟨some name, c, next⟩ :: drawLines console next chatRooms

def drawList (console : Console) (d : LobbyDisplay) : List Line :=
  drawLines console ⟨0, lowerLimit.toNat⟩ d.chatRooms

end LobbyDisplay

structure RoomDisplay where
  roomName : Str
  users : StdMap UInt32 Str

namespace RoomDisplay

def new : RoomDisplay where
  roomName := []
  users := .empty

def setRoomName (d : RoomDisplay) (name : Str) : RoomDisplay := { d with roomName := name }

def updatePlayer (d : RoomDisplay) (uid : UInt32) (name : Str) : RoomDisplay :=
  { d with users := d.users.set uid name }

def removePlayer (d : RoomDisplay) (uid : UInt32) : RoomDisplay :=
  { d with users := d.users.erase uid }

def allCommand : Str := [47, 97, 108, 108, 32]

def quitCommand : Str := [47, 113, 117, 105, 116]

def lobbyCommand : Str := [47, 108, 111, 98, 98, 121]

def slash : UInt8 := 47

def space : UInt8 := 32

def parseForNickname (text : Str) : Str := (text.take (text.idxOf space)).drop 1

def sendChat (text : Str) : Packet :=
  if allCommand <+: text ∧ allCommand.length < text.length then
    .cBroadcast (text.drop allCommand.length)
  else if text = quitCommand then .cServerExit
  else if text = lobbyCommand then .cRoomExit
  else if [slash] <+: text ∧ space ∈ text then
    .cUnicast (parseForNickname text) (text.drop (text.idxOf space + 1))
  else .cMulticast text

example : sendChat [47, 98, 32, 104, 105] = .cUnicast [98] [104, 105] := by decide

end RoomDisplay

inductive Display
  | login
  | lobby (display : LobbyDisplay)
  | room (display : RoomDisplay)

namespace Display

def isLobby : Display → Bool
  | .lobby _ => true
  | _ => false

def isRoom : Display → Bool
  | .room _ => true
  | _ => false

/-- A member function of another class has written into the object: it is of the class it was,
and holds what `memory` has for that class. -/
def overwrite : Display → Display → Display
  | .lobby _, .lobby memory => .lobby memory
  | .room _, .room memory => .room memory
  | d, _ => d

end Display

end ChattingServer.V11
