import Mathlib.Data.List.TakeWhile
import ChattingServer.Lib.LittleEndian
import ChattingServer.Lib.Memory
import ChattingServer.V10.Server.UserInfo

namespace ChattingServer.V10.Client

open Lib

inductive Action
  | serverEnter
  | serverExit
  | roomEnter
  | roomExit
  | chatBroadcast
  | chatMulticast
  | chatUnicast
  | serverMessage
  deriving DecidableEq

namespace Action

def code : Action → Nat
  | .serverEnter => 11
  | .serverExit => 12
  | .roomEnter => 21
  | .roomExit => 22
  | .chatBroadcast => 31
  | .chatMulticast => 32
  | .chatUnicast => 33
  | .serverMessage => 51

def all : List Action :=
  [.serverEnter, .serverExit, .roomEnter, .roomExit, .chatBroadcast, .chatMulticast, .chatUnicast,
    .serverMessage]

def ofCode (type : Nat) : Option Action := all.find? (·.code = type)

end Action

def packetHeaderLength : Nat := 4

def maxNicknameLen : Nat := 32

def maxContentLen : Nat := 900

def chatSender : Nat := packetHeaderLength

def chatContent : Nat := chatSender + maxNicknameLen

def chatPacketLength : Nat := chatContent + maxContentLen

def unicastRecver : Nat := packetHeaderLength

def unicastSender : Nat := unicastRecver + maxNicknameLen

def unicastContent : Nat := unicastSender + maxNicknameLen

def unicastPacketLength : Nat := unicastContent + maxContentLen

def cString (object : Bytes) (offset : Nat) : Bytes := (object.drop offset).takeWhile (· ≠ 0)

theorem length_cString_lt {object : Bytes} {offset : Nat} (h : 0 ∈ object.drop offset) :
    offset + (cString object offset).length < object.length := by
  have hrest : (object.drop offset).dropWhile (· ≠ 0) ≠ [] := by
    rw [Ne, List.dropWhile_eq_nil_iff]
    intro hall
    simpa using hall 0 h
  have hlen := congrArg List.length
    (List.takeWhile_append_dropWhile (p := (· ≠ (0 : UInt8))) (l := object.drop offset))
  have := List.length_pos_iff.mpr hrest
  rw [List.length_append, List.length_drop] at hlen
  simp only [cString]
  omega

end ChattingServer.V10.Client
