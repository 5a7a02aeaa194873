import Mathlib.Logic.Basic

namespace ChattingServer.V10

abbrev Socket := Nat

abbrev Bytes := List UInt8

def maxSockbuf : Nat := 1024

inductive IOOperation
  | recv
  | send
  | close
  deriving DecidableEq

/-- `stClientInfo`.  No socket stands for `INVALID_SOCKET`. -/
structure ClientInfo where
  index : Nat
  socketClient : Option Socket
  recvBuf : Bytes

structure UserInfo extends ClientInfo where
  room : Int32
  prevRoom : Int32
  nickname : Bytes

inductive ConnectOutcome
  | connected
  | bindFailed
  | recvFailed
  deriving DecidableEq

namespace UserInfo

def lobby : Int32 := 0

def maxNicknameLen : Nat := 32

def new (index : Nat) : UserInfo where
  index := index
  socketClient := none
  recvBuf := List.replicate maxSockbuf 0
  room := lobby
  prevRoom := lobby
  nickname := List.replicate maxNicknameLen 0

def isConnected (c : UserInfo) : Bool := c.socketClient.isSome

/-- `Initialize` leaves what `stUserInfo` adds as it is. -/
def initialized (c : UserInfo) : UserInfo :=
  { c with socketClient := none, recvBuf := List.replicate maxSockbuf 0 }

def close (c : UserInfo) : UserInfo :=
  if c.socketClient = none then c else c.initialized

def posted (c : UserInfo) : Bool → Bool × UserInfo
  | true => (true, c)
  | false => (false, c.close)

def bindRecv (c : UserInfo) (bound : Bool) : Bool × UserInfo := c.posted bound

def sendMsg (c : UserInfo) (sent : Bool) : Bool × UserInfo := c.posted sent

def connect (c : UserInfo) (socket : Socket) : ConnectOutcome → Bool × UserInfo
  | .connected => { c with socketClient := some socket }.bindRecv true
  | .bindFailed => (false, { c with socketClient := some socket })
  | .recvFailed =>
    let (_, c) := { c with socketClient := some socket }.bindRecv false
    (false, c.close)

def received (c : UserInfo) (data : Bytes) : UserInfo :=
  { c with recvBuf := data ++ c.recvBuf.drop data.length }

/-- `SetNickname` copies the nickname without the NUL that ends it. -/
def setNickname (c : UserInfo) (nickname : Bytes) : UserInfo :=
  { c with room := lobby, nickname := nickname ++ c.nickname.drop nickname.length }

def nicknameString (c : UserInfo) : Bytes := c.nickname.takeWhile (· ≠ 0)

def enterRoom (c : UserInfo) (roomNumber : Int32) : Bool × UserInfo :=
  if c.room ≠ lobby then (false, c) else (true, { c with room := roomNumber })

def exitRoom (c : UserInfo) : Bool × UserInfo :=
  if c.room = lobby then (false, c) else (true, { c with prevRoom := c.room, room := lobby })

@[simp] theorem isConnected_new (index : Nat) : (new index).isConnected = false := rfl

@[simp] theorem index_new (index : Nat) : (new index).index = index := rfl

@[simp] theorem isConnected_initialized (c : UserInfo) : c.initialized.isConnected = false := rfl

@[simp] theorem index_initialized (c : UserInfo) : c.initialized.index = c.index := rfl

@[simp] theorem isConnected_close (c : UserInfo) : c.close.isConnected = false := by
  unfold close
  split
  · rename_i h
    simp [isConnected, h]
  · rfl

@[simp] theorem index_close (c : UserInfo) : c.close.index = c.index := by
  unfold close
  split <;> rfl

@[simp] theorem index_posted (c : UserInfo) (posted : Bool) :
    (c.posted posted).2.index = c.index := by
  cases posted with
  | true => rfl
  | false => exact index_close c

theorem close_of_not_isConnected {c : UserInfo} (h : c.isConnected = false) : c.close = c := by
  apply if_pos
  simpa [isConnected] using h

@[simp] theorem index_connect (c : UserInfo) (socket : Socket) (outcome : ConnectOutcome) :
    (c.connect socket outcome).2.index = c.index := by
  cases outcome <;> simp [connect, bindRecv, posted]

theorem isConnected_connect (c : UserInfo) (socket : Socket) (outcome : ConnectOutcome) :
    (c.connect socket outcome).2.isConnected = decide (outcome ≠ .recvFailed) := by
  cases outcome with
  | connected | bindFailed => rfl
  | recvFailed => simp [connect, bindRecv, posted]

/-! Rooms -/

theorem enterRoom_of_lobby {c : UserInfo} (h : c.room = lobby) (roomNumber : Int32) :
    c.enterRoom roomNumber = (true, { c with room := roomNumber }) :=
  if_neg (not_not_intro h)

theorem enterRoom_of_ne {c : UserInfo} (h : c.room ≠ lobby) (roomNumber : Int32) :
    c.enterRoom roomNumber = (false, c) :=
  if_pos h

theorem exitRoom_of_lobby {c : UserInfo} (h : c.room = lobby) : c.exitRoom = (false, c) :=
  if_pos h

theorem exitRoom_of_ne {c : UserInfo} (h : c.room ≠ lobby) :
    c.exitRoom = (true, { c with prevRoom := c.room, room := lobby }) :=
  if_neg h

theorem enterRoom_of_refused {c : UserInfo} {roomNumber : Int32}
    (h : (c.enterRoom roomNumber).1 = false) : (c.enterRoom roomNumber).2 = c := by
  by_cases hlobby : c.room = lobby
  · rw [enterRoom_of_lobby hlobby] at h
    contradiction
  · rw [enterRoom_of_ne hlobby]

theorem exitRoom_of_refused {c : UserInfo} (h : c.exitRoom.1 = false) : c.exitRoom.2 = c := by
  by_cases hlobby : c.room = lobby
  · rw [exitRoom_of_lobby hlobby]
  · rw [exitRoom_of_ne hlobby] at h
    contradiction

@[simp] theorem toClientInfo_enterRoom (c : UserInfo) (roomNumber : Int32) :
    (c.enterRoom roomNumber).2.toClientInfo = c.toClientInfo := by
  unfold enterRoom
  split <;> rfl

@[simp] theorem toClientInfo_exitRoom (c : UserInfo) :
    c.exitRoom.2.toClientInfo = c.toClientInfo := by
  unfold exitRoom
  split <;> rfl

@[simp] theorem nickname_enterRoom (c : UserInfo) (roomNumber : Int32) :
    (c.enterRoom roomNumber).2.nickname = c.nickname := by
  unfold enterRoom
  split <;> rfl

@[simp] theorem nickname_exitRoom (c : UserInfo) : c.exitRoom.2.nickname = c.nickname := by
  unfold exitRoom
  split <;> rfl

/-! The nickname field -/

@[simp] theorem nickname_close (c : UserInfo) : c.close.nickname = c.nickname := by
  unfold close
  split <;> rfl

@[simp] theorem nickname_posted (c : UserInfo) (posted : Bool) :
    (c.posted posted).2.nickname = c.nickname := by
  cases posted with
  | true => rfl
  | false => exact nickname_close c

@[simp] theorem nickname_connect (c : UserInfo) (socket : Socket) (outcome : ConnectOutcome) :
    (c.connect socket outcome).2.nickname = c.nickname := by
  cases outcome <;> simp [connect, bindRecv, posted]

def Padded (nickname : Bytes) : Prop := ∀ b ∈ nickname.dropWhile (· ≠ 0), b = 0

theorem padded_new (index : Nat) : Padded (new index).nickname := by
  intro b hb
  exact List.eq_of_mem_replicate ((List.dropWhile_sublist _).subset hb)

theorem padded_append {name rest : Bytes} (hname : ∀ b ∈ name, b ≠ 0) :
    Padded (name ++ rest) ↔ Padded rest := by
  rw [Padded, List.dropWhile_append_of_pos (by simpa using hname), Padded]

theorem Padded.drop_of_le {nickname : Bytes} (h : Padded nickname) {n : Nat}
    (hn : (nickname.takeWhile (· ≠ 0)).length ≤ n) : ∀ b ∈ nickname.drop n, b = 0 := by
  intro b hb
  apply h
  have hsplit := List.takeWhile_append_dropWhile (p := (· ≠ 0)) (l := nickname)
  rw [← hsplit, List.drop_append, List.drop_eq_nil_of_le hn, List.nil_append] at hb
  exact List.mem_of_mem_drop hb

theorem Padded.tail {b : UInt8} {bs : Bytes} (h : Padded (b :: bs)) : Padded bs := by
  by_cases hb : b = 0
  · intro x hx
    apply h
    rw [List.dropWhile_cons_of_neg (by simpa using hb)]
    exact List.mem_cons_of_mem _ ((List.dropWhile_sublist _).subset hx)
  · rwa [Padded, List.dropWhile_cons_of_pos (by simpa using hb)] at h

theorem Padded.drop {nickname : Bytes} (h : Padded nickname) (n : Nat) :
    Padded (nickname.drop n) := by
  induction nickname generalizing n with
  | nil => rwa [List.drop_nil]
  | cons b bs ih =>
    cases n with
    | zero => exact h
    | succ n => exact ih h.tail n

theorem Padded.eq_of_takeWhile_eq {a b : Bytes} (ha : Padded a) (hb : Padded b)
    (hlength : a.length = b.length)
    (h : a.takeWhile (· ≠ 0) = b.takeWhile (· ≠ 0)) : a = b := by
  have hsplit := List.takeWhile_append_dropWhile (p := (· ≠ (0 : UInt8))) (l := a)
  have hsplit' := List.takeWhile_append_dropWhile (p := (· ≠ (0 : UInt8))) (l := b)
  have hlen := congrArg List.length hsplit
  have hlen' := congrArg List.length hsplit'
  rw [List.length_append] at hlen hlen'
  rw [← hsplit, ← hsplit', h, List.eq_replicate_of_mem ha, List.eq_replicate_of_mem hb]
  congr 2
  rw [h] at hlen
  omega

end UserInfo

end ChattingServer.V10
