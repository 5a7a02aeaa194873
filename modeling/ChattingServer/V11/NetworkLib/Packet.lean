import ChattingServer.V11.NetworkLib.Stream

namespace ChattingServer.V11

open Lib

inductive PacketType
  | undefined
  | cServerEnter | cServerExit | cRoomEnter | cRoomExit
  | cBroadcast | cMulticast | cUnicast | cRoomCreate | cLobbyRoomInfo
  | sServerEnterOk | sServerEnterNo | sLobbyRoomInfo | sLobbyUserInfo | sLobbyEnter | sLobbyExit
  | sRoomEnter | sRoomExit | sRoomName | sBroadcast | sMulticast | sUnicastOk | sUnicastNo
  deriving DecidableEq

def PacketType.toInt32 : PacketType → UInt32
  | .undefined => 0
  | .cServerEnter => 101
  | .cServerExit => 102
  | .cRoomEnter => 110
  | .cRoomExit => 111
  | .cBroadcast => 112
  | .cMulticast => 113
  | .cUnicast => 114
  | .cRoomCreate => 115
  | .cLobbyRoomInfo => 116
  | .sServerEnterOk => 201
  | .sServerEnterNo => 202
  | .sLobbyRoomInfo => 203
  | .sLobbyUserInfo => 204
  | .sLobbyEnter => 205
  | .sLobbyExit => 206
  | .sRoomEnter => 207
  | .sRoomExit => 208
  | .sRoomName => 209
  | .sBroadcast => 210
  | .sMulticast => 211
  | .sUnicastOk => 212
  | .sUnicastNo => 213

inductive Packet
  | undefined
  | cServerEnter (nickname : Str)
  | cServerExit
  | cRoomEnter (rid : UInt16)
  | cRoomExit
  | cBroadcast (text : Str)
  | cMulticast (text : Str)
  | cUnicast (recver text : Str)
  | cRoomCreate (roomName : Str)
  | cLobbyRoomInfo
  | sServerEnterOk (pid : UInt32)
  | sServerEnterNo
  | sLobbyRoomInfo (roomCount : UInt16) (roomId : List UInt16) (roomName : List Str)
  | sLobbyUserInfo (roomCount userCount : UInt16) (ids : List UInt32) (names : List Str)
  | sLobbyEnter (uid : UInt32) (nickname : Str)
  | sLobbyExit
  | sRoomEnter (uid : UInt32) (name : Str)
  | sRoomExit (uid : UInt32)
  | sRoomName (roomName : Str)
  | sBroadcast (nickname text : Str)
  | sMulticast (nickname text : Str)
  | sUnicastOk (nickname text : Str)
  | sUnicastNo
  deriving DecidableEq

namespace Packet

def type : Packet → PacketType
  | .undefined => .undefined
  | .cServerEnter _ => .cServerEnter
  | .cServerExit => .cServerExit
  | .cRoomEnter _ => .cRoomEnter
  | .cRoomExit => .cRoomExit
  | .cBroadcast _ => .cBroadcast
  | .cMulticast _ => .cMulticast
  | .cUnicast _ _ => .cUnicast
  | .cRoomCreate _ => .cRoomCreate
  | .cLobbyRoomInfo => .cLobbyRoomInfo
  | .sServerEnterOk _ => .sServerEnterOk
  | .sServerEnterNo => .sServerEnterNo
  | .sLobbyRoomInfo _ _ _ => .sLobbyRoomInfo
  | .sLobbyUserInfo _ _ _ _ => .sLobbyUserInfo
  | .sLobbyEnter _ _ => .sLobbyEnter
  | .sLobbyExit => .sLobbyExit
  | .sRoomEnter _ _ => .sRoomEnter
  | .sRoomExit _ => .sRoomExit
  | .sRoomName _ => .sRoomName
  | .sBroadcast _ _ => .sBroadcast
  | .sMulticast _ _ => .sMulticast
  | .sUnicastOk _ _ => .sUnicastOk
  | .sUnicastNo => .sUnicastNo

def writeType (t : PacketType) (stream : Stream) : Stream := stream.writeU32 t.toInt32

def encodeHeader (t : PacketType) (stream : Stream) : Stream := writeType t stream

def encodeCast (t : PacketType) (nickname text : Str) (stream : Stream) : Stream :=
  ((writeType t stream).writeStr nickname).writeStr text

/-- `encode` also stores the counts it writes, so it returns the packet with the stream. -/
def encode : Packet → Stream → Packet × Stream
  | .undefined, stream => (.undefined, encodeHeader .undefined stream)
  | .cServerEnter nickname, stream =>
    (.cServerEnter nickname, (writeType .cServerEnter stream).writeStr nickname)
  | .cServerExit, stream => (.cServerExit, encodeHeader .cServerExit stream)
  | .cRoomEnter rid, stream => (.cRoomEnter rid, (writeType .cRoomEnter stream).writeU16 rid)
  | .cRoomExit, stream => (.cRoomExit, encodeHeader .cRoomExit stream)
  | .cBroadcast text, stream => (.cBroadcast text, (writeType .cBroadcast stream).writeStr text)
  | .cMulticast text, stream => (.cMulticast text, (writeType .cMulticast stream).writeStr text)
  | .cUnicast recver text, stream =>
    (.cUnicast recver text, ((writeType .cUnicast stream).writeStr recver).writeStr text)
  | .cRoomCreate roomName, stream =>
    (.cRoomCreate roomName, (writeType .cRoomCreate stream).writeStr roomName)
  | .cLobbyRoomInfo, stream => (.cLobbyRoomInfo, encodeHeader .cLobbyRoomInfo stream)
  | .sServerEnterOk pid, stream =>
    (.sServerEnterOk pid, (writeType .sServerEnterOk stream).writeU32 pid)
  | .sServerEnterNo, stream => (.sServerEnterNo, encodeHeader .sServerEnterNo stream)
  | .sLobbyRoomInfo _ roomId roomName, stream =>
    let roomCount := UInt16.ofNat roomName.length
    let stream := (writeType .sLobbyRoomInfo stream).writeU16 roomCount
    let stream := roomId.foldl Stream.writeU16 stream
    (.sLobbyRoomInfo roomCount roomId roomName, roomName.foldl Stream.writeStr stream)
  | .sLobbyUserInfo roomCount _ ids names, stream =>
    let stream := (writeType .sLobbyUserInfo stream).writeU16 roomCount
    let userCount := UInt16.ofNat names.length
    let stream := stream.writeU16 userCount
    let stream := ids.foldl Stream.writeU32 stream
    (.sLobbyUserInfo roomCount userCount ids names, names.foldl Stream.writeStr stream)
  | .sLobbyEnter uid nickname, stream =>
    (.sLobbyEnter uid nickname, ((writeType .sLobbyEnter stream).writeU32 uid).writeStr nickname)
  | .sLobbyExit, stream => (.sLobbyExit, encodeHeader .sLobbyExit stream)
  | .sRoomEnter uid name, stream =>
    (.sRoomEnter uid name, ((writeType .sRoomEnter stream).writeU32 uid).writeStr name)
  | .sRoomExit uid, stream => (.sRoomExit uid, (writeType .sRoomExit stream).writeU32 uid)
  | .sRoomName roomName, stream =>
    (.sRoomName roomName, (writeType .sRoomName stream).writeStr roomName)
  | .sBroadcast nickname text, stream =>
    (.sBroadcast nickname text, encodeCast .sBroadcast nickname text stream)
  | .sMulticast nickname text, stream =>
    (.sMulticast nickname text, encodeCast .sMulticast nickname text stream)
  | .sUnicastOk nickname text, stream =>
    (.sUnicastOk nickname text, encodeCast .sUnicastOk nickname text stream)
  | .sUnicastNo, stream => (.sUnicastNo, encodeHeader .sUnicastNo stream)

/-- `decode` on a packet object whose fields hold what the constructor left in them. -/
def decode : Packet → Stream → Except StreamFault (Packet × Stream)
  | .cServerEnter _, stream => do
    let (nickname, stream) ← stream.readStr
    return (.cServerEnter nickname, stream)
  | .cRoomEnter rid, stream => do
    let (rid, stream) ← stream.readU16 rid
    return (.cRoomEnter rid, stream)
  | .cBroadcast _, stream => do
    let (text, stream) ← stream.readStr
    return (.cBroadcast text, stream)
  | .cMulticast _, stream => do
    let (text, stream) ← stream.readStr
    return (.cMulticast text, stream)
  | .cUnicast _ _, stream => do
    let (recver, stream) ← stream.readStr
    let (text, stream) ← stream.readStr
    return (.cUnicast recver text, stream)
  | .cRoomCreate _, stream => do
    let (roomName, stream) ← stream.readStr
    return (.cRoomCreate roomName, stream)
  | .sServerEnterOk pid, stream => do
    let (pid, stream) ← stream.readU32 pid
    return (.sServerEnterOk pid, stream)
  | .sLobbyRoomInfo roomCount roomId roomName, stream => do
    let (roomCount, stream) ← stream.readU16 roomCount
    let (ids, stream) ← Stream.readMany (Stream.readU16 · 0) roomCount.toNat stream
    let (names, stream) ← Stream.readMany Stream.readStr roomCount.toNat stream
    return (.sLobbyRoomInfo roomCount (roomId ++ ids) (roomName ++ names), stream)
  | .sLobbyUserInfo roomCount userCount ids names, stream => do
    let (roomCount, stream) ← stream.readU16 roomCount
    let (userCount, stream) ← stream.readU16 userCount
    let (ids', stream) ← Stream.readMany (Stream.readU32 · 0) userCount.toNat stream
    let (names', stream) ← Stream.readMany Stream.readStr userCount.toNat stream
    return (.sLobbyUserInfo roomCount userCount (ids ++ ids') (names ++ names'), stream)
  | .sLobbyEnter uid _, stream => do
    let (uid, stream) ← stream.readU32 uid
    let (nickname, stream) ← stream.readStr
    return (.sLobbyEnter uid nickname, stream)
  | .sRoomEnter uid _, stream => do
    let (uid, stream) ← stream.readU32 uid
    let (name, stream) ← stream.readStr
    return (.sRoomEnter uid name, stream)
  | .sRoomExit uid, stream => do
    let (uid, stream) ← stream.readU32 uid
    return (.sRoomExit uid, stream)
  | .sRoomName _, stream => do
    let (roomName, stream) ← stream.readStr
    return (.sRoomName roomName, stream)
  | .sBroadcast _ _, stream => do
    let (nickname, stream) ← stream.readStr
    let (text, stream) ← stream.readStr
    return (.sBroadcast nickname text, stream)
  | .sMulticast _ _, stream => do
    let (nickname, stream) ← stream.readStr
    let (text, stream) ← stream.readStr
    return (.sMulticast nickname text, stream)
  | .sUnicastOk _ _, stream => do
    let (nickname, stream) ← stream.readStr
    let (text, stream) ← stream.readStr
    return (.sUnicastOk nickname text, stream)
  -- the other classes inherit the empty `Packet::decode`
  | packet, stream => return (packet, stream)

/-! The layout of each class, without a limit on its length. -/

def u16 (v : UInt16) : List UInt8 := LittleEndian.toBytes 2 v.toNat

def u32 (v : UInt32) : List UInt8 := LittleEndian.toBytes 4 v.toNat

def str (v : Str) : List UInt8 := v ++ [0]

@[simp] theorem length_u16 (v : UInt16) : (u16 v).length = 2 := LittleEndian.length_toBytes ..

@[simp] theorem length_u32 (v : UInt32) : (u32 v).length = 4 := LittleEndian.length_toBytes ..

@[simp] theorem length_str (v : Str) : (str v).length = v.length + 1 := by simp [str]

theorem reads_u16 (retVal : UInt16) :
    Stream.Reads (Stream.readU16 · retVal) (fun _ => True) u16 where
  ok_iff h := by simp [Stream.readU16_ok_iff h, u16]

theorem reads_u32 (retVal : UInt32) :
    Stream.Reads (Stream.readU32 · retVal) (fun _ => True) u32 where
  ok_iff h := by simp [Stream.readU32_ok_iff h, u32]

theorem reads_str : Stream.Reads Stream.readStr Stream.Proper str where
  ok_iff _ := by simp [Stream.readStr_ok_iff, str]

def payload : Packet → List UInt8
  | .cServerEnter nickname => str nickname
  | .cRoomEnter rid => u16 rid
  | .cBroadcast text => str text
  | .cMulticast text => str text
  | .cUnicast recver text => str recver ++ str text
  | .cRoomCreate roomName => str roomName
  | .sServerEnterOk pid => u32 pid
  | .sLobbyRoomInfo roomCount roomId roomName =>
    u16 roomCount ++ roomId.flatMap u16 ++ roomName.flatMap str
  | .sLobbyUserInfo roomCount userCount ids names =>
    u16 roomCount ++ u16 userCount ++ ids.flatMap u32 ++ names.flatMap str
  | .sLobbyEnter uid nickname => u32 uid ++ str nickname
  | .sRoomEnter uid name => u32 uid ++ str name
  | .sRoomExit uid => u32 uid
  | .sRoomName roomName => str roomName
  | .sBroadcast nickname text => str nickname ++ str text
  | .sMulticast nickname text => str nickname ++ str text
  | .sUnicastOk nickname text => str nickname ++ str text
  | _ => []

def counted : Packet → Packet
  | .sLobbyRoomInfo _ roomId roomName =>
    .sLobbyRoomInfo (UInt16.ofNat roomName.length) roomId roomName
  | .sLobbyUserInfo roomCount _ ids names =>
    .sLobbyUserInfo roomCount (UInt16.ofNat names.length) ids names
  | packet => packet

def header (p : Packet) : List UInt8 := u32 p.type.toInt32

def encoding (p : Packet) : List UInt8 := p.header ++ p.counted.payload

def strings : Packet → List Str
  | .cServerEnter nickname => [nickname]
  | .cBroadcast text => [text]
  | .cMulticast text => [text]
  | .cUnicast recver text => [recver, text]
  | .cRoomCreate roomName => [roomName]
  | .sLobbyRoomInfo _ _ roomName => roomName
  | .sLobbyUserInfo _ _ _ names => names
  | .sLobbyEnter _ nickname => [nickname]
  | .sRoomEnter _ name => [name]
  | .sRoomName roomName => [roomName]
  | .sBroadcast nickname text => [nickname, text]
  | .sMulticast nickname text => [nickname, text]
  | .sUnicastOk nickname text => [nickname, text]
  | _ => []

def Paired : Packet → Prop
  | .sLobbyRoomInfo _ roomId roomName => roomId.length = roomName.length
  | .sLobbyUserInfo _ _ ids names => ids.length = names.length
  | _ => True

def Counted : Packet → Prop
  | .sLobbyRoomInfo roomCount _ roomName => roomCount.toNat = roomName.length
  | .sLobbyUserInfo _ userCount _ names => userCount.toNat = names.length
  | _ => True

/-- What `decode` makes of a fresh packet object. -/
structure Decoded (p : Packet) : Prop where
  proper : ∀ v ∈ p.strings, Stream.Proper v
  paired : p.Paired
  counts : p.Counted

theorem eq_undefined_of_type {p : Packet} (h : p.type = .undefined) : p = .undefined := by
  cases p with
  | undefined => rfl
  | _ => nomatch h

@[simp] theorem encode_fst (p : Packet) (s : Stream) : (p.encode s).1 = p.counted := by
  cases p <;> rfl

@[simp] theorem counted_type (p : Packet) : p.counted.type = p.type := by
  cases p <;> rfl

@[simp] theorem counted_header (p : Packet) : p.counted.header = p.header := by
  rw [header, counted_type, header]

@[simp] theorem counted_strings (p : Packet) : p.counted.strings = p.strings := by
  cases p <;> rfl

theorem counted_paired {p : Packet} : p.counted.Paired ↔ p.Paired := by
  cases p <;> rfl

@[simp] theorem length_header (p : Packet) : p.header.length = 4 := by simp [header]

theorem length_encoding (p : Packet) : p.encoding.length = 4 + p.counted.payload.length := by
  simp [encoding]

def fieldWrites : Packet → List (List UInt8)
  | .cServerEnter nickname => Stream.strWrites nickname
  | .cRoomEnter rid => [u16 rid]
  | .cBroadcast text => Stream.strWrites text
  | .cMulticast text => Stream.strWrites text
  | .cUnicast recver text => Stream.strWrites recver ++ Stream.strWrites text
  | .cRoomCreate roomName => Stream.strWrites roomName
  | .sServerEnterOk pid => [u32 pid]
  | .sLobbyRoomInfo roomCount roomId roomName =>
    [u16 roomCount] ++ roomId.map u16 ++ roomName.flatMap Stream.strWrites
  | .sLobbyUserInfo roomCount userCount ids names =>
    [u16 roomCount, u16 userCount] ++ ids.map u32 ++ names.flatMap Stream.strWrites
  | .sLobbyEnter uid nickname => [u32 uid] ++ Stream.strWrites nickname
  | .sRoomEnter uid name => [u32 uid] ++ Stream.strWrites name
  | .sRoomExit uid => [u32 uid]
  | .sRoomName roomName => Stream.strWrites roomName
  | .sBroadcast nickname text => Stream.strWrites nickname ++ Stream.strWrites text
  | .sMulticast nickname text => Stream.strWrites nickname ++ Stream.strWrites text
  | .sUnicastOk nickname text => Stream.strWrites nickname ++ Stream.strWrites text
  | _ => []

def writes (p : Packet) : List (List UInt8) := p.header :: p.counted.fieldWrites

theorem foldl_writeU16 (ids : List UInt16) (s : Stream) :
    (ids.map u16).foldl Stream.write s = ids.foldl Stream.writeU16 s := List.foldl_map

theorem foldl_writeU32 (ids : List UInt32) (s : Stream) :
    (ids.map u32).foldl Stream.write s = ids.foldl Stream.writeU32 s := List.foldl_map

theorem foldl_writeStr (names : List Str) (s : Stream) :
    (names.flatMap Stream.strWrites).foldl Stream.write s = names.foldl Stream.writeStr s := by
  induction names generalizing s with
  | nil => rfl
  | cons name names ih =>
    rw [List.flatMap_cons, List.foldl_append, ← Stream.writeStr_eq, ih, List.foldl_cons]

theorem encode_snd (p : Packet) (s : Stream) :
    (p.encode s).2 = p.writes.foldl Stream.write s := by
  cases p with
  | undefined | cServerExit | cRoomExit | cLobbyRoomInfo | sServerEnterNo | sLobbyExit
  | sUnicastNo | cRoomEnter v | sServerEnterOk v | sRoomExit v => rfl
  | cServerEnter v | cBroadcast v | cMulticast v | cRoomCreate v | sRoomName v
  | sLobbyEnter u v | sRoomEnter u v => exact Stream.writeStr_eq _ v
  | cUnicast v w | sBroadcast v w | sMulticast v w | sUnicastOk v w =>
    simp only [writes, counted, fieldWrites, List.foldl_cons, List.foldl_append,
      ← Stream.writeStr_eq]
    rfl
  | sLobbyRoomInfo roomCount ids names =>
    simp only [writes, counted, fieldWrites, List.foldl_cons, List.foldl_append, List.foldl_nil,
      foldl_writeU16, foldl_writeStr]
    rfl
  | sLobbyUserInfo roomCount userCount ids names =>
    simp only [writes, counted, fieldWrites, List.foldl_cons, List.foldl_append, List.foldl_nil,
      foldl_writeU32, foldl_writeStr]
    rfl

@[simp] theorem flatten_flatMap_strWrites (names : List Str) :
    (names.flatMap Stream.strWrites).flatten = names.flatMap str := by
  induction names with
  | nil => rfl
  | cons name names ih =>
    rw [List.flatMap_cons, List.flatten_append, ih, Stream.flatten_strWrites, List.flatMap_cons]
    rfl

theorem flatten_fieldWrites (p : Packet) : p.fieldWrites.flatten = p.payload := by
  cases p with
  | sLobbyRoomInfo _ ids names | sLobbyUserInfo _ _ ids names =>
    rw [fieldWrites, List.flatten_append, List.flatten_append, flatten_flatMap_strWrites,
      ← List.flatMap_def, payload]
    simp
  | _ => simp [fieldWrites, payload, str]

@[simp] theorem flatten_writes (p : Packet) : p.writes.flatten = p.encoding := by
  rw [writes, List.flatten_cons, flatten_fieldWrites, encoding]

/-! Every number is written at a multiple of its size, which divides that of the array. -/

theorem aligned_u16 {n : Nat} (h : 2 ∣ n) (ids : List UInt16) :
    BoundedWriter.Aligned sockbufSize n (ids.map u16) := by
  apply BoundedWriter.aligned_of_forall (by decide) h
  simp

theorem aligned_u32 {n : Nat} (h : 4 ∣ n) (ids : List UInt32) :
    BoundedWriter.Aligned sockbufSize n (ids.map u32) := by
  apply BoundedWriter.aligned_of_forall (by decide) h
  simp

theorem aligned_str (n : Nat) (v : Str) :
    BoundedWriter.Aligned sockbufSize n (Stream.strWrites v) := by
  apply BoundedWriter.aligned_of_forall (Nat.one_dvd _) (Nat.one_dvd n)
  exact fun _ => Stream.length_of_mem_strWrites

theorem aligned_strs (n : Nat) (names : List Str) :
    BoundedWriter.Aligned sockbufSize n (names.flatMap Stream.strWrites) := by
  apply BoundedWriter.aligned_of_forall (Nat.one_dvd _) (Nat.one_dvd n)
  intro v hv
  obtain ⟨name, -, hv⟩ := List.mem_flatMap.mp hv
  exact Stream.length_of_mem_strWrites hv

theorem aligned_fieldWrites (p : Packet) : BoundedWriter.Aligned sockbufSize 4 p.fieldWrites := by
  cases p with
  | undefined | cServerExit | cRoomExit | cLobbyRoomInfo | sServerEnterNo | sLobbyExit
  | sUnicastNo => exact .nil
  | cServerEnter v | cBroadcast v | cMulticast v | cRoomCreate v | sRoomName v =>
    exact aligned_str 4 v
  | cUnicast v w | sBroadcast v w | sMulticast v w | sUnicastOk v w =>
    exact (aligned_str 4 v).append (aligned_str _ w)
  | cRoomEnter v => exact aligned_u16 (by decide) [v]
  | sServerEnterOk v | sRoomExit v => exact aligned_u32 (by decide) [v]
  | sLobbyEnter v w | sRoomEnter v w =>
    exact (aligned_u32 (by decide) [v]).append (aligned_str _ w)
  | sLobbyRoomInfo roomCount ids names =>
    apply BoundedWriter.Aligned.append _ (aligned_strs _ names)
    exact aligned_u16 (by decide) (roomCount :: ids)
  | sLobbyUserInfo roomCount userCount ids names =>
    apply BoundedWriter.Aligned.append _ (aligned_strs _ names)
    apply (aligned_u16 (by decide) [roomCount, userCount]).append
    exact aligned_u32 (by simp) ids

theorem aligned_writes (p : Packet) : BoundedWriter.Aligned sockbufSize 0 p.writes := by
  apply BoundedWriter.Aligned.cons (Nat.dvd_zero _)
  · rw [length_header]
    decide
  · rw [length_header]
    exact p.counted.aligned_fieldWrites

theorem encode_holds (p : Packet) : (p.encode Stream.init).2.Holds p.encoding := by
  have h := Stream.holds_init.foldl_write p.aligned_writes
  rwa [← encode_snd, List.nil_append, flatten_writes] at h

theorem size_encode (p : Packet) :
    (p.encode Stream.init).2.size = min sockbufSize p.encoding.length :=
  p.encode_holds.offset

theorem contents_encode (p : Packet) :
    (p.encode Stream.init).2.contents = p.encoding.take sockbufSize :=
  (Stream.holds_iff.mp p.encode_holds).1

theorem counted_counts {p : Packet} (h : p.strings.length < 65536) : p.counted.Counted := by
  cases p with
  | sLobbyRoomInfo _ _ roomName => exact UInt16.toNat_ofNat_of_lt' h
  | sLobbyUserInfo _ _ _ names => exact UInt16.toNat_ofNat_of_lt' h
  | _ => trivial

end Packet

end ChattingServer.V11
