import Mathlib.Data.List.TakeWhile
import ChattingServer.V10.Server.Requests

namespace ChattingServer.V10

open Lib

/-! What the handlers read of a message `m` and of what is left in the buffer after it -/

namespace Packet

theorem drop_append_take {m r : Bytes} {k n : Nat} (h : k + n ≤ m.length) :
    ((m ++ r).drop k).take n = (m.drop k).take n := by
  rw [List.drop_append_of_le_length (by omega),
    List.take_append_of_le_length (by rw [List.length_drop]; omega)]

theorem request_append {m : Bytes} (h : 4 ≤ m.length) (r : Bytes) :
    request (m ++ r) = request m :=
  congrArg (Request.ofCode ∘ LittleEndian.ofBytes) (drop_append_take h)

theorem roomNo_append {m : Bytes} (h : 40 ≤ m.length) (r : Bytes) : roomNo (m ++ r) = roomNo m :=
  congrArg (fun bs => (UInt32.ofNat (LittleEndian.ofBytes bs)).toInt32) (drop_append_take h)

theorem nickname_append {m : Bytes} (h : 0 ∈ m.drop 4) (r : Bytes) :
    nickname (m ++ r) = nickname m := by
  have hle : 4 ≤ m.length := by
    have := List.length_pos_of_mem h
    rw [List.length_drop] at this
    omega
  have hended : ((m.drop 4).takeWhile (· ≠ 0)).length ≠ (m.drop 4).length := by
    intro hlen
    have heq := (List.takeWhile_sublist (· ≠ (0 : UInt8))).eq_of_length hlen
    rw [List.takeWhile_eq_self_iff] at heq
    simpa using heq 0 h
  rw [nickname, List.drop_append_of_le_length hle, List.takeWhile_append, if_neg hended]
  rfl

theorem nickname_append_of_not_mem {m : Bytes} (hle : 4 ≤ m.length) (h : 0 ∉ m.drop 4)
    (r : Bytes) : nickname (m ++ r) = m.drop 4 ++ r.takeWhile (· ≠ 0) := by
  rw [nickname, List.drop_append_of_le_length hle, List.takeWhile_append_of_pos]
  intro b hb
  simpa using ne_of_mem_of_not_mem hb h

theorem type_eq {buf : Bytes} {x y : UInt8} (hx : buf[2]? = some x) (hy : buf[3]? = some y) :
    type buf = x.toNat + 256 * y.toNat := by
  obtain ⟨h2, rfl⟩ := List.getElem?_eq_some_iff.mp hx
  obtain ⟨h3, rfl⟩ := List.getElem?_eq_some_iff.mp hy
  rw [type, List.drop_eq_getElem_cons h2, List.drop_eq_getElem_cons h3]
  rfl

theorem roomNo_ne {buf buf' : Bytes} (h : 40 ≤ buf.length) (h' : 40 ≤ buf'.length)
    (hne : buf[39]? ≠ buf'[39]?) : roomNo buf ≠ roomNo buf' := by
  have hlen : ∀ {b : Bytes}, 40 ≤ b.length → ((b.drop 36).take 4).length = 4 := fun hb => by
    rw [List.length_take, List.length_drop]
    omega
  have hlt : ∀ {b : Bytes}, 40 ≤ b.length →
      LittleEndian.ofBytes ((b.drop 36).take 4) < UInt32.size := fun {b} hb => by
    have := LittleEndian.ofBytes_lt ((b.drop 36).take 4)
    rwa [hlen hb] at this
  intro heq
  have hword := congrArg Int32.toUInt32 heq
  simp only [roomNo, UInt32.toUInt32_toInt32] at hword
  have hnat := congrArg UInt32.toNat hword
  rw [UInt32.toNat_ofNat_of_lt' (hlt h), UInt32.toNat_ofNat_of_lt' (hlt h')] at hnat
  have hslice : (buf.drop 36).take 4 = (buf'.drop 36).take 4 :=
    ((LittleEndian.ofBytes_eq_iff (hlen h) (hlt h')).mp hnat).trans
      ((LittleEndian.ofBytes_eq_iff (hlen h') (hlt h')).mp rfl).symm
  have hget := congrArg (fun l : Bytes => l[3]?) hslice
  simp only [List.getElem?_take, List.getElem?_drop] at hget
  exact hne (by simpa using hget)

end Packet

namespace ChatServer

def withRecvBuf (s : ChatServer) (i : Nat) (b : Bytes) : ChatServer :=
  { s with clientMgr := { s.clientMgr with
      clientInfos := s.clientMgr.clientInfos.modify i fun c => { c with recvBuf := b } } }

/-- What becomes of a message does not depend on what is left in the buffer after it. -/
structure OwnBytes (s : ChatServer) (i : Nat) (m : Bytes) (bound : Bool) : Prop where
  handler : ∀ b b' : Bytes, b.length = maxSockbuf → b'.length = maxSockbuf →
    Packet.request (m ++ b.drop m.length) = Packet.request (m ++ b'.drop m.length)
  outcome : ∀ b b' : Bytes, b.length = maxSockbuf → b'.length = maxSockbuf →
    ((s.withRecvBuf i b).receive i m bound).map (·.withRecvBuf i []) =
      ((s.withRecvBuf i b').receive i m bound).map (·.withRecvBuf i [])
  /-- What is written past the nickname field -/
  overrun : ∀ b b' : Bytes, b.length = maxSockbuf → b'.length = maxSockbuf →
    Overlong (m ++ b.drop m.length) →
      Packet.nickname (m ++ b.drop m.length) = Packet.nickname (m ++ b'.drop m.length)

def SelfContained (c : UserInfo) (m : Bytes) : Prop :=
  if 4 ≤ m.length then
    (Packet.request m = some .serverEnter → 0 ∈ m.drop 4 ∨ m.length = maxSockbuf) ∧
      (Packet.request m = some .roomEnter → 40 ≤ m.length ∨ c.room ≠ UserInfo.lobby)
  else m.length = 3 ∧ ∀ b ∈ m[2]?, Request.ofCode b.toNat = none

def kept (c : UserInfo) (bound : Bool) : UserInfo := { (c.posted bound).2 with recvBuf := [] }

theorem kept_recvBuf (c : UserInfo) (b : Bytes) (bound : Bool) :
    kept { c with recvBuf := b } bound = kept c bound := by
  cases bound with
  | true => rfl
  | false =>
    simp only [kept, UserInfo.posted, UserInfo.close]
    split <;> rfl

theorem handle_recvBuf (c : UserInfo) (b buf : Bytes) :
    handle { c with recvBuf := b } buf = { handle c buf with recvBuf := b } := by
  unfold handle
  cases Packet.request buf with
  | none => rfl
  | some r =>
    cases r with
    | roomEnter =>
      simp only [UserInfo.enterRoom]
      split <;> rfl
    | roomExit =>
      simp only [UserInfo.exitRoom]
      split <;> rfl
    | _ => rfl

theorem withRecvBuf_eq {s : ChatServer} {i : Nat} {c : UserInfo}
    (hc : s.clientMgr.clientInfos[i]? = some c) (b : Bytes) :
    s.withRecvBuf i b =
      { s with clientMgr := s.clientMgr.setClient i { c with recvBuf := b } } := by
  obtain ⟨hi, rfl⟩ := List.getElem?_eq_some_iff.mp hc
  simp [withRecvBuf, ClientManager.setClient, List.modify_eq_set_getElem?, hi]

theorem outcome_eq {s : ChatServer} {i : Nat} {c : UserInfo}
    (hc : s.clientMgr.clientInfos[i]? = some c) {m : Bytes} (hne : m ≠ [])
    (hle : m.length ≤ maxSockbuf) (bound : Bool) (b : Bytes) :
    ((s.withRecvBuf i b).receive i m bound).map (·.withRecvBuf i []) =
      if Overlong (m ++ b.drop m.length) then .error .outOfRange
      else .ok { s with
        clientMgr := s.clientMgr.setClient i (kept (handle c (m ++ b.drop m.length)) bound)
        packetQueue := s.packetQueue ++ enqueued i m.length (m ++ b.drop m.length) } := by
  have hset := ClientManager.getElem?_setClient_self hc
  have hbuf : ({ c with recvBuf := b }.received m).recvBuf = m ++ b.drop m.length := rfl
  rw [withRecvBuf_eq hc, receive_eq (hset _) hne hle, hbuf]
  by_cases hover : Overlong (m ++ b.drop m.length)
  · rw [if_pos hover, if_pos hover]
    rfl
  · rw [if_neg hover, if_neg hover, ClientManager.setClient_setClient]
    change Except.ok (withRecvBuf _ i []) = _
    rw [withRecvBuf_eq (hset _), ClientManager.setClient_setClient]
    change Except.ok { s with
      clientMgr := s.clientMgr.setClient i
        (kept (handle { c with recvBuf := m ++ b.drop m.length } _) bound)
      packetQueue := _ } = _
    rw [handle_recvBuf, kept_recvBuf]

theorem Packet.take_append (m r : Bytes) : (m ++ r).take m.length = m := List.take_left' rfl

theorem enqueued_append {m : Bytes} (h : 4 ≤ m.length) (i : Nat) (r : Bytes) :
    enqueued i m.length (m ++ r) = enqueued i m.length m := by
  simp only [enqueued, Packet.request_append h, List.take_left', List.take_length]

theorem handle_append {c : UserInfo} {m : Bytes} (h : 4 ≤ m.length)
    (hnick : Packet.request m = some .serverEnter → 0 ∈ m.drop 4)
    (hroom : Packet.request m = some .roomEnter → 40 ≤ m.length ∨ c.room ≠ UserInfo.lobby)
    (r : Bytes) : handle c (m ++ r) = handle c m := by
  unfold handle
  rw [Packet.request_append h]
  cases hr : Packet.request m with
  | none => rfl
  | some request =>
    cases request with
    | serverEnter => exact congrArg c.setNickname (Packet.nickname_append (hnick hr) r)
    | roomEnter =>
      rcases hroom hr with hlen | hin
      · exact congrArg (fun n => (c.enterRoom n).2) (Packet.roomNo_append hlen r)
      · simp only [UserInfo.enterRoom_of_ne hin]
    | _ => rfl

theorem overlong_append {m : Bytes} (h : 4 ≤ m.length) (hnick : 0 ∈ m.drop 4) (r : Bytes) :
    Overlong (m ++ r) ↔ Overlong m := by
  rw [Overlong, Packet.request_append h, Packet.nickname_append hnick]
  rfl

theorem ofCode_eq_none {n : Nat} (h : 34 ≤ n) : Request.ofCode n = none := by
  rw [Request.ofCode, List.find?_eq_none]
  intro r _ hcode
  have hlt : r.code < 34 := by cases r <;> decide
  have heq : r.code = n := of_decide_eq_true hcode
  omega

theorem request_of_three {m : Bytes} (hlen : m.length = 3)
    (hcode : ∀ b ∈ m[2]?, Request.ofCode b.toNat = none) {b : Bytes}
    (hb : b.length = maxSockbuf) : Packet.request (m ++ b.drop m.length) = none := by
  have hb3 : 3 < b.length := by
    rw [hb]
    decide
  have h2 : (m ++ b.drop m.length)[2]? = some m[2] := by
    rw [List.getElem?_append_left (by omega), List.getElem?_eq_getElem]
  have h3 : (m ++ b.drop m.length)[3]? = some b[3] := by
    rw [List.getElem?_append_right (by omega), List.getElem?_drop, hlen,
      List.getElem?_eq_getElem]
  rw [Packet.request, Packet.type_eq h2 h3]
  rcases Nat.eq_zero_or_pos b[3].toNat with hzero | hpos
  · rw [hzero]
    exact hcode _ (List.getElem?_eq_getElem (by omega))
  · exact ofCode_eq_none (by omega)

theorem ownBytes_of_full {s : ChatServer} {i : Nat} {c : UserInfo}
    (hc : s.clientMgr.clientInfos[i]? = some c) {m : Bytes} (hfull : m.length = maxSockbuf)
    (bound : Bool) : s.OwnBytes i m bound := by
  have hne : m ≠ [] := List.length_pos_iff.mp (by rw [hfull]; decide)
  have hnil : ∀ {b : Bytes}, b.length = maxSockbuf → b.drop m.length = [] := fun hb =>
    List.drop_of_length_le (by omega)
  refine ⟨fun b b' hb hb' => ?_, fun b b' hb hb' => ?_, fun b b' hb hb' _ => ?_⟩
  · rw [hnil hb, hnil hb']
  · rw [outcome_eq hc hne (Nat.le_of_eq hfull), outcome_eq hc hne (Nat.le_of_eq hfull), hnil hb,
      hnil hb']
  · rw [hnil hb, hnil hb']

theorem SelfContained.ownBytes {s : ChatServer} {i : Nat} {c : UserInfo}
    (hc : s.clientMgr.clientInfos[i]? = some c) {m : Bytes} (hne : m ≠ [])
    (hle : m.length ≤ maxSockbuf) (h : SelfContained c m) (bound : Bool) :
    s.OwnBytes i m bound := by
  by_cases hfull : m.length = maxSockbuf
  · exact ownBytes_of_full hc hfull bound
  unfold SelfContained at h
  split at h
  · rename_i hlen
    obtain ⟨hnick, hroom⟩ := h
    have hmem : Packet.request m = some .serverEnter → 0 ∈ m.drop 4 := fun hr =>
      (hnick hr).resolve_right hfull
    have hover : ∀ r, Overlong (m ++ r) ↔ Overlong m := fun r => by
      by_cases hr : Packet.request m = some .serverEnter
      · exact overlong_append hlen (hmem hr) r
      · exact iff_of_false (fun ho => hr ((Packet.request_append hlen r).symm.trans ho.1))
          fun ho => hr ho.1
    refine ⟨fun b b' _ _ => ?_, fun b b' _ _ => ?_, fun b b' _ _ ho => ?_⟩
    · rw [Packet.request_append hlen, Packet.request_append hlen]
    · rw [outcome_eq hc hne hle, outcome_eq hc hne hle, enqueued_append hlen, enqueued_append hlen,
        handle_append hlen hmem hroom, handle_append hlen hmem hroom]
      simp only [hover]
    · have hr := (Packet.request_append hlen _).symm.trans ho.1
      rw [Packet.nickname_append (hmem hr), Packet.nickname_append (hmem hr)]
  · obtain ⟨hlen, hcode⟩ := h
    have hnone : ∀ {b : Bytes}, b.length = maxSockbuf → _ := request_of_three hlen hcode
    have hshort : ∀ {b : Bytes}, b.length = maxSockbuf → ¬ Overlong (m ++ b.drop m.length) :=
      fun hb hover => Option.some_ne_none _ (hover.1.symm.trans (hnone hb))
    refine ⟨fun b b' hb hb' => (hnone hb).trans (hnone hb').symm, fun b b' hb hb' => ?_,
      fun b b' hb _ hover => absurd hover (hshort hb)⟩
    rw [outcome_eq hc hne hle, outcome_eq hc hne hle, if_neg (hshort hb), if_neg (hshort hb')]
    simp only [handle, enqueued, hnone hb, hnone hb']

def leftOver (k : Nat) (x : UInt8) : Bytes := (List.replicate maxSockbuf 0).set k x

theorem length_leftOver (k : Nat) (x : UInt8) : (leftOver k x).length = maxSockbuf := by
  rw [leftOver, List.length_set, List.length_replicate]

theorem getElem?_leftOver {m : Bytes} {k j : Nat} {x : UInt8} (hm : m.length ≤ j)
    (hj : j < maxSockbuf) :
    (m ++ (leftOver k x).drop m.length)[j]? = some (if j = k then x else 0) := by
  rw [List.getElem?_append_right hm, List.getElem?_drop, Nat.add_sub_cancel' hm, leftOver,
    List.getElem?_set, List.length_replicate, List.getElem?_replicate, if_pos hj]
  by_cases hk : k = j
  · subst hk
    rw [if_pos rfl, if_pos hj, if_pos rfl]
  · rw [if_neg hk, if_neg (Ne.symm hk)]

theorem takeWhile_leftOver {k : Nat} (hk : k < maxSockbuf) (x : UInt8) :
    ((leftOver k x).drop k).takeWhile (· ≠ 0) = if x = 0 then [] else [x] := by
  have hrest : maxSockbuf - k = maxSockbuf - (k + 1) + 1 := by omega
  rw [leftOver, List.drop_set, if_neg (Nat.lt_irrefl k), Nat.sub_self, List.drop_replicate, hrest,
    List.replicate_succ, List.set_cons_zero, List.takeWhile_cons, List.takeWhile_replicate]
  simp

theorem OwnBytes.kept_eq {s : ChatServer} {i : Nat} {c : UserInfo}
    (hc : s.clientMgr.clientInfos[i]? = some c) {m : Bytes} (hne : m ≠ [])
    (hle : m.length ≤ maxSockbuf) {bound : Bool} (h : s.OwnBytes i m bound) {b b' : Bytes}
    (hb : b.length = maxSockbuf) (hb' : b'.length = maxSockbuf)
    (hover : ¬ Overlong (m ++ b.drop m.length)) :
    ¬ Overlong (m ++ b'.drop m.length) ∧
      kept (handle c (m ++ b.drop m.length)) bound =
        kept (handle c (m ++ b'.drop m.length)) bound := by
  have hset := ClientManager.getElem?_setClient_self hc
  have heq := h.outcome b b' hb hb'
  rw [outcome_eq hc hne hle, outcome_eq hc hne hle, if_neg hover] at heq
  split at heq
  · cases heq
  · rename_i hover'
    have hclient := congrArg (fun s : ChatServer => s.clientMgr.clientInfos[i]?)
      (Except.ok.inj heq)
    exact ⟨hover', Option.some.inj ((hset _).symm.trans (hclient.trans (hset _)))⟩

theorem nickname_kept (c : UserInfo) (bound : Bool) : (kept c bound).nickname = c.nickname :=
  UserInfo.nickname_posted c bound

theorem room_kept (c : UserInfo) (bound : Bool) : (kept c bound).room = c.room :=
  (ClientManager.rooms_posted c bound).1

theorem not_ownBytes_of_short {s : ChatServer} {i : Nat} {c : UserInfo} {m : Bytes} {bound : Bool}
    (hlen : m.length < 4) (h : ¬ SelfContained c m) : ¬ s.OwnBytes i m bound := by
  intro hown
  rw [SelfContained, if_neg (Nat.not_le.mpr hlen)] at h
  have hsmall : 3 < maxSockbuf := by decide
  by_cases h3 : m.length = 3
  · have hget : m[2]? = some m[2] := List.getElem?_eq_getElem _
    have hcode : Request.ofCode m[2].toNat ≠ none := fun hnone => h ⟨h3, fun b hb => by
      rw [hget] at hb
      exact Option.some.inj hb ▸ hnone⟩
    have h2 : ∀ x, (m ++ (leftOver 3 x).drop m.length)[2]? = some m[2] := fun x => by
      rw [List.getElem?_append_left (by omega), hget]
    have heq := hown.handler (leftOver 3 0) (leftOver 3 1) (length_leftOver ..) (length_leftOver ..)
    rw [Packet.request, Packet.request,
      Packet.type_eq (h2 0) (getElem?_leftOver (by omega) hsmall),
      Packet.type_eq (h2 1) (getElem?_leftOver (by omega) hsmall)] at heq
    simp only [if_true] at heq
    rw [ofCode_eq_none (show 34 ≤ m[2].toNat + 256 * (1 : UInt8).toNat by
      have : (1 : UInt8).toNat = 1 := rfl
      omega)] at heq
    exact hcode heq
  · have htype : ∀ x, Packet.request (m ++ (leftOver 2 x).drop m.length) =
        Request.ofCode x.toNat := fun x => by
      rw [Packet.request, Packet.type_eq (getElem?_leftOver (by omega) (by decide))
        (getElem?_leftOver (by omega) hsmall)]
      rfl
    have heq := hown.handler (leftOver 2 0) (leftOver 2 11) (length_leftOver ..)
      (length_leftOver ..)
    rw [htype, htype] at heq
    exact absurd heq (by decide)

theorem not_ownBytes_of_serverEnter {s : ChatServer} {i : Nat} {c : UserInfo}
    (hc : s.clientMgr.clientInfos[i]? = some c) {m : Bytes} {bound : Bool} (hlen : 4 ≤ m.length)
    (hsize : m.length < maxSockbuf) (hr : Packet.request m = some .serverEnter)
    (hmem : 0 ∉ m.drop 4) : ¬ s.OwnBytes i m bound := by
  intro hown
  have hne : m ≠ [] := List.length_pos_iff.mp (by omega)
  -- a byte that is no NUL, and not the one that the field has there
  obtain ⟨x, hx, hold⟩ : ∃ x : UInt8, x ≠ 0 ∧ c.nickname[m.length - 4]? ≠ some x := by
    by_cases h1 : c.nickname[m.length - 4]? = some 1
    · exact ⟨2, by decide, by rw [h1]; decide⟩
    · exact ⟨1, by decide, h1⟩
  have hnick : ∀ y, Packet.nickname (m ++ (leftOver m.length y).drop m.length) =
      m.drop 4 ++ if y = 0 then [] else [y] := fun y => by
    rw [Packet.nickname_append_of_not_mem hlen hmem, takeWhile_leftOver hsize]
  have hover : ¬ Overlong (m ++ (leftOver m.length 0).drop m.length) := fun hover => by
    have heq := hown.overrun _ (leftOver m.length x) (length_leftOver ..) (length_leftOver ..) hover
    rw [hnick, hnick, if_pos rfl, if_neg hx] at heq
    simp at heq
  have hhandle : ∀ r, handle c (m ++ r) = c.setNickname (Packet.nickname (m ++ r)) := fun r => by
    simp only [handle, Packet.request_append hlen, hr]
  obtain ⟨-, hkept⟩ := hown.kept_eq hc hne (Nat.le_of_lt hsize) (length_leftOver _ 0)
    (length_leftOver _ x) hover
  have heq := congrArg UserInfo.nickname hkept
  rw [nickname_kept, nickname_kept, hhandle, hhandle, hnick, hnick, if_pos rfl, if_neg hx,
    List.append_nil] at heq
  have hget := congrArg (fun l : Bytes => l[m.length - 4]?) heq
  simp only [UserInfo.setNickname, List.append_assoc] at hget
  rw [List.getElem?_append_right (by rw [List.length_drop]),
    List.getElem?_append_right (by rw [List.length_drop]), List.length_drop, Nat.sub_self,
    List.getElem?_drop] at hget
  exact hold hget

theorem not_ownBytes_of_roomEnter {s : ChatServer} {i : Nat} {c : UserInfo}
    (hc : s.clientMgr.clientInfos[i]? = some c) {m : Bytes} {bound : Bool} (hlen : 4 ≤ m.length)
    (hlt : m.length < 40) (hr : Packet.request m = some .roomEnter)
    (hroom : c.room = UserInfo.lobby) : ¬ s.OwnBytes i m bound := by
  intro hown
  have hne : m ≠ [] := List.length_pos_iff.mp (by omega)
  have hsize : m.length ≤ maxSockbuf := Nat.le_trans (Nat.le_of_lt hlt) (by decide)
  have hreq : ∀ r, Packet.request (m ++ r) = some .roomEnter := fun r =>
    (Packet.request_append hlen r).trans hr
  have hhandle : ∀ r, (handle c (m ++ r)).room = Packet.roomNo (m ++ r) := fun r => by
    simp only [handle, hreq, UserInfo.enterRoom_of_lobby hroom]
  have hover : ∀ r, ¬ Overlong (m ++ r) := fun r hover => by
    cases (hreq r).symm.trans hover.1
  have hbuf : ∀ x, 40 ≤ (m ++ (leftOver 39 x).drop m.length).length := fun x => by
    rw [List.length_append, List.length_drop, length_leftOver]
    have : 40 ≤ maxSockbuf := by decide
    omega
  obtain ⟨-, hkept⟩ := hown.kept_eq hc hne hsize (length_leftOver 39 0) (length_leftOver 39 1)
    (hover _)
  have heq := congrArg UserInfo.room hkept
  rw [room_kept, room_kept, hhandle, hhandle] at heq
  refine Packet.roomNo_ne (hbuf 0) (hbuf 1) ?_ heq
  rw [getElem?_leftOver (by omega) (by decide), getElem?_leftOver (by omega) (by decide)]
  decide

/-- What a message leads to is its own exactly when it has all that its handler gets to read. -/
theorem ownBytes_iff {s : ChatServer} {i : Nat} {c : UserInfo}
    (hc : s.clientMgr.clientInfos[i]? = some c) {m : Bytes} (hne : m ≠ [])
    (hle : m.length ≤ maxSockbuf) (bound : Bool) : s.OwnBytes i m bound ↔ SelfContained c m := by
  refine ⟨fun hown => ?_, fun h => h.ownBytes hc hne hle bound⟩
  by_contra hnot
  by_cases hlen : 4 ≤ m.length
  · apply hnot
    rw [SelfContained, if_pos hlen]
    refine ⟨fun hr => ?_, fun hr => ?_⟩
    · by_contra hcon
      obtain ⟨hmem, hfull⟩ := not_or.mp hcon
      exact not_ownBytes_of_serverEnter hc hlen (Nat.lt_of_le_of_ne hle hfull) hr hmem hown
    · by_contra hcon
      obtain ⟨hshort, hin⟩ := not_or.mp hcon
      exact not_ownBytes_of_roomEnter hc hlen (Nat.not_le.mp hshort) hr (not_not.mp hin) hown
  · exact not_ownBytes_of_short (Nat.not_le.mp hlen) hnot hown

theorem ownBytes_multicast : (init 4).OwnBytes 0 [32, 0, 32, 0] true := by
  refine (ownBytes_iff getElem?_init (by decide) (by decide) true).mpr ?_
  rw [SelfContained, if_pos (by decide)]
  exact ⟨fun h => absurd h (by decide), fun h => absurd h (by decide)⟩

/-- A `SERVER_ENTER` packet that ends after the two letters of its nickname -/
theorem not_ownBytes_serverEnter : ¬ ∀ (n : Nat) (s : ChatServer) (i : Nat) (c : UserInfo)
    (m : Bytes) (bound : Bool), (system n).Reachable s → s.clientMgr.clientInfos[i]? = some c →
      m ≠ [] → m.length ≤ maxSockbuf → s.OwnBytes i m bound := by
  intro h
  have hown := h 4 (init 4) 0 (.new 0) [2, 0, 11, 0, 97, 98] true .init getElem?_init (by decide)
    (by decide)
  exact not_ownBytes_of_serverEnter getElem?_init (by decide) (by decide) (by decide) (by decide)
    hown

end ChatServer

end ChattingServer.V10
