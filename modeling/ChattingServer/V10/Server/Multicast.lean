import ChattingServer.V10.Server.Requests

namespace ChattingServer.V10

open Lib

/-- Whom a packet is meant for. -/
inductive Target
  | room (r : Int32)
  | nobody
  deriving DecidableEq

namespace ChatServer

/-- What a request, found in the buffer, settles when it is accepted: a chat is for the room of its
sender, a notice for the room that was entered or left. -/
def targetOf (c : UserInfo) (buf : Bytes) : Option Target :=
  match Packet.request buf with
  | some .chatMulticast => some (if c.room = UserInfo.lobby then .nobody else .room c.room)
  | some .roomEnter =>
    if c.room = UserInfo.lobby then some (.room (Packet.roomNo buf)) else none
  | some .roomExit => if c.room = UserInfo.lobby then none else some (.room c.room)
  | _ => none

def target (s : ChatServer) (index : Nat) (data : Bytes) : Option Target :=
  s.clientMgr.clientInfos[index]?.bind fun c => targetOf c (c.received data).recvBuf

def track (targets : List (Option Target)) (s : ChatServer) : Action → List (Option Target)
  | .receive index data bound =>
    match s.receive index data bound with
    | .ok s' => targets ++ (s'.packetQueue.drop s.packetQueue.length).map fun _ =>
      s.target index data
    | .error _ => targets
  | .run _ => targets.tail
  | .accept _ _ | .close _ => targets

abbrev Tracked := ChatServer × List (Option Target)

def tracked (maxClient : Nat) : System Tracked Action Fault :=
  (system maxClient).withHistory [] track

structure Queued (m : ClientManager) (p : PacketInfo) (t : Option Target) : Prop where
  client : p.clientIndex < m.currentCapacity
  dataSize : p.dataSize ≠ 0
  multi : t ≠ none → p.sendType = .multi

structure Sound (x : Tracked) : Prop where
  sized : x.1.clientMgr.Sized
  queued : List.Forall₂ (Queued x.1.clientMgr) x.1.packetQueue x.2

theorem Queued.mono {m m' : ClientManager} (h : m.currentCapacity ≤ m'.currentCapacity)
    {p : PacketInfo} {t : Option Target} (hq : Queued m p t) : Queued m' p t :=
  ⟨Nat.lt_of_lt_of_le hq.client h, hq.dataSize, hq.multi⟩

theorem forall₂_queued_mono {m m' : ClientManager} (h : m.currentCapacity ≤ m'.currentCapacity)
    {queue : List PacketInfo} {targets : List (Option Target)}
    (hq : List.Forall₂ (Queued m) queue targets) : List.Forall₂ (Queued m') queue targets :=
  hq.imp fun _ _ => Queued.mono h

theorem forall₂_queued_map {m : ClientManager} {queue : List PacketInfo} {t : Option Target}
    (h : ∀ p ∈ queue, Queued m p t) : List.Forall₂ (Queued m) queue (queue.map fun _ => t) := by
  rw [List.forall₂_map_right_iff, List.forall₂_same]
  exact h

theorem queued_enqueued {m : ClientManager} {index size : Nat} (hi : index < m.currentCapacity)
    (hsize : size ≠ 0) (c : UserInfo) (buf : Bytes) :
    ∀ p ∈ enqueued index size buf, Queued m p (targetOf c buf) := by
  unfold enqueued targetOf
  cases Packet.request buf with
  | none => exact List.forall_mem_nil _
  | some r =>
    cases r with
    | serverEnter | chatUnicast =>
      exact List.forall_mem_singleton.mpr ⟨hi, by simp, fun ht => absurd rfl ht⟩
    | serverExit | chatBroadcast =>
      exact List.forall_mem_singleton.mpr ⟨hi, hsize, fun ht => absurd rfl ht⟩
    | roomEnter | roomExit | chatMulticast =>
      exact List.forall_mem_singleton.mpr ⟨hi, hsize, fun _ => rfl⟩

theorem clientIndex_of_mem_enqueued {index size : Nat} {buf : Bytes} {p : PacketInfo}
    (h : p ∈ enqueued index size buf) : p.clientIndex = index := by
  unfold enqueued at h
  cases hr : Packet.request buf with
  | none =>
    rw [hr] at h
    contradiction
  | some r =>
    rw [hr] at h
    cases r <;> exact congrArg PacketInfo.clientIndex (List.mem_singleton.mp h)

theorem sound_init (n : Nat) : Sound (init n, []) :=
  ⟨ClientManager.sized_new n, .nil⟩

theorem Sound.evolves {s : ChatServer} {targets : List (Option Target)} (h : Sound (s, targets))
    {m : ClientManager} (hm : s.clientMgr.Evolves m) (sends : List Send) :
    Sound ({ s with clientMgr := m, sends }, targets) :=
  ⟨hm.sized, forall₂_queued_mono hm.capacity h.queued⟩

def multiSends (m : ClientManager) (p : PacketInfo) (c : UserInfo) : List Send :=
  match senderRoom c with
  | none => []
  | some room =>
    castSends m p (fun c => c.isConnected ∧ c.room = room)
      (fun i => if (if p.isClose then IOOperation.close else .send) = .close ∧ i = p.clientIndex
        then .close else .send) (List.range m.currentCapacity)

theorem range_lt {m : ClientManager} : ∀ i ∈ List.range m.currentCapacity, i < m.currentCapacity :=
  fun _ hi => List.mem_range.mp hi

theorem multiCast_ok {s : ChatServer} (hsize : s.clientMgr.Sized) {p : PacketInfo} {c : UserInfo}
    (hc : s.clientMgr.clientInfos[p.clientIndex]? = some c) (failed : List Nat) :
    ∃ m, s.clientMgr.Evolves m ∧
      s.multiCast p (if p.isClose then .close else .send) failed =
        .ok { s with clientMgr := m, sends := s.sends ++ multiSends s.clientMgr p c } := by
  rw [multiCast, ClientManager.getClientByIndex_ok_iff.mpr hc, ok_bind, multiSends]
  cases senderRoom c with
  | none => exact ⟨s.clientMgr, .refl hsize, by simp⟩
  | some room => exact castLoop_ok hsize p _ _ failed List.nodup_range range_lt

theorem run_ok {s : ChatServer} {t : Option Target} {targets : List (Option Target)}
    {p : PacketInfo} {packetQueue : List PacketInfo} (h : Sound (s, t :: targets))
    (hq : s.packetQueue = p :: packetQueue) (failed : List Nat) :
    ∃ m sends, s.clientMgr.Evolves m ∧ s.run failed =
      .ok { clientMgr := m, packetQueue, sends := s.sends ++ sends } ∧
      ∀ c, s.clientMgr.clientInfos[p.clientIndex]? = some c → t ≠ none →
        sends = multiSends s.clientMgr p c := by
  have hqueued := h.queued
  rw [hq] at hqueued
  obtain ⟨hp, -⟩ := List.forall₂_cons.mp hqueued
  obtain ⟨c, hc⟩ := h.sized.exists_client hp.client
  rw [run, hq]
  simp only [if_neg hp.dataSize, sendPacket]
  cases hsend : p.sendType with
  | multi =>
    obtain ⟨m, hm, hok⟩ := multiCast_ok (s := { s with packetQueue }) h.sized hc failed
    refine ⟨m, _, hm, hok, fun c' hc' _ => ?_⟩
    rw [hc] at hc'
    cases hc'
    rfl
  | broad =>
    obtain ⟨m, hm, hok⟩ := castLoop_ok (s := { s with packetQueue }) h.sized p
      (·.isConnected) (fun _ => .send) failed List.nodup_range range_lt
    refine ⟨m, _, hm, hok, fun _ _ ht => ?_⟩
    rw [hp.multi ht] at hsend
    contradiction
  | uni =>
    have hok := sendMsg_eq (s := { s with packetQueue }) hc p .send (p.clientIndex ∉ failed)
    refine ⟨_, _, .stepped h.sized (.post hc _ (.inl rfl)), hok, fun _ _ ht => ?_⟩
    rw [hp.multi ht] at hsend
    contradiction
  | uninitialized =>
    refine ⟨s.clientMgr, [], .refl h.sized, by simp, fun _ _ ht => ?_⟩
    rw [hp.multi ht] at hsend
    contradiction

theorem evolves_of_accept {s s' : ChatServer} (h : s.clientMgr.Sized) {socket : Socket}
    {outcome : ConnectOutcome} (hs : s.accept socket outcome = .ok s') :
    ∃ m, s.clientMgr.Evolves m ∧ s' = { s with clientMgr := m } := by
  obtain ⟨created, m, hm, rfl⟩ := created_of_accept h hs
  exact ⟨m, .stepped h (.createClient hm), rfl⟩

theorem evolves_of_close {s s' : ChatServer} (h : s.clientMgr.Sized) {index : Nat}
    (hs : s.close index = .ok s') :
    ∃ m, s.clientMgr.Evolves m ∧ s' = { s with clientMgr := m } := by
  obtain ⟨c, hc, rfl⟩ := closed_of_ok hs
  exact ⟨_, .stepped h (.close (a := .closeClient index) hc (.inl rfl)), rfl⟩

theorem Sound.received {s s' : ChatServer} {targets : List (Option Target)}
    (h : Sound (s, targets)) {index : Nat} {data : Bytes} {bound : Bool}
    (hs : s.receive index data bound = .ok s') :
    Sound (s', targets ++ (s'.packetQueue.drop s.packetQueue.length).map fun _ =>
      s.target index data) := by
  obtain ⟨⟨hdata, -⟩, c, hc, rfl⟩ := received_of_ok hs
  have hi := h.sized.lt_length.mp (List.getElem?_eq_some_iff.mp hc).1
  have htarget : s.target index data = targetOf c (c.received data).recvBuf := by
    rw [target, hc]
    rfl
  have hindex : ((handle (c.received data) (c.received data).recvBuf).posted bound).2.index =
      c.index := (UserInfo.index_posted ..).trans (index_handle ..)
  refine ⟨h.sized.setClient hc hindex, ?_⟩
  generalize ((handle (c.received data) (c.received data).recvBuf).posted bound).2 = c'
  have hcap : s.clientMgr.currentCapacity ≤ (s.clientMgr.setClient index c').currentCapacity :=
    Nat.le_refl _
  have hnew := forall₂_queued_map (queued_enqueued (Nat.lt_of_lt_of_le hi hcap)
    (List.length_pos_iff.mpr hdata).ne' c (c.received data).recvBuf)
  simp only [List.drop_left, htarget]
  exact List.rel_append (forall₂_queued_mono hcap h.queued) hnew

theorem Sound.step {n : Nat} {x x' : Tracked} (h : Sound x) {a : Action}
    (hstep : (tracked n).step x a = .ok x') : Sound x' := by
  obtain ⟨s, targets⟩ := x
  obtain ⟨s', hs, rfl⟩ := System.exists_of_withHistory_step hstep
  cases a with
  | accept socket outcome =>
    obtain ⟨m, hm, rfl⟩ := evolves_of_accept h.sized hs
    exact h.evolves hm s.sends
  | receive index data bound =>
    have hs' : s.receive index data bound = .ok s' := hs
    rw [track, hs']
    exact h.received hs'
  | close index =>
    obtain ⟨m, hm, rfl⟩ := evolves_of_close h.sized hs
    exact h.evolves hm s.sends
  | run failed =>
    have hqueued := h.queued
    cases hq : s.packetQueue with
    | nil =>
      have hs' : s.run failed = .ok s' := hs
      simp only [run, hq, pure_eq_ok, Except.ok.injEq] at hs'
      subst hs'
      rw [hq] at hqueued
      cases hqueued
      exact ⟨h.sized, by rw [hq]; exact .nil⟩
    | cons p packetQueue =>
      rw [hq] at hqueued
      cases targets with
      | nil => cases hqueued
      | cons t targets =>
        obtain ⟨m, sends, hm, hok, -⟩ := run_ok h hq failed
        cases hok.symm.trans hs
        exact ⟨hm.sized, forall₂_queued_mono hm.capacity (List.forall₂_cons.mp hqueued).2⟩

theorem sound_of_reach {n : Nat} {G : Tracked → Action → Prop} {x : Tracked}
    (h : (tracked n).Reach G x) : Sound x :=
  h.invariant (sound_init n) fun _ _ _ _ hx _ hs => hx.step hs

/-! The audience -/

theorem mem_multiSends {m : ClientManager} (h : m.Sized) {p : PacketInfo} {c : UserInfo}
    {room : Int32} (hroom : senderRoom c = some room) {i : Nat} :
    (∃ send ∈ multiSends m p c, send.index = i) ↔
      ∃ c', m.clientInfos[i]? = some c' ∧ c'.isConnected = true ∧ c'.room = room := by
  simp only [multiSends, hroom, mem_castSends, List.mem_range, decide_eq_true_eq]
  constructor
  · rintro ⟨_, ⟨j, -, c', hc', htest, rfl⟩, rfl⟩
    exact ⟨c', hc', htest⟩
  · rintro ⟨c', hc', htest⟩
    exact ⟨_, ⟨i, h.lt_length.mp (List.getElem?_eq_some_iff.mp hc').1, c', hc', htest, rfl⟩, rfl⟩

theorem filter_multiSends {m : ClientManager} (h : m.Sized) {p : PacketInfo} {c : UserInfo}
    {room : Int32} (hroom : senderRoom c = some room) {i : Nat} {c' : UserInfo}
    (hc' : m.clientInfos[i]? = some c') :
    (multiSends m p c).filter (·.index = i) =
      if c'.isConnected = true ∧ c'.room = room then
        [⟨i, c'.socketClient, p.packetData.take p.dataSize,
          if p.isClose = true ∧ i = p.clientIndex then .close else .send⟩]
      else [] := by
  have hi : i ∈ List.range m.currentCapacity :=
    List.mem_range.mpr (h.lt_length.mp (List.getElem?_eq_some_iff.mp hc').1)
  simp only [multiSends, hroom]
  rw [filter_castSends List.nodup_range, if_pos hi, castSends_singleton hc']
  cases p.isClose <;> simp

theorem multiSends_eq_nil_iff {m : ClientManager} (h : m.Sized) {p : PacketInfo} {c : UserInfo}
    {room : Int32} (hroom : senderRoom c = some room) :
    multiSends m p c = [] ↔
      ∀ c' ∈ m.clientInfos, c'.isConnected = true → c'.room ≠ room := by
  constructor
  · intro hnil c' hc' hup heq
    obtain ⟨i, hi⟩ := List.getElem?_of_mem hc'
    obtain ⟨send, hsend, -⟩ := (mem_multiSends (p := p) h hroom).mpr ⟨c', hi, hup, heq⟩
    rw [hnil] at hsend
    contradiction
  · intro hno
    refine List.eq_nil_iff_forall_not_mem.mpr fun send hsend => ?_
    obtain ⟨c', hc', hup, heq⟩ := (mem_multiSends h hroom).mp ⟨send, hsend, rfl⟩
    exact hno c' (List.mem_of_getElem? hc') hup heq

def Aims (c : UserInfo) (t : Option Target) : Prop :=
  ∀ t', t = some t' → ∀ room, senderRoom c = some room → t' = .room room

def Settled (x : Tracked) : Prop :=
  ∀ p t, (p, t) ∈ x.1.packetQueue.zip x.2 →
    ∀ c, x.1.clientMgr.clientInfos[p.clientIndex]? = some c → Aims c t

def pending (x : Tracked) (index : Nat) : Bool :=
  (x.1.packetQueue.zip x.2).any fun e => e.1.clientIndex = index ∧ e.2 ≠ none

/-- A client chats from a room, or from the lobby if its slot has `LOBBY` for `mPrevRoom`.  It enters
the room in `mPrevRoom`, or one that is not `LOBBY` while no packet of its slot waits, and does not
log in again from another room while one waits. -/
def staysPut (x : Tracked) : Action → Bool
  | .receive index data _ =>
    x.1.clientMgr.clientInfos[index]?.all fun c =>
      let buf := (c.received data).recvBuf
      match Packet.request buf with
      | some .chatMulticast => c.room ≠ UserInfo.lobby ∨ c.prevRoom = UserInfo.lobby
      | some .roomEnter => c.room ≠ UserInfo.lobby ∨ Packet.roomNo buf = c.prevRoom ∨
        Packet.roomNo buf ≠ UserInfo.lobby ∧ pending x index = false
      | some .serverEnter => c.room = UserInfo.lobby ∨ c.room = c.prevRoom ∨
        pending x index = false
      | _ => true
  | _ => true

theorem senderRoom_eq (c : UserInfo) :
    senderRoom c = if c.room = UserInfo.lobby then
      (if c.prevRoom = UserInfo.lobby then none else some c.prevRoom) else some c.room := by
  unfold senderRoom
  by_cases h : c.room = UserInfo.lobby <;> simp [h]

theorem senderRoom_congr {c c' : UserInfo} (hroom : c'.room = c.room)
    (hprev : c'.prevRoom = c.prevRoom) : senderRoom c' = senderRoom c := by
  rw [senderRoom_eq, senderRoom_eq, hroom, hprev]

theorem aims_congr {c c' : UserInfo} (h : senderRoom c' = senderRoom c) {t : Option Target} :
    Aims c' t ↔ Aims c t := by
  rw [Aims, Aims, h]

theorem Settled.evolves {s : ChatServer} {targets : List (Option Target)}
    (h : Settled (s, targets)) (hs : Sound (s, targets)) {m : ClientManager}
    (hm : s.clientMgr.Evolves m) (sends : List Send) :
    Settled ({ s with clientMgr := m, sends }, targets) := by
  intro p t hp c' hc'
  obtain ⟨c, hc⟩ := hs.sized.exists_client (List.forall₂_zip hs.queued hp).client
  obtain ⟨c'', hc'', hroom, hprev⟩ := hm.rooms hc
  cases hc'.symm.trans hc''
  exact (aims_congr (senderRoom_congr hroom hprev)).mpr (h p t hp c hc)

theorem senderRoom_handle {c : UserInfo} {buf : Bytes}
    (h : match Packet.request buf with
      | some .roomEnter => c.room ≠ UserInfo.lobby ∨ Packet.roomNo buf = c.prevRoom
      | some .serverEnter => c.room = UserInfo.lobby ∨ c.room = c.prevRoom
      | _ => True) : senderRoom (handle c buf) = senderRoom c := by
  unfold handle
  cases hr : Packet.request buf with
  | none => rfl
  | some r =>
    rw [hr] at h
    cases r with
    | serverEnter =>
      rw [senderRoom_eq, senderRoom_eq]
      rcases h with h | h
      · rw [h]
        rfl
      · by_cases hlobby : c.room = UserInfo.lobby <;> simp [UserInfo.setNickname, ← h, hlobby]
    | roomEnter =>
      rw [senderRoom_eq, senderRoom_eq]
      rcases h with h | h
      · simp [UserInfo.enterRoom_of_ne h]
      · by_cases hlobby : c.room = UserInfo.lobby
        · simp [UserInfo.enterRoom_of_lobby hlobby, h, hlobby]
        · simp [UserInfo.enterRoom_of_ne hlobby]
    | roomExit =>
      rw [senderRoom_eq, senderRoom_eq]
      by_cases hlobby : c.room = UserInfo.lobby
      · simp [UserInfo.exitRoom_of_lobby hlobby]
      · simp [UserInfo.exitRoom_of_ne hlobby, hlobby]
    | serverExit | chatBroadcast | chatMulticast | chatUnicast => rfl

theorem aims_handle {c : UserInfo} {buf : Bytes}
    (h : match Packet.request buf with
      | some .chatMulticast => c.room ≠ UserInfo.lobby ∨ c.prevRoom = UserInfo.lobby
      | some .roomEnter => c.room ≠ UserInfo.lobby ∨ Packet.roomNo buf = c.prevRoom ∨
        Packet.roomNo buf ≠ UserInfo.lobby
      | _ => True) : Aims (handle c buf) (targetOf c buf) := by
  intro t ht room hroom
  rw [senderRoom_eq] at hroom
  unfold handle at hroom
  unfold targetOf at ht
  cases hr : Packet.request buf with
  | none =>
    rw [hr] at ht
    contradiction
  | some r =>
    rw [hr] at h ht hroom
    cases r with
    | chatMulticast =>
      cases ht
      by_cases hlobby : c.room = UserInfo.lobby
      · simp_all
      · simpa [hlobby] using hroom
    | roomEnter =>
      by_cases hlobby : c.room = UserInfo.lobby
      · simp only [hlobby, if_true, Option.some.injEq] at ht
        subst ht
        simp only [UserInfo.enterRoom_of_lobby hlobby] at hroom
        by_cases hno : Packet.roomNo buf = UserInfo.lobby
        · have hprev : c.prevRoom = UserInfo.lobby := by
            rcases h with h | h | h
            · exact absurd hlobby h
            · rw [← h, hno]
            · exact absurd hno h
          simp [hno, hprev] at hroom
        · simpa [hno] using hroom
      · simp [hlobby] at ht
    | roomExit =>
      by_cases hlobby : c.room = UserInfo.lobby
      · simp [hlobby] at ht
      · simp only [hlobby, if_false, Option.some.injEq] at ht
        subst ht
        simpa [UserInfo.exitRoom_of_ne hlobby, hlobby] using hroom
    | serverEnter | serverExit | chatBroadcast | chatUnicast => contradiction

theorem staysPut_receive {s : ChatServer} {targets : List (Option Target)} {index : Nat}
    {data : Bytes} {bound : Bool} {c : UserInfo} (hc : s.clientMgr.clientInfos[index]? = some c)
    (h : staysPut (s, targets) (.receive index data bound) = true) :
    match Packet.request (c.received data).recvBuf with
    | some .chatMulticast => c.room ≠ UserInfo.lobby ∨ c.prevRoom = UserInfo.lobby
    | some .roomEnter => c.room ≠ UserInfo.lobby ∨
      Packet.roomNo (c.received data).recvBuf = c.prevRoom ∨
      Packet.roomNo (c.received data).recvBuf ≠ UserInfo.lobby ∧ pending (s, targets) index = false
    | some .serverEnter => c.room = UserInfo.lobby ∨ c.room = c.prevRoom ∨
      pending (s, targets) index = false
    | _ => True := by
  simp only [staysPut, hc, Option.all_some] at h
  cases hr : Packet.request (c.received data).recvBuf with
  | none => trivial
  | some r =>
    rw [hr] at h
    cases r with
    | chatMulticast | roomEnter | serverEnter => exact of_decide_eq_true h
    | serverExit | roomExit | chatBroadcast | chatUnicast => trivial

theorem aims_of_staysPut {s : ChatServer} {targets : List (Option Target)} {index : Nat}
    {data : Bytes} {bound : Bool} {c : UserInfo} (hc : s.clientMgr.clientInfos[index]? = some c)
    (hg : staysPut (s, targets) (.receive index data bound) = true) :
    Aims (handle (c.received data) (c.received data).recvBuf)
      (targetOf (c.received data) (c.received data).recvBuf) := by
  have hput := staysPut_receive hc hg
  apply aims_handle
  cases hr : Packet.request (c.received data).recvBuf with
  | none => trivial
  | some r =>
    rw [hr] at hput
    cases r with
    | chatMulticast => exact hput
    | roomEnter => exact hput.imp_right fun h => h.imp_right And.left
    | serverEnter | serverExit | roomExit | chatBroadcast | chatUnicast => trivial

theorem senderRoom_of_staysPut {s : ChatServer} {targets : List (Option Target)} {index : Nat}
    {data : Bytes} {bound : Bool} {c : UserInfo} (hc : s.clientMgr.clientInfos[index]? = some c)
    (hg : staysPut (s, targets) (.receive index data bound) = true) :
    senderRoom (handle (c.received data) (c.received data).recvBuf) = senderRoom c ∨
      pending (s, targets) index = false := by
  have hput := staysPut_receive hc hg
  refine or_iff_not_imp_right.mpr fun hpending => ?_
  change _ = senderRoom (c.received data)
  apply senderRoom_handle
  cases hr : Packet.request (c.received data).recvBuf with
  | none => trivial
  | some r =>
    rw [hr] at hput
    cases r with
    | roomEnter => exact hput.imp_right fun h => h.resolve_right fun h => hpending h.2
    | serverEnter => exact hput.imp_right fun h => h.resolve_right hpending
    | chatMulticast | serverExit | roomExit | chatBroadcast | chatUnicast => trivial

theorem Settled.received {s s' : ChatServer} {targets : List (Option Target)}
    (h : Settled (s, targets)) (hs : Sound (s, targets)) {index : Nat} {data : Bytes}
    {bound : Bool} (hg : staysPut (s, targets) (.receive index data bound) = true)
    (hok : s.receive index data bound = .ok s') :
    Settled (s', targets ++ (s'.packetQueue.drop s.packetQueue.length).map fun _ =>
      s.target index data) := by
  obtain ⟨-, c, hc, rfl⟩ := received_of_ok hok
  have htarget : s.target index data = targetOf (c.received data) (c.received data).recvBuf := by
    rw [target, hc]
    rfl
  have hposted := ClientManager.rooms_posted
    (handle (c.received data) (c.received data).recvBuf) bound
  have hsender := senderRoom_congr hposted.1 hposted.2
  have hnew := aims_of_staysPut hc hg
  have hold := senderRoom_of_staysPut hc hg
  intro p t hp c' hc'
  simp only [List.drop_left, htarget] at hp
  rw [List.zip_append hs.queued.length_eq] at hp
  have hat := ClientManager.getElem?_setClient_self hc
    ((handle (c.received data) (c.received data).recvBuf).posted bound).2
  rcases List.mem_append.mp hp with hp | hp
  · by_cases hi : p.clientIndex = index
    · rw [hi, hat] at hc'
      cases hc'
      rw [aims_congr hsender]
      rcases hold with hold | hnone
      · exact (aims_congr hold).mpr (h p t hp c (hi ▸ hc))
      · have ht := List.any_eq_false.mp hnone (p, t) hp
        simp only [hi, true_and, ne_eq, decide_not, Bool.not_eq_true', Bool.not_eq_false,
          decide_eq_true_eq] at ht
        subst ht
        exact fun _ ht => absurd ht (by simp)
    · exact h p t hp c' ((ClientManager.getElem?_setClient_of_ne hi _).symm.trans hc')
  · have hmem := List.of_mem_zip hp
    obtain ⟨-, -, rfl⟩ := List.mem_map.mp hmem.2
    have hindex : p.clientIndex = index := clientIndex_of_mem_enqueued hmem.1
    rw [hindex, hat] at hc'
    cases hc'
    exact (aims_congr hsender).mpr hnew

theorem Settled.step {n : Nat} {x x' : Tracked} (h : Settled x) (hx : Sound x) {a : Action}
    (hg : staysPut x a = true) (hstep : (tracked n).step x a = .ok x') : Settled x' := by
  obtain ⟨s, targets⟩ := x
  obtain ⟨s', hs, rfl⟩ := System.exists_of_withHistory_step hstep
  cases a with
  | accept socket outcome =>
    obtain ⟨m, hm, rfl⟩ := evolves_of_accept hx.sized hs
    exact h.evolves hx hm s.sends
  | receive index data bound =>
    have hs' : s.receive index data bound = .ok s' := hs
    rw [track, hs']
    exact h.received hx hg hs'
  | close index =>
    obtain ⟨m, hm, rfl⟩ := evolves_of_close hx.sized hs
    exact h.evolves hx hm s.sends
  | run failed =>
    cases hq : s.packetQueue with
    | nil =>
      have hs' : s.run failed = .ok s' := hs
      simp only [run, hq, pure_eq_ok, Except.ok.injEq] at hs'
      subst hs'
      intro p t hp
      simp [hq] at hp
    | cons p packetQueue =>
      cases targets with
      | nil =>
        have hqueued := hx.queued
        rw [hq] at hqueued
        cases hqueued
      | cons t targets =>
        obtain ⟨m, sends, hm, hok, -⟩ := run_ok hx hq failed
        cases hok.symm.trans hs
        intro p' t' hp'
        refine h.evolves hx hm s.sends p' t' ?_
        change (p', t') ∈ s.packetQueue.zip (t :: targets)
        rw [hq]
        exact List.mem_cons_of_mem _ hp'

def packet (r : Request) (roomNo : Nat) : Bytes :=
  LittleEndian.toBytes 2 40 ++ LittleEndian.toBytes 2 r.code ++ List.replicate 32 0 ++
    LittleEndian.toBytes 4 roomNo

end ChatServer

end ChattingServer.V10
