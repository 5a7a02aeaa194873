import Mathlib.Logic.Function.Basic
import ChattingServer.V10.Server.Effects
import ChattingServer.V10.Server.FindNickname

namespace ChattingServer.V10

open Lib

namespace ChatServer

abbrev Accepted := Nat → Option Bytes

def nicknameIn (s : ChatServer) (index : Nat) (data : Bytes) : Bytes :=
  (s.clientMgr.clientInfos[index]?.map fun c => Packet.nickname (c.received data).recvBuf).getD []

def created (index : Nat) : PacketInfo :=
  ⟨index, 8, .uni, false, Packet.serverMessage Packet.nicknameCreated⟩

def enlist (accepted : Accepted) (s : ChatServer) : Action → Accepted
  | .accept _ _ =>
    match s.clientMgr.nextSlot with
    | some i => Function.update accepted i none
    | none => accepted
  | .receive index data bound =>
    match s.receiveIf true index data bound with
    | .ok s' =>
      if s'.packetQueue = s.packetQueue ++ [created index] then
        Function.update accepted index (some (s.nicknameIn index data))
      else accepted
    | .error _ => accepted
  | .close _ | .run _ => accepted

abbrev Enlisted := ChatServer × Accepted

def enlisted (maxClient : Nat) : System Enlisted Action Fault :=
  (systemIf true maxClient).withHistory (fun _ => none) enlist

structure NicknameRegistry (x : Enlisted) : Prop where
  unique : ∀ {i j : Nat} {nickname : Bytes}, x.1.clientMgr.connected i = true →
    x.1.clientMgr.connected j = true → x.2 i = some nickname → x.2 j = some nickname → i = j
  found : ∀ {nickname : Bytes}, nickname ≠ [] → ∀ {i : Nat},
    x.1.findNicknameIf true nickname = some i ↔
      x.1.clientMgr.connected i = true ∧ x.2 i = some nickname

def wellNamed (s : ChatServer) : Action → Bool
  | .receive index data _ =>
    s.clientMgr.clientInfos[index]?.all fun c =>
      let buf := (c.received data).recvBuf
      Packet.request buf = some .serverEnter →
        Packet.nickname buf ≠ [] ∧ (Packet.nickname buf).length < UserInfo.maxNicknameLen
  | _ => true

/-- A connection gets a slot whose nickname field is empty, and the nickname that a client is given
is not shorter than the one in its field. -/
def keepsNames (s : ChatServer) : Action → Bool
  | .accept _ outcome =>
    outcome = .recvFailed ∨ s.clientMgr.nextSlot.all fun i =>
      s.clientMgr.clientInfos[i]?.all fun c => c.nicknameString = []
  | .receive index data _ =>
    s.clientMgr.clientInfos[index]?.all fun c =>
      let buf := (c.received data).recvBuf
      c.isConnected = true → Packet.request buf = some .serverEnter →
        s.found true buf = none → c.nicknameString.length ≤ (Packet.nickname buf).length
  | _ => true

/-! What keeps the registry -/

structure Stored (x : Enlisted) : Prop where
  sized : x.1.clientMgr.Sized
  padded : ∀ {i : Nat} {c : UserInfo}, x.1.clientMgr.clientInfos[i]? = some c →
    UserInfo.Padded c.nickname
  stored : ∀ {i : Nat} {c : UserInfo}, x.1.clientMgr.clientInfos[i]? = some c →
    c.isConnected = true → c.nicknameString = (x.2 i).getD []
  named : ∀ i, x.2 i ≠ some []
  unique : ∀ {i j : Nat} {nickname : Bytes}, x.1.clientMgr.connected i = true →
    x.1.clientMgr.connected j = true → x.2 i = some nickname → x.2 j = some nickname → i = j

theorem Stored.hasNickname_iff {x : Enlisted} (h : Stored x) {nickname : Bytes}
    (hne : nickname ≠ []) {i : Nat} :
    x.1.hasNickname nickname i = true ↔
      x.1.clientMgr.connected i = true ∧ x.2 i = some nickname := by
  have named : (x.2 i).getD [] = nickname ↔ x.2 i = some nickname := by
    cases x.2 i with
    | none => simpa using Ne.symm hne
    | some n => simp
  rw [ChatServer.hasNickname_iff]
  constructor
  · rintro ⟨c, hc, hup, heq⟩
    rw [h.stored hc hup, named] at heq
    exact ⟨(ClientManager.connected_of_getElem? hc).trans hup, heq⟩
  · rintro ⟨hup, heq⟩
    cases hc : x.1.clientMgr.clientInfos[i]? with
    | none => simp [ClientManager.connected, hc] at hup
    | some c =>
      rw [ClientManager.connected_of_getElem? hc] at hup
      exact ⟨c, rfl, hup, (h.stored hc hup).trans (named.mpr heq)⟩

theorem Stored.registry {x : Enlisted} (h : Stored x) : NicknameRegistry x where
  unique := h.unique
  found {nickname} hne {i} := by
    change x.1.searchNickname nickname = some i ↔ _
    rw [searchNickname_eq_some_iff h.sized, h.hasNickname_iff hne, and_iff_left_iff_imp]
    rintro ⟨hup, heq⟩ j hj
    rw [← Bool.not_eq_true, h.hasNickname_iff hne]
    rintro ⟨hup', heq'⟩
    exact Nat.ne_of_lt hj (h.unique hup' hup heq' heq)

theorem enqueuedIf_eq_created_iff {found : Option Nat} {index size : Nat} {buf : Bytes} :
    enqueuedIf found index size buf = [created index] ↔
      Packet.request buf = some .serverEnter ∧ found = none := by
  have hexist : Packet.serverMessage Packet.nicknameAlreadyExist ≠
      Packet.serverMessage Packet.nicknameCreated := by decide
  have hmissing : Packet.serverMessage Packet.nicknameNotFound ≠
      Packet.serverMessage Packet.nicknameCreated := by decide
  unfold enqueuedIf enqueued created
  cases Packet.request buf with
  | none => simp
  | some r =>
    cases r with
    | serverEnter | chatUnicast => cases found <;> simp [hexist, hmissing]
    | serverExit | roomEnter | roomExit | chatBroadcast | chatMulticast => simp

theorem Stored.frame {s s' : ChatServer} {accepted : Accepted} (h : Stored (s, accepted))
    (hsize : s'.clientMgr.Sized)
    (hclient : ∀ {i : Nat} {c' : UserInfo}, s'.clientMgr.clientInfos[i]? = some c' →
      ∃ c, s.clientMgr.clientInfos[i]? = some c ∧ c'.nickname = c.nickname ∧
        (c'.isConnected = true → c.isConnected = true)) : Stored (s', accepted) := by
  have hconn : ∀ {i}, s'.clientMgr.connected i = true → s.clientMgr.connected i = true := by
    intro i hi
    cases hc' : s'.clientMgr.clientInfos[i]? with
    | none => simp [ClientManager.connected, hc'] at hi
    | some c' =>
      obtain ⟨c, hc, -, hup⟩ := hclient hc'
      rw [ClientManager.connected_of_getElem? hc'] at hi
      exact (ClientManager.connected_of_getElem? hc).trans (hup hi)
  refine ⟨hsize, fun hc' => ?_, fun hc' hup' => ?_, h.named,
    fun hi hj => h.unique (hconn hi) (hconn hj)⟩
  · obtain ⟨c, hc, hname, -⟩ := hclient hc'
    rw [hname]
    exact h.padded hc
  · obtain ⟨c, hc, hname, hup⟩ := hclient hc'
    rw [UserInfo.nicknameString, hname]
    exact h.stored hc (hup hup')

theorem Stored.loses {s s' : ChatServer} {accepted : Accepted} (h : Stored (s, accepted))
    {lost : Nat → Prop} (hs : s.clientMgr.Loses lost s'.clientMgr) (hsize : s'.clientMgr.Sized) :
    Stored (s', accepted) := by
  refine h.frame hsize fun hc' => ?_
  obtain ⟨c, hc, rfl | ⟨-, rfl⟩⟩ := hs.exists_client hc'
  · exact ⟨_, hc, rfl, id⟩
  · exact ⟨c, hc, UserInfo.nickname_close c, fun hup => by simp at hup⟩

theorem enlist_accept (accepted : Accepted) (s : ChatServer) (socket : Socket)
    (outcome : ConnectOutcome) (i : Nat) :
    enlist accepted s (.accept socket outcome) i =
      if s.clientMgr.nextSlot = some i then none else accepted i := by
  unfold enlist
  cases s.clientMgr.nextSlot with
  | none => simp
  | some j => simp [Function.update_apply, eq_comm]

theorem Stored.accept {s s' : ChatServer} {accepted : Accepted} (h : Stored (s, accepted))
    {socket : Socket} {outcome : ConnectOutcome}
    (hg : keepsNames s (.accept socket outcome) = true) (hs : s.accept socket outcome = .ok s') :
    Stored (s', enlist accepted s (.accept socket outcome)) := by
  obtain ⟨created, m, hm, rfl⟩ := created_of_accept h.sized hs
  have hconn := ClientManager.connected_created h.sized hm
  have henlist := enlist_accept accepted s socket outcome
  have hold : ∀ {i nickname}, enlist accepted s (.accept socket outcome) i = some nickname →
      s.clientMgr.nextSlot ≠ some i ∧ accepted i = some nickname := by
    intro i nickname hi
    rw [henlist] at hi
    split at hi
    · contradiction
    · exact ⟨‹_›, hi⟩
  refine ⟨h.sized.created hm, fun {i c'} hc' => ?_, fun {i c'} hc' hup' => ?_, fun i hi => ?_,
    fun {i j nickname} hi hj hni hnj => ?_⟩
  · obtain ⟨c, hc, rfl⟩ := hm.client h.sized hc'
    have hpad : UserInfo.Padded c.nickname := by
      rcases hc with hc | ⟨-, rfl⟩
      · exact h.padded hc
      · exact UserInfo.padded_new i
    split
    · rwa [UserInfo.nickname_connect]
    · exact hpad
  · obtain ⟨c, hc, rfl⟩ := hm.client h.sized hc'
    dsimp only
    rw [henlist]
    split at hup'
    · rename_i hnext
      rw [UserInfo.isConnected_connect, decide_eq_true_eq] at hup'
      have hempty := (of_decide_eq_true hg).resolve_left hup'
      rw [hnext, Option.all_some] at hempty
      rw [if_pos hnext, if_pos hnext, UserInfo.nicknameString, UserInfo.nickname_connect]
      rcases hc with hc | ⟨-, rfl⟩
      · rw [hc, Option.all_some] at hempty
        exact of_decide_eq_true hempty
      · rfl
    · rename_i hnext
      rw [if_neg hnext, if_neg hnext]
      rcases hc with hc | ⟨-, rfl⟩
      · exact h.stored hc hup'
      · contradiction
  · exact h.named i (hold hi).2
  · obtain ⟨hnexti, hi'⟩ := hold hni
    obtain ⟨hnextj, hj'⟩ := hold hnj
    rw [hconn, if_neg hnexti] at hi
    rw [hconn, if_neg hnextj] at hj
    exact h.unique hi hj hi' hj'

theorem nicknameString_handleIf {c : UserInfo} {buf : Bytes} (hpad : UserInfo.Padded c.nickname)
    (hr : Packet.request buf = some .serverEnter)
    (hle : c.nicknameString.length ≤ (Packet.nickname buf).length) :
    (handleIf none c buf).nicknameString = Packet.nickname buf := by
  rw [UserInfo.nicknameString, nickname_handleIf, if_pos ⟨hr, rfl⟩,
    List.takeWhile_append_of_pos fun b hb => by simpa using Packet.ne_zero_of_mem_nickname hb]
  have hrest : (c.nickname.drop (Packet.nickname buf).length).takeWhile (· ≠ 0) = [] := by
    refine List.eq_nil_iff_forall_not_mem.mpr fun b hb => ?_
    have hzero := hpad.drop_of_le hle b ((List.takeWhile_sublist _).subset hb)
    exact absurd hzero (by simpa using List.mem_takeWhile_imp hb)
  rw [hrest, List.append_nil]

theorem Stored.update {s : ChatServer} {accepted : Accepted} (h : Stored (s, accepted))
    {index : Nat} {c c' : UserInfo} (hc : s.clientMgr.clientInfos[index]? = some c)
    (hindex : c'.index = c.index) (hpad : UserInfo.Padded c'.nickname) {name : Bytes}
    (hname : c'.isConnected = true → c'.nicknameString = name) (hne : name ≠ [])
    (hfree : ∀ i, s.hasNickname name i = false) (packetQueue : List PacketInfo)
    (sends : List Send) :
    Stored (⟨s.clientMgr.setClient index c', packetQueue, sends⟩,
      Function.update accepted index (some name)) := by
  have hself := ClientManager.getElem?_setClient_self hc c'
  have hlt := (List.getElem?_eq_some_iff.mp hc).1
  have hconn := ClientManager.connected_setClient hlt c'
  have hnobody : ∀ {j}, s.clientMgr.connected j = true → accepted j ≠ some name := by
    intro j hj hacc
    have := (h.hasNickname_iff hne (i := j)).mpr ⟨hj, hacc⟩
    rw [hfree] at this
    contradiction
  refine ⟨h.sized.setClient hc hindex, fun {i x} hx => ?_, fun {i x} hx hxup => ?_, fun i => ?_,
    fun {i j nickname} hi hj hni hnj => ?_⟩
  · by_cases hi : i = index
    · subst hi
      cases hself.symm.trans hx
      exact hpad
    · exact h.padded ((ClientManager.getElem?_setClient_of_ne hi c').symm.trans hx)
  · by_cases hi : i = index
    · subst hi
      cases hself.symm.trans hx
      simpa using hname hxup
    · have hold := h.stored ((ClientManager.getElem?_setClient_of_ne hi c').symm.trans hx) hxup
      simpa [Function.update_of_ne hi] using hold
  · by_cases hi : i = index
    · subst hi
      simpa using hne
    · simpa [Function.update_of_ne hi] using h.named i
  · dsimp only at hi hj hni hnj
    rw [hconn] at hi hj
    rw [Function.update_apply] at hni hnj
    by_cases hii : i = index
    · by_cases hjj : j = index
      · rw [hii, hjj]
      · rw [if_neg hjj] at hj hnj
        rw [if_pos hii] at hni
        exact absurd (hnj.trans hni.symm) (hnobody hj)
    · rw [if_neg hii] at hi hni
      by_cases hjj : j = index
      · rw [if_pos hjj] at hnj
        exact absurd (hni.trans hnj.symm) (hnobody hi)
      · rw [if_neg hjj] at hj hnj
        exact h.unique hi hj hni hnj

theorem Stored.receive {s s' : ChatServer} {accepted : Accepted} (h : Stored (s, accepted))
    {index : Nat} {data : Bytes} {bound : Bool}
    (hw : wellNamed s (.receive index data bound) = true)
    (hg : keepsNames s (.receive index data bound) = true)
    (hs : s.receiveIf true index data bound = .ok s') :
    Stored (s', enlist accepted s (.receive index data bound)) := by
  have hsize := sized_of_stepIf (a := .receive index data bound) h.sized hs
  obtain ⟨c, hc, hs'⟩ := (receivedIf_of_ok hs).client
  have hin : s.nicknameIn index data = Packet.nickname (c.received data).recvBuf := by
    rw [nicknameIn, hc]
    rfl
  have hqueue : s'.packetQueue = s.packetQueue ++ [created index] ↔
      Packet.request (c.received data).recvBuf = some .serverEnter ∧
        s.found true (c.received data).recvBuf = none := by
    rw [hs', List.append_cancel_left_eq, enqueuedIf_eq_created_iff]
  simp only [wellNamed, keepsNames, hc, Option.all_some, decide_eq_true_eq] at hw hg
  simp only [enlist, hs, hqueue, hin]
  have hpad : UserInfo.Padded c.nickname := h.padded hc
  have hup : ∀ {found buf},
      ((handleIf found (c.received data) buf).posted bound).2.isConnected = true →
        c.isConnected = true ∧ bound = true := by
    intro found buf hup
    rwa [isConnected_received, Bool.and_eq_true] at hup
  subst hs'
  split
  · rename_i haccept
    obtain ⟨hr, hfound⟩ := haccept
    have hfree := (searchNickname_eq_none_iff h.sized).mp hfound
    refine h.update hc (index_received ..) ?_ (fun h => ?_) (hw hr).1 hfree _ _
    · rw [UserInfo.nickname_posted]
      exact padded_handleIf (c := c.received data) hpad _ _
    · obtain ⟨hcup, rfl⟩ := hup h
      rw [UserInfo.posted, hfound]
      exact nicknameString_handleIf (c := c.received data) hpad hr (hg hcup hr hfound)
  · rename_i haccept
    refine h.frame hsize fun {i c'} hc' => ?_
    by_cases hi : i = index
    · subst hi
      cases (ClientManager.getElem?_setClient_self hc _).symm.trans hc'
      refine ⟨c, hc, ?_, fun h => (hup h).1⟩
      rw [UserInfo.nickname_posted, nickname_handleIf, if_neg haccept]
      rfl
    · exact ⟨c', (ClientManager.getElem?_setClient_of_ne hi _).symm.trans hc', rfl, id⟩

theorem stored_init (n : Nat) : Stored (init n, fun _ => none) := by
  refine ⟨ClientManager.sized_new n, fun hc => ?_, fun hc hup => ?_,
    fun _ => (Option.some_ne_none _).symm, ?_⟩
  · rw [ClientManager.eq_new_of_getElem? hc]
    exact UserInfo.padded_new _
  · rw [ClientManager.eq_new_of_getElem? hc] at hup
    contradiction
  · intro i j nickname _ _ hi
    contradiction

theorem Stored.step {n : Nat} {x x' : Enlisted} (h : Stored x) {a : Action}
    (hw : wellNamed x.1 a = true) (hg : keepsNames x.1 a = true)
    (hstep : (enlisted n).step x a = .ok x') : Stored x' := by
  obtain ⟨s, accepted⟩ := x
  obtain ⟨s', hs, rfl⟩ := System.exists_of_withHistory_step hstep
  have hsize := sized_of_stepIf h.sized hs
  cases a with
  | accept socket outcome => exact h.accept hg hs
  | receive index data bound => exact h.receive hw hg hs
  | close index =>
    obtain ⟨c, hc, rfl⟩ := closed_of_ok hs
    refine h.frame hsize fun {i c'} hc' => ?_
    rw [ClientManager.getElem?_closeClientAt hc] at hc'
    split at hc'
    · rename_i hi
      cases hc'
      exact ⟨c, hi ▸ hc, UserInfo.nickname_close c, fun hup => by simp at hup⟩
    · exact ⟨c', hc', rfl, id⟩
  | run failed => exact h.loses (loses_of_run hs).1 hsize

/-- A client that logs in with a nickname that covers what its field has, in a slot that had an
empty one, is found by that nickname and nobody else is. -/
theorem nicknameRegistry_of_keepsNames (n : Nat) {x : Enlisted}
    (h : (enlisted n).Reach (fun x a => wellNamed x.1 a = true ∧ keepsNames x.1 a = true) x) :
    NicknameRegistry x := by
  have hstored : Stored x :=
    h.invariant (stored_init n) fun _ _ _ _ hx hg hs => hx.step hg.1 hg.2 hs
  exact hstored.registry

def enterPacket (nickname : Bytes) : Bytes :=
  LittleEndian.toBytes 2 36 ++ LittleEndian.toBytes 2 Request.serverEnter.code ++ nickname ++
    List.replicate (UserInfo.maxNicknameLen - nickname.length) 0

theorem nicknameRegistry_of_two :
    ∃ x, (enlisted 8).Reachable x ∧ x.2 0 = some [98, 111, 98, 98, 121] ∧ x.2 1 = some [101, 118] ∧
      NicknameRegistry x := by
  obtain ⟨x, hx, hp⟩ := System.exists_of_runWith (S := enlisted 8)
    (G := fun x a => wellNamed x.1 a = true ∧ keepsNames x.1 a = true)
    (g := fun x a => wellNamed x.1 a && keepsNames x.1 a)
    (p := fun x => decide (x.2 0 = some [98, 111, 98, 98, 121] ∧ x.2 1 = some [101, 118]))
    (fun _ _ h => (Bool.and_eq_true ..).mp h)
    [.accept 7 .connected, .accept 8 .connected, .receive 0 (enterPacket [98, 111, 98]) true,
      .receive 1 (enterPacket [101, 118]) true, .receive 1 (enterPacket [98, 111, 98]) true,
      .receive 0 (enterPacket [98, 111, 98, 98, 121]) true] (by decide)
  obtain ⟨hzero, hone⟩ := of_decide_eq_true hp
  exact ⟨x, hx.reachable, hzero, hone, nicknameRegistry_of_keepsNames 8 hx⟩

/-- After a change from "alice" to "bob" the field has "bobce". -/
theorem not_nicknameRegistry :
    ¬ ∀ n x, (enlisted n).Reach (fun x a => wellNamed x.1 a = true) x → NicknameRegistry x := by
  intro h
  obtain ⟨x, hx, hp⟩ := System.exists_of_runWith (S := enlisted 4)
    (G := fun x a => wellNamed x.1 a = true) (g := fun x a => wellNamed x.1 a)
    (p := fun x => decide (x.1.clientMgr.connected 0 = true ∧ x.2 0 = some [98, 111, 98] ∧
      x.1.findNicknameIf true [98, 111, 98] = none)) (fun _ _ h => h)
    [.accept 7 .connected, .receive 0 (enterPacket [97, 108, 105, 99, 101]) true,
      .receive 0 (enterPacket [98, 111, 98]) true] (by decide)
  obtain ⟨hup, hname, hnone⟩ := of_decide_eq_true hp
  have hfound : x.1.findNicknameIf true [98, 111, 98] = some 0 :=
    ((h 4 x hx).found (by decide)).mpr ⟨hup, hname⟩
  rw [hnone] at hfound
  contradiction

end ChatServer

end ChattingServer.V10
