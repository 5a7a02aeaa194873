import ChattingServer.V11.NetworkLib.PacketFactory
import ChattingServer.V11.Server.Membership

namespace ChattingServer.V11

open Lib

namespace Server

def NullSafe (x : Except Fault Server) : Prop :=
  Fails (fun e => e ≠ .nullUser ∧ e ≠ .nullRoom) x

/-! Pointers that are not null can only be stale. -/

theorem fails_deref (s : Server) (v : UserPtr) : Fails (· = .freed) (s.deref (some v)) := by
  simp only [deref]
  split
  · exact fails_ok ..
  · exact fails_error.mpr rfl

theorem fails_exitRecvers (s : Server) (uid : UInt32) (users : List UserPtr) :
    Fails (· = .freed) (s.exitRecvers uid users) := by
  induction users with
  | nil => exact fails_ok ..
  | cons v users ih =>
    exact (fails_deref s v).bind fun _ _ => ih.bind fun _ _ => fails_ok ..

theorem fails_exitRoom (s : Server) (r : RoomPtr) (v : UserPtr) (excl : Bool) :
    Fails (· = .freed) (s.exitRoom r v excl) := by
  refine (fails_deref s v).bind fun _ _ => Fails.bind ?_ fun _ _ => fails_ok ..
  cases excl with
  | true => exact fails_exitRecvers ..
  | false => exact fails_ok ..

theorem fails_findByNickname (s : Server) (name : Str) (users : List UserPtr) :
    Fails (· = .freed) (s.findByNickname name users) := by
  induction users with
  | nil => exact fails_ok ..
  | cons v users ih =>
    apply (fails_deref s v).bind
    rintro ⟨_, u⟩ -
    by_cases hname : name = u.nickname
    · simpa [hname] using fails_ok ..
    · simpa [hname] using ih

theorem fails_removeUser (s : Server) (v : UserPtr) :
    Fails (· = .freed) (s.removeUser (some v)) := by
  refine (fails_deref s v).bind fun ⟨_, u⟩ hu => Fails.bind ?_ fun _ _ => fails_ok ..
  obtain ⟨⟨⟩, -⟩ := deref_ok_iff.mp hu
  cases u.currRoom with
  | none => exact fails_ok ..
  | some r => exact fails_exitRoom ..

theorem nullSafe_of_fails {x : Except Fault Server} (h : Fails (· = .freed) x) : NullSafe x :=
  h.mono fun _ he => by simp [he]

theorem nullSafe_ok (s : Server) : NullSafe (.ok s) := fails_ok ..

theorem not_nullSafe_throw : ¬ NullSafe (throw .nullRoom) :=
  fun h => (h.of_error rfl).2 rfl

/-- The handlers use a null pointer only for a room id that nobody made, and for a chat or an exit
that comes from the lobby. -/
theorem process_nullSafe_iff {s : Server} (h : system.Reachable s) {v : UserPtr} {u : User}
    (hv : s.Registered v) (hu : s.user v = .live u) (packet : Packet) :
    NullSafe (s.process ⟨v, packet⟩) ↔
      (∀ rid, packet = .cRoomEnter rid → s.getRoom rid ≠ none) ∧
        ((packet = .cRoomExit ∨ ∃ text, packet = .cMulticast text) → u.currRoom ≠ none) := by
  obtain ⟨u', hs⟩ := (registry_of_reach h).sender hv
  obtain rfl : u' = u := by
    have := hs.live
    rw [hu] at this
    cases this
    rfl
  have hid := hs.session
  have huser : s.sessionUser v = .ok (some v) := by simp [sessionUser, hid, hs.registered]
  have hderef : s.deref (some v) = .ok (v, u') := deref_ok_iff.mpr ⟨rfl, hu⟩
  cases packet with
  | cServerEnter nickname =>
    have hid' := (sessionId_setUser hu { u' with nickname } rfl v).trans hid
    simp [process, cServerEnter, huser, hderef, hid', nullSafe_ok]
  | cServerExit =>
    simpa [process, cServerExit, huser] using nullSafe_of_fails (fails_removeUser s v)
  | cLobbyRoomInfo => simp [process, cLobbyRoomInfo, nullSafe_ok]
  | cRoomCreate roomName => simp [process, cRoomCreate, hid, nullSafe_ok]
  | cRoomEnter rid =>
    cases hroom : s.getRoom rid with
    | none => simp [process, cRoomEnter, huser, hroom, not_nullSafe_throw]
    | some r => simp [process, cRoomEnter, huser, hroom, enterRoom, hderef, nullSafe_ok]
  | cRoomExit =>
    cases hroom : u'.currRoom with
    | none => simp [process, cRoomExit, huser, hderef, hroom, not_nullSafe_throw]
    | some r =>
      have := nullSafe_of_fails
        ((fails_exitRoom s r v false).bind fun t _ => fails_ok _ (t.pushIntoLobby v))
      simpa [process, cRoomExit, huser, hderef, hroom] using this
  | cUnicast recver text =>
    have hsafe : NullSafe (s.cUnicast v recver text) := by
      rw [cUnicast, huser, ok_bind]
      refine nullSafe_of_fails ((fails_findByNickname ..).bind fun found _ => ?_)
      rw [hderef, ok_bind]
      cases found <;> exact fails_ok ..
    simp [process, hsafe]
  | cMulticast text =>
    cases hroom : u'.currRoom with
    | none => simp [process, cMulticast, huser, hderef, hroom, not_nullSafe_throw]
    | some r => simp [process, cMulticast, huser, hderef, hroom, nullSafe_ok]
  | cBroadcast text => simp [process, cBroadcast, huser, hderef, nullSafe_ok]
  | _ => simp [process, nullSafe_ok]

theorem process_nullSafe_chat :
    ∃ s, system.Reachable s ∧ NullSafe (s.process ⟨0, .cMulticast [104, 105]⟩) := by
  obtain ⟨s, hs, hp⟩ := System.exists_of_run
    (p := fun s : Server => decide (s.getUser 1 = some 0) && decide (s.currRoom 0 = some 0))
    [.accept 0 7 .connected, .process ⟨0, .cRoomCreate [97]⟩, .process ⟨0, .cRoomEnter 1⟩]
    (by decide : (system.run init _).any _ = true)
  simp only [Bool.and_eq_true, decide_eq_true_eq] at hp
  obtain ⟨u, hu, hr⟩ := live_of_currRoom hp.2
  exact ⟨s, hs, (process_nullSafe_iff hs ⟨1, hp.1⟩ hu _).mpr
    ⟨nofun, fun _ => by rw [hr]; nofun⟩⟩

theorem onRecv_cRoomEnter : onRecv [110, 0, 0, 0, 7, 0] = .ok (.cRoomEnter 7) := by
  have hd : Packet.Decoded (.cRoomEnter 7) := ⟨nofun, trivial, trivial⟩
  refine (onRecv_ok_iff_streamOf (by decide) (by decide) (by decide)).mpr ⟨by decide, hd, ?_⟩
  rw [streamOf_eq (by decide)]
  exact List.prefix_append [7, 0] _

/-- A client asks for a room id that `CreateRoom` has not given out. -/
theorem not_process_nullSafe :
    ¬ ∀ s, system.Reachable s → ∀ v, s.Registered v →
      ∀ received packet, onRecv received = .ok packet → NullSafe (s.process ⟨v, packet⟩) := by
  intro h
  obtain ⟨s, hs, hp⟩ := System.exists_of_run
    (p := fun s : Server => decide (s.getUser 1 = some 0) &&
      decide (error? (s.process ⟨0, .cRoomEnter 7⟩) = some .nullRoom))
    [.accept 0 7 .connected] (by decide : (system.run init _).any _ = true)
  simp only [Bool.and_eq_true, decide_eq_true_eq, error?_eq_some_iff] at hp
  exact ((h s hs 0 ⟨1, hp.1⟩ _ _ onRecv_cRoomEnter).of_error hp.2).2 rfl

end Server

end ChattingServer.V11
