import ChattingServer.Lib.Noninterference
import ChattingServer.V11.Server.Frame
import ChattingServer.V11.Chat.Events

namespace ChattingServer.V11

open Lib

namespace Server

/-- A package that asks for nothing but packets for others: a list for another user, a whisper
between others, a chat in a room that the user is not in, or a packet without a handler. -/
def aside (s : Server) (w : UserPtr) : Action → Bool
  | .process ⟨session, .cLobbyRoomInfo⟩ => session ≠ w
  | .process ⟨session, .cUnicast recver _⟩ =>
    (match s.senderOf session with
      | .ok (v, _) => v ≠ w
      | .error _ => true) &&
    match s.findByNickname recver s.userList.values with
      | .ok found => found ≠ some w
      | .error _ => true
  | .process ⟨session, .cMulticast _⟩ =>
    match s.senderOf session with
    | .ok (_, u) => u.currRoom.all fun r => w ∉ (s.room r).users
    | .error _ => true
  | .process ⟨_, .cBroadcast _⟩ => s.roomList.values.all fun r => w ∉ (s.room r).users
  | .process ⟨_, packet⟩ => !handled packet
  | _ => false

structure SameTo (w : UserPtr) (s t : Server) : Prop where
  tables : t = { s with packages := t.packages }
  packets : packetsFor w s.packages = packetsFor w t.packages

theorem SameTo.push {w : UserPtr} {s t : Server} (h : SameTo w s t) {ps : List SendPackage}
    (hps : packetsFor w ps = []) : SameTo w (s.pushPackages ps) t where
  tables := h.tables
  packets := by rw [pushPackages, packetsFor_append, hps, List.append_nil, h.packets]

theorem packetsFor_casts_of_not_mem {w : UserPtr} {users : StdSet UserPtr} (hw : w ∉ users)
    (p : Packet) : packetsFor w (casts users.elems p) = [] := by
  rw [packetsFor_casts, List.count_eq_zero.mpr hw]
  rfl

theorem SameTo.leaves {w : UserPtr} {s s' t : Server} (h : SameTo w s t) {a : Action}
    (haside : s.aside w a = true) (hs : s.step a = .ok s') : SameTo w s' t := by
  cases a with
  | accept | removeUser => contradiction
  | process package =>
    obtain ⟨session, packet⟩ := package
    cases processed_of_ok hs with
    | serverEnter | serverExit | roomCreate | roomEnter | roomExit => contradiction
    | lobbyRoomInfo =>
      refine h.push ?_
      simpa [aside] using haside
    | @unicast id v u sender recver found found_eq text =>
      refine h.push ?_
      simp only [aside, sender.senderOf, found_eq, Bool.and_eq_true, decide_eq_true_eq] at haside
      cases found <;> simp_all [unicastPackages]
    | @multicast id v u r sender room text =>
      simp only [aside, sender.senderOf, room, Option.all_some, decide_eq_true_eq] at haside
      exact h.push (packetsFor_casts_of_not_mem haside _)
    | @broadcast id v u sender text =>
      rw [broadCast_eq]
      refine h.push ?_
      simp only [aside, List.all_eq_true, decide_eq_true_eq] at haside
      rw [List.flatMap_def, packetsFor_flatten, List.flatMap_eq_nil_iff, List.forall_mem_map]
      exact fun r hr => packetsFor_casts_of_not_mem (haside r hr) _
    | unhandled => exact h

theorem SameTo.follows {w : UserPtr} {s s' t : Server} (h : SameTo w s t) {a : Action}
    (hs : s.step a = .ok s') : ∃ t', t.step a = .ok t' ∧ SameTo w s' t' := by
  obtain ⟨ps, hps, hqueued⟩ := step_queued hs
  have ht : t.step a = .ok { s' with packages := t.packages ++ ps } := by
    have ht := hqueued t.packages
    rwa [← h.tables] at ht
  refine ⟨_, ht, rfl, ?_⟩
  rw [hps, packetsFor_append, packetsFor_append, h.packets]

def unwinding (w : UserPtr) : system.Unwinding where
  same := SameTo w
  hidden s a := s.aside w a
  leaves h haside hs := h.leaves haside hs
  follows h _ hs := h.follows hs

/-- What a user is sent, and what becomes of the tables, does not depend on what others say
elsewhere. -/
theorem noninterference {s s' : Server} {p : List (Server × Action)}
    (h : system.Path (fun _ _ => True) s p s') (w : UserPtr) :
    ∃ t, system.run s ((unwinding w).purge p) = some t ∧
      packetsFor w s'.packages = packetsFor w t.packages ∧
      t = { s' with packages := t.packages } := by
  obtain ⟨t, ht, hsame⟩ := (unwinding w).exists_run h (t := s) ⟨rfl, rfl⟩
  exact ⟨t, ht, hsame.packets, hsame.tables⟩

theorem noninterference_two :
    ∃ s' t p, system.Path (fun _ _ => True) .init p s' ∧
      p.map Prod.snd = [.accept 0 7 .connected, .accept 1 8 .connected,
        .process ⟨1, .cServerEnter [98]⟩, .process ⟨1, .cRoomCreate [97]⟩,
        .process ⟨1, .cRoomEnter 1⟩, .process ⟨1, .cMulticast [104]⟩] ∧
      packetsFor 1 s'.packages ≠ [] ∧ system.run .init ((unwinding 0).purge p) = some t ∧
      packetsFor 0 s'.packages = packetsFor 0 t.packages := by
  have hrun : ((system.run .init [.accept 0 7 .connected, .accept 1 8 .connected,
      .process ⟨1, .cServerEnter [98]⟩, .process ⟨1, .cRoomCreate [97]⟩,
      .process ⟨1, .cRoomEnter 1⟩, .process ⟨1, .cMulticast [104]⟩]).any fun s =>
        decide (packetsFor 1 s.packages ≠ [])) = true := by
    decide
  obtain ⟨s', hs', hsent⟩ := (Option.any_eq_true _ _).mp hrun
  obtain ⟨p, hp, hactions⟩ :=
    System.exists_path_of_runWith_from (G := fun _ _ => True) (fun _ _ _ => trivial) hs'
  obtain ⟨t, ht, hpackets, -⟩ := noninterference hp 0
  exact ⟨s', t, p, hp, hactions, of_decide_eq_true hsent, ht, hpackets⟩

end Server

end ChattingServer.V11
