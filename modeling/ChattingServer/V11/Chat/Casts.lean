import ChattingServer.V11.Chat.Location

namespace ChattingServer.V11

open Lib

namespace Chat

/-- The next packet of a client goes to a handler that finds the display it casts to. -/
theorem dispatch_castSound {s : Chat}
    (h : system.Reach (fun s a => s.allows Server.castGuard a = true) s) {w : UserPtr} {c : Conn}
    {p : Packet} {ps : List Packet} (hc : s.conns.find w = some c)
    (hq : c.client.recvQueue = p :: ps) : c.client.castSound p = true := by
  have hl := linked_of_reach true h
  have htakes : (View.receiver true).takes c.client.view p := hl.takes hc hq
  exact ((hl.conn hc).fits.castSound_iff p).mpr (htakes rfl)

theorem dispatch_castSound_roomName :
    ∃ s c, system.Reachable s ∧ s.conns.find 0 = some c ∧
      c.client.castSound (.sRoomName Client.testRoomName) = true := by
  obtain ⟨s, hs, hp⟩ := System.exists_of_runWith (S := system) (fun _ _ h => h)
    (p := fun s => (s.conns.find 0).any fun c =>
      decide (c.client.recvQueue = [.sRoomName Client.testRoomName]))
    (login 0 [97] ++ pressEnter 0 ++ requests 0 1 ++ replies 0 1 ++ pressEnter 0 ++ requests 0 1 ++
      [.send, .send, .client 0 .recvThread, .client 0 .recvThread, .client 0 (.logicThread .login)])
    (by decide +kernel : (system.runWith (allows Server.castGuard) _ _).any _ = true)
  obtain ⟨c, hc, hq⟩ := (Option.any_eq_true _ _).mp hp
  exact ⟨s, c, hs.reachable, hc, dispatch_castSound hs hc (of_decide_eq_true hq)⟩

/-- A whisper reaches a user in the lobby. -/
theorem not_dispatch_castSound :
    ¬ ∀ s, system.Reachable s → ∀ w c p ps, s.conns.find w = some c →
      c.client.recvQueue = p :: ps → c.client.castSound p = true := by
  intro h
  obtain ⟨s, hs, hp⟩ := System.exists_of_run (S := system)
    (p := fun s => (s.conns.find 1).any fun c =>
      decide (c.client.recvQueue = [.sUnicastOk [97] [104]] ∧
        c.client.castSound (.sUnicastOk [97] [104]) = false))
    (login 0 [97] ++ pressEnter 0 ++ requests 0 1 ++ replies 0 1 ++ pressEnter 0 ++ requests 0 1 ++
      replies 0 2 ++ login 1 [98] ++ enterLine 0 [47, 98, 32, 104] ++ requests 0 1 ++
      [.send, .send, .client 1 .recvThread])
    (by decide +kernel)
  obtain ⟨c, hc, hp⟩ := (Option.any_eq_true _ _).mp hp
  obtain ⟨hq, hcast⟩ := of_decide_eq_true hp
  rw [h s hs 1 c _ _ hc hq] at hcast
  contradiction

end Chat

end ChattingServer.V11
