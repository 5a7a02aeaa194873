import ChattingServer.Service.Agreement
import ChattingServer.V11.Chat.Service
import ChattingServer.V11.Server.UserRegistry

namespace ChattingServer.V11

open Lib

namespace Packet

def shared : Packet → Bool
  | .sRoomEnter _ _ | .sRoomExit _ | .sMulticast _ _ | .sBroadcast _ _ => true
  | _ => false

def ofNote : ChatNote → Packet
  | .came uid nickname => .sRoomEnter uid nickname
  | .went uid => .sRoomExit uid
  | .said nickname text => .sMulticast nickname text
  | .announced nickname text => .sBroadcast nickname text
  | .welcome _ | .rooms _ | .title _ | .nobody | .whispered _ _ => .sUnicastNo

theorem filter_shared (ps : List Packet) :
    ps.filter shared = ((ps.filterMap note).filter Note.shared).map ofNote := by
  induction ps with
  | nil => rfl
  | cons p ps ih =>
    rw [List.filter_cons, filterMap_note_cons, ih]
    cases p <;> rfl

end Packet

namespace Server

theorem find_removed (s : Server) {v : UserPtr} {u : User} {id : UInt32} (hid : id ≠ u.userId) :
    (s.removed v u).userList.find id = s.userList.find id := by
  rw [userList_removed, StdMap.find_erase, if_neg (Ne.symm hid)]

theorem find_of_step {s s' : Server} (h : Registry s) {a : Action} (hs : s.step a = .ok s')
    {id : UInt32} {v : UserPtr} (hv : s.userList.find id = some v)
    (hstays : ∀ q, s.request a = some q → q.takesAway id = false) :
    s'.userList.find id = some v := by
  cases a with
  | accept addr socket outcome =>
    cases (accepted_of_ok hs).2 with
    | connected => exact StdMap.find_insert_of_some hv ..
    | failed => exact hv
  | removeUser uid =>
    rcases h.removedById hs with ⟨-, rfl⟩ | ⟨w, u, rfl, hid, -, rfl⟩
    · exact hv
    · have haway := hstays (.leave u.userId) (by simp [request, hid])
      rw [find_removed s (of_decide_eq_false haway), hv]
  | process package =>
    obtain ⟨session, packet⟩ := package
    cases processed_of_ok hs with
    | serverExit sender members =>
      have haway := hstays _ (sender.request .cServerExit)
      rw [← h.sender_id sender] at haway
      rw [find_removed s (of_decide_eq_false haway), hv]
    | broadcast =>
      rw [broadCast_eq]
      exact hv
    | serverEnter | lobbyRoomInfo | roomCreate | roomEnter | roomExit | unicast | multicast
    | unhandled => exact hv

end Server

namespace Chat

def packetsOfClient (x : Chat × Ledger) (w : UserPtr) (c : Conn) : List Packet :=
  packetsOf w x.2.handled ++ x.1.incoming w c

theorem find_of_path {x x' : Chat × Ledger} {p : List ((Chat × Ledger) × Action)}
    (hx : kept.Reach Located x) (h : kept.Path Located x p x') {id : UInt32} {v : UserPtr}
    (hv : x.1.server.userList.find id = some v)
    (hstays : ∀ q ∈ service.trace p, q.takesAway id = false) :
    x'.1.server.userList.find id = some v := by
  induction h with
  | nil => exact hv
  | @cons x x' x'' a p hg hs hp ih =>
    have htrace : ∀ q, service.label x a = some q → q ∈ service.trace ((x, a) :: p) :=
      fun q hq => List.mem_filterMap.mpr ⟨(x, a), List.mem_cons_self, hq⟩
    refine ih (hx.step hg hs) ?_ fun q hq => hstays q ?_
    · rcases (stepped_of_ok (System.withHistory_step.mp hs).1).server with
        ⟨-, hserver⟩ | ⟨b, hb, hserver⟩
      · rwa [hserver]
      · refine Server.find_of_step (balanced_of_reach hx).registry hserver hv fun q hq => ?_
        exact hstays q (htrace q (by simpa [service, hb] using hq))
    · exact List.mem_filterMap.mpr <| (List.mem_filterMap.mp hq).imp fun y hy =>
        ⟨List.mem_cons_of_mem _ hy.1, hy.2⟩

theorem log_of_path {G : Chat × Ledger → Action → Prop} {x x' : Chat × Ledger}
    {p : List ((Chat × Ledger) × Action)} (h : kept.Path G x p x') : x.2.log <+: x'.2.log := by
  induction h with
  | nil => exact List.prefix_refl _
  | cons _ hs _ ih =>
    refine List.IsPrefix.trans ?_ ih
    rw [(System.withHistory_step.mp hs).2]
    exact List.prefix_append ..

theorem notes_told {x : Chat × Ledger} (h : x.1.Balanced x.2) {w : UserPtr} {c : Conn} {u : User}
    (hc : x.1.conns.find w = some c) (hu : x.1.server.user w = .live u) :
    (told x).notesFor w = (packetsOfClient x w c).filterMap Packet.note := by
  rw [packetsOfClient, ← h.live hc hu, ← packetsFor_flatten]
  rfl

/-- Users that stay in one room are sent the same of it, in the same order: who comes and goes and
what is said there or to all. -/
theorem agreed {x x' : Chat × Ledger} {p : List ((Chat × Ledger) × Action)}
    (hx : kept.Reach Located x) (h : kept.Path Located x p x') (r : RoomPtr) :
    ∃ news, ∀ w c u c', x.1.conns.find w = some c → x.1.server.user w = .live u →
      u.currRoom = some r → (∀ q ∈ service.trace p, q.takesAway u.userId = false) →
      x'.1.conns.find w = some c' →
      ∃ ps, packetsOfClient x' w c' = packetsOfClient x w c ++ ps ∧
        ps.filter Packet.shared = news := by
  have hview := viewable_told hx
  have hview' := viewable_told (h.reach hx)
  have hbalanced := balanced_of_reach hx
  have hbalanced' := balanced_of_reach (h.reach hx)
  obtain ⟨news, hnews⟩ := Service.stayed_of_runs (service.runs_from hx h) (x.1.server.room r).roomId
  refine ⟨news.map Packet.ofNote, fun w c u c' hc hu hr hstays hc' => ?_⟩
  obtain ⟨m', hm', hstayed⟩ := hnews u.userId _ (Server.member_of_live hview.orderly hu)
    (by rw [Server.seen, hr]; rfl) hstays
  obtain ⟨u₀, hu₀, hid, -⟩ := hbalanced.registry.live (hview.orderly.accounted.live hu).1
  obtain rfl := Cell.live.inj (hu.symm.trans hu₀)
  obtain ⟨u', hu', hid', -⟩ := hbalanced'.registry.user (find_of_path hx h hid hstays)
  have hmember' := Server.member_of_live hview'.orderly hu'
  rw [hid'] at hmember'
  obtain rfl := Option.some.inj (hmember'.symm.trans hm')
  obtain ⟨notes, hheard, hnotes⟩ := hstayed.heard
  obtain ⟨log, hlog⟩ := log_of_path h
  have happend : packetsOfClient x' w c' = packetsOfClient x w c ++ log.flatMap (packetsFor w) := by
    rw [packetsOfClient, packetsOfClient, ← hbalanced'.live hc' hu', ← hbalanced.live hc hu, ← hlog,
      List.flatMap_append]
  refine ⟨_, happend, ?_⟩
  simp only [Server.seen, notes_told hbalanced hc hu, notes_told hbalanced' hc' hu', happend,
    List.filterMap_append] at hheard
  rw [Packet.filter_shared, List.append_cancel_left hheard, hnotes]

def keeps (i j : UInt32) (x : Chat × Ledger) (a : Action) : Bool :=
  x.1.allows Server.locationGuard a &&
    (service.label x a).all fun q => !q.takesAway i && !q.takesAway j

def present (x : Chat × Ledger) (r : RoomPtr) (id : UInt32) (w : UserPtr) : Bool :=
  (x.1.conns.find w).isSome && decide (x.1.server.currRoom w = some r) && x.1.server.hasId id w

theorem exists_of_present {x : Chat × Ledger} {r : RoomPtr} {id : UInt32} {w : UserPtr}
    (h : present x r id w = true) : ∃ c u, x.1.conns.find w = some c ∧
      x.1.server.user w = .live u ∧ u.currRoom = some r ∧ u.userId = id := by
  simp only [present, Bool.and_eq_true, decide_eq_true_eq] at h
  obtain ⟨⟨hc, hr⟩, hid⟩ := h
  obtain ⟨c, hc⟩ := Option.isSome_iff_exists.mp hc
  obtain ⟨u, hu, hr⟩ := Server.live_of_currRoom hr
  exact ⟨c, u, hc, hu, hr, by simpa [Server.hasId, hu] using hid⟩

def lastPacket (x : Chat × Ledger) (w : UserPtr) : Option Packet :=
  (x.1.conns.find w).bind fun c => (packetsOfClient x w c).getLast?

theorem agreed_two :
    ∃ x x' p c c' d d' ps qs, kept.Reach Located x ∧ kept.Path Located x p x' ∧
      x.1.conns.find 0 = some c ∧ x.1.conns.find 1 = some d ∧
      lastPacket x' 0 = some (.sMulticast [97] [104]) ∧
      packetsOfClient x' 0 c' = packetsOfClient x 0 c ++ ps ∧
      packetsOfClient x' 1 d' = packetsOfClient x 1 d ++ qs ∧
      ps.filter Packet.shared = qs.filter Packet.shared := by
  have hrun : ((kept.runWith (fun x a => x.1.allows Server.locationGuard a) kept.init
      (login 0 [97] ++ pressEnter 0 ++ requests 0 1 ++ replies 0 1 ++ pressEnter 0 ++
        requests 0 1 ++ replies 0 2 ++ login 1 [98] ++ pressEnter 1 ++ requests 1 1)).any
      fun x => present x 0 1 0 && present x 0 2 1 &&
        (kept.runWith (keeps 1 2) x (enterLine 0 [104] ++ requests 0 1)).any fun x' =>
          (x'.1.conns.find 1).isSome &&
            decide (lastPacket x' 0 = some (.sMulticast [97] [104]))) = true := by
    decide +kernel
  obtain ⟨x, hx, hrun⟩ := (Option.any_eq_true _ _).mp hrun
  simp only [Bool.and_eq_true] at hrun
  obtain ⟨⟨hzero, hone⟩, hrun⟩ := hrun
  obtain ⟨x', hx', hend⟩ := (Option.any_eq_true _ _).mp hrun
  simp only [Bool.and_eq_true, decide_eq_true_eq] at hend
  obtain ⟨hsome, hlast⟩ := hend
  have hreach : kept.Reach Located x := .of_runWith (fun _ _ h => h) hx
  obtain ⟨p, hkeeps, -⟩ :=
    System.exists_path_of_runWith_from (G := fun x a => keeps 1 2 x a = true) (fun _ _ h => h) hx'
  have hpath : kept.Path Located x p x' := hkeeps.mono fun y a h => by
    simp only [keeps, Bool.and_eq_true] at h
    exact h.1
  have hstays : ∀ q ∈ service.trace p, q.takesAway 1 = false ∧ q.takesAway 2 = false := by
    intro q hq
    obtain ⟨y, hy, hlabel⟩ := List.mem_filterMap.mp hq
    have hkept := hkeeps.forall y hy
    simp only [keeps, hlabel, Option.all_some, Bool.and_eq_true, Bool.not_eq_true'] at hkept
    exact hkept.2
  obtain ⟨c, u, hc, hu, hr, hid⟩ := exists_of_present hzero
  obtain ⟨d, y, hd, hy, hr', hid'⟩ := exists_of_present hone
  obtain ⟨c', hc', -⟩ := Option.bind_eq_some_iff.mp hlast
  obtain ⟨d', hd'⟩ := Option.isSome_iff_exists.mp hsome
  obtain ⟨news, hnews⟩ := agreed hreach hpath 0
  obtain ⟨ps, hps, hfirst⟩ :=
    hnews 0 c u c' hc hu hr (fun q hq => hid ▸ (hstays q hq).1) hc'
  obtain ⟨qs, hqs, hsecond⟩ :=
    hnews 1 d y d' hd hy hr' (fun q hq => hid' ▸ (hstays q hq).2) hd'
  exact ⟨x, x', p, c, c', d, d', ps, qs, hreach, hpath, hc, hd, hlast, hps, hqs,
    hfirst.trans hsecond.symm⟩

end Chat

end ChattingServer.V11
