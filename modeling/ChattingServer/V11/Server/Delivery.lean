import ChattingServer.Lib.Queue
import ChattingServer.V11.Server.Pipeline

namespace ChattingServer.V11

open Lib

namespace Server

def OneCast (packages : List SendPackage) : Prop :=
  ∀ p ∈ packages, ∀ q ∈ packages, p.packet.isCast = true → q.packet.isCast = true →
    p.packet = q.packet

theorem OneCast.of_packet {packages : List SendPackage} (packet : Packet)
    (h : ∀ p ∈ packages, p.packet.isCast = true → p.packet = packet) : OneCast packages :=
  fun p hp q hq hpc hqc => (h p hp hpc).trans (h q hq hqc).symm

theorem packet_of_mem_casts {users : List UserPtr} {packet : Packet} {p : SendPackage}
    (h : p ∈ casts users packet) : p.packet = packet := by
  obtain ⟨v, -, rfl⟩ := List.mem_map.mp h
  rfl

theorem OneCast.none {packages : List SendPackage} (h : ∀ p ∈ packages, p.packet.isCast = false) :
    OneCast packages := by
  intro p hp q _ hpc
  rw [h p hp] at hpc
  contradiction

theorem Processed.packages {s s' : Server} {session : UserPtr} {packet : Packet}
    (hp : s.Processed session packet s') (hexit : packet ≠ .cServerExit) :
    ∃ ps, s'.packages = s.packages ++ ps ∧ OneCast ps := by
  cases hp with
  | @serverEnter id v u sender nickname =>
    refine ⟨[⟨some session, .sServerEnterOk id⟩, ⟨some session, _⟩],
      List.append_assoc .., .none ?_⟩
    exact List.forall_mem_cons.mpr ⟨rfl, List.forall_mem_singleton.mpr rfl⟩
  | serverExit => exact absurd rfl hexit
  | lobbyRoomInfo => exact ⟨_, rfl, .none (List.forall_mem_singleton.mpr rfl)⟩
  | roomCreate hid roomName => exact ⟨_, rfl, .none (List.forall_mem_singleton.mpr rfl)⟩
  | @roomEnter id v u rid r sender room =>
    refine ⟨_, rfl, .of_packet (.sRoomEnter u.userId u.nickname) fun p hp hcast => ?_⟩
    rcases List.mem_append.mp hp with hp | hp
    · exact packet_of_mem_casts hp
    · rw [List.mem_singleton.mp hp] at hcast
      contradiction
  | roomExit sender room => exact ⟨_, rfl, .of_packet _ fun p hp _ => packet_of_mem_casts hp⟩
  | @unicast id v u sender recver found found_eq text =>
    refine ⟨_, rfl, .none ?_⟩
    cases found with
    | none => exact List.forall_mem_singleton.mpr rfl
    | some w =>
      exact List.forall_mem_cons.mpr ⟨rfl, List.forall_mem_singleton.mpr rfl⟩
  | multicast sender room text => exact ⟨_, rfl, .of_packet _ fun p hp _ => packet_of_mem_casts hp⟩
  | @broadcast id v u sender text =>
    rw [broadCast_eq]
    refine ⟨_, rfl, .of_packet (.sBroadcast u.nickname text) fun p hp _ => ?_⟩
    obtain ⟨r, -, hp⟩ := List.mem_flatMap.mp hp
    exact packet_of_mem_casts hp
  | unhandled _ => exact ⟨[], (List.append_nil _).symm, .none (List.forall_mem_nil _)⟩

end Server

/-! The receives under way, after each kind of change. -/

theorem Completion.receive_update {buffer : UserPtr → Packet} {v : UserPtr} {packet : Packet}
    {c : Completion} (h : ∀ o, c.receive buffer = some o → o.1 ≠ v) :
    c.receive (Function.update buffer v packet) = c.receive buffer := by
  obtain ⟨session, io⟩ := c
  cases io with
  | recv =>
    have hne : session ≠ v := h _ rfl
    simp [receive, Function.update_of_ne hne]
  | send => rfl

theorem Worker.receive_update {buffer : UserPtr → Packet} {v : UserPtr} {packet : Packet}
    {w : Worker} (h : ∀ o, w.receive buffer = some o → o.1 ≠ v) :
    w.receive (Function.update buffer v packet) = w.receive buffer := by
  cases w with
  | receiving session =>
    have hne : session ≠ v := h _ rfl
    simp [receive, Function.update_of_ne hne]
  | idle | pushing | binding => rfl

namespace Pipeline

theorem receives_of_posted {s : Pipeline} {i : Nat} {v : UserPtr} (h : s.posted[i]? = some v) :
    s.receives.Perm ((v, none) :: { s with posted := s.posted.eraseIdx i }.receives) := by
  obtain ⟨hi, rfl⟩ := List.getElem?_eq_some_iff.mp h
  have hp := ((List.getElem_cons_eraseIdx_perm hi).map (·, (none : Option RecvPackage))).symm
  exact (hp.append_right _).append_right _

theorem receives_of_port {s : Pipeline} {i : Nat} {c : Completion} (h : s.port[i]? = some c) :
    s.receives.Perm ((c.receive s.buffer).toList ++
      { s with port := s.port.eraseIdx i }.receives) := by
  have hp := Lib.filterMap_perm_of_getElem? (·.receive s.buffer) h
  have hfront := (hp.append_left (s.posted.map (·, none))).trans (List.perm_append_comm_assoc ..)
  exact (hfront.append_right _).trans (by simp [receives])

theorem receives_of_worker {s : Pipeline} {w : Nat} {x : Worker} (h : s.workers[w]? = some x) :
    ∃ rest, s.receives.Perm ((x.receive s.buffer).toList ++ rest) ∧
      ∀ y, (s.setWorker w y).receives.Perm ((y.receive s.buffer).toList ++ rest) := by
  refine ⟨s.posted.map (·, none) ++ s.port.filterMap (·.receive s.buffer) ++
    (s.workers.eraseIdx w).filterMap (·.receive s.buffer), ?_, fun y => ?_⟩
  · exact ((Lib.filterMap_perm_of_getElem? _ h).append_left _).trans
      (List.perm_append_comm_assoc ..)
  · exact ((Lib.filterMap_set_perm _ h y).append_left _).trans (List.perm_append_comm_assoc ..)

structure Sound (x : Logged) : Prop where
  conveyed : Conveyed RecvPackage.session x.1.receives x.2.received x.2.entered
  used : ∀ o ∈ x.1.receives, x.1.server.user o.1 ≠ .unused
  processed : x.2.processed ++ x.1.jobQueue = x.2.entered
  queued : x.2.queued.map Prod.snd = x.1.server.packages
  delivered : ∀ v, (x.2.sent.map Prod.snd).filter (·.session = some v) ++
    x.1.server.packages.filter (·.session = some v) = x.2.pushed.filter (·.session = some v)
  numbered : Numbered x.2.processed.length (x.2.sent ++ x.2.queued)
  casts : ∀ d ∈ x.2.sent ++ x.2.queued, ∀ e ∈ x.2.sent ++ x.2.queued, d.1 = e.1 →
    d.2.packet.isCast = true → e.2.packet.isCast = true → d.2.packet = e.2.packet

theorem receives_init (n : Nat) : (init n).receives = [] := by
  have hidle : (List.replicate n Worker.idle).filterMap
      (·.receive fun _ => Packet.undefined) = [] := by
    rw [List.filterMap_replicate_of_none rfl]
  simp [receives, init, hidle]

theorem sound_init (n : Nat) : Sound (init n, .init) where
  conveyed := by
    rw [receives_init]
    exact .nil
  used := by
    rw [receives_init]
    exact List.forall_mem_nil _
  processed := rfl
  queued := rfl
  delivered _ := rfl
  numbered := .nil _
  casts := List.forall_mem_nil _

theorem Sound.convey {s s' : Pipeline} {log : Log} (h : Sound (s, log))
    {received entered : List RecvPackage} (hpackages : s'.server.packages = s.server.packages)
    (hjobs : log.processed ++ s'.jobQueue = entered)
    (hc : Conveyed RecvPackage.session s'.receives received entered)
    (hused : ∀ o ∈ s'.receives, s'.server.user o.1 ≠ .unused) :
    Sound (s', { log with received, entered }) where
  conveyed := hc
  used := hused
  processed := hjobs
  queued := h.queued.trans hpackages.symm
  delivered v := by
    rw [hpackages]
    exact h.delivered v
  numbered := h.numbered
  casts := h.casts

theorem Sound.move {s s' : Pipeline} {log : Log} (h : Sound (s, log))
    (huser : s'.server.user = s.server.user)
    (hpackages : s'.server.packages = s.server.packages) (hjobs : s'.jobQueue = s.jobQueue)
    (hp : s.receives.Perm s'.receives) : Sound (s', log) :=
  h.convey hpackages (hjobs ▸ h.processed) (h.conveyed.perm hp) fun o ho => by
    rw [huser]
    exact h.used o (hp.mem_iff.mpr ho)

theorem receives_complete {s : Pipeline} {i : Nat} {v : UserPtr} (packet : Packet)
    (hnot : ∀ o ∈ { s with posted := s.posted.eraseIdx i }.receives, o.1 ≠ v) :
    { s with
      posted := s.posted.eraseIdx i
      port := s.port ++ [(⟨v, .recv⟩ : Completion)]
      buffer := Function.update s.buffer v packet }.receives.Perm
      ((v, some (⟨v, packet⟩ : RecvPackage)) ::
        { s with posted := s.posted.eraseIdx i }.receives) := by
  have hport : s.port.filterMap (·.receive (Function.update s.buffer v packet)) =
      s.port.filterMap (·.receive s.buffer) :=
    List.filterMap_congr fun c hc => Completion.receive_update fun o ho => hnot o <|
      List.mem_append_left _ <| List.mem_append_right _ <| List.mem_filterMap.mpr ⟨c, hc, ho⟩
  have hworkers : s.workers.filterMap (·.receive (Function.update s.buffer v packet)) =
      s.workers.filterMap (·.receive s.buffer) :=
    List.filterMap_congr fun c hc => Worker.receive_update fun o ho => hnot o <|
      List.mem_append_right _ <| List.mem_filterMap.mpr ⟨c, hc, ho⟩
  have hnew : [(⟨v, .recv⟩ : Completion)].filterMap
      (·.receive (Function.update s.buffer v packet)) = [(v, some ⟨v, packet⟩)] := by
    simp [Completion.receive]
  simp only [receives, List.filterMap_append, hport, hworkers, hnew, ← List.append_assoc]
  rw [List.append_assoc _ [_]]
  exact List.perm_middle

theorem Sound.complete {s s' : Pipeline} {log : Log} (h : Sound (s, log)) {i : Nat}
    {packet : Packet} (hs : s.complete i packet = .ok s') :
    Sound (s', log.record s (.complete i packet)) := by
  unfold Pipeline.complete at hs
  cases hv : s.posted[i]? with
  | none => simp [hv] at hs
  | some v =>
    simp only [hv, Except.ok.injEq] at hs
    subst hs
    simp only [Log.record, hv]
    have hc := h.conveyed.perm (receives_of_posted hv)
    have hnot : v ∉ { s with posted := s.posted.eraseIdx i }.receives.map Prod.fst :=
      (List.nodup_cons.mp hc.nodup).1
    have hp := receives_complete packet fun o ho =>
      ne_of_mem_of_not_mem (List.mem_map_of_mem ho) hnot
    refine h.convey rfl h.processed
      ((Conveyed.receive (b := (⟨v, packet⟩ : RecvPackage)) hc).perm hp.symm) fun o ho => ?_
    rcases List.mem_cons.mp (hp.mem_iff.mp ho) with rfl | ho
    · exact h.used (v, none) ((receives_of_posted hv).mem_iff.mpr List.mem_cons_self)
    · exact h.used o ((receives_of_posted hv).mem_iff.mpr (List.mem_cons_of_mem _ ho))

theorem Sound.dequeue {s s' : Pipeline} {log : Log} (h : Sound (s, log)) {w i : Nat}
    (hs : s.dequeue w i = .ok s') : Sound (s', log) := by
  unfold Pipeline.dequeue at hs
  split at hs
  · rename_i session hw hi
    cases hs
    obtain ⟨rest, hidle, hset⟩ :=
      receives_of_worker (s := { s with port := s.port.eraseIdx i }) hw
    exact h.move rfl rfl rfl ((receives_of_port hi).trans
      ((hidle.cons _).trans (hset (.receiving session)).symm))
  · rename_i session hw hi
    simp only [bind_eq_ok_iff, pure_eq_ok, Except.ok.injEq] at hs
    obtain ⟨_, -, rfl⟩ := hs
    exact h.move rfl rfl rfl (receives_of_port hi)
  · contradiction

theorem Sound.onRecv {s s' : Pipeline} {log : Log} (h : Sound (s, log)) {w : Nat}
    (hs : s.onRecv w = .ok s') : Sound (s', log) := by
  unfold Pipeline.onRecv at hs
  split at hs
  · rename_i session hw
    simp only [bind_eq_ok_iff, pure_eq_ok, Except.ok.injEq] at hs
    obtain ⟨_, -, rfl⟩ := hs
    obtain ⟨rest, hold, hset⟩ := receives_of_worker hw
    exact h.move rfl rfl rfl (hold.trans (hset (.pushing ⟨session, s.buffer session⟩)).symm)
  · contradiction

theorem Sound.pushPackage {s s' : Pipeline} {log : Log} (h : Sound (s, log)) {w : Nat}
    (hs : s.pushPackage w = .ok s') : Sound (s', log.record s (.pushPackage w)) := by
  unfold Pipeline.pushPackage at hs
  split at hs
  · rename_i package hw
    cases hs
    simp only [Log.record, hw]
    obtain ⟨rest, hold, hset⟩ := receives_of_worker hw
    have hnew := hset (.binding package.session)
    refine h.convey rfl ?_ ((h.conveyed.perm hold).enter.perm hnew.symm) fun o ho => ?_
    · change log.processed ++ (s.jobQueue ++ [package]) = log.entered ++ [package]
      rw [← List.append_assoc, h.processed]
    · rcases List.mem_cons.mp (hnew.mem_iff.mp ho) with rfl | ho
      · exact h.used (package.session, some package) (hold.mem_iff.mpr List.mem_cons_self)
      · exact h.used o (hold.mem_iff.mpr (List.mem_cons_of_mem _ ho))
  · contradiction

theorem Sound.bindRecv {s s' : Pipeline} {log : Log} (h : Sound (s, log)) {w : Nat} {bound : Bool}
    (hs : s.bindRecv w bound = .ok s') : Sound (s', log) := by
  unfold Pipeline.bindRecv at hs
  split at hs
  · rename_i session hw
    simp only [bind_eq_ok_iff, Prod.exists, pure_eq_ok, Except.ok.injEq] at hs
    obtain ⟨_, u, -, rfl⟩ := hs
    obtain ⟨rest, hold, hset⟩ := receives_of_worker hw
    have hidle : (s.setWorker w .idle).receives.Perm rest := hset .idle
    cases bound with
    | true =>
      refine h.move rfl rfl rfl (hold.trans ((hidle.cons _).symm.trans ?_))
      simp only [receives, if_true, List.map_append, List.map_cons, List.map_nil,
        List.append_assoc]
      exact List.perm_middle.symm
    | false =>
      have hc := (h.conveyed.perm hold).finish.perm hidle.symm
      refine h.convey rfl h.processed hc fun o ho => h.used o (hold.mem_iff.mpr ?_)
      exact List.mem_cons_of_mem _ (hidle.mem_iff.mp ho)
  · contradiction

theorem Sound.accept {s s' : Pipeline} {log : Log} (h : Sound (s, log)) {addr : UserPtr}
    {socket : Socket} {outcome : Server.ConnectOutcome}
    (hs : s.accept addr socket outcome = .ok s') : Sound (s', log) := by
  simp only [Pipeline.accept, bind_eq_ok_iff, pure_eq_ok, Except.ok.injEq] at hs
  obtain ⟨server, hserver, rfl⟩ := hs
  obtain ⟨haddr, hacc⟩ := Server.accepted_of_ok hserver
  have hne : ∀ o ∈ s.receives, o.1 ≠ addr := by
    rintro o ho rfl
    exact h.used o ho haddr
  cases hacc with
  | connected =>
    have hp : ∀ server, { s with server, posted := s.posted ++ [addr] }.receives.Perm
        ((addr, none) :: s.receives) := by
      intro server
      simp only [receives, List.map_append, List.map_cons, List.map_nil, List.append_assoc]
      exact List.perm_middle
    have hnot : addr ∉ s.receives.map Prod.fst := by
      intro hin
      obtain ⟨o, ho, heq⟩ := List.mem_map.mp hin
      exact hne o ho heq
    refine h.convey rfl h.processed ((h.conveyed.start hnot).perm (hp _).symm) fun o ho => ?_
    rcases List.mem_cons.mp ((hp _).mem_iff.mp ho) with rfl | ho
    · exact (Server.user_setUser_self ..).trans_ne nofun
    · exact (Server.user_setUser_of_ne _ (hne o ho) _).trans_ne (h.used o ho)
  | failed hout closed =>
    refine h.convey rfl h.processed ?_ fun o ho => ?_
    · simp only [receives, if_neg hout]
      exact h.conveyed
    · simp only [receives, if_neg hout] at ho
      exact (Server.user_setUser_of_ne _ (hne o ho) _).trans_ne (h.used o ho)

theorem Sound.logic {s s' : Pipeline} {log : Log} (h : Sound (s, log))
    (hg : s.keepsUsers .logic = true) (hs : s.runProcess = .ok s') :
    Sound (s', log.record s .logic) := by
  cases hj : s.jobQueue with
  | nil => simp [runProcess, hj] at hs
  | cons package jobQueue =>
    simp only [Log.record, hj, hs]
    simp only [runProcess, hj, bind_eq_ok_iff, pure_eq_ok, Except.ok.injEq] at hs
    obtain ⟨server, hserver, rfl⟩ := hs
    have hexit : package.packet ≠ .cServerExit := by simpa [keepsUsers, hj] using hg
    have hp := Server.processed_of_ok hserver
    obtain ⟨ps, hps, hone⟩ := hp.packages hexit
    have hdrop : server.packages.drop s.server.packages.length = ps := by
      rw [hps, List.drop_left]
    simp only [hdrop]
    refine ⟨h.conveyed, fun o ho hunused => h.used o ho (hp.unused hunused), ?_, ?_,
      fun v => ?_, ?_, ?_⟩
    · have hjobs := h.processed
      simp only [hj] at hjobs
      simpa using hjobs
    · simp [h.queued, hps, Function.comp_def]
    · rw [hps, List.filter_append, List.filter_append, ← List.append_assoc, h.delivered v]
    · rw [← List.append_assoc, List.length_append]
      exact h.numbered.batch ps
    · intro d hd e he hjob hdc hec
      rw [← List.append_assoc] at hd he
      rcases List.mem_append.mp hd with hd | hd <;> rcases List.mem_append.mp he with he | he
      · exact h.casts d hd e he hjob hdc hec
      · obtain ⟨q, -, rfl⟩ := List.mem_map.mp he
        exact absurd hjob (Nat.ne_of_lt (h.numbered.lt d hd))
      · obtain ⟨p, -, rfl⟩ := List.mem_map.mp hd
        exact absurd hjob.symm (Nat.ne_of_lt (h.numbered.lt e he))
      · obtain ⟨p, hp, rfl⟩ := List.mem_map.mp hd
        obtain ⟨q, hq, rfl⟩ := List.mem_map.mp he
        exact hone p hp q hq hdc hec

theorem Sound.sent {s : Pipeline} {log : Log} (h : Sound (s, log)) {job : Nat}
    {package : SendPackage} {packages : List SendPackage} {queued : List (Nat × SendPackage)}
    (hpackages : s.server.packages = package :: packages)
    (hqueued : log.queued = (job, package) :: queued) {port : List Completion}
    (hport : port.filterMap (·.receive s.buffer) = s.port.filterMap (·.receive s.buffer)) :
    Sound ({ s with server := { s.server with packages }, port }, { log with
      queued
      sent := if package.session = none then log.sent else log.sent ++ [(job, package)] }) := by
  have hreceives : { s with server := { s.server with packages }, port }.receives =
      s.receives := by
    simp only [receives, hport]
  have hsub : List.Sublist
      ((if package.session = none then log.sent else log.sent ++ [(job, package)]) ++ queued)
      (log.sent ++ log.queued) := by
    rw [hqueued]
    split
    · exact (List.sublist_cons_self ..).append_left _
    · rw [List.append_assoc]
      exact .refl _
  refine ⟨hreceives ▸ h.conveyed, hreceives ▸ h.used, h.processed, ?_, fun v => ?_,
    h.numbered.sublist hsub, fun d hd e he => h.casts d (hsub.subset hd) e (hsub.subset he)⟩
  · have hsnd := h.queued
    rw [hqueued, hpackages, List.map_cons] at hsnd
    exact (List.cons.inj hsnd).2
  · have hv := h.delivered v
    rw [hpackages] at hv
    rw [← hv]
    split
    · rename_i hnone
      simp [hnone]
    · simp [List.filter_append, List.filter_cons]
      split <;> simp

theorem Sound.send {s s' : Pipeline} {log : Log} (h : Sound (s, log)) {outcome : SendOutcome}
    (hs : s.sendRun outcome = .ok s') : Sound (s', log.record s (.send outcome)) := by
  cases hp : s.server.packages with
  | nil => simp [sendRun, hp] at hs
  | cons package packages =>
    have hsnd := h.queued
    rw [hp] at hsnd
    cases hq : log.queued with
    | nil => simp [hq] at hsnd
    | cons d queued =>
      obtain ⟨job, package'⟩ := d
      simp only [hq, List.map_cons] at hsnd
      obtain rfl : package' = package := (List.cons.inj hsnd).1
      simp only [Log.record, hp, hq]
      simp only [sendRun, hp] at hs
      split at hs
      · cases hs
        exact h.sent hp hq rfl
      · rename_i session _
        simp only [bind_eq_ok_iff] at hs
        obtain ⟨_, -, hs⟩ := hs
        split at hs
        · cases hs
          refine h.sent hp hq ?_
          rw [List.filterMap_append]
          exact List.append_nil _
        · cases hs
          exact h.sent hp hq rfl

theorem Sound.step {n : Nat} {x x' : Logged} (h : Sound x) {a : Action}
    (hg : x.1.keepsUsers a = true) (hstep : (logged n).step x a = .ok x') : Sound x' := by
  obtain ⟨s, log⟩ := x
  obtain ⟨s', hs, rfl⟩ := System.exists_of_withHistory_step hstep
  cases a with
  | accept addr socket outcome => exact h.accept hs
  | complete i packet => exact h.complete hs
  | disconnect w i => contradiction
  | dequeue w i => exact h.dequeue hs
  | onRecv w => exact h.onRecv hs
  | pushPackage w => exact h.pushPackage hs
  | bindRecv w bound => exact h.bindRecv hs
  | logic => exact h.logic hg hs
  | send outcome => exact h.send hs

theorem sound_of_reach {n : Nat} {x : Logged}
    (h : (logged n).Reach (fun x a => x.1.keepsUsers a = true) x) : Sound x :=
  h.invariant (sound_init n) fun _ _ _ _ hx hg hs => hx.step hg hs

theorem Sound.sentTo_sorted {x : Logged} (h : Sound x) (v : UserPtr) :
    (x.2.sentTo v).Pairwise (·.1 ≤ ·.1) := by
  have hsent : Numbered x.2.processed.length x.2.sent :=
    h.numbered.sublist (List.sublist_append_left ..)
  exact List.pairwise_map.mpr (hsent.sublist List.filter_sublist).sorted

theorem Sound.job_ne {x : Logged} (h : Sound x) {v w : UserPtr} {d e : Nat × Packet}
    (hd : d ∈ x.2.sentTo v) (he : e ∈ x.2.sentTo w) (hdc : d.2.isCast = true)
    (hec : e.2.isCast = true) (hne : d ≠ e) : d.1 ≠ e.1 := by
  obtain ⟨d', hd', rfl⟩ := List.mem_map.mp hd
  obtain ⟨e', he', rfl⟩ := List.mem_map.mp he
  intro hjob
  have hpacket := h.casts d' (List.mem_append_left _ (List.mem_of_mem_filter hd')) e'
    (List.mem_append_left _ (List.mem_of_mem_filter he')) hjob hdc hec
  exact hne (Prod.ext hjob hpacket)

theorem Log.IsJob.lt {log : Log} {session : UserPtr} {i j k l : Nat}
    (h : log.IsJob session i k) (h' : log.IsJob session j l) (hij : i < j) : k < l := by
  refine Nat.lt_of_not_le fun hle => ?_
  have hsub : List.Sublist (log.processed.take l) (log.processed.take k) :=
    (List.take_prefix_take_left hle).sublist
  have hlen := (hsub.filter (·.session = session)).length_le
  rw [h.turn, h'.turn] at hlen
  omega

theorem Sound.received_of_isJob {x : Logged} (h : Sound x) {session : UserPtr} {i k : Nat}
    (hk : x.2.IsJob session i k) :
    (x.2.received.filter (·.session = session))[i]? = x.2.processed[k]? := by
  obtain ⟨⟨package, hpackage, horigin⟩, hturn⟩ := hk
  obtain ⟨later, hlater⟩ := (h.conveyed.prefix_received session).1
  obtain ⟨hlt, hget⟩ := List.getElem?_eq_some_iff.mp hpackage
  have hsplit : x.2.processed = x.2.processed.take k ++ package :: x.2.processed.drop (k + 1) := by
    rw [← hget, ← List.drop_eq_getElem_cons hlt, List.take_append_drop]
  rw [← hlater, ← h.processed, hpackage, hsplit]
  simp only [List.filter_append, List.append_assoc]
  rw [List.getElem?_append_right (Nat.le_of_eq hturn), hturn, Nat.sub_self]
  simp [horigin]

theorem Sound.ordered {x : Logged} (h : Sound x) : Ordered x where
  outstanding := h.conveyed.nodup
  entered v := (h.conveyed.prefix_received v).1
  processed := h.processed
  delivered v := by
    rw [← h.delivered v, List.map_append, Log.sentTo, List.map_map, List.filter_map, List.map_map]
    rfl
  casts v w d e hdc hec hne hde hd he := by
    have hle := le_of_pair_sublist (h.sentTo_sorted v) hde
    have hjob := h.job_ne hd he hdc hec hne
    exact pair_sublist_of_lt (h.sentTo_sorted w) hd he (Nat.lt_of_le_of_ne hle hjob)
  jobs _ _ _ := h.received_of_isJob
  chats sender w i j k l p q hk hl hij hp hq :=
    pair_sublist_of_lt (h.sentTo_sorted w) hp hq (hk.lt hl hij)

/-- As long as no user leaves, the packets go through in order, whatever the number of workers. -/
theorem ordered_of_keepsUsers {n : Nat} {x : Logged}
    (h : (logged n).Reach (fun x a => x.1.keepsUsers a = true) x) : Ordered x :=
  (sound_of_reach h).ordered

theorem ordered_of_keepsUsers_two :
    ∃ x, (logged 2).Reachable x ∧ (x.2.sentTo 0).length = 3 ∧ x.1.outstanding = [1, 0] ∧
      Ordered x := by
  obtain ⟨x, hx, hp⟩ := System.exists_of_runWith (S := logged 2)
    (G := fun x a => x.1.keepsUsers a = true) (g := fun x a => x.1.keepsUsers a)
    (p := fun x => decide ((x.2.sentTo 0).length = 3 ∧ x.1.outstanding = [1, 0]))
    (fun _ _ h => h)
    [.accept 0 7 .connected, .accept 1 8 .connected, .complete 0 (.cServerEnter [97]),
      .dequeue 1 0, .onRecv 1, .pushPackage 1, .bindRecv 1 true, .complete 1 .cLobbyRoomInfo,
      .logic, .dequeue 0 0, .send .sent, .onRecv 0, .pushPackage 0, .logic, .send .sent,
      .send .failed] (by decide)
  have hend := of_decide_eq_true hp
  exact ⟨x, hx.reachable, hend.1, hend.2, ordered_of_keepsUsers hx⟩

end Pipeline

end ChattingServer.V11
