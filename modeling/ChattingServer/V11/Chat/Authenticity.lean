import ChattingServer.V11.Chat.Link
import ChattingServer.V11.Server.Voices

namespace ChattingServer.V11

open Lib

namespace Client

structure GoesBy (c : Client) (nickname : Str) : Prop where
  nickname : c.nickname = nickname
  state : c.state ≠ .login
  page : c.page ≠ .sendNickname

@[simp] theorem nickname_moveCursor (c : Client) (display : Nat)
    (move : LobbyDisplay → LobbyDisplay) : (c.moveCursor display move).nickname = c.nickname := by
  unfold moveCursor
  split
  · split <;> rfl
  · rfl

theorem nickname_stateThread {c c' : Client} {i : Input} (h : c.stateThread c.page i = .ok c')
    (hpage : c.page ≠ .sendNickname) : c'.nickname = c.nickname := by
  unfold stateThread at h
  split at h
  · rw [← Except.ok.inj h, stateProcess]
    split <;> rfl
  · rename_i hp
    exact absurd hp hpage
  · rw [← Except.ok.inj h]
  · rw [← Except.ok.inj h, lobbyKey]
    split_ifs <;> rfl
  · rw [← Except.ok.inj h, lobbyArrow]
    split_ifs <;> simp
  · rw [← Except.ok.inj h]
  · rw [← Except.ok.inj h, chatRoomLine]
    split_ifs <;> rfl
  · contradiction

theorem Received.nickname {c c' : Client} {p : Packet} (h : c.Received p c') :
    c'.nickname = c.nickname := by
  cases h with
  | entrance hst =>
    rw [moveToRoom, if_pos hst]
    rfl
  | enterOk | exit | redrawn => rfl

theorem GoesBy.stateThread {c c' : Client} {nickname : Str} (h : c.GoesBy nickname) {i : Input}
    (hs : c.stateThread c.page i = .ok c') : c'.GoesBy nickname := by
  rcases turned_or_entered hs with ht | ⟨hpage, -⟩
  · refine ⟨(nickname_stateThread hs h.page).trans h.nickname, ht.state ▸ h.state, fun hp => ?_⟩
    exact (ht.nickname hp).elim h.state h.page
  · exact absurd hpage h.page

theorem GoesBy.received {c c' : Client} {nickname : Str} (h : c.GoesBy nickname) {p : Packet}
    (hr : c.Received p c') : c'.GoesBy nickname :=
  ⟨hr.nickname.trans h.nickname, fun hst => h.state (hr.handled.login hst),
    hr.handled.page ▸ h.page⟩

theorem recvProcess_of_cast (c : Client) (memory : Display) {p : Packet}
    (h : Event.isCast p = true) : ∃ display, c.recvProcess memory p = { c with display } := by
  obtain ⟨display, -, hd⟩ := c.onRoomDisplay_eq memory id
  cases p <;> first | exact ⟨display, hd⟩ | contradiction

structure Sends (c : Client) (i : Input) (c' : Client) (p : Packet) : Prop where
  login : ∀ nickname, p = .cServerEnter nickname → nickname = c'.nickname ∧ nickname ≠ []
  chat : ∀ nickname q, p.voiced nickname = some q →
    ∃ text, i = .line text ∧ c.page = .chatRoomLine ∧ c.state = .chatroom ∧
      p = RoomDisplay.sendChat text

theorem sends_pushQueue {c c' : Client} {i : Input} {p : Packet} (hq : c'.sendQueue = c.sendQueue)
    (h : c.Sends i (c'.pushQueue p) p) :
    ∃ ps, (c'.pushQueue p).sendQueue = c.sendQueue ++ ps ∧
      ∀ q ∈ ps, c.Sends i (c'.pushQueue p) q :=
  ⟨[p], by rw [pushQueue, hq], List.forall_mem_singleton.mpr h⟩

theorem sends_nothing {c c' : Client} {i : Input} (hq : c'.sendQueue = c.sendQueue) :
    ∃ ps, c'.sendQueue = c.sendQueue ++ ps ∧ ∀ p ∈ ps, c.Sends i c' p :=
  ⟨[], hq.trans (List.append_nil _).symm, List.forall_mem_nil _⟩

theorem sendQueue_moveCursor (c : Client) (display : Nat) (move : LobbyDisplay → LobbyDisplay) :
    (c.moveCursor display move).sendQueue = c.sendQueue := by
  unfold moveCursor
  split
  · split <;> rfl
  · rfl

theorem exists_sends {c c' : Client} {i : Input} (h : c.stateThread c.page i = .ok c') :
    ∃ ps, c'.sendQueue = c.sendQueue ++ ps ∧ ∀ p ∈ ps, c.Sends i c' p := by
  unfold stateThread at h
  split at h
  · rw [← Except.ok.inj h, stateProcess]
    split <;> exact sends_nothing rfl
  · rw [← Except.ok.inj h, sendNickname]
    split
    · exact sends_nothing rfl
    · rename_i hne
      refine sends_pushQueue rfl ⟨?_, by rintro _ _ ⟨⟩⟩
      rintro _ ⟨⟩
      exact ⟨rfl, hne⟩
  · rw [← Except.ok.inj h]
    exact sends_nothing rfl
  · rw [← Except.ok.inj h, lobbyKey]
    split
    · exact sends_nothing rfl
    · dsimp only
      split
      · refine sends_pushQueue rfl ?_
        split <;> exact ⟨by rintro _ ⟨⟩, by rintro _ _ ⟨⟩⟩
      · exact sends_nothing rfl
  · rw [← Except.ok.inj h, lobbyArrow]
    split
    · dsimp only
      split
      · exact sends_nothing (sendQueue_moveCursor ..)
      · split
        · exact sends_nothing (sendQueue_moveCursor ..)
        · exact sends_nothing rfl
    · exact sends_nothing rfl
  · rw [← Except.ok.inj h]
    exact sends_nothing rfl
  · rename_i text hpage
    rw [← Except.ok.inj h, chatRoomLine]
    split
    · exact sends_nothing rfl
    · split
      · rename_i hstate
        exact sends_pushQueue rfl ⟨fun nickname hn => absurd hn (sendChat_ne text nickname),
          fun _ _ _ => ⟨text, rfl, hpage, hstate, rfl⟩⟩
      · exact sends_nothing rfl
  · contradiction

end Client

abbrev Typed := List (UserPtr × Str)

namespace Chat

def type (typed : Typed) (s : Chat) : Action → Typed
  | .client v (.input (.line text)) =>
    match s.conns.find v with
    | some c =>
      if c.client.page = .chatRoomLine ∧ c.client.state = .chatroom then typed ++ [(v, text)]
      else typed
    | none => typed
  | _ => typed

def typing : System (Chat × Typed) Action Fault := system.withHistory [] type

/-- Somebody of the nickname that the chat is in has typed it. -/
def Attested (conns : StdMap UserPtr Conn) (typed : Typed) (p : Packet) : Prop :=
  ∃ v c nickname text, conns.find v = some c ∧ c.client.GoesBy nickname ∧ nickname ≠ [] ∧
    (v, text) ∈ typed ∧ (RoomDisplay.sendChat text).voiced nickname = some p

structure Named (s : Chat) (w : UserPtr) (c : Conn) (u : User) (b : Bool) : Prop where
  phase : LoginPhase c.client (s.outgoing w c) b
  login : ∀ nickname, .cServerEnter nickname ∈ s.outgoing w c →
    nickname = c.client.nickname ∧ nickname ≠ []
  named : b = true → u.nickname = c.client.nickname ∧ u.nickname ≠ []
  stranger : b = false → (∀ r, w ∉ (s.server.room r).users) ∧
    ∀ p ∈ s.incoming w c, Event.isCast p = true

structure Genuine (s : Chat) (typed : Typed) : Prop where
  registry : s.server.Registry
  liveRegistered : s.server.LiveRegistered
  unused : ∀ w, s.server.user w = .unused → s.conns.find w = none ∧ packetsOf w s.jobQueue = [] ∧
    ∀ p ∈ packetsFor w s.server.packages, Event.isCast p = true
  live : ∀ w u, s.server.user w = .live u → ∃ c b, s.conns.find w = some c ∧ s.Named w c u b
  requests : ∀ w c, s.conns.find w = some c → ∀ p ∈ s.outgoing w c, ∀ nickname q,
    p.voiced nickname = some q → ∃ text, (w, text) ∈ typed ∧ p = RoomDisplay.sendChat text
  sent : ∀ pkg ∈ s.server.packages, pkg.packet.speaks = true →
    Attested s.conns typed pkg.packet
  arriving : ∀ w c, s.conns.find w = some c → ∀ p ∈ c.client.recvQueue ++ c.down,
    p.speaks = true → Attested s.conns typed p

theorem genuine_init : Genuine .init [] where
  registry := Server.registry_init
  liveRegistered := nofun
  unused _ _ := ⟨rfl, rfl, nofun⟩
  live := nofun
  requests := nofun
  sent := nofun
  arriving := nofun

theorem Attested.mono {conns conns' : StdMap UserPtr Conn} {typed typed' : Typed} {p : Packet}
    (h : Attested conns typed p)
    (hconns : ∀ v c, conns.find v = some c → ∃ c', conns'.find v = some c' ∧
      ∀ nickname, c.client.GoesBy nickname → c'.client.GoesBy nickname)
    (htyped : typed <+: typed') : Attested conns' typed' p := by
  obtain ⟨v, c, nickname, text, hc, hgoes, hne, hmem, hp⟩ := h
  obtain ⟨c', hc', hgoes'⟩ := hconns v c hc
  exact ⟨v, c', nickname, text, hc', hgoes' nickname hgoes, hne, htyped.subset hmem, hp⟩

theorem prefix_type (typed : Typed) (s : Chat) (a : Action) : typed <+: type typed s a := by
  unfold type
  split
  · split
    · split
      · exact List.prefix_append ..
      · exact List.prefix_refl _
    · exact List.prefix_refl _
  · exact List.prefix_refl _

/-! The steps of a client. -/

theorem goesBy_of_stepped {c c' : Conn} {a : Conn.Action} (h : c.Stepped a c') {nickname : Str}
    (hgoes : c.client.GoesBy nickname) : c'.client.GoesBy nickname := by
  cases h with
  | input turn => exact hgoes.stateThread turn
  | sendThread | recvThread => exact ⟨hgoes.nickname, hgoes.state, hgoes.page⟩
  | @logicThread p recvQueue hq memory =>
    have hgoes' : Client.GoesBy { c.client with recvQueue } nickname :=
      ⟨hgoes.nickname, hgoes.state, hgoes.page⟩
    exact hgoes'.received (Client.received_recvProcess ..)

theorem sendQueue_received {c c' : Client} {p : Packet} (h : c.Received p c') :
    ∃ ps, c'.sendQueue = c.sendQueue ++ ps ∧ ∀ q ∈ ps, q = .cLobbyRoomInfo := by
  cases h with
  | enterOk pid => exact ⟨_, rfl, List.forall_mem_singleton.mpr rfl⟩
  | entrance hst =>
    rw [Client.moveToRoom, if_pos hst]
    exact ⟨[], (List.append_nil _).symm, List.forall_mem_nil _⟩
  | exit | redrawn => exact ⟨[], (List.append_nil _).symm, List.forall_mem_nil _⟩

theorem exists_requests {c c' : Conn} {a : Conn.Action} (h : c.Stepped a c') :
    ∃ ps, c'.up ++ c'.client.sendQueue = c.up ++ c.client.sendQueue ++ ps ∧
      ∀ p ∈ ps, ∀ nickname q, p.voiced nickname = some q → ∃ text, a = .input (.line text) ∧
        c.client.page = .chatRoomLine ∧ c.client.state = .chatroom ∧
          p = RoomDisplay.sendChat text := by
  cases h with
  | @input i client turn =>
    obtain ⟨ps, hps, hwhy⟩ := Client.exists_sends turn
    refine ⟨ps, by rw [hps, List.append_assoc], fun p hp nickname q hq => ?_⟩
    obtain ⟨text, rfl, hpage, hstate, heq⟩ := (hwhy p hp).chat nickname q hq
    exact ⟨text, rfl, hpage, hstate, heq⟩
  | sendThread hq => exact ⟨[], by simp [hq], List.forall_mem_nil _⟩
  | recvThread => exact ⟨[], (List.append_nil _).symm, List.forall_mem_nil _⟩
  | @logicThread p recvQueue hq memory =>
    obtain ⟨ps, hps, hlist⟩ :=
      sendQueue_received (Client.received_recvProcess { c.client with recvQueue } memory p)
    refine ⟨ps, by rw [hps, List.append_assoc], fun q hq' nickname r hr => ?_⟩
    rw [hlist q hq'] at hr
    contradiction

theorem arriving_of_stepped {c c' : Conn} {a : Conn.Action} (h : c.Stepped a c') :
    ∀ p ∈ c'.client.recvQueue ++ c'.down, p ∈ c.client.recvQueue ++ c.down := by
  cases h with
  | input turn =>
    rcases Client.turned_or_entered turn with ht | ⟨-, nickname, rfl⟩
    · rw [ht.recvQueue]
      exact fun _ => id
    · exact fun _ => id
  | sendThread => exact fun _ => id
  | recvThread hdown => simp [hdown]
  | @logicThread p recvQueue hq memory =>
    have hrecv := (Client.received_recvProcess { c.client with recvQueue } memory p).handled
    rw [hrecv.recvQueue, hq]
    exact fun q hmem => List.mem_cons_of_mem _ hmem

theorem Named.of_eq {s s' : Chat} {w : UserPtr} {c c' : Conn} {u : User} {b : Bool}
    (h : s.Named w c u b) (hstate : c'.client.state = c.client.state)
    (hpage : c'.client.page = c.client.page) (hnick : c'.client.nickname = c.client.nickname)
    (hout : s'.outgoing w c' = s.outgoing w c)
    (hroom : ∀ r, w ∈ (s'.server.room r).users → w ∈ (s.server.room r).users)
    (hin : b = false → ∀ p ∈ s'.incoming w c', p ∈ s.incoming w c ∨ Event.isCast p = true) :
    s'.Named w c' u b where
  phase := hout ▸ h.phase.congr hstate hpage
  login nickname hn := hnick ▸ h.login nickname (hout ▸ hn)
  named hb := hnick ▸ h.named hb
  stranger hb := ⟨fun r hr => (h.stranger hb).1 r (hroom r hr), fun p hp =>
    (hin hb p hp).elim ((h.stranger hb).2 p) id⟩

theorem fresh_of_sendNickname {c : Client} {out : List Packet} {b : Bool}
    (h : LoginPhase c out b) (hpage : c.page = .sendNickname) :
    b = false ∧ out = [] ∧ c.state = .login := by
  cases h with
  | fresh hst => exact ⟨rfl, rfl, hst⟩
  | entering _ hp => simp [hp] at hpage
  | entered _ hp => exact absurd hpage hp

theorem entered_of_true {c : Client} {out : List Packet} (h : LoginPhase c out true) :
    c.state ≠ .login ∧ c.page ≠ .sendNickname := by
  cases h with
  | entered hst hpage => exact ⟨hst, hpage⟩

theorem outgoing_append (s : Chat) (w : UserPtr) {c : Conn} {client : Client} {ps : List Packet}
    (h : client.sendQueue = c.client.sendQueue ++ ps) :
    s.outgoing w { c with client } = s.outgoing w c ++ ps := by
  simp [outgoing, h]

theorem Named.turned {s : Chat} {w : UserPtr} {c : Conn} {client : Client} {u : User} {b : Bool}
    (h : s.Named w c u b) {i : Input} (turn : c.client.stateThread c.client.page i = .ok client) :
    s.Named w { c with client } u b := by
  obtain ⟨ps, hps, hwhy⟩ := Client.exists_sends turn
  have hout := s.outgoing_append w hps
  rcases Client.turned_or_entered turn with ht | ⟨hpage, nickname, rfl⟩
  · obtain ⟨qs, hqs, hnot⟩ := ht.sends
    obtain rfl : ps = qs := List.append_cancel_left (hps.symm.trans hqs)
    have hphase : LoginPhase client (s.outgoing w c ++ ps) b := by
      refine h.phase.append (fun hb => ?_) (ht.state ▸ id) (fun hst hp hp' => ?_) hnot
      · subst hb
        obtain ⟨hq, hp⟩ := ht.waits h.phase.place_outside h.phase.page_outside
        refine ⟨List.append_cancel_left (hps.symm.trans (hq.trans (List.append_nil _).symm)),
          ht.state, hp.imp_right fun hp => ⟨hp, ?_⟩⟩
        exact (ht.nickname hp).elim id fun hp => (fresh_of_sendNickname h.phase hp).2.2
      · exact (ht.nickname hp').elim hst hp
    have hnick : c.client.page ≠ .sendNickname → client.nickname = c.client.nickname :=
      Client.nickname_stateThread turn
    refine ⟨hout ▸ hphase, fun nickname hn => ?_, fun hb => ?_, fun hb => ?_⟩
    · rw [hout] at hn
      rcases List.mem_append.mp hn with hn | hn
      · have hpage : c.client.page ≠ .sendNickname := fun hpage => by
          rw [(fresh_of_sendNickname h.phase hpage).2.1] at hn
          contradiction
        rw [hnick hpage]
        exact h.login nickname hn
      · exact absurd rfl (hnot _ hn nickname)
    · have hpage : c.client.page ≠ .sendNickname := fun hpage => by
        rw [(fresh_of_sendNickname h.phase hpage).1] at hb
        contradiction
      rw [hnick hpage]
      exact h.named hb
    · refine ⟨(h.stranger hb).1, fun p hp => (h.stranger hb).2 p ?_⟩
      rwa [incoming, ht.recvQueue] at hp
  · obtain ⟨rfl, hnil, hst⟩ := fresh_of_sendNickname h.phase hpage
    have hps' : ps = [.cServerEnter nickname] :=
      List.append_cancel_left (hps.symm.trans rfl)
    rw [hnil, hps', List.nil_append] at hout
    refine ⟨hout ▸ .entering rfl rfl nickname, fun n hn => ?_, by rintro ⟨⟩, h.stranger⟩
    rw [hout, ← hps'] at hn
    exact (hwhy _ hn).login n rfl

theorem Named.handled {s : Chat} {w : UserPtr} {c : Conn} {p : Packet} {recvQueue : List Packet}
    {u : User} {b : Bool} (h : s.Named w c u b) (hq : c.client.recvQueue = p :: recvQueue)
    (memory : Display) :
    s.Named w { c with client := { c.client with recvQueue }.recvProcess memory p } u b := by
  cases b with
  | false =>
    have hcast : Event.isCast p = true := (h.stranger rfl).2 p (by simp [incoming, hq])
    obtain ⟨display, hd⟩ := Client.recvProcess_of_cast { c.client with recvQueue } memory hcast
    rw [hd]
    refine h.of_eq rfl rfl rfl rfl (fun _ => id) fun _ q hmem => .inl ?_
    simp only [incoming, hq, List.cons_append] at hmem ⊢
    exact List.mem_cons_of_mem _ hmem
  | true =>
    have hr := Client.received_recvProcess { c.client with recvQueue } memory p
    obtain ⟨ps, hps, hlist⟩ := sendQueue_received hr
    have hout := s.outgoing_append w (c := c) hps
    refine ⟨?_, fun n hn => ?_, fun hb => hr.nickname ▸ h.named hb, by rintro ⟨⟩⟩
    · rw [hout]
      refine h.phase.append (by rintro ⟨⟩) (fun hst hst' => hst (hr.handled.login hst'))
        (fun _ hp => hr.handled.page ▸ hp) fun q hmem => ?_
      rw [hlist q hmem]
      rintro _ ⟨⟩
    · rw [hr.nickname]
      rw [hout] at hn
      rcases List.mem_append.mp hn with hn | hn
      · exact h.login n hn
      · cases hlist _ hn

theorem Named.client {s : Chat} {w : UserPtr} {c c' : Conn} {a : Conn.Action} {u : User} {b : Bool}
    (h : s.Named w c u b) (hs : c.Stepped a c') : s.Named w c' u b := by
  cases hs with
  | input turn => exact h.turned turn
  | sendThread hq =>
    exact h.of_eq rfl rfl rfl (by simp [outgoing, hq]) (fun _ => id) fun _ _ => .inl
  | recvThread hdown =>
    refine h.of_eq rfl rfl rfl rfl (fun _ => id) fun _ p hp => .inl ?_
    simpa [incoming, hdown] using hp
  | logicThread hq memory => exact h.handled hq memory

/-! The steps of the chat. -/

theorem goesBy_set {conns : StdMap UserPtr Conn} {v : UserPtr} {c c' : Conn}
    (hc : conns.find v = some c)
    (h : ∀ nickname, c.client.GoesBy nickname → c'.client.GoesBy nickname) :
    ∀ w d, conns.find w = some d → ∃ d', (conns.set v c').find w = some d' ∧
      ∀ nickname, d.client.GoesBy nickname → d'.client.GoesBy nickname := by
  intro w d hd
  rw [StdMap.find_set]
  split
  · rename_i hw
    subst hw
    obtain rfl := Option.some.inj (hc.symm.trans hd)
    exact ⟨c', rfl, h⟩
  · exact ⟨d, hd, fun _ => id⟩

theorem Genuine.setConn {s s' : Chat} {typed typed' : Typed} (h : s.Genuine typed)
    {v : UserPtr} {c c' : Conn} (hc : s.conns.find v = some c) (hserver : s'.server = s.server)
    (hconns : s'.conns = s.conns.set v c') (htyped : typed <+: typed')
    (hjobs : ∀ w, w ≠ v → packetsOf w s'.jobQueue = packetsOf w s.jobQueue)
    (hgoes : ∀ nickname, c.client.GoesBy nickname → c'.client.GoesBy nickname)
    (hnamed : ∀ u b, s.Named v c u b → s'.Named v c' u b)
    (hrequests : ∀ p ∈ s'.outgoing v c', ∀ nickname q, p.voiced nickname = some q →
      p ∈ s.outgoing v c ∨ ∃ text, (v, text) ∈ typed' ∧ p = RoomDisplay.sendChat text)
    (harriving : ∀ p ∈ c'.client.recvQueue ++ c'.down, p ∈ c.client.recvQueue ++ c.down) :
    s'.Genuine typed' := by
  have hattested : ∀ {p}, Attested s.conns typed p → Attested s'.conns typed' p := fun hp =>
    hp.mono (hconns ▸ goesBy_set hc hgoes) htyped
  refine ⟨hserver ▸ h.registry, hserver ▸ h.liveRegistered, fun w hw => ?_, fun w u hu => ?_,
    fun w d hd => ?_, fun pkg hpkg hspeaks => ?_, fun w d hd => ?_⟩
  · rw [hserver] at hw ⊢
    obtain ⟨hnone, hjob, hpkg⟩ := h.unused w hw
    have hne : w ≠ v := by
      rintro rfl
      rw [hnone] at hc
      contradiction
    rw [hconns, StdMap.find_set, if_neg (Ne.symm hne), hjobs w hne]
    exact ⟨hnone, hjob, hpkg⟩
  · rw [hserver] at hu
    obtain ⟨d, b, hd, hn⟩ := h.live w u hu
    by_cases hw : w = v
    · subst hw
      obtain rfl := Option.some.inj (hc.symm.trans hd)
      exact ⟨c', b, by rw [hconns, StdMap.find_set, if_pos rfl], hnamed u b hn⟩
    · refine ⟨d, b, by rw [hconns, StdMap.find_set, if_neg (Ne.symm hw), hd], ?_⟩
      refine hn.of_eq rfl rfl rfl (by rw [outgoing, outgoing, hjobs w hw])
        (by rw [hserver]; exact fun _ => id) fun _ p hp => .inl ?_
      rwa [incoming, hserver] at hp
  · rw [hconns, StdMap.find_set] at hd
    split at hd
    · rename_i hw
      subst hw
      obtain rfl := Option.some.inj hd
      intro p hp nickname q hq
      rcases hrequests p hp nickname q hq with hp | htext
      · obtain ⟨text, hmem, heq⟩ := h.requests _ c hc p hp nickname q hq
        exact ⟨text, htyped.subset hmem, heq⟩
      · exact htext
    · rename_i hw
      intro p hp nickname q hq
      rw [outgoing, hjobs w (Ne.symm hw)] at hp
      obtain ⟨text, hmem, heq⟩ := h.requests w d hd p hp nickname q hq
      exact ⟨text, htyped.subset hmem, heq⟩
  · exact hattested (h.sent pkg (hserver ▸ hpkg) hspeaks)
  · rw [hconns, StdMap.find_set] at hd
    split at hd
    · obtain rfl := Option.some.inj hd
      exact fun p hp hspeaks => hattested (h.arriving _ c hc p (harriving p hp) hspeaks)
    · exact fun p hp hspeaks => hattested (h.arriving w d hd p hp hspeaks)

theorem Genuine.client {s : Chat} {typed : Typed} (h : s.Genuine typed) {v : UserPtr}
    {a : Conn.Action} {c c' : Conn} (hc : s.conns.find v = some c) (hs : c.Stepped a c') :
    Genuine { s with conns := s.conns.set v c' } (type typed s (.client v a)) := by
  obtain ⟨ps, hps, hwhy⟩ := exists_requests hs
  refine h.setConn hc rfl rfl (prefix_type ..) (fun _ _ => rfl)
    (fun _ => goesBy_of_stepped hs) (fun u b hn => ?_) (fun p hp nickname q hq => ?_)
    (arriving_of_stepped hs)
  · exact (hn.client hs).of_eq rfl rfl rfl rfl (fun _ => id) fun _ _ => .inl
  · rw [outgoing, List.append_assoc, hps, ← List.append_assoc, ← List.append_assoc] at hp
    refine (List.mem_append.mp hp).imp_right fun hp => ?_
    obtain ⟨text, rfl, hpage, hstate, heq⟩ := hwhy p hp nickname q hq
    refine ⟨text, ?_, heq⟩
    simp [type, hc, hpage, hstate]

theorem Genuine.recv {s : Chat} {typed : Typed} (h : s.Genuine typed) {v : UserPtr}
    {client : Client} {packet : Packet} {up down : List Packet}
    (hc : s.conns.find v = some ⟨client, packet :: up, down⟩) :
    Genuine { s with
      jobQueue := s.jobQueue ++ [⟨v, packet⟩]
      conns := s.conns.set v ⟨client, up, down⟩ } typed := by
  refine h.setConn hc rfl rfl (List.prefix_refl _) (fun w hw => by simp [Ne.symm hw])
    (fun _ => id) (fun u b hn => ?_) (fun p hp _ _ _ => .inl ?_) fun _ => id
  · exact hn.of_eq rfl rfl rfl (by simp [outgoing]) (fun _ => id) fun _ _ => .inl
  · simpa [outgoing] using hp

theorem Genuine.send {s : Chat} {typed : Typed} (h : s.Genuine typed) {package : SendPackage}
    {packages : List SendPackage} (hq : s.server.packages = package :: packages) :
    Genuine { s with server := { s.server with packages }, conns := s.deliver package } typed := by
  have hsub : ∀ w, ∀ p ∈ packetsFor w packages, p ∈ packetsFor w s.server.packages := by
    intro w p hp
    rw [hq, packetsFor_cons]
    split
    · exact List.mem_cons_of_mem _ hp
    · exact hp
  have hattested : ∀ {p}, Attested s.conns typed p → Attested (s.deliver package) typed p := by
    refine fun hp => hp.mono (fun w c hc => ?_) (List.prefix_refl _)
    rcases Mirror.find_deliver s package w with ⟨hfind, -⟩ | ⟨-, -, hfind⟩
    · exact ⟨c, hfind.trans hc, fun _ => id⟩
    · rw [hc] at hfind
      exact ⟨_, hfind, fun _ => id⟩
  refine ⟨h.registry.queue packages s.server.closed, h.liveRegistered, fun w hw => ?_,
    fun w u hu => ?_, fun w d hd => ?_, fun pkg hpkg hspeaks => ?_, fun w d hd => ?_⟩
  · obtain ⟨hnone, hjob, hpkg⟩ := h.unused w hw
    refine ⟨?_, hjob, fun p hp => hpkg p (hsub w p hp)⟩
    rcases Mirror.find_deliver s package w with ⟨hfind, -⟩ | ⟨-, -, hfind⟩ <;> simp [hfind, hnone]
  · obtain ⟨c, b, hc, hn⟩ := h.live w u hu
    rcases Mirror.find_deliver s package w with ⟨hfind, -⟩ | ⟨hsession, -, hfind⟩
    · refine ⟨c, b, hfind.trans hc, hn.of_eq rfl rfl rfl rfl (fun _ => id) fun _ p hp => .inl ?_⟩
      exact List.mem_append.mpr ((List.mem_append.mp hp).imp_right (hsub w p))
    · rw [hc] at hfind
      refine ⟨_, b, hfind, hn.of_eq rfl rfl rfl rfl (fun _ => id) fun _ p hp => .inl ?_⟩
      simpa [incoming, hq, hsession] using hp
  · rcases Mirror.find_deliver s package w with ⟨hfind, -⟩ | ⟨-, -, hfind⟩
    · exact h.requests w d (hfind.symm.trans hd)
    · obtain ⟨c, hc, rfl⟩ := Option.map_eq_some_iff.mp (hfind.symm.trans hd)
      exact h.requests w c hc
  · exact hattested (h.sent pkg (hq ▸ List.mem_cons_of_mem _ hpkg) hspeaks)
  · rcases Mirror.find_deliver s package w with ⟨hfind, -⟩ | ⟨-, -, hfind⟩
    · exact fun p hp hspeaks => hattested (h.arriving w d (hfind.symm.trans hd) p hp hspeaks)
    · obtain ⟨c, hc, rfl⟩ := Option.map_eq_some_iff.mp (hfind.symm.trans hd)
      intro p hp hspeaks
      rw [← List.append_assoc] at hp
      rcases List.mem_append.mp hp with hp | hp
      · exact hattested (h.arriving w c hc p hp hspeaks)
      · rw [List.mem_singleton] at hp
        subst hp
        exact hattested (h.sent package (hq ▸ List.mem_cons_self) hspeaks)

theorem Genuine.served {s s' : Chat} {typed : Typed} (h : s.Genuine typed)
    {ps : List SendPackage} (hconns : s'.conns = s.conns) (hreg : s'.server.Registry)
    (hregistered : s'.server.LiveRegistered)
    (hpackages : s'.server.packages = s.server.packages ++ ps)
    (hunused : ∀ w, s'.server.user w = .unused → s.server.user w = .unused ∧
      ∀ p ∈ packetsFor w ps, Event.isCast p = true)
    (hlive : ∀ w u', s'.server.user w = .live u' → ∃ u, s.server.user w = .live u ∧
      ∀ c b, s.conns.find w = some c → s.Named w c u b → ∃ b', s'.Named w c u' b')
    (hjobs : ∀ w, packetsOf w s'.jobQueue <:+ packetsOf w s.jobQueue)
    (hsent : ∀ pkg ∈ ps, pkg.packet.speaks = true → Attested s.conns typed pkg.packet) :
    s'.Genuine typed := by
  refine ⟨hreg, hregistered, fun w hw => ?_, fun w u' hu' => ?_, fun w c hc p hp => ?_,
    fun pkg hpkg hspeaks => ?_, fun w c hc p hp hspeaks => ?_⟩
  · obtain ⟨hw, hps⟩ := hunused w hw
    obtain ⟨hnone, hjob, hpkg⟩ := h.unused w hw
    refine ⟨hconns ▸ hnone, List.suffix_nil.mp (hjob ▸ hjobs w), fun p hp => ?_⟩
    rw [hpackages, packetsFor_append] at hp
    exact (List.mem_append.mp hp).elim (hpkg p) (hps p)
  · obtain ⟨u, hu, hnamed⟩ := hlive w u' hu'
    obtain ⟨c, b, hc, hn⟩ := h.live w u hu
    obtain ⟨b', hn'⟩ := hnamed c b hc hn
    exact ⟨c, b', hconns ▸ hc, hn'⟩
  · rw [hconns] at hc
    refine h.requests w c hc p ?_
    simp only [outgoing, List.mem_append] at hp ⊢
    exact hp.imp_left fun hp => hp.imp_left fun hp => (hjobs w).subset hp
  · rw [hconns]
    rw [hpackages] at hpkg
    exact (List.mem_append.mp hpkg).elim (h.sent pkg · hspeaks) (hsent pkg · hspeaks)
  · rw [hconns] at hc ⊢
    exact h.arriving w c hc p hp hspeaks

theorem Genuine.disconnect {s : Chat} {typed : Typed} (h : s.Genuine typed) {id : UInt32}
    {server : Server} (hs : s.server.removeUserById id = .ok server) :
    Genuine { s with server } typed := by
  rcases h.registry.removedById hs with ⟨-, rfl⟩ | ⟨v, u, -, hid, hu, rfl⟩
  · exact h
  · obtain ⟨recvers, hpackages, hrecvers⟩ := Server.packages_removed_eq s.server v u
    have hnews : ∀ w, w ∉ recvers → packetsFor w (Server.casts recvers (.sRoomExit u.userId)) =
        [] := fun w hw => by
      rw [packetsFor_casts, List.count_eq_zero.mpr hw]
      rfl
    refine h.served rfl (h.registry.removed hu hid) (h.liveRegistered.removed h.registry hu hid)
      hpackages (fun w hw => ?_) (fun w x hx => ?_) (fun _ => List.suffix_refl _)
      fun pkg hpkg hspeaks => ?_
    · rw [Server.user_removed] at hw
      split at hw
      · contradiction
      · refine ⟨hw, ?_⟩
        rw [hnews w fun hmem => ?_]
        · exact List.forall_mem_nil _
        · obtain ⟨r, hr⟩ := hrecvers w hmem
          exact (h.registry.member hr).2 hw
    · rw [Server.user_removed] at hx
      split at hx
      · contradiction
      · refine ⟨x, hx, fun c b hc hn => ⟨b, hn.of_eq rfl rfl rfl rfl
          (fun r hr => (Server.mem_removed hr).1) fun hb p hp => .inl ?_⟩⟩
        rw [incoming, hpackages, packetsFor_append, hnews w fun hmem => ?_, List.append_nil] at hp
        · exact hp
        · obtain ⟨r, hr⟩ := hrecvers w hmem
          exact (hn.stranger hb).1 r hr
    · obtain ⟨w, -, rfl⟩ := List.mem_map.mp hpkg
      contradiction

theorem isCast_of_voices {s : Server} {session w : UserPtr} {packet p : Packet}
    {ps : List SendPackage} (h : ∀ pkg ∈ ps, s.Voices session packet pkg) (hw : w ≠ session)
    (hout : ∀ r, w ∉ (s.room r).users) (hp : p ∈ packetsFor w ps) : Event.isCast p = true := by
  obtain ⟨pkg, hpkg, rfl⟩ := List.mem_map.mp hp
  obtain ⟨hmem, hsession⟩ := List.mem_filter.mp hpkg
  by_contra hno
  obtain ⟨r, hr⟩ := (h pkg hmem).audience (by simpa using hno) w (by simpa using hsession) hw
  exact hout r hr

theorem Named.own {s : Chat} {package : RecvPackage} {jobQueue : List RecvPackage} {server : Server}
    {c : Conn} {u u' : User} {b : Bool} (h : s.Named package.session c u b)
    (hq : s.jobQueue = package :: jobQueue)
    (hnick : u'.nickname = package.packet.naming u.nickname) :
    Named { s with server, jobQueue } package.session c u' true := by
  have hout : s.outgoing package.session c =
      package.packet :: outgoing { s with server, jobQueue } package.session c := by
    simp [outgoing, hq]
  have hphase := hout ▸ h.phase
  refine ⟨hphase.pop.2, fun n hn => h.login n (hout ▸ List.mem_cons_of_mem _ hn), fun _ => ?_,
    by rintro ⟨⟩⟩
  cases b with
  | false =>
    obtain ⟨n, hn⟩ := hphase.pop.1.mp rfl
    have hname : u'.nickname = n := by rw [hnick, hn, Packet.naming]
    rw [hname]
    exact h.login n (hout ▸ hn ▸ List.mem_cons_self)
  | true =>
    have hno : ∀ n, package.packet ≠ .cServerEnter n := fun n hn =>
      Bool.noConfusion (hphase.pop.1.mpr ⟨n, hn⟩)
    rw [hnick, Packet.naming_of_ne hno]
    exact h.named rfl

theorem Genuine.attested {s : Chat} {typed : Typed} (h : s.Genuine typed) {package : RecvPackage}
    {jobQueue : List RecvPackage} (hq : s.jobQueue = package :: jobQueue) {u : User} {p : Packet}
    (hu : s.server.user package.session = .live u)
    (hp : package.packet.voiced u.nickname = some p) : Attested s.conns typed p := by
  obtain ⟨c, b, hc, hn⟩ := h.live _ u hu
  have hout : s.outgoing package.session c = package.packet ::
      (packetsOf package.session jobQueue ++ c.up ++ c.client.sendQueue) := by
    simp [outgoing, hq]
  obtain ⟨text, hmem, heq⟩ :=
    h.requests _ c hc package.packet (hout ▸ List.mem_cons_self) u.nickname p hp
  have hphase := hout ▸ hn.phase
  cases b with
  | false =>
    obtain ⟨n, hlogin⟩ := hphase.pop.1.mp rfl
    rw [hlogin] at hp
    contradiction
  | true =>
    obtain ⟨hnick, hne⟩ := hn.named rfl
    obtain ⟨hst, hpage⟩ := entered_of_true hphase
    exact ⟨package.session, c, u.nickname, text, hc, ⟨hnick.symm, hst, hpage⟩, hne, hmem,
      heq ▸ hp⟩

theorem Genuine.logic {s : Chat} {typed : Typed} (h : s.Genuine typed) {package : RecvPackage}
    {jobQueue : List RecvPackage} {server : Server} (hq : s.jobQueue = package :: jobQueue)
    (hs : s.server.process package = .ok server) : Genuine { s with server, jobQueue } typed := by
  have hp := Server.processed_of_ok hs
  obtain ⟨ps, hps, hvoices⟩ := hp.voices h.registry h.liveRegistered
  have hjobs : ∀ w, w ≠ package.session → packetsOf w jobQueue = packetsOf w s.jobQueue :=
    fun w hw => by rw [hq, packetsOf_cons, if_neg (Ne.symm hw)]
  refine h.served rfl (h.registry.processed hp) (h.liveRegistered.processed h.registry hp) hps
    (fun w hw => ?_) (fun w u' hu' => ?_) (fun w => ?_) fun pkg hpkg hspeaks => ?_
  · have hw' := hp.unused hw
    have hne : w ≠ package.session := by
      rintro rfl
      have hnone := (h.unused _ hw').2.1
      rw [hq, packetsOf_cons, if_pos rfl] at hnone
      contradiction
    exact ⟨hw', fun p hmem => isCast_of_voices hvoices hne
      (fun r hr => (h.registry.member hr).2 hw') hmem⟩
  · by_cases hw : w = package.session
    · subst hw
      obtain ⟨u, hu, hnick⟩ := hp.nickname h.registry h.liveRegistered hu'
      exact ⟨u, hu, fun c b hc hn => ⟨true, hn.own hq hnick⟩⟩
    · obtain ⟨huser, hroom⟩ := hp.others h.registry h.liveRegistered hw
      refine ⟨u', huser ▸ hu', fun c b hc hn => ⟨b, hn.of_eq rfl rfl rfl ?_ hroom
        fun hb p hmem => ?_⟩⟩
      · rw [outgoing, outgoing, hjobs w hw]
      · rw [incoming, hps, packetsFor_append, ← List.append_assoc] at hmem
        exact (List.mem_append.mp hmem).imp_right
          (isCast_of_voices hvoices hw (hn.stranger hb).1)
  · rw [hq, packetsOf_cons]
    split
    · exact List.suffix_cons ..
    · exact List.suffix_refl _
  · obtain ⟨u, hu, hvoice⟩ := (hvoices pkg hpkg).speaker hspeaks
    exact h.attested hq hu hvoice

theorem room_accept {s s' : Server} {addr : UserPtr} {socket : Socket}
    {outcome : Server.ConnectOutcome} (h : s.Accepted addr socket outcome s') :
    s'.room = s.room := by
  cases h <;> rfl

theorem Genuine.accept {s : Chat} {typed : Typed} (h : s.Genuine typed) {addr : UserPtr}
    {socket : Socket} {outcome : Server.ConnectOutcome} {server : Server}
    (hfree : s.server.userList.find s.server.userId = none)
    (hs : s.server.accept addr socket outcome = .ok server) :
    Genuine { s with
      server
      conns := if outcome = .connected then s.conns.set addr .init else s.conns } typed := by
  obtain ⟨haddr, hacc⟩ := Server.accepted_of_ok hs
  obtain ⟨hnone, hjob, hpkg⟩ := h.unused addr haddr
  have hfind {w c} := find_accept hnone outcome (w := w) (c := c)
  have hempty : s.outgoing addr .init = [] := by simp [outgoing, hjob, Conn.init, Client.init]
  have hattested : ∀ {p}, Attested s.conns typed p → Attested
      (if outcome = .connected then s.conns.set addr .init else s.conns) typed p := fun hp =>
    hp.mono (fun w c hc => ⟨c, hfind.mpr (.inl hc), fun _ => id⟩) (List.prefix_refl _)
  refine ⟨h.registry.accept haddr hacc, h.liveRegistered.accept hfree hacc, fun w hw => ?_,
    fun w u hu => ?_, fun w c hc => ?_, fun pkg hmem hspeaks => ?_, fun w c hc p hp hspeaks => ?_⟩
  · have hne : w ≠ addr := by
      rintro rfl
      exact hacc.user_ne_unused hw
    obtain ⟨hnone', hjob', hpkg'⟩ := h.unused w ((hacc.user_of_ne hne).symm.trans hw)
    refine ⟨?_, hjob', hacc.packages ▸ hpkg'⟩
    rw [Option.eq_none_iff_forall_ne_some]
    intro c hc
    rcases hfind.mp hc with hc | ⟨-, rfl, -⟩
    · rw [hnone'] at hc
      contradiction
    · exact hne rfl
  · by_cases hw : w = addr
    · subst hw
      cases hacc with
      | failed _ _ => simp at hu
      | connected =>
        refine ⟨.init, false, hfind.mpr (.inr ⟨rfl, rfl, rfl⟩), ?_, fun n hn => ?_,
          by rintro ⟨⟩, fun _ => ⟨fun r hr => (h.registry.member hr).2 haddr, hpkg⟩⟩
        · exact hempty ▸ .fresh rfl (.inl rfl)
        · change _ ∈ s.outgoing w .init at hn
          rw [hempty] at hn
          contradiction
    · obtain ⟨c, b, hc, hn⟩ := h.live w u ((hacc.user_of_ne hw).symm.trans hu)
      refine ⟨c, b, hfind.mpr (.inl hc), hn.of_eq rfl rfl rfl rfl (fun r => ?_) fun _ p hp =>
        .inl ?_⟩
      · rw [room_accept hacc]
        exact id
      · rwa [incoming, hacc.packages] at hp
  · rcases hfind.mp hc with hc | ⟨-, rfl, rfl⟩
    · exact h.requests w c hc
    · change ∀ p ∈ s.outgoing w .init, _
      rw [hempty]
      exact List.forall_mem_nil _
  · exact hattested (h.sent pkg (hacc.packages ▸ hmem) hspeaks)
  · rcases hfind.mp hc with hc | ⟨-, rfl, rfl⟩
    · exact hattested (h.arriving w c hc p hp hspeaks)
    · contradiction

theorem Genuine.step {s s' : Chat} {typed : Typed} (h : s.Genuine typed) {a : Action}
    (hg : s.allows Server.freshId a = true) (hs : s.step a = .ok s') :
    s'.Genuine (type typed s a) := by
  cases stepped_of_ok hs with
  | accept hacc => exact h.accept (by simpa [allows, serverAction, Server.freshId] using hg) hacc
  | recv hc hu => exact h.recv hc
  | disconnect hid hremoved => exact h.disconnect hremoved
  | logic hq hp => exact h.logic hq hp
  | send hq => exact h.send hq
  | client hc hstep => exact h.client hc hstep

/-- A chat that a client is about to show has been typed, in a room, by a user whose nickname it
carries; and a nickname is never empty. -/
theorem attested_of_freshIds {x : Chat × Typed}
    (h : typing.Reach (fun x a => x.1.allows Server.freshId a = true) x) {w : UserPtr} {c : Conn}
    (hc : x.1.conns.find w = some c) {p : Packet} (hp : p ∈ c.client.recvQueue ++ c.down)
    (hspeaks : p.speaks = true) : Attested x.1.conns x.2 p := by
  have hgenuine : x.1.Genuine x.2 :=
    h.invariant (P := fun x => x.1.Genuine x.2) genuine_init fun x a x' _ hx hg hs => by
      obtain ⟨hstep, htyped⟩ := System.withHistory_step.mp hs
      rw [htyped]
      exact hx.step hg hstep
  exact hgenuine.arriving w c hc p hp hspeaks

theorem attested_of_freshIds_chat :
    ∃ x c, typing.Reachable x ∧ x.1.conns.find 0 = some c ∧
      c.client.recvQueue = [.sMulticast [97] [104]] ∧
      Attested x.1.conns x.2 (.sMulticast [97] [104]) := by
  obtain ⟨x, hx, hp⟩ := System.exists_of_runWith (S := typing)
    (G := fun x a => x.1.allows Server.freshId a = true) (fun _ _ h => h)
    (p := fun x => (x.1.conns.find 0).any fun c =>
      decide (c.client.recvQueue = [.sMulticast [97] [104]]))
    (login 0 [97] ++ pressEnter 0 ++ requests 0 1 ++ replies 0 1 ++ pressEnter 0 ++ requests 0 1 ++
      replies 0 2 ++ enterLine 0 [104] ++ requests 0 1 ++ [.send, .client 0 .recvThread])
    (by decide +kernel :
      (typing.runWith (fun x a => x.1.allows Server.freshId a) _ _).any _ = true)
  obtain ⟨c, hc, hq⟩ := (Option.any_eq_true _ _).mp hp
  have hq := of_decide_eq_true hq
  refine ⟨x, c, hx.reachable, hc, hq, attested_of_freshIds hx hc ?_ rfl⟩
  rw [hq]
  exact List.mem_append_left _ List.mem_cons_self

end Chat

end ChattingServer.V11
