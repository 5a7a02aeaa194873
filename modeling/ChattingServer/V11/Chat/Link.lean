import ChattingServer.V11.Chat.Events
import ChattingServer.V11.Chat.System
import ChattingServer.V11.Client.View

namespace ChattingServer.V11

open Lib

def packetsOf (w : UserPtr) (jobs : List RecvPackage) : List Packet :=
  (jobs.filter fun job => job.session = w).map (·.packet)

@[simp] theorem packetsOf_append (w : UserPtr) (jobs jobs' : List RecvPackage) :
    packetsOf w (jobs ++ jobs') = packetsOf w jobs ++ packetsOf w jobs' := by
  simp [packetsOf]

@[simp] theorem packetsOf_nil (w : UserPtr) : packetsOf w [] = [] := rfl

@[simp] theorem packetsOf_cons (w : UserPtr) (job : RecvPackage) (jobs : List RecvPackage) :
    packetsOf w (job :: jobs) =
      if job.session = w then job.packet :: packetsOf w jobs else packetsOf w jobs := by
  unfold packetsOf
  split <;> simp_all

namespace Chat

def outgoing (s : Chat) (w : UserPtr) (c : Conn) : List Packet :=
  packetsOf w s.jobQueue ++ c.up ++ c.client.sendQueue

def incoming (s : Chat) (w : UserPtr) (c : Conn) : List Packet :=
  c.client.recvQueue ++ c.down ++ packetsFor w s.server.packages

end Chat

inductive LoginPhase (c : Client) : List Packet → Bool → Prop
  | fresh (hstate : c.state = .login) (hpage : c.page = .stateProcess ∨ c.page = .sendNickname) :
    LoginPhase c [] false
  | entering (hstate : c.state = .pending) (hpage : c.page = .stateProcess) (nickname : Str) :
    LoginPhase c [.cServerEnter nickname] false
  | entered {out : List Packet} (hstate : c.state ≠ .login) (hpage : c.page ≠ .sendNickname)
    (hout : ∀ p ∈ out, ∀ nickname, p ≠ .cServerEnter nickname) : LoginPhase c out true

namespace Server

def acts (w : UserPtr) : Action → Bool
  | .process package => package.session = w
  | _ => false

def isLogin : Action → Bool
  | .process ⟨_, .cServerEnter _⟩ => true
  | _ => false

theorem isLogin_iff {package : RecvPackage} :
    isLogin (.process package) = true ↔ ∃ nickname, package.packet = .cServerEnter nickname := by
  obtain ⟨session, packet⟩ := package
  cases packet <;> simp [isLogin]

theorem Causes.user_eq {s : Server} {a : Action} {e : Event} {w : UserPtr} {u u' : User}
    (h : s.Causes a e) (hno : acts w a = false) (hu : s.user w = .live u)
    (hu' : e.user s w = .live u') : u' = u := by
  have keep : e.user s w = s.user w → u' = u := fun heq =>
    Cell.live.inj (hu'.symm.trans (heq.trans hu))
  cases h with
  | removeUser id x y =>
    by_cases hw : w = x
    · subst hw
      simp [Event.user] at hu'
    · exact keep (Function.update_of_ne hw ..)
  | @process session packet _ hby =>
    have hw : w ≠ session := by simpa [acts, eq_comm] using hno
    cases e with
    | rooms | chat => exact keep rfl
    | login x | enter x | leave x | remove x => exact keep (Function.update_of_ne (hby.1 ▸ hw) ..)

theorem Causes.follows {s : Server} {a : Action} {e : Event} {w : UserPtr} {b : Bool}
    (h : s.Causes a e) (hact : acts w a = true → b = !isLogin a) :
    e.Follows w b ∧ (b || acts w a) = (b || e.logsIn w) := by
  cases h with
  | removeUser => exact ⟨trivial, by simp [acts, Event.logsIn]⟩
  | @process session packet _ hby =>
    have hacts : acts w (.process ⟨session, packet⟩) = decide (session = w) := rfl
    rw [hacts] at hact ⊢
    have hlogin : isLogin (.process ⟨session, packet⟩) = true ↔ ∃ n, packet = .cServerEnter n :=
      isLogin_iff
    by_cases hw : session = w
    · have hb := hact (by simp [hw])
      cases e with
      | login x =>
        obtain ⟨rfl, rfl⟩ := hby
        exact ⟨fun _ => hb, by simp [Event.logsIn, hw]⟩
      | rooms x =>
        obtain ⟨rfl, rfl | ⟨name, rfl⟩⟩ := hby <;> exact ⟨fun _ => hb, by simp [hb, isLogin]⟩
      | enter x =>
        obtain ⟨rfl, rid, rfl⟩ := hby
        exact ⟨fun _ => hb, by simp [hb, isLogin]⟩
      | leave x | remove x =>
        obtain ⟨rfl, rfl⟩ := hby
        exact ⟨by simp [Event.Follows, hb, isLogin], by simp [hb, isLogin]⟩
      | chat =>
        have hnot : isLogin (.process ⟨session, packet⟩) = false := by
          rw [← Bool.not_eq_true, hlogin]
          rintro ⟨n, hn⟩
          exact hby.1 n hn
        exact ⟨trivial, by simp [hb, hnot]⟩
    · cases e with
      | login x | rooms x | enter x | leave x | remove x =>
        obtain rfl := hby.1
        exact ⟨by simp [Event.Follows, hw], by simp [Event.logsIn, hw]⟩
      | chat => exact ⟨trivial, by simp [Event.logsIn, hw]⟩

end Server

namespace Chat

def Takes (s : Chat) (a : Server.Action) (s' : Chat) : Prop :=
  ∀ w, packetsOf w s.jobQueue = packetsOf w s'.jobQueue ∧ Server.acts w a = false ∨
    ∃ package, a = .process package ∧ package.session = w ∧
      packetsOf w s.jobQueue = package.packet :: packetsOf w s'.jobQueue

theorem takes_process {s : Chat} {package : RecvPackage} {jobQueue : List RecvPackage}
    (h : s.jobQueue = package :: jobQueue) (server : Server) :
    s.Takes (.process package) { s with server, jobQueue } := by
  intro w
  simp only [h, packetsOf_cons]
  by_cases hw : package.session = w
  · exact .inr ⟨package, rfl, hw, by rw [if_pos hw]⟩
  · exact .inl ⟨by rw [if_neg hw], by simp [Server.acts, hw]⟩

end Chat

/-- A way to look at clients that the server can foretell: what each user's client shows once it
has taken everything that is on its way to it.  `η` is what has to be remembered of the past. -/
structure Mirror (ν η : Type) where
  receiver : Receiver ν Packet
  view : Client → ν
  place : ν → Place
  seen : Server → η → UserPtr → User → Bool → ν
  history : η → Server → Server.Action → η
  guard : Server → Server.Action → Bool

namespace Mirror

variable {ν η : Type}

structure Lawful (M : Mirror ν η) : Prop where
  guard_orderly : ∀ {s a}, M.guard s a = true → s.entersFromLobby a = true ∧ s.freshId a = true
  place_view : ∀ c, M.place (M.view c) = c.state.place
  place_recv : ∀ {v p}, M.place v ≠ .outside → M.place (M.receiver.recv v p) ≠ .outside
  view_congr : ∀ {c c' : Client}, c'.state.place = c.state.place → c'.userId = c.userId →
    c'.display.roster = c.display.roster → M.view c' = M.view c
  view_recv : ∀ {c : Client} {p}, c.Fits → M.receiver.takes (M.view c) p → ∀ memory,
    M.view (c.recvProcess memory p) = M.receiver.recv (M.view c) p
  seen_outside : ∀ {s k w u}, M.seen s k w u false = M.view .init
  seen_packages : ∀ {s : Server} {k w u b packages},
    M.seen { s with packages } k w u b = M.seen s k w u b
  event : ∀ {s s' : Server} {k a e w u u' b b' ps}, s.Orderly → M.guard s a = true → e.Occurs s →
    s.Causes a e → s.Does e s' → s.user w = .live u → e.FromOutside → s.Hears w u e b ps u' b' →
    M.receiver.Plays (M.seen s k w u b) ps (M.seen s' (M.history k s a) w u' b')
  accept : ∀ {s s' : Server} {k addr socket outcome w u b}, s.Orderly → s.user addr = .unused →
    s.Accepted addr socket outcome s' → s.user w = .live u →
    M.seen s' (M.history k s (.accept addr socket outcome)) w u b = M.seen s k w u b

def system (M : Mirror ν η) (k : η) : System (Chat × η) Chat.Action Fault :=
  Chat.system.withHistory k (Chat.record M.history)

structure LinkedConn (M : Mirror ν η) (s : Chat) (k : η) (w : UserPtr) (c : Conn) : Prop where
  fits : c.client.Fits
  named : c.client.page = .sendNickname → c.client.state = .login
  live : ∀ u, s.server.user w = .live u → ∃ b, LoginPhase c.client (s.outgoing w c) b ∧
    (b = false → u.currRoom = none) ∧
    M.receiver.Plays (M.view c.client) (s.incoming w c) (M.seen s.server k w u b)
  freed : s.server.user w = .freed →
    ∃ v, M.receiver.Plays (M.view c.client) (c.client.recvQueue ++ c.down) v ∧
      (c.client.state = .login → M.place v = .outside)

structure Linked (M : Mirror ν η) (s : Chat) (k : η) : Prop where
  orderly : s.server.Orderly
  unused : ∀ {w}, s.server.user w = .unused → s.conns.find w = none ∧
    packetsOf w s.jobQueue = [] ∧ packetsFor w s.server.packages = []
  live : ∀ {w u}, s.server.user w = .live u → ∃ c, s.conns.find w = some c
  conn : ∀ {w c}, s.conns.find w = some c → M.LinkedConn s k w c

theorem linked_init (M : Mirror ν η) (k : η) : M.Linked .init k where
  orderly := Server.orderly_init
  unused _ := ⟨rfl, rfl, rfl⟩
  live h := by simp [Chat.init, Server.init] at h
  conn h := by simp [Chat.init] at h

end Mirror

/-! The steps of a client. -/

namespace LoginPhase

theorem congr {c c' : Client} {out : List Packet} {b : Bool} (h : LoginPhase c out b)
    (hstate : c'.state = c.state) (hpage : c'.page = c.page) : LoginPhase c' out b := by
  cases h with
  | fresh hst hp => exact .fresh (hstate.trans hst) (hpage ▸ hp)
  | entering hst hp nickname => exact .entering (hstate.trans hst) (hpage.trans hp) nickname
  | entered hst hp hout => exact .entered (hstate ▸ hst) (hpage ▸ hp) hout

theorem append {c c' : Client} {out ps : List Packet} {b : Bool} (h : LoginPhase c out b)
    (hb : b = false → ps = [] ∧ c'.state = c.state ∧ (c'.page = .stateProcess ∨
      c'.page = .sendNickname ∧ c.state = .login)) (hstate : c.state ≠ .login → c'.state ≠ .login)
    (hpage : c.state ≠ .login → c.page ≠ .sendNickname → c'.page ≠ .sendNickname)
    (hps : ∀ p ∈ ps, ∀ nickname, p ≠ .cServerEnter nickname) : LoginPhase c' (out ++ ps) b := by
  cases h with
  | fresh hst hp =>
    obtain ⟨rfl, hst', hp'⟩ := hb rfl
    exact .fresh (hst'.trans hst) (hp'.imp_right And.left)
  | entering hst hp nickname =>
    obtain ⟨rfl, hst', hp' | hp'⟩ := hb rfl
    · exact .entering (hst'.trans hst) hp' nickname
    · rw [hst] at hp'
      nomatch hp'.2
  | entered hst hp hout =>
    refine .entered (hstate hst) (hpage hst hp) fun p hmem => ?_
    exact (List.mem_append.mp hmem).elim (hout p) (hps p)

theorem pop {c : Client} {p : Packet} {out : List Packet} {b : Bool}
    (h : LoginPhase c (p :: out) b) :
    (b = false ↔ ∃ nickname, p = .cServerEnter nickname) ∧ LoginPhase c out true := by
  cases h with
  | entering hst hp nickname =>
    exact ⟨by simp, .entered (by simp [hst]) (by simp [hp]) nofun⟩
  | entered hst hp hout =>
    refine ⟨?_, .entered hst hp fun q hq => hout q (List.mem_cons_of_mem _ hq)⟩
    simpa using hout p List.mem_cons_self

theorem place_outside {c : Client} {out : List Packet} (h : LoginPhase c out false) :
    c.state.place = .outside := by
  cases h with
  | fresh hst => rw [hst]; rfl
  | entering hst => rw [hst]; rfl

theorem page_outside {c : Client} {out : List Packet} (h : LoginPhase c out false) :
    c.page = .stateProcess ∨ c.page = .sendNickname := by
  cases h with
  | fresh _ hp => exact hp
  | entering _ hp => exact .inl hp

theorem eq_false {c : Client} {out : List Packet} {b : Bool} (h : LoginPhase c out b)
    (hpage : c.page = .sendNickname) : b = false := by
  cases h with
  | fresh | entering => rfl
  | entered _ hp => exact absurd hpage hp

theorem eq_false_of_login {c : Client} {out : List Packet} {b : Bool} (h : LoginPhase c out b)
    (hstate : c.state = .login) : b = false := by
  cases h with
  | fresh | entering => rfl
  | entered hst => exact absurd hstate hst

end LoginPhase

namespace Mirror

variable {ν η : Type} {M : Mirror ν η}

theorem Lawful.outside_of_plays (hM : M.Lawful) {v w : ν} {ps : List Packet}
    (h : M.receiver.Plays v ps w) (hw : M.place w = .outside) : M.place v = .outside := by
  by_contra hv
  exact h.keeps (P := (M.place · ≠ .outside)) (fun h => hM.place_recv h) hv hw

theorem LinkedConn.shift {s : Chat} {k : η} {w : UserPtr} {c c' : Conn}
    (h : M.LinkedConn s k w c) (hM : M.Lawful) (hstate : c'.client.state = c.client.state)
    (hpage : c'.client.page = c.client.page) (hid : c'.client.userId = c.client.userId)
    (hdisplay : c'.client.display = c.client.display)
    (hup : c'.up ++ c'.client.sendQueue = c.up ++ c.client.sendQueue)
    (hdown : c'.client.recvQueue ++ c'.down = c.client.recvQueue ++ c.down) :
    M.LinkedConn s k w c' := by
  have hview : M.view c'.client = M.view c.client :=
    hM.view_congr (by rw [hstate]) hid (by rw [hdisplay])
  refine ⟨?_, fun hp => hstate.trans (h.named (hpage ▸ hp)), fun u hu => ?_, fun hf => ?_⟩
  · have := h.fits
    rwa [Client.Fits, ← hdisplay, ← hstate] at this
  · obtain ⟨b, hphase, hroom, hplays⟩ := h.live u hu
    refine ⟨b, ?_, hroom, ?_⟩
    · rw [Chat.outgoing, List.append_assoc, hup, ← List.append_assoc]
      exact hphase.congr hstate hpage
    · rwa [Chat.incoming, hdown, hview]
  · obtain ⟨v, hplays, hout⟩ := h.freed hf
    exact ⟨v, by rwa [hdown, hview], fun hst => hout (hstate ▸ hst)⟩

theorem LinkedConn.turned {s : Chat} {k : η} {w : UserPtr} {c : Conn} {client : Client}
    (h : M.LinkedConn s k w c) (hM : M.Lawful) (ht : c.client.Turned client) :
    M.LinkedConn s k w { c with client } := by
  have hview : M.view client = M.view c.client :=
    hM.view_congr (by rw [ht.state]) ht.userId ht.roster
  refine ⟨?_, fun hp => ?_, fun u hu => ?_, fun hf => ?_⟩
  · have := h.fits
    rwa [Client.Fits, ← ht.place, ← ht.state] at this
  · rw [ht.state]
    exact (ht.nickname hp).elim id h.named
  · obtain ⟨b, hphase, hroom, hplays⟩ := h.live u hu
    obtain ⟨ps, hsend, hps⟩ := ht.sends
    refine ⟨b, ?_, hroom, ?_⟩
    · rw [Chat.outgoing, hsend, ← List.append_assoc]
      refine hphase.append (fun hb => ?_) (ht.state ▸ id) (fun hst hp hp' => ?_) hps
      · subst hb
        obtain ⟨hq, hp'⟩ := ht.waits hphase.place_outside hphase.page_outside
        refine ⟨List.append_cancel_left (hsend.symm.trans (hq.trans (List.append_nil _).symm)),
          ht.state, hp'.imp_right fun hp' => ⟨hp', ?_⟩⟩
        exact (ht.nickname hp').elim id h.named
      · exact (ht.nickname hp').elim hst hp
    · rwa [Chat.incoming, ht.recvQueue, hview]
  · obtain ⟨v, hplays, hout⟩ := h.freed hf
    exact ⟨v, by rwa [ht.recvQueue, hview], fun hst => hout (ht.state ▸ hst)⟩

theorem LinkedConn.entered {s : Chat} {k : η} {w : UserPtr} {c : Conn}
    (h : M.LinkedConn s k w c) (hM : M.Lawful) (hpage : c.client.page = .sendNickname)
    (nickname : Str) :
    M.LinkedConn s k w { c with
      client := { c.client with nickname, state := .pending, page := .stateProcess }.pushQueue
        (.cServerEnter nickname) } := by
  have hstate := h.named hpage
  have hview : M.view ({ c.client with
      nickname, state := .pending, page := .stateProcess }.pushQueue (.cServerEnter nickname)) =
        M.view c.client :=
    hM.view_congr (by rw [hstate]; rfl) rfl rfl
  refine ⟨?_, by rintro ⟨⟩, fun u hu => ?_, fun hf => ?_⟩
  · have := h.fits
    rwa [Client.Fits, hstate] at this
  · obtain ⟨b, hphase, hroom, hplays⟩ := h.live u hu
    refine ⟨b, ?_, hroom, ?_⟩
    · rw [Chat.outgoing] at hphase ⊢
      simp only [Client.pushQueue, ← List.append_assoc]
      generalize packetsOf w s.jobQueue ++ c.up ++ c.client.sendQueue = out at hphase
      cases hphase with
      | fresh => exact .entering rfl rfl nickname
      | entering hst => simp [hstate] at hst
      | entered _ hp => exact absurd hpage hp
    · rw [hview]
      exact hplays
  · obtain ⟨v, hplays, -⟩ := h.freed hf
    exact ⟨v, by rw [hview]; exact hplays, by rintro ⟨⟩⟩

theorem LinkedConn.handled {s : Chat} {k : η} {w : UserPtr} {c : Conn} {p : Packet}
    {recvQueue : List Packet} (h : M.LinkedConn s k w c) (hM : M.Lawful)
    (hknown : s.server.user w ≠ .unused) (hq : c.client.recvQueue = p :: recvQueue)
    (memory : Display) :
    M.LinkedConn s k w
      { c with client := { c.client with recvQueue }.recvProcess memory p } := by
  have hreceived := Client.received_recvProcess { c.client with recvQueue } memory p
  have hh := hreceived.handled
  have hfits : Client.Fits { c.client with recvQueue } := h.fits
  have hview : M.view { c.client with recvQueue } = M.view c.client := hM.view_congr rfl rfl rfl
  have hfits' := hreceived.fits hfits
  have hrecv : M.receiver.takes (M.view c.client) p →
      M.view ({ c.client with recvQueue }.recvProcess memory p) =
        M.receiver.recv (M.view c.client) p := fun hp => by
    rw [hM.view_recv hfits (hview ▸ hp), hview]
  generalize ({ c.client with recvQueue } : Client).recvProcess memory p = client at *
  have hplay : ∀ {rest v}, M.receiver.Plays (M.view c.client)
      (c.client.recvQueue ++ c.down ++ rest) v →
      M.receiver.Plays (M.view client) (client.recvQueue ++ c.down ++ rest) v := by
    intro rest v hp
    rw [hq, List.cons_append, List.cons_append, Receiver.plays_cons_iff] at hp
    rw [hrecv hp.1, hh.recvQueue]
    exact hp.2
  have hstay : ∀ {ps v}, M.receiver.Plays (M.view client) ps v → M.place v = .outside →
      client.state = c.client.state ∧ client.sendQueue = c.client.sendQueue := by
    intro ps v hp hv
    apply hh.state_of_outside
    rw [← hM.place_view]
    exact hM.outside_of_plays hp hv
  refine ⟨hfits', fun hp => ?_, fun u hu => ?_, fun hf => ?_⟩
  · have hp' : c.client.page = .sendNickname := hh.page.symm.trans hp
    refine Eq.trans ?_ (h.named hp')
    cases hw : s.server.user w with
    | unused => exact absurd hw hknown
    | live u =>
      obtain ⟨b, hphase, -, hplays⟩ := h.live u hw
      obtain rfl := hphase.eq_false hp'
      exact (hstay (hplay hplays) (by rw [hM.seen_outside, hM.place_view]; rfl)).1
    | freed =>
      obtain ⟨v, hplays, hout⟩ := h.freed hw
      rw [← List.append_nil (_ ++ _)] at hplays
      exact (hstay (hplay hplays) (hout (h.named hp'))).1
  · obtain ⟨b, hphase, hroom, hplays⟩ := h.live u hu
    obtain ⟨ps, hsend, hps⟩ := hh.exists_sendQueue
    refine ⟨b, ?_, hroom, hplay hplays⟩
    rw [Chat.outgoing, hsend, ← List.append_assoc]
    refine hphase.append (fun hb => ?_) (fun hst hst' => hst (hh.login hst'))
      (fun _ hp hp' => hp (hh.page.symm.trans hp')) hps
    subst hb
    obtain ⟨hst, hq⟩ := hstay (hplay hplays) (by rw [hM.seen_outside, hM.place_view]; rfl)
    refine ⟨List.append_cancel_left (hsend.symm.trans (hq.trans (List.append_nil _).symm)), hst,
      ?_⟩
    rw [hh.page]
    exact hphase.page_outside.imp_right fun hp => ⟨hp, h.named hp⟩
  · obtain ⟨v, hplays, hout⟩ := h.freed hf
    rw [← List.append_nil (_ ++ _)] at hplays
    exact ⟨v, by simpa using hplay hplays, fun hst => hout (hh.login hst)⟩

theorem LinkedConn.of_eq {s s' : Chat} {k k' : η} {w : UserPtr} {c c' : Conn}
    (h : M.LinkedConn s k w c) (huser : s'.server.user w = s.server.user w)
    (hclient : c'.client = c.client) (hout : s'.outgoing w c' = s.outgoing w c)
    (hin : ∀ u, s.server.user w = .live u → s'.incoming w c' = s.incoming w c)
    (hdown : s.server.user w = .freed → c'.down = c.down)
    (hseen : ∀ u b, s.server.user w = .live u →
      M.seen s'.server k' w u b = M.seen s.server k w u b) : M.LinkedConn s' k' w c' := by
  refine ⟨hclient ▸ h.fits, hclient ▸ h.named, fun u hu => ?_, fun hf => ?_⟩
  · rw [huser] at hu
    obtain ⟨b, hphase, hroom, hplays⟩ := h.live u hu
    exact ⟨b, by rwa [hclient, hout], hroom, by rwa [hclient, hin u hu, hseen u b hu]⟩
  · rw [huser] at hf
    rw [hclient, hdown hf]
    exact h.freed hf

theorem LinkedConn.client {s : Chat} {k : η} {w : UserPtr} {c c' : Conn} {a : Conn.Action}
    (h : M.LinkedConn s k w c) (hM : M.Lawful) (hknown : s.server.user w ≠ .unused)
    (hs : c.step a = .ok c') : M.LinkedConn s k w c' := by
  cases a with
  | input i =>
    obtain ⟨client, hclient, hc⟩ := bind_eq_ok_iff.mp hs
    cases hc
    rcases Client.turned_or_entered hclient with ht | ⟨hpage, nickname, rfl⟩
    · exact h.turned hM ht
    · exact h.entered hM hpage nickname
  | sendThread =>
    change c.sendThread = .ok c' at hs
    unfold Conn.sendThread at hs
    split at hs
    · nomatch hs
    · rename_i p ps hq
      cases hs
      exact h.shift hM rfl rfl rfl rfl (by simp [hq]) rfl
  | recvThread =>
    change c.recvThread = .ok c' at hs
    unfold Conn.recvThread at hs
    split at hs
    · nomatch hs
    · rename_i p ps hq
      cases hs
      exact h.shift hM rfl rfl rfl rfl rfl (by simp [hq])
  | logicThread memory =>
    change c.logicThread memory = .ok c' at hs
    unfold Conn.logicThread at hs
    split at hs
    · nomatch hs
    · rename_i p ps hq
      cases hs
      exact h.handled hM hknown hq memory

/-! The steps of the server. -/

theorem LinkedConn.event {s s' : Chat} {k : η} {w : UserPtr} {c : Conn} {a : Server.Action}
    {e : Event} (h : M.LinkedConn s k w c) (hM : M.Lawful) (horder : s.server.Orderly)
    (hg : M.guard s.server a = true) (ho : e.Occurs s.server) (ha : s.server.Causes a e)
    (hd : s.server.Does e s'.server) (hfrom : e.FromOutside)
    (hjobs : s.Takes a s') :
    M.LinkedConn s' (M.history k s.server a) w c := by
  refine ⟨h.fits, h.named, fun u' hu' => ?_, fun hf => ?_⟩
  · rw [hd.user] at hu'
    obtain ⟨u, hu⟩ := Server.live_of_event ho hu'
    obtain ⟨b, hphase, hroom, hplays⟩ := h.live u hu
    obtain ⟨ps, hps, hnews⟩ := hd.packages
    have hin : s'.incoming w c = s.incoming w c ++ e.news s.server w := by
      simp [Chat.incoming, hps, hnews]
    have hplays' : (Server.acts w a = true → b = !Server.isLogin a) →
        M.receiver.Plays (M.view c.client) (s'.incoming w c)
          (M.seen s'.server (M.history k s.server a) w u' (b || Server.acts w a)) := fun hact => by
      obtain ⟨hfollows, heq⟩ := ha.follows hact
      rw [hin, heq]
      have hears := hd.hears ho hfrom hu (hd.user ▸ hu') hroom hfollows
      exact hplays.append (hM.event horder hg ho ha hd hu hfrom hears)
    rcases hjobs w with ⟨hsame, hno⟩ | ⟨package, rfl, hsession, hjob⟩
    · obtain rfl := ha.user_eq hno hu hu'
      refine ⟨b, by rwa [Chat.outgoing, ← hsame], hroom, ?_⟩
      simpa [hno] using hplays' (by simp [hno])
    · rw [Chat.outgoing, hjob, List.cons_append, List.cons_append] at hphase
      obtain ⟨hfalse, hphase'⟩ := hphase.pop
      have hacts : Server.acts w (.process package) = true := by simp [Server.acts, hsession]
      refine ⟨true, hphase', nofun, ?_⟩
      rw [← Server.isLogin_iff] at hfalse
      have hlogin : b = !Server.isLogin (.process package) := by
        cases b <;> simp_all
      simpa [hacts] using hplays' fun _ => hlogin
  · rw [hd.user] at hf
    rcases Server.user_event ho w with heq | ⟨u, hu, ⟨u', hu'⟩ | -⟩
    · exact h.freed (heq ▸ hf)
    · rw [hf] at hu'
      contradiction
    · obtain ⟨b, hphase, -, hplays⟩ := h.live u hu
      obtain ⟨v, hv, hrest⟩ := Receiver.plays_append_iff.mp hplays
      refine ⟨v, hv, fun hst => hM.outside_of_plays hrest ?_⟩
      rw [hphase.eq_false_of_login hst, hM.seen_outside, hM.place_view]
      rfl

theorem Linked.fromOutside {s s' : Chat} {k : η} {a : Server.Action} {e : Event}
    (h : M.Linked s k) (ho : e.Occurs s.server) (ha : s.server.Causes a e)
    (hjobs : s.Takes a s') :
    e.FromOutside := by
  cases ho with
  | @login x u hu nickname =>
    cases ha with
    | process hby =>
      obtain ⟨rfl, rfl⟩ := hby
      obtain ⟨c, hc⟩ := h.live hu
      obtain ⟨b, hphase, hroom, -⟩ := (h.conn hc).live u hu
      rcases hjobs x with ⟨-, hno⟩ | ⟨package, hpackage, -, hjob⟩
      · simp [Server.acts] at hno
      · cases hpackage
        rw [Chat.outgoing, hjob, List.cons_append, List.cons_append] at hphase
        exact hroom (hphase.pop.1.mpr ⟨nickname, rfl⟩)
  | _ => trivial

theorem Linked.event {s s' : Chat} {k : η} {a : Server.Action} {e : Event} (h : M.Linked s k)
    (hM : M.Lawful) (hg : M.guard s.server a = true) (ho : e.Occurs s.server)
    (ha : s.server.Causes a e) (hd : s.server.Does e s'.server) (horder : s'.server.Orderly)
    (hconns : s'.conns = s.conns)
    (hjobs : s.Takes a s') :
    M.Linked s' (M.history k s.server a) where
  orderly := horder
  unused {w} hw := by
    rw [hd.user, Server.user_unused_event ho] at hw
    obtain ⟨hconn, hjob, hpkg⟩ := h.unused hw
    obtain ⟨ps, hps, hnews⟩ := hd.packages
    refine ⟨hconns ▸ hconn, ?_, ?_⟩
    · rcases hjobs w with ⟨hsame, -⟩ | ⟨package, -, -, hcons⟩
      · exact hsame ▸ hjob
      · rw [hjob] at hcons
        contradiction
    · rw [hps, packetsFor_append, hpkg, hnews, h.orderly.news_unused ho hw]
      rfl
  live {w u} hu := by
    rw [hd.user] at hu
    rw [hconns]
    exact h.live (Server.live_of_event ho hu).choose_spec
  conn hc := (h.conn (hconns ▸ hc)).event hM h.orderly hg ho ha hd (h.fromOutside ho ha hjobs) hjobs

theorem Linked.known {s : Chat} {k : η} (h : M.Linked s k) {w : UserPtr} {c : Conn}
    (hc : s.conns.find w = some c) : s.server.user w ≠ .unused := fun hw => by
  rw [(h.unused hw).1] at hc
  contradiction

theorem Linked.setConn {s s' : Chat} {k : η} (h : M.Linked s k) {v : UserPtr} {c c' : Conn}
    (hserver : s'.server = s.server) (hconns : s'.conns = s.conns.set v c')
    (hc : s.conns.find v = some c) (hjobs : ∀ w, w ≠ v → packetsOf w s'.jobQueue =
      packetsOf w s.jobQueue) (hv : M.LinkedConn s' k v c') : M.Linked s' k where
  orderly := hserver ▸ h.orderly
  unused {w} hw := by
    rw [hserver] at hw ⊢
    have hne : w ≠ v := by
      rintro rfl
      exact h.known hc hw
    rw [hconns, StdMap.find_set, if_neg (Ne.symm hne), hjobs w hne]
    exact h.unused hw
  live {w u} hu := by
    rw [hconns, StdMap.find_set]
    split
    · exact ⟨_, rfl⟩
    · exact h.live (hserver ▸ hu)
  conn {w x} hx := by
    rw [hconns, StdMap.find_set] at hx
    split at hx
    · rename_i hw
      exact hw ▸ Option.some.inj hx ▸ hv
    · rename_i hw
      refine (h.conn hx).of_eq (by rw [hserver]) rfl ?_ (fun _ _ => ?_) (fun _ => rfl)
        fun _ _ _ => by rw [hserver]
      · rw [Chat.outgoing, Chat.outgoing, hjobs w (Ne.symm hw)]
      · rw [Chat.incoming, Chat.incoming, hserver]

theorem Linked.client {s s' : Chat} {k : η} {v : UserPtr} {a : Conn.Action} (h : M.Linked s k)
    (hM : M.Lawful) (hs : s.client v a = .ok s') : M.Linked s' k := by
  unfold Chat.client at hs
  split at hs
  · nomatch hs
  · rename_i c hc
    obtain ⟨c', hc', hs⟩ := bind_eq_ok_iff.mp hs
    cases hs
    exact h.setConn rfl rfl hc (fun _ _ => rfl) (((h.conn hc).client hM (h.known hc) hc').of_eq
      rfl rfl rfl (fun _ _ => rfl) (fun _ => rfl) fun _ _ _ => rfl)

theorem Linked.recv {s s' : Chat} {k : η} {v : UserPtr} (h : M.Linked s k)
    (hs : s.recv v = .ok s') : M.Linked s' k := by
  unfold Chat.recv at hs
  split at hs
  · rename_i client p up down hc
    obtain ⟨_, -, hs⟩ := bind_eq_ok_iff.mp hs
    cases hs
    refine h.setConn rfl rfl hc (fun w hw => by simp [Ne.symm hw]) ?_
    exact (h.conn hc).of_eq rfl rfl (by simp [Chat.outgoing]) (fun _ _ => rfl) (fun _ => rfl)
      fun _ _ _ => rfl
  · nomatch hs

theorem find_deliver (s : Chat) (package : SendPackage) (w : UserPtr) :
    (s.deliver package).find w = s.conns.find w ∧
        (package.session = some w → ∀ u, s.server.user w ≠ .live u) ∨
      package.session = some w ∧ (∃ u, s.server.user w = .live u) ∧
        (s.deliver package).find w =
          (s.conns.find w).map fun c => { c with down := c.down ++ [package.packet] } := by
  unfold Chat.deliver
  cases hd : s.server.deref package.session with
  | error e =>
    refine .inl ⟨rfl, fun hw u hu => ?_⟩
    rw [Server.deref_ok_iff.mpr ⟨hw, hu⟩] at hd
    contradiction
  | ok vu =>
    obtain ⟨v, u⟩ := vu
    obtain ⟨hv, hu⟩ := Server.deref_ok_iff.mp hd
    by_cases hw : v = w
    · subst hw
      exact .inr ⟨hv, ⟨u, hu⟩, by simp⟩
    · refine .inl ⟨by simp [hw], fun hw' => ?_⟩
      rw [hv] at hw'
      exact absurd (Option.some.inj hw') hw

theorem Linked.send {s s' : Chat} {k : η} (h : M.Linked s k) (hM : M.Lawful)
    (hs : s.send = .ok s') : M.Linked s' k := by
  unfold Chat.send at hs
  split at hs
  · nomatch hs
  · rename_i package packages hp
    cases hs
    have hfor : ∀ w, packetsFor w s.server.packages =
        if package.session = some w then package.packet :: packetsFor w packages
        else packetsFor w packages := fun w => by rw [hp, packetsFor_cons]
    refine ⟨⟨h.orderly.registry.queue packages s.server.closed, h.orderly.membership,
      ⟨h.orderly.accounted.unused, h.orderly.accounted.live, h.orderly.accounted.freed⟩⟩,
      fun {w} hw => ?_, fun {w u} hu => ?_, fun {w c} hc => ?_⟩
    · obtain ⟨hconn, hjob, hpkg⟩ := h.unused hw
      refine ⟨?_, hjob, ?_⟩
      · rcases find_deliver s package w with ⟨hfind, -⟩ | ⟨-, -, hfind⟩ <;> simp [hfind, hconn]
      · rw [hfor] at hpkg
        split at hpkg
        · contradiction
        · exact hpkg
    · obtain ⟨c, hc⟩ := h.live hu
      rcases find_deliver s package w with ⟨hfind, -⟩ | ⟨-, -, hfind⟩ <;> simp [hfind, hc]
    · rcases find_deliver s package w with ⟨hfind, hgone⟩ | ⟨hw, ⟨u, hu⟩, hfind⟩
      · refine (h.conn (hfind.symm.trans hc)).of_eq rfl rfl rfl (fun u hu => ?_) (fun _ => rfl)
          fun _ _ _ => hM.seen_packages
        have hw : package.session ≠ some w := fun hw => hgone hw u hu
        rw [Chat.incoming, Chat.incoming, hfor, if_neg hw]
      · obtain ⟨c₀, hc₀, rfl⟩ := Option.map_eq_some_iff.mp (hfind.symm.trans hc)
        refine (h.conn hc₀).of_eq rfl rfl rfl (fun _ _ => ?_) (fun hf => ?_)
          fun _ _ _ => hM.seen_packages
        · rw [Chat.incoming, Chat.incoming, hfor, if_pos hw]
          simp
        · rw [hu] at hf
          contradiction

theorem LinkedConn.accepted {s : Chat} {k k' : η} {addr : UserPtr} {socket : Socket}
    {server : Server} {conns : StdMap UserPtr Conn} (h : M.Linked s k) (hM : M.Lawful)
    (haddr : s.server.user addr = .unused)
    (hacc : s.server.Accepted addr socket .connected server) :
    M.LinkedConn { s with server, conns } k' addr .init := by
  obtain ⟨-, hjob, hpkg⟩ := h.unused haddr
  cases hacc with
  | failed hne => exact absurd rfl hne
  | connected =>
    refine ⟨rfl, by rintro ⟨⟩, fun u hu => ⟨false, ?_, fun _ => ?_, ?_⟩, fun hf => ?_⟩
    · rw [Chat.outgoing, hjob]
      exact .fresh rfl (.inl rfl)
    · rw [Cell.live.inj (hu.symm.trans (Server.user_setUser_self ..))]
    · rw [hM.seen_outside]
      simp only [Chat.incoming, Server.pushIntoLobby, Server.setUser, hpkg]
      exact .nil
    · simp [Server.pushIntoLobby] at hf

theorem Linked.accept {s s' : Chat} {k : η} {addr : UserPtr} {socket : Socket}
    {outcome : Server.ConnectOutcome} (h : M.Linked s k) (hM : M.Lawful)
    (hg : M.guard s.server (.accept addr socket outcome) = true)
    (hs : s.accept addr socket outcome = .ok s') :
    M.Linked s' (M.history k s.server (.accept addr socket outcome)) := by
  obtain ⟨server, hserver, hs⟩ := bind_eq_ok_iff.mp hs
  cases hs
  obtain ⟨haddr, hacc⟩ := Server.accepted_of_ok hserver
  obtain ⟨hlobby, hfresh⟩ := hM.guard_orderly hg
  obtain ⟨hconn, -⟩ := h.unused haddr
  have hpackages := hacc.packages
  have hkeep : ∀ {w c conns}, w ≠ addr → s.conns.find w = some c →
      M.LinkedConn { s with server, conns }
        (M.history k s.server (.accept addr socket outcome)) w c := by
    intro w c conns hw hc
    refine (h.conn hc).of_eq (hacc.user_of_ne hw) rfl rfl (fun _ _ => ?_) (fun _ => rfl)
      fun u b hu => hM.accept h.orderly haddr hacc hu
    rw [Chat.incoming, Chat.incoming, hpackages]
  have horder : server.Orderly := h.orderly.step hlobby hfresh hserver
  have hunused : ∀ {w}, server.user w = .unused → w ≠ addr ∧ s.server.user w = .unused := by
    intro w hw
    have hne : w ≠ addr := by
      rintro rfl
      exact hacc.user_ne_unused hw
    exact ⟨hne, (hacc.user_of_ne hne).symm.trans hw⟩
  by_cases hout : outcome = .connected
  · rw [if_pos hout]
    refine ⟨horder, fun {w} hw => ?_, fun {w u} hu => ?_, fun {w c} hc => ?_⟩
    · obtain ⟨hne, hw⟩ := hunused hw
      rw [StdMap.find_set, if_neg (Ne.symm hne), hpackages]
      exact h.unused hw
    · rw [StdMap.find_set]
      split
      · exact ⟨_, rfl⟩
      · rename_i hne
        exact h.live ((hacc.user_of_ne (Ne.symm hne)).symm.trans hu)
    · rw [StdMap.find_set] at hc
      split at hc
      · rename_i hw
        subst hw hout
        cases hc
        exact .accepted h hM haddr hacc
      · rename_i hw
        exact hkeep (Ne.symm hw) hc
  · rw [if_neg hout]
    have hne : ∀ {w c}, s.conns.find w = some c → w ≠ addr := by
      rintro w c hc rfl
      rw [hconn] at hc
      contradiction
    refine ⟨horder, fun {w} hw => ?_, fun {w u} hu => ?_, fun {w c} hc => hkeep (hne hc) hc⟩
    · rw [hpackages]
      exact h.unused (hunused hw).2
    · have hw : w ≠ addr := by
        rintro rfl
        cases hacc with
        | connected => exact hout rfl
        | failed _ _ => simp at hu
      exact h.live ((hacc.user_of_ne hw).symm.trans hu)

theorem event_of_step {s s' : Server} (h : s.Orderly) {a : Server.Action}
    (hg : s.entersFromLobby a = true) (hs : s.step a = .ok s')
    (ha : ∀ addr socket outcome, a ≠ .accept addr socket outcome)
    (hknown : ∀ package, a = .process package → s.user package.session ≠ .unused)
    (hfind : ∀ id, a = .removeUser id → s.userList.find id ≠ none) :
    ∃ e : Event, e.Occurs s ∧ s.Causes a e ∧ s.Does e s' := by
  cases a with
  | accept addr socket outcome => exact absurd rfl (ha addr socket outcome)
  | removeUser id =>
    rcases h.registry.removedById hs with ⟨hid, -⟩ | ⟨v, u, rfl, hid, hu, rfl⟩
    · exact absurd hid (hfind id rfl)
    · exact ⟨.remove v u, .remove hu, .removeUser .., Server.does_removed h hu hid⟩
  | process package =>
    exact (Server.processed_of_ok hs).event h (hknown package rfl) hg

theorem Linked.disconnect {s s' : Chat} {k : η} {v : UserPtr} {a : Server.Action}
    (h : M.Linked s k) (hM : M.Lawful) (ha : s.serverAction (.disconnect v) = some a)
    (hg : M.guard s.server a = true) (hs : s.disconnect v = .ok s') :
    M.Linked s' (M.history k s.server a) := by
  obtain ⟨id, hid, hs⟩ := bind_eq_ok_iff.mp hs
  obtain ⟨server, hserver, hs⟩ := bind_eq_ok_iff.mp hs
  cases hs
  simp only [Chat.serverAction, hid, Option.some.injEq] at ha
  subst ha
  obtain ⟨hlobby, hfresh⟩ := hM.guard_orderly hg
  obtain ⟨x, hx, -⟩ := Server.sessionId_ok_iff.mp hid
  obtain ⟨u, sender⟩ := h.orderly.registry.sender (h.orderly.accounted.live hx).1
  obtain rfl := Except.ok.inj (hid.symm.trans sender.session)
  have hstep : s.server.step (.removeUser u.userId) = .ok server := hserver
  obtain ⟨e, ho, hc, hd⟩ := event_of_step h.orderly hlobby hstep nofun nofun fun id hid => by
    cases hid
    have hfind : s.server.userList.find u.userId = some v := sender.registered
    simp [hfind]
  exact h.event hM hg ho hc hd (h.orderly.step hlobby hfresh hstep) rfl fun _ => .inl ⟨rfl, rfl⟩

theorem Linked.logic {s s' : Chat} {k : η} {a : Server.Action} (h : M.Linked s k)
    (hM : M.Lawful) (ha : s.serverAction .logic = some a) (hg : M.guard s.server a = true)
    (hs : s.logic = .ok s') : M.Linked s' (M.history k s.server a) := by
  unfold Chat.logic at hs
  split at hs
  · nomatch hs
  · rename_i package jobs hjobs
    obtain ⟨server, hserver, hs⟩ := bind_eq_ok_iff.mp hs
    cases hs
    simp only [Chat.serverAction, hjobs, List.head?_cons, Option.map_some, Option.some.injEq] at ha
    subst ha
    obtain ⟨hlobby, hfresh⟩ := hM.guard_orderly hg
    have hstep : s.server.step (.process package) = .ok server := hserver
    have hknown : s.server.user package.session ≠ .unused := fun hw => by
      have := (h.unused hw).2.1
      rw [hjobs, packetsOf_cons, if_pos rfl] at this
      contradiction
    obtain ⟨e, ho, hc, hd⟩ := event_of_step h.orderly hlobby hstep nofun
      (fun _ hp => by cases hp; exact hknown) nofun
    exact h.event hM hg ho hc hd (h.orderly.step hlobby hfresh hstep) rfl
      (Chat.takes_process hjobs server)

theorem Linked.step {s s' : Chat} {k : η} {a : Chat.Action} (h : M.Linked s k) (hM : M.Lawful)
    (hg : s.allows M.guard a = true) (hs : s.step a = .ok s') :
    M.Linked s' (Chat.record M.history k s a) := by
  cases a with
  | accept addr socket outcome => exact h.accept hM hg hs
  | recv v => exact h.recv hs
  | disconnect v =>
    cases hid : s.server.sessionId v with
    | error e =>
      change s.disconnect v = _ at hs
      simp [Chat.disconnect, hid, bind, Except.bind] at hs
    | ok id =>
      have ha : s.serverAction (.disconnect v) = some (.removeUser id) := by
        simp [Chat.serverAction, hid]
      rw [Chat.allows, ha] at hg
      rw [Chat.record, ha]
      exact h.disconnect hM ha hg hs
  | logic =>
    cases hj : s.jobQueue with
    | nil =>
      change s.logic = _ at hs
      simp [Chat.logic, hj] at hs
    | cons package jobs =>
      have ha : s.serverAction .logic = some (.process package) := by
        simp [Chat.serverAction, hj]
      rw [Chat.allows, ha] at hg
      rw [Chat.record, ha]
      exact h.logic hM ha hg hs
  | send => exact h.send hM hs
  | client v a => exact h.client hM hs

theorem linked_of_reach (hM : M.Lawful) {k₀ : η} {s : Chat × η}
    (h : (M.system k₀).Reach (fun s a => s.1.allows M.guard a = true) s) : M.Linked s.1 s.2 := by
  refine h.invariant (P := fun s => M.Linked s.1 s.2) (linked_init M k₀)
    fun s a s' _ hl hg hs => ?_
  obtain ⟨hstep, hk⟩ := System.withHistory_step.mp hs
  rw [hk]
  exact hl.step hM hg hstep

theorem quiescent_incoming {s : Chat} (hq : s.Quiescent) {w : UserPtr} {c : Conn}
    (hc : s.conns.find w = some c) : s.incoming w c = [] := by
  obtain ⟨-, hpackages, hconns⟩ := hq
  obtain ⟨-, hrecv, hdown, -⟩ : s.Quiet w c := hconns (w, c) (StdMap.mem_entries_iff.mpr hc)
  simp [Chat.incoming, hpackages, hrecv, hdown]

theorem quiescent_outgoing {s : Chat} (hq : s.Quiescent) {w : UserPtr} {c : Conn} {u : User}
    (hc : s.conns.find w = some c) (hu : s.server.user w = .live u) : s.outgoing w c = [] := by
  obtain ⟨hjobs, -, hconns⟩ := hq
  obtain ⟨hsend, -, -, hup⟩ : s.Quiet w c := hconns (w, c) (StdMap.mem_entries_iff.mpr hc)
  simp [Chat.outgoing, hjobs, hsend, hup (by rw [hu]; rfl)]

theorem Linked.settled {s : Chat} {k : η} (h : M.Linked s k) (hq : s.Quiescent) {w : UserPtr}
    {c : Conn} {u : User} (hc : s.conns.find w = some c) (hu : s.server.user w = .live u)
    (hin : c.client.state ≠ .login) : M.view c.client = M.seen s.server k w u true := by
  obtain ⟨b, hphase, -, hplays⟩ := (h.conn hc).live u hu
  rw [quiescent_outgoing hq hc hu] at hphase
  rw [quiescent_incoming hq hc, Receiver.plays_nil_iff] at hplays
  cases hphase with
  | fresh hst => exact absurd hst hin
  | entered => exact hplays

theorem Linked.takes {s : Chat} {k : η} (h : M.Linked s k) {w : UserPtr} {c : Conn} {p : Packet}
    {ps : List Packet} (hc : s.conns.find w = some c) (hq : c.client.recvQueue = p :: ps) :
    M.receiver.takes (M.view c.client) p := by
  cases hw : s.server.user w with
  | unused => exact absurd hw (h.known hc)
  | live u =>
    obtain ⟨b, -, -, hplays⟩ := (h.conn hc).live u hw
    rw [Chat.incoming, hq, List.cons_append, List.cons_append] at hplays
    exact (Receiver.plays_cons_iff.mp hplays).1
  | freed =>
    obtain ⟨v, hplays, -⟩ := (h.conn hc).freed hw
    rw [hq, List.cons_append] at hplays
    exact (Receiver.plays_cons_iff.mp hplays).1

end Mirror

end ChattingServer.V11
