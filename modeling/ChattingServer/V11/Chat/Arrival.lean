import ChattingServer.V11.Chat.Location
import ChattingServer.V11.Server.Rooms

namespace ChattingServer.V11

open Lib

/-! What is sent to the users in the lobby. -/

namespace View

def lobbyReceiver : Receiver View Packet where
  recv := recv
  takes v p := v.place = .lobby → v.castSound p

end View

namespace Server

def lobbyGuard (s : Server) (a : Action) : Bool := s.locationGuard a && s.whispersInRooms a

theorem Causes.chatsInRooms {s : Server} {a : Action} {e : Event} (h : s.Causes a e)
    (hchat : s.whispersInRooms a = true) : e.ChatsInRooms s := by
  cases h with
  | removeUser => trivial
  | process _ _ hc => exact hc hchat

end Server

theorem plays_lobbyNews {s : Server} {e : Event} {w : UserPtr} {u u' : User} {b b' : Bool}
    {ps : List Packet} (h : s.Orderly) (hu : s.user w = .live u) (hchats : e.ChatsInRooms s)
    (hh : s.Hears w u e b ps u' b') : View.lobbyReceiver.Plays (u.seen b) ps (u'.seen b') := by
  by_cases hlists : e.ListsInLobby s
  · have hplays : (View.receiver true).Plays (u.seen b) ps (u'.seen b') :=
      plays_news h hu (fun _ => ⟨hlists, hchats⟩) hh
    exact hplays.mono rfl (fun htakes _ => htakes rfl)
  · cases e with
    | rooms x list =>
      have hroom : s.currRoom x ≠ none := hlists
      cases hh with
      | rooms hlist =>
        rw [Server.currRoom_of_live hu] at hroom
        have hplace : u.location.place = .room := by simp [User.location, hroom]
        refine .cons (fun hlobby => ?_) (Receiver.plays_nil_iff.mpr ?_)
        · rw [User.seen, hplace] at hlobby
          contradiction
        · cases list <;> first | rfl | contradiction
      | departure _ _ _ he | elsewhere _ _ he => cases he
      | nothing => exact .nil
    | _ => exact absurd trivial hlists

def lobbyMirror : Mirror View Unit where
  receiver := View.lobbyReceiver
  view := Client.view
  place := View.place
  seen _ _ _ u b := u.seen b
  history _ _ _ := ()
  guard := Server.lobbyGuard

theorem lobbyGuard_le {s : Server} {a : Server.Action} (h : s.lobbyGuard a = true) :
    s.entersFromLobby a = true ∧ s.freshId a = true ∧ s.whispersInRooms a = true := by
  simp only [Server.lobbyGuard, Server.locationGuard, Bool.and_eq_true] at h
  exact ⟨h.1.1, h.1.2, h.2⟩

theorem lobbyMirror_lawful : lobbyMirror.Lawful where
  guard_orderly h := ⟨(lobbyGuard_le h).1, (lobbyGuard_le h).2.1⟩
  place_view _ := rfl
  place_recv h := View.recv_ne_outside h _
  view_congr hplace hid _ := by
    simp only [lobbyMirror, Client.view, hplace, hid]
  view_recv _ _ memory := (Client.received_recvProcess _ memory _).view
  seen_outside := rfl
  seen_packages := rfl
  event horder hg _ ha _ hu _ hh :=
    plays_lobbyNews horder hu (ha.chatsInRooms (lobbyGuard_le hg).2.2) hh
  accept _ _ _ _ := rfl

structure Arrival where
  /-- The rooms that the server had then. -/
  rooms : List (UInt16 × Str)
  /-- The client arrived by logging in, or its user has asked for a new room since. -/
  listed : Bool

namespace Conn

def arrival (c : Conn) : Action → Option Bool
  | .logicThread _ => c.client.recvQueue.head?.bind c.client.arrival
  | _ => none

def createsRoom (c : Conn) : Action → Bool
  | .input i => c.client.createsRoom c.client.page i
  | _ => false

end Conn

def Arrival.next (k : Arrival) (s : Server) (c : Conn) (a : Conn.Action) : Arrival :=
  match c.arrival a with
  | some byLogin => ⟨s.rooms, byLogin⟩
  | none => { k with listed := k.listed || c.createsRoom a }

namespace Chat

def arrivals (k : UserPtr → Arrival) (s : Chat) : Action → UserPtr → Arrival
  | .client v a =>
    match s.conns.find v with
    | some c => Function.update k v ((k v).next s.server c a)
    | none => k
  | _ => k

def withArrivals : System (Chat × (UserPtr → Arrival)) Action Fault :=
  system.withHistory (fun _ => ⟨[], false⟩) arrivals

def listFits (s : Chat) : Action → Bool
  | .send => s.server.packages.head?.all fun package =>
    package.packet.roomList.isNone || decide (package.packet.encoding.length ≤ sockbufSize)
  | _ => true

def lists (s : Chat) (w : UserPtr) (c : Conn) : List (List (UInt16 × Str)) :=
  c.client.display.rooms :: (s.incoming w c).filterMap Packet.roomList

structure Informed (s : Chat) (k : Arrival) (w : UserPtr) (c : Conn) : Prop where
  grows : (s.lists w c).Pairwise (· ⊆ ·)
  le : ∀ l ∈ s.lists w c, l ⊆ s.server.rooms
  shows : ∀ p ∈ c.client.recvQueue ++ c.down, p.Shows
  arrived : c.client.state = .lobby → k.listed = true →
    (∃ p ∈ s.outgoing w c, p.asksForList = true) ∨ ∃ l ∈ s.lists w c, k.rooms ⊆ l

theorem informed_init {s : Chat} {w : UserPtr} (hpackages : packetsFor w s.server.packages = [])
    (k : Arrival) : s.Informed k w .init := by
  have hlists : s.lists w .init = [[]] := by
    simp [lists, incoming, Conn.init, Client.init, hpackages, Display.rooms]
  refine ⟨?_, ?_, List.forall_mem_nil _, by rintro ⟨⟩⟩
  · rw [hlists]
    exact List.pairwise_singleton ..
  · rw [hlists]
    exact List.forall_mem_singleton.mpr (List.nil_subset _)

theorem Informed.shift {s s' : Chat} {k : Arrival} {w : UserPtr} {c c' : Conn}
    (h : s.Informed k w c) (hrooms : s'.server.rooms = s.server.rooms)
    (hdisplay : c'.client.display.rooms = c.client.display.rooms)
    (hstate : c'.client.state = .lobby → c.client.state = .lobby)
    (hin : s'.incoming w c' = s.incoming w c) (hout : s.outgoing w c ⊆ s'.outgoing w c')
    (hshows : ∀ p ∈ c'.client.recvQueue ++ c'.down, p.Shows) : s'.Informed k w c' := by
  have hlists : s'.lists w c' = s.lists w c := by rw [lists, hdisplay, hin, lists]
  refine ⟨hlists ▸ h.grows, ?_, hshows, fun hst hk => ?_⟩
  · rw [hlists, hrooms]
    exact h.le
  · rw [hlists]
    refine (h.arrived (hstate hst) hk).imp_left ?_
    rintro ⟨p, hp, hask⟩
    exact ⟨p, hout hp, hask⟩

theorem Informed.served {s s' : Chat} {k : Arrival} {w : UserPtr} {c : Conn} {b : Server.Action}
    (h : s.Informed k w c) (hknown : k.rooms ⊆ s.server.rooms)
    (hlists : s.server.Lists (Server.asker b) s'.server)
    (hjobs : s.Takes b s') : s'.Informed k w c := by
  obtain ⟨ps, hps, hall, hasker⟩ := hlists.packages
  have hin : s'.incoming w c = s.incoming w c ++ packetsFor w ps := by
    simp [incoming, hps]
  have happ : s'.lists w c = s.lists w c ++ (packetsFor w ps).filterMap Packet.roomList := by
    rw [lists, hin, List.filterMap_append, lists, List.cons_append]
  have hnew : ∀ l ∈ (packetsFor w ps).filterMap Packet.roomList, l = s'.server.rooms := by
    intro l hl
    obtain ⟨p, hp, hl⟩ := List.mem_filterMap.mp hl
    obtain ⟨pkg, hpkg, rfl⟩ := List.mem_map.mp hp
    rw [hall pkg (List.mem_filter.mp hpkg).1 (by rw [hl]; exact Option.some_ne_none _),
      Server.roomList_roomListPacket] at hl
    exact (Option.some.inj hl).symm
  have hle : ∀ l ∈ s.lists w c, l ⊆ s'.server.rooms := fun l hl =>
    List.Subset.trans (h.le l hl) hlists.rooms
  refine ⟨?_, ?_, h.shows, fun hst hk => ?_⟩
  · rw [happ, List.pairwise_append]
    refine ⟨h.grows, List.pairwise_of_forall_mem_list fun l hl l' hl' => ?_,
      fun l hl l' hl' => hnew l' hl' ▸ hle l hl⟩
    rw [hnew l hl, hnew l' hl']
    exact List.Subset.refl _
  · rw [happ]
    refine List.forall_mem_append.mpr ⟨hle, fun l hl => ?_⟩
    rw [hnew l hl]
    exact List.Subset.refl _
  · rw [happ]
    rcases h.arrived hst hk with ⟨p, hp, hask⟩ | ⟨l, hl, hsub⟩
    · rcases hjobs w with ⟨hsame, -⟩ | ⟨package, rfl, hsession, hjob⟩
      · rw [outgoing, hsame] at hp
        exact .inl ⟨p, hp, hask⟩
      · rw [outgoing, hjob, List.cons_append, List.cons_append] at hp
        rcases List.mem_cons.mp hp with rfl | hp
        · have hw := hasker w (by rw [Server.asker, if_pos hask, hsession])
          have hlist : s'.server.roomListPacket ∈ packetsFor w ps :=
            List.mem_map.mpr ⟨_, List.mem_filter.mpr ⟨hw, decide_eq_true rfl⟩, rfl⟩
          refine .inr ⟨s'.server.rooms, List.mem_append_right _ (List.mem_filterMap.mpr
            ⟨_, hlist, s'.server.roomList_roomListPacket⟩), List.Subset.trans hknown hlists.rooms⟩
        · exact .inl ⟨p, hp, hask⟩
    · exact .inr ⟨l, List.mem_append_left _ hl, hsub⟩

theorem Informed.asked {s : Chat} {k : Arrival} {w : UserPtr} {c : Conn} (h : s.Informed k w c)
    {p : Packet} (hp : p ∈ c.client.sendQueue) (hask : p.asksForList = true) (k' : Arrival) :
    s.Informed k' w c :=
  ⟨h.grows, h.le, h.shows, fun _ _ => .inl ⟨p, List.mem_append_right _ hp, hask⟩⟩

theorem outgoing_sent (s : Chat) (w : UserPtr) {c : Conn} {client : Client}
    (h : ∃ ps, client.sendQueue = c.client.sendQueue ++ ps) :
    s.outgoing w c ⊆ s.outgoing w { c with client } := by
  obtain ⟨ps, hps⟩ := h
  rw [outgoing, outgoing, hps, ← List.append_assoc]
  exact List.subset_append_left ..

theorem Informed.input {s : Chat} {k : Arrival} {w : UserPtr} {c : Conn} {i : Input}
    {client : Client} (h : s.Informed k w c)
    (hs : c.client.stateThread c.client.page i = .ok client) :
    s.Informed (k.next s.server c (.input i)) w { c with client } := by
  have hmoves : client.recvQueue = c.client.recvQueue ∧
      (client.state = .lobby → c.client.state = .lobby) ∧
      ∃ ps, client.sendQueue = c.client.sendQueue ++ ps := by
    rcases Client.turned_or_entered hs with ht | ⟨-, nickname, rfl⟩
    · exact ⟨ht.recvQueue, (ht.state ▸ ·), ht.sends.imp fun _ hps => hps.1⟩
    · exact ⟨rfl, by rintro ⟨⟩, _, rfl⟩
  obtain ⟨hrecv, hstate, hsend⟩ := hmoves
  have hmoved : s.Informed k w { c with client } := by
    refine h.shift rfl (Client.rooms_stateThread hs) hstate ?_ (s.outgoing_sent w hsend) ?_
    · rw [incoming, hrecv, incoming]
    · rw [hrecv]
      exact h.shows
  cases hroom : c.createsRoom (.input i) with
  | true =>
    refine hmoved.asked (p := .cRoomCreate Client.testRoomName) ?_ rfl _
    rw [Client.sendQueue_of_createsRoom hs hroom]
    exact List.mem_append_right _ (List.mem_singleton_self _)
  | false =>
    have hnext : k.next s.server c (.input i) = k := by
      change { k with listed := k.listed || c.createsRoom (.input i) } = k
      rw [hroom, Bool.or_false]
    rwa [hnext]

theorem pairwise_show {α : Type} {l : List α} {next : Option (List α)} {ls : List (List α)}
    (h : (l :: (next.toList ++ ls)).Pairwise (· ⊆ ·)) :
    (next.getD l :: ls).Pairwise (· ⊆ ·) ∧ next.getD l :: ls ⊆ l :: (next.toList ++ ls) ∧
      ∀ x ∈ l :: (next.toList ++ ls), ∃ y ∈ next.getD l :: ls, x ⊆ y := by
  cases next with
  | none => exact ⟨h, List.Subset.refl _, fun x hx => ⟨x, hx, List.Subset.refl x⟩⟩
  | some l' =>
    refine ⟨h.of_cons, List.subset_cons_self .., List.forall_mem_cons.mpr ⟨?_, fun x hx => ?_⟩⟩
    · exact ⟨l', List.mem_cons_self, List.rel_of_pairwise_cons h List.mem_cons_self⟩
    · exact ⟨x, hx, List.Subset.refl x⟩

theorem Informed.show {s : Chat} {k : Arrival} {w : UserPtr} {c c' : Conn}
    {next : Option (List (UInt16 × Str))} {ls : List (List (UInt16 × Str))}
    (h : s.Informed k w c) (hst : c.client.state = .lobby)
    (hlists : s.lists w c = c.client.display.rooms :: (next.toList ++ ls))
    (hlists' : s.lists w c' = next.getD c.client.display.rooms :: ls)
    (hout : s.outgoing w c ⊆ s.outgoing w c')
    (hshows : ∀ p ∈ c'.client.recvQueue ++ c'.down, p.Shows) : s.Informed k w c' := by
  have hgrows := h.grows
  have hle := h.le
  rw [hlists] at hgrows hle
  obtain ⟨hgrows', hmem, hkept⟩ := pairwise_show hgrows
  refine ⟨hlists' ▸ hgrows', ?_, hshows, fun _ hk => ?_⟩
  · rw [hlists']
    exact fun l hl => hle l (hmem hl)
  · rcases h.arrived hst hk with ⟨p, hp, hask⟩ | ⟨l, hl, hsub⟩
    · exact .inl ⟨p, hout hp, hask⟩
    · obtain ⟨l', hl', hll⟩ := hkept l (hlists ▸ hl)
      exact .inr ⟨l', hlists' ▸ hl', List.Subset.trans hsub hll⟩

theorem Informed.reset {s : Chat} {k k' : Arrival} {w : UserPtr} {c c' : Conn}
    {next : Option (List (UInt16 × Str))} {ls : List (List (UInt16 × Str))}
    (h : s.Informed k w c) (hlists : s.lists w c = c.client.display.rooms :: (next.toList ++ ls))
    (hlists' : s.lists w c' = [] :: ls)
    (hshows : ∀ p ∈ c'.client.recvQueue ++ c'.down, p.Shows)
    (harrived : c'.client.state = .lobby → k'.listed = true →
      ∃ p ∈ s.outgoing w c', p.asksForList = true) : s.Informed k' w c' := by
  have hgrows := h.grows
  have hle := h.le
  rw [hlists] at hgrows hle
  refine ⟨?_, ?_, hshows, fun hst hk => .inl (harrived hst hk)⟩
  · rw [hlists']
    exact List.pairwise_cons.mpr ⟨fun l _ => List.nil_subset l, (pairwise_show hgrows).1.of_cons⟩
  · rw [hlists']
    refine List.forall_mem_cons.mpr ⟨List.nil_subset _, fun l hl => hle l ?_⟩
    exact List.mem_cons_of_mem _ (List.mem_append_right _ hl)

theorem Informed.handled {s : Chat} {k : Arrival} {w : UserPtr} {c : Conn} {p : Packet}
    {recvQueue : List Packet} (h : s.Informed k w c) (hq : c.client.recvQueue = p :: recvQueue)
    (hfits : c.client.Fits) (htakes : View.lobbyReceiver.takes c.client.view p)
    (memory : Display) :
    s.Informed (k.next s.server c (.logicThread memory)) w
      { c with client := { c.client with recvQueue }.recvProcess memory p } := by
  have hfits' : Client.Fits { c.client with recvQueue } := hfits
  have hsound : c.client.state = .lobby →
      Client.castSound { c.client with recvQueue } p = true := fun hst =>
    (hfits'.castSound_iff p).mpr (htakes (ClientState.place_eq_lobby_iff.mpr hst))
  have hshows : ∀ q ∈ p :: (recvQueue ++ c.down), q.Shows := by
    have := h.shows
    rwa [hq] at this
  obtain ⟨hshow, hrest⟩ := List.forall_mem_cons.mp hshows
  have hnext : k.next s.server c (.logicThread memory) =
      match c.client.arrival p with
      | some byLogin => ⟨s.server.rooms, byLogin⟩
      | none => { k with listed := k.listed || false } := by
    rw [Arrival.next, Conn.arrival, hq]
    rfl
  have hlists : s.lists w c = c.client.display.rooms ::
      (p.roomList.toList ++ (recvQueue ++ c.down ++ packetsFor w s.server.packages).filterMap
        Packet.roomList) := by
    rw [lists, incoming, hq]
    cases hp : p.roomList <;> simp [hp]
  have hsub : ∀ rooms, p.roomList = some rooms → c.client.display.rooms ⊆ rooms := by
    intro rooms hp
    have hgrows := h.grows
    rw [hlists, hp] at hgrows
    exact List.rel_of_pairwise_cons hgrows List.mem_cons_self
  have hrooms := Client.rooms_recvProcess hfits' hsound hshow hsub memory
  have hlogin : c.client.arrival p = some true → _ := fun harrival =>
    Client.mem_sendQueue_of_login (c := { c.client with recvQueue }) harrival memory
  have hhandled := (Client.received_recvProcess { c.client with recvQueue } memory p).handled
  generalize Client.recvProcess { c.client with recvQueue } memory p = client at *
  have hlists' : s.lists w { c with client } = client.display.rooms ::
      (recvQueue ++ c.down ++ packetsFor w s.server.packages).filterMap Packet.roomList := by
    rw [lists, incoming, hhandled.recvQueue]
  have hshows' : ∀ q ∈ client.recvQueue ++ c.down, q.Shows := by
    rw [hhandled.recvQueue]
    exact hrest
  rw [hnext]
  rcases hrooms with ⟨hempty, harrival⟩ | ⟨hst, harrival, hshown⟩
  · rw [hempty] at hlists'
    refine h.reset hlists hlists' hshows' fun hst hk => ?_
    cases hb : c.client.arrival p with
    | none => exact absurd hb (harrival hst)
    | some byLogin =>
      rw [hb] at hk
      obtain rfl : byLogin = true := hk
      exact ⟨_, List.mem_append_right _ (hlogin hb), rfl⟩
  · have hnone : c.client.arrival p = none := harrival
    rw [hnone, Bool.or_false]
    rw [hshown] at hlists'
    have hsent : s.outgoing w c ⊆ s.outgoing w { c with client } :=
      s.outgoing_sent w (hhandled.exists_sendQueue.imp fun _ hps => hps.1)
    exact h.show hst hlists hlists' hsent hshows'

theorem Informed.client {s : Chat} {k : Arrival} {w : UserPtr} {c c' : Conn} {a : Conn.Action}
    (h : s.Informed k w c) (hl : lobbyMirror.Linked s ()) (hc : s.conns.find w = some c)
    (hs : c.step a = .ok c') : s.Informed (k.next s.server c a) w c' := by
  have hnext : c.arrival a = none → c.createsRoom a = false → k.next s.server c a = k := by
    intro harrival hroom
    rw [Arrival.next, harrival, hroom]
    simp
  cases a with
  | input i =>
    obtain ⟨client, hclient, hc⟩ := bind_eq_ok_iff.mp hs
    cases hc
    exact h.input hclient
  | sendThread =>
    change c.sendThread = .ok c' at hs
    unfold Conn.sendThread at hs
    split at hs
    · contradiction
    · rename_i p ps hq
      cases hs
      rw [hnext rfl rfl]
      refine h.shift rfl rfl id rfl ?_ h.shows
      simp [outgoing, hq]
  | recvThread =>
    change c.recvThread = .ok c' at hs
    unfold Conn.recvThread at hs
    split at hs
    · contradiction
    · rename_i p ps hq
      cases hs
      rw [hnext rfl rfl]
      refine h.shift rfl rfl id ?_ (List.Subset.refl _) ?_
      · simp [incoming, hq]
      · have := h.shows
        rw [hq] at this
        simpa using this
  | logicThread memory =>
    change c.logicThread memory = .ok c' at hs
    unfold Conn.logicThread at hs
    split at hs
    · contradiction
    · rename_i p ps hq
      cases hs
      exact h.handled hq (hl.conn hc).fits (hl.takes hc hq) memory

structure Sound (s : Chat) (k : UserPtr → Arrival) : Prop where
  linked : lobbyMirror.Linked s ()
  counted : ∀ p ∈ s.server.packages, p.packet.roomList ≠ none → p.packet.counted = p.packet
  known : ∀ w, (k w).rooms ⊆ s.server.rooms
  informed : ∀ {w c u}, s.conns.find w = some c → s.server.user w = .live u →
    s.Informed (k w) w c

theorem sound_init : Sound .init fun _ => ⟨[], false⟩ where
  linked := lobbyMirror.linked_init ()
  counted := List.forall_mem_nil _
  known _ := List.nil_subset _
  informed hc := by simp [Chat.init] at hc

theorem Sound.served {s s' : Chat} {k : UserPtr → Arrival} {b : Server.Action} (h : Sound s k)
    (hlinked : lobbyMirror.Linked s' ()) (hs : s.server.step b = .ok s'.server)
    (hinformed : ∀ {w c u}, s'.conns.find w = some c → s'.server.user w = .live u →
      s.conns.find w = some c ∨ packetsFor w s'.server.packages = [] ∧ c = .init)
    (hjobs : s.Takes b s') : Sound s' k := by
  have hlists := Server.lists_of_step h.linked.orderly hs
  refine ⟨hlinked, ?_, fun w => List.Subset.trans (h.known w) hlists.rooms, fun {w c u} hc hu => ?_⟩
  · obtain ⟨ps, hps, hall, -⟩ := hlists.packages
    rw [hps]
    refine List.forall_mem_append.mpr ⟨h.counted, fun p hp hlist => ?_⟩
    rw [hall p hp hlist]
    exact Server.counted_roomListPacket _
  · rcases hinformed hc hu with hc' | ⟨hpackages, rfl⟩
    · cases hw : s.server.user w with
      | unused => exact absurd hw (h.linked.known hc')
      | freed =>
        rw [Server.freed_of_step hs hw] at hu
        contradiction
      | live u₀ => exact (h.informed hc' hw).served (h.known w) hlists hjobs
    · exact informed_init hpackages _

theorem Sound.setConn {s s' : Chat} {k k' : UserPtr → Arrival} {v : UserPtr} {c' : Conn}
    (h : Sound s k) (hlinked : lobbyMirror.Linked s' ()) (hserver : s'.server = s.server)
    (hconns : s'.conns = s.conns.set v c') (hk : ∀ w, w ≠ v → k' w = k w)
    (hknown : (k' v).rooms ⊆ s.server.rooms)
    (hjobs : ∀ w, w ≠ v → packetsOf w s'.jobQueue = packetsOf w s.jobQueue)
    (hv : ∀ u, s.server.user v = .live u → s'.Informed (k' v) v c') : Sound s' k' := by
  refine ⟨hlinked, by rw [hserver]; exact h.counted, fun w => ?_, fun {w c u} hc hu => ?_⟩
  · rw [hserver]
    by_cases hw : w = v
    · exact hw ▸ hknown
    · exact hk w hw ▸ h.known w
  · rw [hconns, StdMap.find_set] at hc
    rw [hserver] at hu
    split at hc
    · rename_i hw
      subst hw
      exact Option.some.inj hc ▸ hv u hu
    · rename_i hw
      rw [hk w (Ne.symm hw)]
      have hold := h.informed hc hu
      refine hold.shift (by rw [hserver]) rfl id ?_ ?_ hold.shows
      · rw [incoming, incoming, hserver]
      · rw [outgoing, outgoing, hjobs w (Ne.symm hw)]
        exact List.Subset.refl _

theorem Sound.client {s s' : Chat} {k : UserPtr → Arrival} {v : UserPtr} {a : Conn.Action}
    (h : Sound s k) (hlinked : lobbyMirror.Linked s' ()) (hs : s.client v a = .ok s') :
    Sound s' (arrivals k s (.client v a)) := by
  unfold Chat.client at hs
  split at hs
  · contradiction
  · rename_i c hc
    obtain ⟨c', hc', hs⟩ := bind_eq_ok_iff.mp hs
    cases hs
    have hk : arrivals k s (.client v a) = Function.update k v ((k v).next s.server c a) := by
      simp only [arrivals, hc]
    rw [hk]
    refine h.setConn hlinked rfl rfl (fun w hw => Function.update_of_ne hw ..) ?_
      (fun _ _ => rfl) fun u hu => ?_
    · rw [Function.update_self, Arrival.next]
      split
      · exact List.Subset.refl _
      · exact h.known v
    · rw [Function.update_self]
      have hnew := (h.informed hc hu).client h.linked hc hc'
      exact hnew.shift rfl rfl id rfl (List.Subset.refl _) hnew.shows

theorem Sound.recv {s s' : Chat} {k : UserPtr → Arrival} {v : UserPtr} (h : Sound s k)
    (hlinked : lobbyMirror.Linked s' ()) (hs : s.recv v = .ok s') : Sound s' k := by
  unfold Chat.recv at hs
  split at hs
  · rename_i client p up down hc
    obtain ⟨_, -, hs⟩ := bind_eq_ok_iff.mp hs
    cases hs
    refine h.setConn hlinked rfl rfl (fun _ _ => rfl) (h.known v) (fun w hw => ?_) fun u hu => ?_
    · simp [Ne.symm hw]
    · have hold := h.informed hc hu
      refine hold.shift rfl rfl id rfl ?_ hold.shows
      simp [outgoing]
  · contradiction

theorem Sound.accept {s s' : Chat} {k : UserPtr → Arrival} {addr : UserPtr} {socket : Socket}
    {outcome : Server.ConnectOutcome} (h : Sound s k) (hlinked : lobbyMirror.Linked s' ())
    (hs : s.accept addr socket outcome = .ok s') : Sound s' k := by
  obtain ⟨server, hserver, hs⟩ := bind_eq_ok_iff.mp hs
  cases hs
  obtain ⟨haddr, hacc⟩ := Server.accepted_of_ok hserver
  obtain ⟨-, -, hpkg⟩ := h.linked.unused haddr
  have hpackages := hacc.packages
  refine h.served (b := .accept addr socket outcome) hlinked hserver (fun {w c u} hc _ => ?_)
    fun _ => .inl ⟨rfl, rfl⟩
  by_cases hout : outcome = .connected
  · rw [if_pos hout, StdMap.find_set] at hc
    split at hc
    · rename_i hw
      subst hw
      exact .inr ⟨hpackages ▸ hpkg, (Option.some.inj hc).symm⟩
    · exact .inl hc
  · rw [if_neg hout] at hc
    exact .inl hc

theorem Sound.send {s s' : Chat} {k : UserPtr → Arrival} (h : Sound s k)
    (hlinked : lobbyMirror.Linked s' ()) (hfit : s.listFits .send = true)
    (hs : s.send = .ok s') : Sound s' k := by
  unfold Chat.send at hs
  split at hs
  · contradiction
  · rename_i package packages hp
    cases hs
    have hcounted := h.counted
    rw [hp] at hcounted
    have hshows : package.packet.Shows := by
      refine Packet.shows_of_fits (hcounted package List.mem_cons_self) fun hlist => ?_
      simpa [listFits, hp, hlist] using hfit
    have hfor : ∀ w, packetsFor w s.server.packages =
        if package.session = some w then package.packet :: packetsFor w packages
        else packetsFor w packages := fun w => by rw [hp, packetsFor_cons]
    refine ⟨hlinked, fun p hmem => hcounted p (List.mem_cons_of_mem _ hmem), h.known,
      fun {w c u} hc hu => ?_⟩
    rcases Mirror.find_deliver s package w with ⟨hfind, hgone⟩ | ⟨hw, -, hfind⟩
    · have hold := h.informed (hfind.symm.trans hc) hu
      refine hold.shift rfl rfl id ?_ (List.Subset.refl _) hold.shows
      rw [incoming, incoming, hfor, if_neg fun hw => hgone hw u hu]
    · obtain ⟨c₀, hc₀, rfl⟩ := Option.map_eq_some_iff.mp (hfind.symm.trans hc)
      have hold := h.informed hc₀ hu
      refine hold.shift rfl rfl id ?_ (List.Subset.refl _) ?_
      · rw [incoming, incoming, hfor, if_pos hw]
        simp
      · rw [← List.append_assoc]
        exact List.forall_mem_append.mpr ⟨hold.shows, List.forall_mem_singleton.mpr hshows⟩

theorem Sound.step {s s' : Chat} {k : UserPtr → Arrival} {a : Action} (h : Sound s k)
    (hg : s.allows Server.lobbyGuard a = true) (hfit : s.listFits a = true)
    (hs : s.step a = .ok s') : Sound s' (arrivals k s a) := by
  have hlinked : lobbyMirror.Linked s' () := h.linked.step lobbyMirror_lawful hg hs
  cases a with
  | accept addr socket outcome => exact h.accept hlinked hs
  | recv v => exact h.recv hlinked hs
  | disconnect v =>
    obtain ⟨id, hid, hs⟩ := bind_eq_ok_iff.mp hs
    obtain ⟨server, hserver, hs⟩ := bind_eq_ok_iff.mp hs
    cases hs
    exact h.served (b := .removeUser id) hlinked hserver (fun hc _ => .inl hc)
      fun _ => .inl ⟨rfl, rfl⟩
  | logic =>
    change s.logic = _ at hs
    unfold Chat.logic at hs
    split at hs
    · contradiction
    · rename_i package jobs hjobs
      obtain ⟨server, hserver, hs⟩ := bind_eq_ok_iff.mp hs
      cases hs
      exact h.served (b := .process package) hlinked hserver (fun hc _ => .inl hc)
        (takes_process hjobs server)
  | send => exact h.send hlinked hfit hs
  | client v a => exact h.client hlinked hs

theorem sound_of_reach {s : Chat × (UserPtr → Arrival)}
    (h : withArrivals.Reach
      (fun s a => s.1.allows Server.lobbyGuard a = true ∧ s.1.listFits a = true) s) :
    Sound s.1 s.2 := by
  refine h.invariant (P := fun s => Sound s.1 s.2) sound_init fun s a s' _ hl hg hs => ?_
  obtain ⟨hstep, hk⟩ := System.withHistory_step.mp hs
  rw [hk]
  exact hl.step hg.1 hg.2 hstep

/-- Without packets under way, a client that arrived in the lobby by logging in, or has created a
room since it came out of one, shows the rooms that there were when it arrived. -/
theorem lobbyDisplay_of_listed {s : Chat} {k : UserPtr → Arrival}
    (h : withArrivals.Reach
      (fun s a => s.1.allows Server.lobbyGuard a = true ∧ s.1.listFits a = true) (s, k))
    (hq : s.Quiescent) {w : UserPtr} {c : Conn} {u : User} (hc : s.conns.find w = some c)
    (hu : s.server.user w = .live u) (hst : c.client.state = .lobby)
    (hlisted : (k w).listed = true) :
    ∃ d, c.client.display = .lobby d ∧ ∀ x ∈ (k w).rooms, x ∈ d.chatRoomIds.zip d.chatRooms := by
  have hl := sound_of_reach h
  have hplace : c.client.display.place = .lobby :=
    (hl.linked.conn hc).fits.trans (congrArg ClientState.place hst)
  obtain ⟨d, hd⟩ := Display.lobby_of_place hplace
  refine ⟨d, hd, ?_⟩
  have hlists : s.lists w c = [d.chatRoomIds.zip d.chatRooms] := by
    rw [lists, Mirror.quiescent_incoming hq hc, hd]
    rfl
  rcases (hl.informed hc hu).arrived hst hlisted with ⟨p, hp, -⟩ | ⟨l, hl, hsub⟩
  · rw [Mirror.quiescent_outgoing hq hc hu] at hp
    contradiction
  · rw [hlists] at hl
    exact List.mem_singleton.mp hl ▸ hsub

theorem lobbyDisplay_of_login :
    ∃ s c d, system.Reachable s ∧ s.conns.find 1 = some c ∧ c.client.state = .lobby ∧
      c.client.display = .lobby d ∧ (1, Client.testRoomName) ∈ d.chatRoomIds.zip d.chatRooms := by
  obtain ⟨⟨s, k⟩, hs, hp⟩ := System.exists_of_runWith (S := withArrivals)
    (g := fun s a => s.1.allows Server.lobbyGuard a && s.1.listFits a)
    (fun _ _ h => (Bool.and_eq_true_iff ..).mp h)
    (p := fun s => decide (s.1.Quiescent ∧ (s.1.server.user 1).status = some true ∧
      (s.2 1).listed = true ∧ (1, Client.testRoomName) ∈ (s.2 1).rooms) &&
        (s.1.conns.find 1).any fun c => decide (c.client.state = .lobby))
    (login 0 [97] ++ pressEnter 0 ++ requests 0 1 ++ replies 0 1 ++ login 1 [98])
    (by decide +kernel)
  simp only [Bool.and_eq_true, decide_eq_true_eq, Option.any_eq_true] at hp
  obtain ⟨⟨hq, hlive, hlisted, hmem⟩, c, hc, hst⟩ := hp
  obtain ⟨u, hu⟩ := Cell.status_eq_live_iff.mp hlive
  obtain ⟨d, hd, hall⟩ := lobbyDisplay_of_listed hs hq hc hu hst hlisted
  have hreach : system.Reachable s := System.Reach.reachable (System.Reach.withHistory_fst
    (S := system)
    (G := fun s a => s.allows Server.lobbyGuard a = true ∧ s.listFits a = true) hs)
  exact ⟨s, c, d, hreach, hc, hst, hd, hall _ hmem⟩

/-- A user that comes back from its room sees an empty lobby. -/
theorem not_lobbyDisplay_complete :
    ¬ ∀ s k, withArrivals.Reach (fun s a => s.1.listFits a = true) (s, k) → s.Quiescent →
      ∀ w c u, s.conns.find w = some c → s.server.user w = .live u → c.client.state = .lobby →
        ∃ d, c.client.display = .lobby d ∧
          ∀ x ∈ (k w).rooms, x ∈ d.chatRoomIds.zip d.chatRooms := by
  intro h
  obtain ⟨⟨s, k⟩, hs, hp⟩ := System.exists_of_runWith (S := withArrivals)
    (g := fun s a => s.1.listFits a) (fun _ _ h => h)
    (p := fun s => decide (s.1.Quiescent ∧ (s.1.server.user 0).status = some true ∧
      (1, Client.testRoomName) ∈ (s.2 0).rooms) &&
        (s.1.conns.find 0).any fun c =>
          decide (c.client.state = .lobby ∧ c.client.display.rooms = []))
    (login 0 [97] ++ pressEnter 0 ++ requests 0 1 ++ replies 0 1 ++ pressEnter 0 ++ requests 0 1 ++
      replies 0 2 ++ enterLine 0 RoomDisplay.lobbyCommand ++ requests 0 1 ++ replies 0 1)
    (by decide +kernel)
  simp only [Bool.and_eq_true, decide_eq_true_eq, Option.any_eq_true] at hp
  obtain ⟨⟨hq, hlive, hmem⟩, c, hc, hst, hnone⟩ := hp
  obtain ⟨u, hu⟩ := Cell.status_eq_live_iff.mp hlive
  obtain ⟨d, hd, hall⟩ := h s k hs hq 0 c u hc hu hst
  have hshown := hall _ hmem
  have hempty : d.chatRoomIds.zip d.chatRooms = [] := by
    rwa [hd] at hnone
  rw [hempty] at hshown
  exact absurd hshown List.not_mem_nil

end Chat

end ChattingServer.V11
