import ChattingServer.V10.Server.Occupancy

namespace ChattingServer.V10

open Lib

namespace Served

structure RightConnection (x : Served) : Prop where
  uni : ∀ p ∈ x.server.packetQueue.head?, ∀ stamp ∈ x.stamps.head?, p.sendType = .uni →
    ∀ failed, ∃ s' sends, x.server.run failed = .ok s' ∧ s'.sends = x.server.sends ++ sends ∧
      ∀ send ∈ sends, send.socket ≠ none →
        send.index = p.clientIndex ∧ x.occupant send.index = stamp.occupant
  close : ∀ p ∈ x.server.packetQueue.head?, ∀ stamp ∈ x.stamps.head?, p.isClose = true →
    ∀ failed, ∃ s' sends, x.server.run failed = .ok s' ∧ s'.sends = x.server.sends ++ sends ∧
      ∀ send ∈ sends, send.ioType = .close →
        send.index = p.clientIndex ∧ x.occupant send.index = stamp.occupant
  closed : ∀ e ∈ x.closing, ∃ s', x.server.close e.1 = .ok s' ∧
    ∀ i, x.server.clientMgr.connected i = true → s'.clientMgr.connected i = false →
      x.occupant i = e.2

def awaited (x : Served) (i : Nat) : Bool :=
  (x.server.packetQueue.any fun p =>
    p.clientIndex = i ∧ (p.sendType = .uni ∨ p.isClose = true)) || x.closing.any (·.1 = i)

/-- No connection is given a slot for which something is still to come. -/
def keepsAwaited (x : Served) : Event → Bool
  | .act (.accept _ outcome) =>
    outcome = .recvFailed ∨ x.server.clientMgr.nextSlot.all fun i => x.awaited i = false
  | _ => true

def Still (x : Served) (i : Nat) (occupant : Option Nat) : Prop :=
  x.server.clientMgr.connected i = true → x.occupant i = occupant

structure Kept (x : Served) : Prop where
  queued : ∀ e ∈ x.server.packetQueue.zip x.stamps, e.1.sendType = .uni ∨ e.1.isClose = true →
    x.Still e.1.clientIndex e.2.occupant
  closing : ∀ e ∈ x.closing, x.Still e.1 e.2

theorem not_given_of_awaited {x : Served} {e : Event} {i : Nat} (hg : x.keepsAwaited e = true)
    (hi : x.awaited i = true) {socket : Socket} {outcome : ConnectOutcome}
    (he : e = .act (.accept socket outcome)) (hmade : outcome ≠ .recvFailed) :
    x.server.clientMgr.nextSlot ≠ some i := by
  subst he
  intro hnext
  have hfree := (of_decide_eq_true hg).resolve_left hmade
  rw [hnext, Option.all_some, hi] at hfree
  contradiction

theorem awaited_of_mem_queue {x : Served} {p : PacketInfo} (hp : p ∈ x.server.packetQueue)
    (hkind : p.sendType = .uni ∨ p.isClose = true) : x.awaited p.clientIndex = true := by
  rw [awaited, Bool.or_eq_true, List.any_eq_true]
  exact .inl ⟨p, hp, decide_eq_true ⟨rfl, hkind⟩⟩

theorem awaited_of_mem_closing {x : Served} {e : Nat × Option Nat} (he : e ∈ x.closing) :
    x.awaited e.1 = true := by
  rw [awaited, Bool.or_eq_true, List.any_eq_true (l := x.closing)]
  exact .inr ⟨e, he, decide_eq_true rfl⟩

theorem Still.keeps {x x' : Served} {e : Event} {i : Nat} {occupant : Option Nat}
    (h : x.Still i occupant) (hk : Keeps x e x' i)
    (hnot : ∀ {socket outcome}, e = .act (.accept socket outcome) → outcome ≠ .recvFailed →
      x.server.clientMgr.nextSlot ≠ some i) : x'.Still i occupant := by
  intro hup'
  cases hk with
  | gone hdown =>
    rw [hup'] at hdown
    contradiction
  | still hup hsame => exact hsame.trans (h hup)
  | given he hmade hslot => exact absurd hslot (hnot he hmade)

theorem Kept.stepped {search : Bool} {x x' : Served} (h : Kept x) (ho : Orderly x) {e : Event}
    (hg : x.keepsAwaited e = true) (hs : Stepped search x e x') : Kept x' := by
  have hqueued : ∀ e' ∈ x.server.packetQueue.zip x.stamps,
      e'.1.sendType = .uni ∨ e'.1.isClose = true → x'.Still e'.1.clientIndex e'.2.occupant :=
    fun e' he' hkind => (h.queued e' he' hkind).keeps (hs.keeps ho _)
      (not_given_of_awaited hg (awaited_of_mem_queue (List.of_mem_zip he').1 hkind))
  have hclosing : ∀ e' ∈ x.closing, x'.Still e'.1 e'.2 := fun e' he' =>
    (h.closing e' he').keeps (hs.keeps ho _) (not_given_of_awaited hg (awaited_of_mem_closing he'))
  have hkeeps := hs.keeps ho
  cases hs with
  | accept => exact ⟨hqueued, hclosing⟩
  | @receive index data bound server hr =>
    obtain ⟨added, hadded, -⟩ := exists_enqueued_of_received ho hr
    refine ⟨fun e' he' hkind => ?_, hclosing⟩
    simp only [follow, hadded, List.drop_left, List.zip_append ho.stamped.symm] at he'
    rcases List.mem_append.mp he' with he' | he'
    · exact hqueued e' he' hkind
    · have hstamp : e'.2 = x.stamp e'.1 := by
        rw [← List.map_prod_left_eq_zip, List.mem_map] at he'
        obtain ⟨p, -, rfl⟩ := he'
        rfl
      rw [hstamp]
      have hnow : x.Still e'.1.clientIndex (x.stamp e'.1).occupant := fun _ => rfl
      refine hnow.keeps (hkeeps _) fun {_ _} h => ?_
      cases h
  | close _ event =>
    refine ⟨hqueued, fun e' he' => hclosing e' ?_⟩
    rcases event with ⟨-, rfl⟩ | ⟨k, o, -, -, rfl⟩
    · exact he'
    · exact List.mem_of_mem_eraseIdx he'
  | idle => exact h
  | @run failed p packetQueue stamp stamps c m queue stamped client loses =>
    rw [queue, stamped] at hqueued
    refine ⟨fun e' he' => hqueued e' (List.mem_cons_of_mem _ he'), fun e' he' => ?_⟩
    rcases List.mem_append.mp he' with he' | he'
    · exact hclosing e' he'
    · obtain ⟨send, hsend, rfl⟩ := List.mem_map.mp he'
      obtain ⟨hsend, hio⟩ := List.mem_filter.mp hsend
      obtain ⟨hclose, hindex, -⟩ :=
        ChatServer.close_of_mem_packetSends hsend (of_decide_eq_true hio).1
      have hstill := hqueued (p, stamp) List.mem_cons_self (.inr hclose)
      rw [hindex, stamped]
      exact hstill

theorem kept_init (n : Nat) : Kept ⟨.init n, fun _ => 0, [], [], []⟩ :=
  ⟨List.forall_mem_nil _, List.forall_mem_nil _⟩

theorem Kept.rightConnection {x : Served} (h : Kept x) (ho : Orderly x) : RightConnection x where
  uni p hp stamp hstamp huni failed := by
    obtain ⟨-, c, m, packetQueue, hc, -, hok⟩ := ho.front hp failed
    refine ⟨_, _, hok, rfl, fun send hsend hsocket => ?_⟩
    rw [ChatServer.packetSends, huni] at hsend
    obtain rfl := List.mem_singleton.mp hsend
    refine ⟨rfl, h.queued (p, stamp) (mem_zip_of_head hp hstamp) (.inl huni) ?_⟩
    rw [ClientManager.connected_of_getElem? hc]
    exact Option.isSome_iff_ne_none.mpr hsocket
  close p hp stamp hstamp hclose failed := by
    obtain ⟨-, c, m, packetQueue, -, -, hok⟩ := ho.front hp failed
    refine ⟨_, _, hok, rfl, fun send hsend hio => ?_⟩
    obtain ⟨-, hindex, hup⟩ := ChatServer.close_of_mem_packetSends hsend hio
    rw [hindex]
    exact ⟨rfl, h.queued (p, stamp) (mem_zip_of_head hp hstamp) (.inr hclose) hup⟩
  closed e he := by
    obtain ⟨c, hc⟩ := ho.sized.exists_client (ho.closing e he)
    refine ⟨_, close_eq hc, fun i hup hdown => ?_⟩
    rw [ClientManager.connected_closeClientAt hc, Bool.and_eq_false_iff,
      or_iff_left (by simpa using hup)] at hdown
    obtain rfl : i = e.1 := by simpa using hdown
    exact h.closing e he hup

/-- What is meant for a connection reaches no later one, in a run that gives no slot away while
something is still to come for it. -/
theorem rightConnection_of_keepsAwaited (search : Bool) (n : Nat) {x : Served}
    (h : (system search n).Reach (fun x e => x.keepsAwaited e = true) x) : RightConnection x := by
  have hkept : Kept x := h.invariant (kept_init n) fun _ _ _ hr hx hg hs =>
    hx.stepped (orderly_of_reach hr) hg (stepped_of_ok (orderly_of_reach hr) hs)
  exact hkept.rightConnection (orderly_of_reach h)

theorem rightConnection_of_two :
    ∃ x, (system true 8).Reachable x ∧ x.closing = [(0, some 1)] ∧
      x.server.packetQueue.map PacketInfo.clientIndex = [1, 0] ∧ RightConnection x := by
  obtain ⟨x, hx, hp⟩ := System.exists_of_runWith (S := system true 8)
    (G := fun x e => x.keepsAwaited e = true) (g := keepsAwaited)
    (p := fun x => decide (x.closing = [(0, some 1)] ∧
      x.server.packetQueue.map PacketInfo.clientIndex = [1, 0])) (fun _ _ h => h)
    [.act (.accept 7 .connected), .act (.accept 8 .connected),
      .act (.receive 0 (ChatServer.packet .roomEnter 1) true), .act (.run []),
      .act (.receive 0 (ChatServer.packet .serverExit 0) true), .act (.run []),
      .act (.receive 1 (ChatServer.packet .chatUnicast 0) true)] (by decide)
  obtain ⟨hclosing, hqueue⟩ := of_decide_eq_true hp
  exact ⟨x, hx.reachable, hclosing, hqueue, rightConnection_of_keepsAwaited true 8 hx⟩

/-- The reply to a client that has gone is sent to the one that was given its slot. -/
theorem not_rightConnection :
    ¬ ∀ search n x, (system search n).Reachable x → RightConnection x := by
  intro h
  obtain ⟨x, hx, hp⟩ := System.exists_of_run (S := system false 4)
    (p := fun x => decide (x.stamps.map Stamp.occupant = [some 1] ∧ x.occupant 0 = some 2 ∧
      x.server.packetQueue.map PacketInfo.sendType = [.uni] ∧ x.server.sends = []) &&
        (x.server.run []).toOption.any fun s' : ChatServer =>
          s'.sends.any fun send => send.index = 0 ∧ send.socket ≠ none)
    [.act (.accept 7 .connected), .act (.receive 0 (ChatServer.packet .serverEnter 0) true),
      .act (.close 0), .act (.accept 8 .connected)] (by decide)
  obtain ⟨hstate, hsent⟩ := (Bool.and_eq_true ..).mp hp
  obtain ⟨hstamps, hnow, hqueue, hnone⟩ := of_decide_eq_true hstate
  obtain ⟨stamp, hstamp, hthen⟩ := List.map_eq_singleton_iff.mp hstamps
  obtain ⟨p, hfront, huni⟩ := List.map_eq_singleton_iff.mp hqueue
  obtain ⟨s', sends, hok, hsends, hright⟩ := (h false 4 x hx).uni p (by rw [hfront]; rfl) stamp
    (by rw [hstamp]; rfl) huni []
  rw [hok] at hsent
  obtain ⟨send, hmem, hto⟩ := List.any_eq_true.mp hsent
  obtain ⟨hindex, hsocket⟩ := of_decide_eq_true hto
  rw [hsends, hnone, List.nil_append] at hmem
  have hsame := (hright send hmem hsocket).2
  rw [hindex, hnow, hthen] at hsame
  contradiction

end Served

end ChattingServer.V10
