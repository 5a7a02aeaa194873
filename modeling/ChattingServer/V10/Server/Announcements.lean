import ChattingServer.Lib.Alternation
import ChattingServer.V10.Server.UserInfo

namespace ChattingServer.V10

open Lib

inductive NoticeKind
  | enter
  | exit
  deriving DecidableEq

structure Notice where
  kind : NoticeKind
  accepted : Bool
  deriving DecidableEq

def Notice.kinds (ns : List Notice) : List NoticeKind := (ns.filter (·.accepted)).map (·.kind)

@[simp] theorem Notice.kinds_nil : kinds [] = [] := rfl

@[simp] theorem Notice.kinds_append (ns ns' : List Notice) :
    kinds (ns ++ ns') = kinds ns ++ kinds ns' := by
  simp [kinds]

@[simp] theorem Notice.kinds_accepted (kind : NoticeKind) (ns : List Notice) :
    kinds (⟨kind, true⟩ :: ns) = kind :: kinds ns := rfl

@[simp] theorem Notice.kinds_rejected (kind : NoticeKind) (ns : List Notice) :
    kinds (⟨kind, false⟩ :: ns) = kinds ns := rfl

structure Teller where
  room : Int32
  prevRoom : Int32
  pending : List Notice

namespace Teller

def audience (t : Teller) : Option Int32 :=
  if t.room = UserInfo.lobby then
    if t.prevRoom = UserInfo.lobby then none else some t.prevRoom
  else some t.room

def bound (t : Teller) (room : Int32) : List NoticeKind :=
  if t.audience = some room then Notice.kinds t.pending else []

inductive Move : Teller → List NoticeKind → Teller → Prop
  | stay {t : Teller} : Move t [] t
  | shown {t : Teller} {n : Notice} {pending : List Notice} (front : t.pending = n :: pending) :
    Move t [n.kind] { t with pending }
  | enter {t : Teller} {room : Int32} (lobby : t.room = UserInfo.lobby)
      (proper : room ≠ UserInfo.lobby) (settled : room = t.prevRoom ∨ t.pending = []) :
    Move t [] { t with room, pending := t.pending ++ [⟨.enter, true⟩] }
  | exit {t : Teller} (proper : t.room ≠ UserInfo.lobby) :
    Move t [] ⟨UserInfo.lobby, t.room, t.pending ++ [⟨.exit, true⟩]⟩
  | refused {t : Teller} {kind : NoticeKind} (unheard : t.audience = none) :
    Move t [] { t with pending := t.pending ++ [⟨kind, false⟩] }

structure Consistent (t : Teller) : Prop where
  alternates : Alternates (Notice.kinds t.pending) fun k => k = .enter ↔ t.room ≠ UserInfo.lobby
  unheard : ∀ n ∈ t.pending, n.accepted = false → t.audience = none

structure Follows (past : List NoticeKind) (room : Int32) (t : Teller) : Prop where
  alternates : Alternates (past ++ t.bound room) fun k => k = .enter ↔ t.room = room
  known : past ++ t.bound room = [] → t.room = room

theorem audience_of_ne {t : Teller} (h : t.room ≠ UserInfo.lobby) : t.audience = some t.room :=
  if_neg h

theorem audience_of_lobby {t : Teller} (h : t.room = UserInfo.lobby)
    (hprev : t.prevRoom ≠ UserInfo.lobby) : t.audience = some t.prevRoom := by
  rw [audience, if_pos h, if_neg hprev]

theorem bound_of_ne {t : Teller} {room : Int32} (h : t.audience ≠ some room) : t.bound room = [] :=
  if_neg h

theorem bound_of_eq {t : Teller} {room : Int32} (h : t.audience = some room) :
    t.bound room = Notice.kinds t.pending :=
  if_pos h

theorem Move.consistent {t t' : Teller} {ks : List NoticeKind} (h : Move t ks t')
    (hc : t.Consistent) : t'.Consistent := by
  cases h with
  | stay => exact hc
  | @shown n pending front =>
    have halt := hc.alternates
    have hunheard := hc.unheard
    rw [front] at halt hunheard
    refine ⟨?_, fun n' hn' => hunheard n' (List.mem_cons_of_mem _ hn')⟩
    obtain ⟨kind, accepted⟩ := n
    cases accepted with
    | true => exact halt.tail
    | false => exact halt
  | @enter room lobby proper settled =>
    refine ⟨?_, List.forall_mem_append.mpr ⟨fun n hn hrejected => ?_, by simp⟩⟩
    · rw [Notice.kinds_append]
      exact hc.alternates.concat (by simp [lobby]) (by simp [proper])
    · -- a refused request that is still waiting had no room to go to
      have hnone := hc.unheard n hn hrejected
      rcases settled with rfl | hnil
      · rw [audience_of_lobby lobby proper] at hnone
        contradiction
      · rw [hnil] at hn
        contradiction
  | exit proper =>
    refine ⟨?_, List.forall_mem_append.mpr ⟨fun n hn hrejected => ?_, by simp⟩⟩
    · rw [Notice.kinds_append]
      exact hc.alternates.concat (by simp [proper]) (by simp)
    · have hnone := hc.unheard n hn hrejected
      rw [audience_of_ne proper] at hnone
      contradiction
  | refused unheard =>
    refine ⟨?_, fun _ _ _ => unheard⟩
    rw [Notice.kinds_append]
    simpa using hc.alternates

theorem bound_of_shown {t : Teller} (hc : t.Consistent) {n : Notice} {pending : List Notice}
    (front : t.pending = n :: pending) (room : Int32) :
    t.bound room = (if t.audience = some room then [n.kind] else []) ++
      { t with pending : Teller }.bound room := by
  by_cases haud : t.audience = some room
  · have haccepted : n.accepted = true := by
      by_contra hrejected
      have hnone := hc.unheard n (front ▸ List.mem_cons_self) (by simpa using hrejected)
      rw [hnone] at haud
      contradiction
    obtain ⟨kind, accepted⟩ := n
    obtain rfl : accepted = true := haccepted
    rw [bound_of_eq haud, bound_of_eq (t := { t with pending }) haud, if_pos haud, front]
    rfl
  · rw [bound_of_ne haud, bound_of_ne (t := { t with pending }) haud, if_neg haud]
    rfl

theorem Follows.congr {past : List NoticeKind} {room : Int32} {t t' : Teller}
    (h : Follows past room t) (hbound : t'.bound room = t.bound room)
    (hroom : t'.room = room ↔ t.room = room) : Follows past room t' where
  alternates := by
    rw [hbound]
    exact h.alternates.imp fun k hk => hk.trans hroom.symm
  known hnil := hroom.mpr (h.known (hbound ▸ hnil))

theorem Follows.concat {past : List NoticeKind} {room : Int32} {t t' : Teller} {k : NoticeKind}
    (h : Follows past room t) (hbound : t'.bound room = t.bound room ++ [k])
    (hold : ¬ (k = .enter ↔ t.room = room)) (hnew : k = .enter ↔ t'.room = room) :
    Follows past room t' where
  alternates := by
    rw [hbound, ← List.append_assoc]
    exact h.alternates.concat hold hnew
  known hnil := by simp [hbound] at hnil

theorem Follows.shown {past : List NoticeKind} {room : Int32} {t : Teller}
    (h : Follows past room t) (hc : t.Consistent) {n : Notice} {pending : List Notice}
    (front : t.pending = n :: pending) :
    Follows (past ++ if t.audience = some room then [n.kind] else []) room
      { t with pending } := by
  obtain ⟨halt, hknown⟩ := h
  rw [bound_of_shown hc front room, ← List.append_assoc] at halt hknown
  exact ⟨halt, hknown⟩

theorem Follows.enter {past : List NoticeKind} {room r : Int32} {t : Teller}
    (h : Follows past room t) (hroom : room ≠ UserInfo.lobby) (lobby : t.room = UserInfo.lobby)
    (proper : r ≠ UserInfo.lobby) (settled : r = t.prevRoom ∨ t.pending = []) :
    Follows past room { t with room := r, pending := t.pending ++ [⟨.enter, true⟩] } := by
  by_cases hr : r = room
  · subst hr
    refine h.concat (k := .enter) ?_ (by simp [lobby, proper.symm]) (by simp)
    rw [bound_of_eq (audience_of_ne proper), Notice.kinds_append]
    rcases settled with rfl | hnil
    · rw [bound_of_eq (audience_of_lobby lobby proper)]
      rfl
    · simp [bound, hnil]
  · refine h.congr ?_ (by simp [hr, lobby, hroom.symm])
    have hnone : t.bound room = [] := by
      rcases settled with rfl | hnil
      · refine bound_of_ne ?_
        rw [audience_of_lobby lobby proper]
        simpa using hr
      · simp [bound, hnil]
    rw [hnone]
    refine bound_of_ne ?_
    rw [audience_of_ne proper]
    simpa using hr

theorem Follows.exit {past : List NoticeKind} {room : Int32} {t : Teller}
    (h : Follows past room t) (hroom : room ≠ UserInfo.lobby) (proper : t.room ≠ UserInfo.lobby) :
    Follows past room ⟨UserInfo.lobby, t.room, t.pending ++ [⟨.exit, true⟩]⟩ := by
  have haud := audience_of_ne proper
  have haud' := audience_of_lobby
    (t := ⟨UserInfo.lobby, t.room, t.pending ++ [⟨.exit, true⟩]⟩) rfl proper
  by_cases hr : t.room = room
  · subst hr
    refine h.concat (k := .exit) ?_ (by simp) (by simp [proper.symm])
    rw [bound_of_eq haud, bound_of_eq haud', Notice.kinds_append]
    rfl
  · refine h.congr ?_ (by simp [hr, hroom.symm])
    rw [bound_of_ne (by rw [haud']; simpa using hr), bound_of_ne (by rw [haud]; simpa using hr)]

theorem Follows.refused {past : List NoticeKind} {room : Int32} {t : Teller} {kind : NoticeKind}
    (h : Follows past room t) (unheard : t.audience = none) :
    Follows past room { t with pending := t.pending ++ [⟨kind, false⟩] } := by
  have hne : t.audience ≠ some room := by simp [unheard]
  refine h.congr ?_ Iff.rfl
  rw [bound_of_ne hne]
  exact bound_of_ne hne

theorem Move.follows {t t' : Teller} {ks : List NoticeKind} (h : Move t ks t')
    (hc : t.Consistent) {past : List NoticeKind} {room : Int32} (hroom : room ≠ UserInfo.lobby)
    (hf : Follows past room t) :
    Follows (past ++ if t.audience = some room then ks else []) room t' := by
  cases h with
  | stay => simpa using hf
  | shown front => exact hf.shown hc front
  | enter lobby proper settled =>
    rw [ite_self, List.append_nil]
    exact hf.enter hroom lobby proper settled
  | exit proper =>
    rw [ite_self, List.append_nil]
    exact hf.exit hroom proper
  | refused unheard =>
    rw [ite_self, List.append_nil]
    exact hf.refused unheard

theorem Consistent.follows {t : Teller} (h : t.Consistent) {room : Int32}
    (hroom : room ≠ UserInfo.lobby) (hwelcome : t.room ≠ room → t.audience = some room →
      (Notice.kinds t.pending).head? ≠ some .exit) :
    Follows (if t.room = room then [] else [.exit]) room t := by
  by_cases hin : t.room = room
  · subst hin
    rw [if_pos rfl]
    refine ⟨?_, fun _ => rfl⟩
    rw [List.nil_append, bound_of_eq (audience_of_ne hroom)]
    exact h.alternates.imp fun k hk => by simpa [hroom] using hk
  · rw [if_neg hin]
    refine ⟨?_, by simp⟩
    by_cases haud : t.audience = some room
    · -- it is in the lobby, and has been in the room
      have hlobby : t.room = UserInfo.lobby := by
        by_contra hne
        rw [audience_of_ne hne, Option.some.injEq] at haud
        exact hin haud
      rw [bound_of_eq haud]
      have hnow : Alternates (Notice.kinds t.pending) fun k => k = .enter ↔ t.room = room :=
        h.alternates.imp fun k hk => by simpa [hlobby, hroom.symm] using hk
      exact hnow.cons (hwelcome hin haud) fun _ => by simp [hin]
    · rw [bound_of_ne haud]
      exact Alternates.nil.cons (by simp) fun _ => by simp [hin]

end Teller

end ChattingServer.V10
