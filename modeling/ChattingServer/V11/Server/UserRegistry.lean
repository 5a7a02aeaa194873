import ChattingServer.Lib.Counter
import ChattingServer.V11.Server.Membership

namespace ChattingServer.V11

open Lib

namespace Server

inductive UserAction
  | createUser (addr : UserPtr) (socket : Socket) (outcome : ConnectOutcome)
  | removeUser (user : UserPtr)
  | removeUserById (id : UInt32)

def userStep (s : Server) : UserAction → Except Fault Server
  | .createUser addr socket outcome => do
    let (_, s) ← s.createUser addr socket outcome
    return s
  | .removeUser user => s.removeUser (some user)
  | .removeUserById id => s.removeUserById id

def give (given : List UInt32) (s : Server) : UserAction → List UInt32
  | .createUser _ _ .connected => given ++ [s.userId]
  | _ => given

abbrev Registering := Server × List UInt32

def registering : System Registering UserAction Fault :=
  System.withHistory ⟨init, userStep⟩ [] give

structure Identified (x : Registering) : Prop where
  stored : ∀ {id v}, x.1.userList.find id = some v →
    ∃ u, x.1.user v = .live u ∧ u.userId = id ∧ u.session.userId = id
  given : x.2.Nodup
  owner : ∀ {v u}, x.1.user v = .live u →
    x.1.getUser u.session.userId = some v ∧ x.1.getSession u.session.userId = some v
  unknown : ∀ id, x.1.userList.find id = none → x.1.removeUserById id = .ok x.1
  failed : ∀ addr socket outcome, x.1.user addr = .unused → outcome ≠ .connected →
    ∃ s', x.1.createUser addr socket outcome = .ok (false, s') ∧
      s'.userList = x.1.userList ∧ s'.userId = x.1.userId ∧ s'.userInLobby = x.1.userInLobby

structure Enrolled (s : Server) (given : List UInt32) : Prop where
  registry : s.Registry
  next : s.userId = Counter.uint32.value (given.length + 1)
  values : given = Counter.uint32.values given.length
  mem : ∀ {id v}, s.userList.find id = some v → id ∈ given
  live : ∀ {v u}, s.user v = .live u → s.userList.find u.userId = some v

theorem enrolled_init : Enrolled init [] where
  registry := registry_init
  next := rfl
  values := rfl
  mem h := by simp [init] at h
  live h := by simp [init] at h

theorem Enrolled.fresh {s : Server} {given : List UInt32} (h : Enrolled s given)
    (hlt : given.length + 1 < Counter.uint32.bound) : s.userList.find s.userId = none := by
  cases hid : s.userList.find s.userId with
  | none => rfl
  | some v =>
    have hmem := h.mem hid
    rw [h.values, h.next] at hmem
    exact absurd hmem (Counter.uint32.value_not_mem_values hlt)

theorem Enrolled.created {s s' : Server} {given : List UInt32} (h : Enrolled s given)
    (hlt : given.length + 1 < Counter.uint32.bound) {addr : UserPtr} {socket : Socket}
    (haddr : s.user addr = .unused) (hs : Accepted s addr socket .connected s') :
    Enrolled s' (given ++ [s.userId]) := by
  have hlen : (given ++ [s.userId]).length = given.length + 1 := List.length_append
  have hreg := h.registry.accept haddr hs
  cases hs with
  | connected =>
    refine ⟨hreg, ?_, ?_, fun {id v} hid => ?_, fun {v u} hv => ?_⟩
    · change s.userId + 1 = _
      rw [hlen, h.next, Counter.uint32_succ]
    · rw [hlen, Counter.values_succ, ← h.next, ← h.values]
    · rcases StdMap.find_of_find_insert hid with hid | ⟨-, rfl, -⟩
      · exact List.mem_append_left _ (h.mem hid)
      · exact List.mem_append_right _ (List.mem_singleton_self _)
    · have hfree := h.fresh hlt
      change (s.userList.insert s.userId addr).find u.userId = some v
      rw [StdMap.find_insert_of_none hfree]
      by_cases hva : v = addr
      · subst hva
        change (s.setUser v _).user v = _ at hv
        rw [user_setUser_self] at hv
        cases hv
        exact if_pos rfl
      · have hold : s.user v = .live u := (user_setUser_of_ne s hva _).symm.trans hv
        have hfind := h.live hold
        rw [if_neg, hfind]
        intro heq
        rw [heq, hfind] at hfree
        contradiction
  | failed hne _ => contradiction

theorem Enrolled.failed {s s' : Server} {given : List UInt32} (h : Enrolled s given)
    {addr : UserPtr} {socket : Socket} {outcome : ConnectOutcome} (haddr : s.user addr = .unused)
    (hne : outcome ≠ .connected) (hs : Accepted s addr socket outcome s') :
    Enrolled s' given := by
  have hreg := h.registry.accept haddr hs
  cases hs with
  | connected => contradiction
  | failed _ closed =>
    refine ⟨hreg, h.next, h.values, h.mem, fun {v u} hv => ?_⟩
    by_cases hva : v = addr
    · subst hva
      change (s.setUser v _).user v = _ at hv
      rw [user_setUser_self] at hv
      contradiction
    · exact h.live ((user_setUser_of_ne s hva _).symm.trans hv)

theorem userList_removed (s : Server) (v : UserPtr) (u : User) :
    (s.removed v u).userList = s.userList.erase u.userId := by
  unfold removed
  split <;> rfl

theorem Enrolled.removed {s : Server} {given : List UInt32} (h : Enrolled s given)
    {v : UserPtr} {u : User} (hu : s.user v = .live u)
    (hv : s.userList.find u.userId = some v) : Enrolled (s.removed v u) given where
  registry := h.registry.removed hu hv
  next := (userId_removed s v u).trans h.next
  values := h.values
  mem {id w} hw := by
    rw [userList_removed, StdMap.find_erase] at hw
    split at hw
    · contradiction
    · exact h.mem hw
  live {w y} hw := by
    rw [user_removed] at hw
    split at hw
    · contradiction
    · rename_i hne
      have hfind := h.live hw
      rw [userList_removed, StdMap.find_erase, if_neg, hfind]
      intro heq
      rw [← heq, hv] at hfind
      exact hne (Option.some.inj hfind).symm

theorem Enrolled.step {x x' : Registering} (h : Enrolled x.1 x.2)
    (hlt : x'.2.length < Counter.uint32.bound) {a : UserAction}
    (hstep : registering.step x a = .ok x') : Enrolled x'.1 x'.2 := by
  obtain ⟨s, given⟩ := x
  obtain ⟨s', hs, rfl⟩ := System.exists_of_withHistory_step hstep
  change s.userStep a = .ok s' at hs
  cases a with
  | createUser addr socket outcome =>
    simp only [userStep, bind_eq_ok_iff, Prod.exists] at hs
    obtain ⟨created, t, ht, hs⟩ := hs
    cases hs
    obtain ⟨haddr, -, hacc⟩ := accepted_of_createUser ht
    cases outcome with
    | connected =>
      have hlen : (given ++ [s.userId]).length = given.length + 1 := List.length_append
      exact h.created (hlen ▸ hlt) haddr hacc
    | bindFailed | recvFailed => exact h.failed haddr (by decide) hacc
  | removeUser user =>
    obtain ⟨v, u, -, hu, -, rfl⟩ := removeUser_ok_iff.mp hs
    exact h.removed hu (h.live hu)
  | removeUserById id =>
    rcases removedById_of_ok hs with ⟨-, rfl⟩ | ⟨v, u, -, hu, -, rfl⟩
    · exact h
    · exact h.removed hu (h.live hu)

theorem le_length_give (given : List UInt32) (s : Server) (a : UserAction) :
    given.length ≤ (give given s a).length := by
  unfold give
  split
  · exact List.length_append ▸ Nat.le_add_right ..
  · exact Nat.le_refl _

theorem enrolled_of_reachable {x : Registering} (h : registering.Reachable x)
    (hlt : x.2.length < Counter.uint32.bound) : Enrolled x.1 x.2 := by
  refine h.invariant (P := fun x => x.2.length < Counter.uint32.bound → Enrolled x.1 x.2)
    (fun _ => enrolled_init) (fun x a x' _ ih _ hs hlt' => ?_) hlt
  have hle : x.2.length ≤ x'.2.length := by
    rw [(System.withHistory_step.mp hs).2]
    exact le_length_give ..
  exact (ih (Nat.lt_of_le_of_lt hle hlt')).step hlt' hs

theorem createUser_failed {s : Server} {addr : UserPtr} (haddr : s.user addr = .unused)
    (socket : Socket) {outcome : ConnectOutcome} (hne : outcome ≠ .connected) :
    ∃ s', s.createUser addr socket outcome = .ok (false, s') ∧
      s'.userList = s.userList ∧ s'.userId = s.userId ∧ s'.userInLobby = s.userInLobby := by
  rw [createUser, newUser, haddr]
  cases outcome with
  | connected => contradiction
  | bindFailed | recvFailed => exact ⟨_, rfl, rfl, rfl, rfl⟩

theorem Enrolled.identified {x : Registering} (h : Enrolled x.1 x.2)
    (hlt : x.2.length < Counter.uint32.bound) : Identified x where
  stored := h.registry.user
  given := h.values ▸ Counter.uint32.values_nodup hlt
  owner hu := by
    have hv := h.live hu
    obtain ⟨y, hy, -, hsession⟩ := h.registry.user hv
    rw [hu] at hy
    cases hy
    rw [hsession]
    exact ⟨hv, hv⟩
  unknown id hid := by rw [removeUserById, hid]; rfl
  failed addr socket _ haddr hne := createUser_failed haddr socket hne

/-- In every run with fewer than `2 ^ 32` connections the ids tell users apart. -/
theorem identified_of_reachable {x : Registering} (h : registering.Reachable x)
    (hlt : x.2.length < 2 ^ 32) : Identified x :=
  (enrolled_of_reachable h hlt).identified hlt

theorem identified_of_three :
    ∃ x, registering.Reachable x ∧ x.2 = [1, 2, 3] ∧ x.1.getUser 2 = none ∧ Identified x := by
  obtain ⟨x, hx, hp⟩ := System.exists_of_run (S := registering)
    (p := fun x => decide (x.2 = [1, 2, 3] ∧ x.1.getUser 2 = none))
    [.createUser 10 7 .connected, .createUser 11 8 .recvFailed, .createUser 12 9 .connected,
      .removeUserById 2, .removeUserById 9, .createUser 13 10 .connected, .removeUser 10]
    (by decide)
  have hend := of_decide_eq_true hp
  exact ⟨x, hx, hend.1, hend.2, identified_of_reachable hx (by rw [hend.1]; decide)⟩

end Server

end ChattingServer.V11
