import Mathlib.Data.List.Nodup
import Mathlib.Data.List.Perm.Basic

universe u v

namespace ChattingServer.Lib

section Conveyed

variable {κ : Type u} {β : Type v} [DecidableEq κ] {key : β → κ}

/-- Operations that are in progress, at most one for each key, each with the item that it has come
to.  What has been received under a key is what has been entered, followed by the item that is on
its way. -/
structure Conveyed (key : β → κ) (ops : List (κ × Option β)) (received entered : List β) :
    Prop where
  nodup : (ops.map Prod.fst).Nodup
  carried : ∀ op ∈ ops, received.filter (key · = op.1) =
    entered.filter (key · = op.1) ++ op.2.toList
  idle : ∀ k, k ∉ ops.map Prod.fst → received.filter (key · = k) = entered.filter (key · = k)

namespace Conveyed

variable {ops ops' : List (κ × Option β)} {received entered : List β} {k : κ} {b : β}

theorem nil : Conveyed key [] [] [] :=
  ⟨List.nodup_nil, List.forall_mem_nil _, fun _ _ => rfl⟩

theorem perm (h : Conveyed key ops received entered) (hp : ops.Perm ops') :
    Conveyed key ops' received entered where
  nodup := (hp.map _).nodup_iff.mp h.nodup
  carried op hop := h.carried op (hp.mem_iff.mpr hop)
  idle k hk := h.idle k fun hmem => hk ((hp.map _).mem_iff.mp hmem)

theorem start (h : Conveyed key ops received entered) (hk : k ∉ ops.map Prod.fst) :
    Conveyed key ((k, none) :: ops) received entered where
  nodup := List.nodup_cons.mpr ⟨hk, h.nodup⟩
  carried := List.forall_mem_cons.mpr ⟨by simpa using h.idle k hk, h.carried⟩
  idle j hj := h.idle j fun hmem => hj (List.mem_cons_of_mem _ hmem)

theorem finish (h : Conveyed key ((k, none) :: ops) received entered) :
    Conveyed key ops received entered where
  nodup := (List.nodup_cons.mp h.nodup).2
  carried op hop := h.carried op (List.mem_cons_of_mem _ hop)
  idle j hj := by
    by_cases hjk : j = k
    · subst hjk
      simpa using h.carried _ List.mem_cons_self
    · exact h.idle j (by simpa [hjk] using hj)

theorem filter_append_of_ne {l : List β} {j : κ} (h : key b ≠ j) :
    (l ++ [b]).filter (key · = j) = l.filter (key · = j) := by
  simp [h]

theorem update {o o' : Option β} {received' entered' : List β}
    (h : Conveyed key ((k, o) :: ops) received entered)
    (hreceived : ∀ j, j ≠ k → received'.filter (key · = j) = received.filter (key · = j))
    (hentered : ∀ j, j ≠ k → entered'.filter (key · = j) = entered.filter (key · = j))
    (hk : received'.filter (key · = k) = entered'.filter (key · = k) ++ o'.toList) :
    Conveyed key ((k, o') :: ops) received' entered' where
  nodup := h.nodup
  carried := by
    have hnot : k ∉ ops.map Prod.fst := (List.nodup_cons.mp h.nodup).1
    refine List.forall_mem_cons.mpr ⟨hk, fun op hop => ?_⟩
    have hne : op.1 ≠ k := ne_of_mem_of_not_mem (List.mem_map_of_mem hop) hnot
    rw [hreceived _ hne, hentered _ hne]
    exact h.carried op (List.mem_cons_of_mem _ hop)
  idle j hj := by
    have hne : j ≠ k := by
      rintro rfl
      exact hj List.mem_cons_self
    rw [hreceived _ hne, hentered _ hne]
    exact h.idle j hj

theorem receive (h : Conveyed key ((key b, none) :: ops) received entered) :
    Conveyed key ((key b, some b) :: ops) (received ++ [b]) entered := by
  refine h.update (fun j hj => filter_append_of_ne hj.symm) (fun _ _ => rfl) ?_
  have hk := h.carried _ List.mem_cons_self
  simpa using hk

theorem enter (h : Conveyed key ((key b, some b) :: ops) received entered) :
    Conveyed key ((key b, none) :: ops) received (entered ++ [b]) := by
  refine h.update (fun _ _ => rfl) (fun j hj => filter_append_of_ne hj.symm) ?_
  have hk := h.carried _ List.mem_cons_self
  simpa using hk

theorem prefix_received (h : Conveyed key ops received entered) (k : κ) :
    entered.filter (key · = k) <+: received.filter (key · = k) ∧
      (received.filter (key · = k)).length ≤ (entered.filter (key · = k)).length + 1 := by
  by_cases hk : k ∈ ops.map Prod.fst
  · obtain ⟨op, hop, rfl⟩ := List.mem_map.mp hk
    have hlen : op.2.toList.length ≤ 1 := by
      cases op.2 <;> simp
    rw [h.carried op hop]
    exact ⟨List.prefix_append .., by rw [List.length_append]; omega⟩
  · rw [h.idle k hk]
    exact ⟨List.prefix_refl _, Nat.le_succ _⟩

end Conveyed

end Conveyed

section Numbered

variable {β : Type v}

structure Numbered (n : Nat) (l : List (Nat × β)) : Prop where
  sorted : l.Pairwise (·.1 ≤ ·.1)
  lt : ∀ d ∈ l, d.1 < n

theorem Numbered.nil (n : Nat) : Numbered n ([] : List (Nat × β)) :=
  ⟨.nil, List.forall_mem_nil _⟩

theorem Numbered.batch {n : Nat} {l : List (Nat × β)} (h : Numbered n l) (items : List β) :
    Numbered (n + 1) (l ++ items.map (n, ·)) where
  sorted := by
    refine List.pairwise_append.mpr ⟨h.sorted, ?_, fun d hd e he => ?_⟩
    · exact List.pairwise_map.mpr (List.pairwise_of_forall fun _ _ => Nat.le_refl n)
    · obtain ⟨b, -, rfl⟩ := List.mem_map.mp he
      exact Nat.le_of_lt (h.lt d hd)
  lt := by
    refine List.forall_mem_append.mpr ⟨fun d hd => Nat.lt_succ_of_lt (h.lt d hd), fun e he => ?_⟩
    obtain ⟨b, -, rfl⟩ := List.mem_map.mp he
    exact Nat.lt_succ_self n

theorem Numbered.sublist {n : Nat} {l l' : List (Nat × β)} (h : Numbered n l)
    (hl : List.Sublist l' l) : Numbered n l' :=
  ⟨h.sorted.sublist hl, fun d hd => h.lt d (hl.subset hd)⟩

theorem le_of_pair_sublist {l : List (Nat × β)} (h : l.Pairwise (·.1 ≤ ·.1)) {d e : Nat × β}
    (hde : List.Sublist [d, e] l) : d.1 ≤ e.1 := by
  have hpair : [d, e].Pairwise (·.1 ≤ ·.1) := h.sublist hde
  exact (List.pairwise_cons.mp hpair).1 e List.mem_cons_self

theorem pair_sublist_of_lt {l : List (Nat × β)} (h : l.Pairwise (·.1 ≤ ·.1)) {d e : Nat × β}
    (hd : d ∈ l) (he : e ∈ l) (hlt : d.1 < e.1) :
    List.Sublist [d, e] l ∧ ¬ List.Sublist [e, d] l := by
  refine ⟨?_, fun hed => Nat.not_le_of_lt hlt (le_of_pair_sublist h hed)⟩
  obtain ⟨s, t, rfl⟩ := List.append_of_mem hd
  rcases List.mem_append.mp he with hs | ht
  · have hle := (List.pairwise_append.mp h).2.2 e hs d List.mem_cons_self
    exact absurd hle (Nat.not_le_of_lt hlt)
  · rcases List.mem_cons.mp ht with rfl | ht
    · exact absurd hlt (Nat.lt_irrefl _)
    · exact ((List.singleton_sublist.mpr ht).cons_cons d).trans (List.sublist_append_right ..)

end Numbered

section Take

variable {α : Type u} {β : Type v}

theorem filterMap_perm_of_getElem? {l : List α} {i : Nat} {a : α} (f : α → Option β)
    (h : l[i]? = some a) :
    (l.filterMap f).Perm ((f a).toList ++ (l.eraseIdx i).filterMap f) := by
  obtain ⟨hi, rfl⟩ := List.getElem?_eq_some_iff.mp h
  refine ((List.getElem_cons_eraseIdx_perm hi).filterMap f).symm.trans (.of_eq ?_)
  rw [List.filterMap_cons]
  cases f l[i] <;> rfl

theorem filterMap_set_perm {l : List α} {i : Nat} {a : α} (f : α → Option β)
    (h : l[i]? = some a) (b : α) :
    ((l.set i b).filterMap f).Perm ((f b).toList ++ (l.eraseIdx i).filterMap f) := by
  have hi := (List.getElem?_eq_some_iff.mp h).1
  refine ((List.set_perm_cons_eraseIdx hi b).filterMap f).trans (.of_eq ?_)
  rw [List.filterMap_cons]
  cases f b <;> rfl

end Take

end ChattingServer.Lib
