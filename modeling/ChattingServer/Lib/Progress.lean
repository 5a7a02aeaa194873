import Mathlib.Algebra.BigOperators.Group.List.Basic
import Mathlib.Algebra.GroupWithZero.Nat
import ChattingServer.Lib.Refinement

universe u v w

namespace ChattingServer.Lib

theorem sum_map_set {β : Type u} (f : β → Nat) {l : List β} {i : Nat} {b : β} (h : l[i]? = some b)
    (c : β) : ((l.set i c).map f).sum + f b = (l.map f).sum + f c := by
  induction l generalizing i with
  | nil => contradiction
  | cons a l ih =>
    cases i with
    | zero =>
      obtain rfl : a = b := Option.some.inj h
      simp only [List.set_cons_zero, List.map_cons, List.sum_cons]
      omega
    | succ i =>
      have hrest := ih h
      simp only [List.set_cons_succ, List.map_cons, List.sum_cons]
      omega

theorem countP_set_add {β : Type u} {p : β → Bool} {l : List β} {i : Nat} {b : β}
    (h : l[i]? = some b) (c : β) :
    (l.set i c).countP p + (if p b then 1 else 0) = l.countP p + if p c then 1 else 0 := by
  obtain ⟨hi, rfl⟩ := List.getElem?_eq_some_iff.mp h
  have hle : (if p l[i] then 1 else 0) ≤ l.countP p := by
    split
    · rename_i hp
      exact List.countP_pos_iff.mpr ⟨_, List.getElem_mem hi, hp⟩
    · exact Nat.zero_le _
  rw [List.countP_set hi]
  omega

namespace System

variable {σ : Type u} {α : Type v} {ε : Type w} {S : System σ α ε} {G : σ → α → Prop}

theorem exists_path {P Q : σ → Prop} (rank : σ → Nat)
    (turn : ∀ s, P s → Q s ∨ ∃ a s', G s a ∧ S.step s a = .ok s' ∧ P s' ∧ rank s' < rank s)
    {s : σ} (hs : P s) : ∃ p s', S.Path G s p s' ∧ Q s' := by
  induction hn : rank s using Nat.strongRecOn generalizing s with
  | _ n ih =>
    rcases turn s hs with hQ | ⟨a, t, hg, hstep, ht, hrank⟩
    · exact ⟨[], s, .nil, hQ⟩
    · obtain ⟨p, s', hp, hQ⟩ := ih _ (hn ▸ hrank) ht rfl
      exact ⟨(s, a) :: p, s', .cons hg hstep hp, hQ⟩

theorem Path.keeps {P : σ → Prop}
    (step : ∀ s a s', P s → G s a → S.step s a = .ok s' → P s') {s s' : σ} {p : List (σ × α)}
    (h : S.Path G s p s') (hs : P s) : P s' ∧ S.Path (fun s a => P s ∧ G s a) s p s' := by
  induction h with
  | nil => exact ⟨hs, .nil⟩
  | cons hg hstep _ ih =>
    obtain ⟨hend, hp⟩ := ih (step _ _ _ hs hg hstep)
    exact ⟨hend, .cons ⟨hs, hg⟩ hstep hp⟩

def costOf (cost : α → Nat) (p : List (σ × α)) : Nat := (p.map fun x => cost x.2).sum

theorem costOf_eq_zero {cost : α → Nat} {p : List (σ × α)} (h : ∀ x ∈ p, cost x.2 = 0) :
    costOf cost p = 0 := by
  refine List.sum_eq_zero fun n hn => ?_
  obtain ⟨x, hx, rfl⟩ := List.mem_map.mp hn
  exact h x hx

theorem Path.debt_le {cost : α → Nat} {debt : σ → Int}
    (step : ∀ s a s', G s a → S.step s a = .ok s' → debt s ≤ debt s' + cost a) {s s' : σ}
    {p : List (σ × α)} (h : S.Path G s p s') : debt s ≤ debt s' + costOf cost p := by
  induction h with
  | nil => simp [costOf]
  | @cons s t s' a p hg hs _ ih =>
    have hstep := step s a t hg hs
    simp only [costOf, List.map_cons, List.sum_cons, Int.natCast_add] at ih ⊢
    omega

end System

end ChattingServer.Lib
