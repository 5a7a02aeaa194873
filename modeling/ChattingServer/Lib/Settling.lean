import Mathlib.Data.Multiset.DershowitzManna
import Mathlib.Order.WellFounded
import ChattingServer.Lib.Transition

universe u v w

namespace ChattingServer.Lib

section Ranks

variable {κ : Type u} {β : Type v}

def ranksOf (f : β → κ) (l : List β) : Multiset κ := ↑(l.map f)

@[simp] theorem ranksOf_nil (f : β → κ) : ranksOf f [] = 0 := rfl

@[simp] theorem ranksOf_cons (f : β → κ) (b : β) (l : List β) :
    ranksOf f (b :: l) = {f b} + ranksOf f l := rfl

@[simp] theorem ranksOf_append (f : β → κ) (l l' : List β) :
    ranksOf f (l ++ l') = ranksOf f l + ranksOf f l' := by
  simp [ranksOf]

theorem mem_ranksOf {f : β → κ} {l : List β} {k : κ} : k ∈ ranksOf f l ↔ ∃ b ∈ l, f b = k := by
  simp [ranksOf]

variable [Preorder κ]

def Spends (m m' : Multiset κ) : Prop :=
  ∃ k rest new, m = {k} + rest ∧ m' = new + rest ∧ ∀ j ∈ new, j < k

variable {m m' : Multiset κ}

theorem Spends.lt (h : Spends m m') : m'.IsDershowitzMannaLT m := by
  obtain ⟨k, rest, new, rfl, rfl, hnew⟩ := h
  refine ⟨rest, new, {k}, Multiset.singleton_ne_zero k, add_comm .., add_comm .., fun j hj => ?_⟩
  exact ⟨k, Multiset.mem_singleton_self k, hnew j hj⟩

theorem Spends.add_right (h : Spends m m') (l : Multiset κ) : Spends (m + l) (m' + l) := by
  obtain ⟨k, rest, new, rfl, rfl, hnew⟩ := h
  exact ⟨k, rest + l, new, add_assoc .., add_assoc .., hnew⟩

theorem spends_move {j k : κ} (h : j < k) (rest : Multiset κ) (hm : m = {k} + rest)
    (hm' : m' = {j} + rest) : Spends m m' :=
  ⟨k, rest, {j}, hm, hm', fun i hi => by rwa [Multiset.mem_singleton.mp hi]⟩

theorem spends_drop {k : κ} (hm : m = {k} + m') : Spends m m' :=
  ⟨k, m', 0, hm, (zero_add _).symm, fun _ hj => absurd hj (Multiset.notMem_zero _)⟩

theorem spends_answer {k : κ} {f : β → κ} {l : List β} (h : ∀ b ∈ l, f b < k) (rest : Multiset κ)
    (hm : m = {k} + rest) (hm' : m' = ranksOf f l + rest) : Spends m m' := by
  refine ⟨k, rest, ranksOf f l, hm, hm', fun j hj => ?_⟩
  obtain ⟨b, hb, rfl⟩ := mem_ranksOf.mp hj
  exact h b hb

end Ranks

namespace System

variable {σ : Type u} {α : Type v} {ε : Type w}

def Next (S : System σ α ε) (A : α → Prop) (s s' : σ) : Prop := ∃ a, A a ∧ S.step s a = .ok s'

def Stuck (S : System σ α ε) (A : α → Prop) (s : σ) : Prop := ∀ s', ¬ S.Next A s s'

section Settling

variable {κ : Type u} [Preorder κ] [WellFoundedLT κ] {S : System σ α ε} {A : α → Prop}
  {ranks : σ → Multiset κ}

theorem wellFounded_of_spends
    (spends : ∀ s a s', A a → S.step s a = .ok s' → Spends (ranks s) (ranks s')) :
    WellFounded fun s' s => S.Next A s s' := by
  refine Subrelation.wf ?_ (InvImage.wf ranks Multiset.wellFounded_isDershowitzMannaLT)
  rintro s' s ⟨a, ha, hs⟩
  exact (spends s a s' ha hs).lt

end Settling

theorem exists_stuck {S : System σ α ε} {A : α → Prop}
    (wf : WellFounded fun s' s => S.Next A s s') (s : σ) :
    ∃ s', Relation.ReflTransGen (S.Next A) s s' ∧ S.Stuck A s' := by
  induction s using wf.induction with
  | _ s ih =>
    by_cases hs : S.Stuck A s
    · exact ⟨s, .refl, hs⟩
    · simp only [Stuck, not_forall, not_not] at hs
      obtain ⟨t, ht⟩ := hs
      obtain ⟨s', hreach, hstuck⟩ := ih t ht
      exact ⟨s', .head ht hreach, hstuck⟩

theorem not_endless {S : System σ α ε} {A : α → Prop}
    (wf : WellFounded fun s' s => S.Next A s s') (f : Nat → σ) :
    ¬ ∀ n, S.Next A (f n) (f (n + 1)) := fun hf =>
  (wellFounded_iff_isEmpty_descending_chain.mp wf).false ⟨f, hf⟩

end System

end ChattingServer.Lib
