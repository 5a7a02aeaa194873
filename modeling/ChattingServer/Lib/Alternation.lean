import Mathlib.Data.List.Chain

universe u

namespace ChattingServer.Lib

variable {α : Type u}

structure Alternates (l : List α) (now : α → Prop) : Prop where
  chain : l.IsChain (· ≠ ·)
  last : ∀ a ∈ l.getLast?, now a

namespace Alternates

variable {l l' : List α} {a : α} {now now' : α → Prop}

theorem nil : Alternates [] now := ⟨List.isChain_nil, fun _ ha => by simp at ha⟩

theorem imp (h : Alternates l now) (hnow : ∀ a, now a → now' a) : Alternates l now' :=
  ⟨h.chain, fun a ha => hnow a (h.last a ha)⟩

theorem concat (h : Alternates l now) (hold : ¬ now a) (hnew : now' a) :
    Alternates (l ++ [a]) now' where
  chain := by
    refine List.isChain_append.mpr ⟨h.chain, List.isChain_singleton a, fun b hb c hc hbc => ?_⟩
    obtain rfl : a = c := by simpa using hc
    exact hold (hbc ▸ h.last b hb)
  last b hb := by
    obtain rfl : a = b := by simpa using hb
    exact hnew

theorem tail (h : Alternates (a :: l) now) : Alternates l now where
  chain := h.chain.tail
  last b hb := h.last b (List.mem_getLast?_cons hb)

theorem cons (h : Alternates l now) (hhead : l.head? ≠ some a) (hnil : l = [] → now a) :
    Alternates (a :: l) now where
  chain := List.isChain_cons.mpr ⟨fun b hb hab => hhead (hab ▸ hb), h.chain⟩
  last b hb := by
    cases l with
    | nil =>
      obtain rfl : a = b := by simpa using hb
      exact hnil rfl
    | cons c l => exact h.last b (by rwa [List.getLast?_cons_cons] at hb)

theorem isChain_left (h : Alternates (l ++ l') now) : l.IsChain (· ≠ ·) := h.chain.left_of_append

end Alternates

end ChattingServer.Lib
