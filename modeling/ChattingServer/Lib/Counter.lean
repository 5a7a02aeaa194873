import Mathlib.Data.List.Nodup
import Mathlib.Data.List.Range

universe u

namespace ChattingServer.Lib

structure Counter (κ : Type u) where
  value : Nat → κ
  bound : Nat
  bound_pos : 0 < bound
  injective : ∀ {i j : Nat}, i < bound → j < bound → value i = value j → i = j
  period : value bound = value 0

namespace Counter

variable {κ : Type u} (c : Counter κ) {n : Nat}

def values (n : Nat) : List κ := (List.range n).map fun k => c.value (k + 1)

theorem values_succ (n : Nat) : c.values (n + 1) = c.values n ++ [c.value (n + 1)] := by
  simp [values, List.range_succ]

theorem mem_values {k : κ} : k ∈ c.values n ↔ ∃ i < n, c.value (i + 1) = k := by
  simp [values]

theorem values_nodup (h : n < c.bound) : (c.values n).Nodup := by
  refine List.Nodup.map_on ?_ List.nodup_range
  intro i hi j hj heq
  rw [List.mem_range] at hi hj
  exact Nat.succ.inj (c.injective (by omega) (by omega) heq)

theorem value_not_mem_values (h : n + 1 < c.bound) : c.value (n + 1) ∉ c.values n := by
  intro hmem
  obtain ⟨i, hi, heq⟩ := c.mem_values.mp hmem
  have := c.injective (by omega) h heq
  omega

theorem zero_mem_values_iff : c.value 0 ∈ c.values n ↔ c.bound ≤ n := by
  rw [mem_values]
  constructor
  · rintro ⟨i, hi, heq⟩
    by_contra hlt
    have := c.injective (by omega) c.bound_pos heq
    contradiction
  · intro hle
    refine ⟨c.bound - 1, by have := c.bound_pos; omega, ?_⟩
    rw [Nat.sub_add_cancel c.bound_pos, c.period]

def uint16 : Counter UInt16 where
  value := UInt16.ofNat
  bound := 65536
  bound_pos := by decide
  injective {i j} hi hj h := by
    have := congrArg UInt16.toNat h
    rwa [UInt16.toNat_ofNat_of_lt' hi, UInt16.toNat_ofNat_of_lt' hj] at this
  period := rfl

theorem uint16_succ (n : Nat) : uint16.value n + 1 = uint16.value (n + 1) :=
  (UInt16.ofNat_add n 1).symm

def uint32 : Counter UInt32 where
  value := UInt32.ofNat
  bound := 4294967296
  bound_pos := by decide
  injective {i j} hi hj h := by
    have := congrArg UInt32.toNat h
    rwa [UInt32.toNat_ofNat_of_lt' hi, UInt32.toNat_ofNat_of_lt' hj] at this
  period := rfl

theorem uint32_succ (n : Nat) : uint32.value n + 1 = uint32.value (n + 1) :=
  (UInt32.ofNat_add n 1).symm

end Counter

end ChattingServer.Lib
