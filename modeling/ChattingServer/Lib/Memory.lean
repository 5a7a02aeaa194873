import Mathlib.Data.List.Basic

universe u

namespace ChattingServer.Lib

abbrev Memory (α : Type u) := Nat → α

namespace Memory

variable {α : Type u}

def write (m : Memory α) (offset : Nat) (as : List α) : Memory α := fun i =>
  if i < offset then m i else as.getD (i - offset) (m i)

def read (m : Memory α) (offset n : Nat) : List α := (List.range n).map fun i => m (offset + i)

@[simp] theorem length_read (m : Memory α) (offset n : Nat) : (m.read offset n).length = n := by
  simp [read]

theorem read_eq_of_forall {m m' : Memory α} {offset n : Nat}
    (h : ∀ i, offset ≤ i → i < offset + n → m i = m' i) : m.read offset n = m'.read offset n := by
  refine List.map_congr_left fun i hi => h _ (Nat.le_add_right ..) ?_
  have := List.mem_range.mp hi
  omega

@[simp] theorem read_write_self (m : Memory α) (offset : Nat) (as : List α) :
    (m.write offset as).read offset as.length = as := by
  refine List.ext_getElem (length_read ..) fun i hi _ => ?_
  rw [length_read] at hi
  have hle : ¬ offset + i < offset := Nat.not_lt.mpr (Nat.le_add_right ..)
  simp only [read, write, List.getElem_map, List.getElem_range, if_neg hle, Nat.add_sub_cancel_left]
  rw [List.getD_eq_getElem?_getD, List.getElem?_eq_getElem hi, Option.getD_some]

theorem read_write_of_disjoint {m : Memory α} {offset n offset' : Nat} {as : List α}
    (h : offset + n ≤ offset' ∨ offset' + as.length ≤ offset) :
    (m.write offset' as).read offset n = m.read offset n := by
  refine read_eq_of_forall fun i hle hlt => ?_
  unfold write
  split
  · rfl
  · rw [List.getD_eq_getElem?_getD, List.getElem?_eq_none (by omega), Option.getD_none]

theorem read_add (m : Memory α) (offset n n' : Nat) :
    m.read offset (n + n') = m.read offset n ++ m.read (offset + n) n' := by
  simp [read, List.range_add, Nat.add_assoc]

theorem drop_read (m : Memory α) (offset n k : Nat) :
    (m.read offset n).drop k = m.read (offset + k) (n - k) := by
  rcases Nat.le_total k n with h | h
  · obtain ⟨n', rfl⟩ := Nat.exists_eq_add_of_le h
    rw [read_add, List.drop_left' (length_read ..), Nat.add_sub_cancel_left]
  · rw [List.drop_of_length_le (by rwa [length_read]), Nat.sub_eq_zero_of_le h]
    rfl

theorem take_read (m : Memory α) (offset n k : Nat) :
    (m.read offset n).take k = m.read offset (min k n) := by
  rw [read, ← List.map_take, List.take_range]
  rfl

end Memory

structure Access where
  size : Nat
  offset : Nat
  count : Nat
  deriving DecidableEq

namespace Access

def Inside (a : Access) : Prop := a.offset + a.count ≤ a.size

instance (a : Access) : Decidable a.Inside := inferInstanceAs (Decidable (_ ≤ _))

@[simp] theorem inside_mk (size offset count : Nat) :
    Inside ⟨size, offset, count⟩ ↔ offset + count ≤ size :=
  Iff.rfl

end Access

end ChattingServer.Lib
