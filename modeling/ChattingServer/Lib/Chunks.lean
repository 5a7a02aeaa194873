import Mathlib.Algebra.Group.Even

universe u

namespace ChattingServer.Lib

variable {α : Type u}

inductive Chunks (n : Nat) : List α → List (List α) → Prop
  | nil : Chunks n [] []
  | cons {l : List α} {cs : List (List α)} :
    l ≠ [] → Chunks n (l.drop n) cs → Chunks n l (l.take n :: cs)

namespace Chunks

variable {n : Nat} {l : List α} {cs : List (List α)}

theorem flatten (h : Chunks n l cs) : cs.flatten = l := by
  induction h with
  | nil => rfl
  | @cons l cs _ _ ih => rw [List.flatten_cons, ih, List.take_append_drop]

theorem ne_nil (h : Chunks n l cs) (hn : 0 < n) {c : List α} (hc : c ∈ cs) : c ≠ [] := by
  induction h with
  | nil => cases hc
  | @cons l cs hl _ ih =>
    rcases List.mem_cons.mp hc with rfl | hc
    · simpa [List.take_eq_nil_iff, Nat.pos_iff_ne_zero.mp hn] using hl
    · exact ih hc

theorem length_le (h : Chunks n l cs) {c : List α} (hc : c ∈ cs) : c.length ≤ n := by
  induction h with
  | nil => cases hc
  | @cons l cs _ _ ih =>
    rcases List.mem_cons.mp hc with rfl | hc
    · exact List.length_take_le ..
    · exact ih hc

theorem exists_head (h : Chunks n l cs) (hl : l ≠ []) :
    ∃ cs', cs = l.take n :: cs' ∧ Chunks n (l.drop n) cs' := by
  cases h with
  | nil => contradiction
  | cons _ h => exact ⟨_, rfl, h⟩

end Chunks

def dropPieces : Nat → List (List α) → List (List α)
  | 0, cs => cs
  | _ + 1, [] => []
  | n + 1, c :: cs =>
    if n + 1 < c.length then c.drop (n + 1) :: cs else dropPieces (n + 1 - c.length) cs

theorem flatten_dropPieces (n : Nat) (cs : List (List α)) :
    (dropPieces n cs).flatten = cs.flatten.drop n := by
  induction cs generalizing n with
  | nil => cases n <;> simp [dropPieces]
  | cons c cs ih =>
    cases n with
    | zero => rfl
    | succ n =>
      simp only [dropPieces]
      split
      · rename_i hlt
        rw [List.flatten_cons, List.flatten_cons, List.drop_append_of_le_length (Nat.le_of_lt hlt)]
      · rename_i hle
        rw [ih, List.flatten_cons, List.drop_append, List.drop_of_length_le (Nat.not_lt.mp hle),
          List.nil_append]

theorem dropPieces_length {c : List α} (h : c ≠ []) (cs : List (List α)) :
    dropPieces c.length (c :: cs) = cs := by
  obtain ⟨x, c, rfl⟩ := List.exists_cons_of_ne_nil h
  simp [dropPieces]

end ChattingServer.Lib
